import Mathlib.Tactic.NormNum
import ProcFS.Lib.Chunk
import ProcFS.Types

/-!
# ProcFS.CopyData — serving a buffer through `procfs_copy_data`

Every text node ends in `procfs_copy_data(data, data_len, uio)`: the buffer is
the whole file, the offset of the `uio` says where the caller stands in it.
The remaining length is computed by subtracting the 64-bit offset from a 32-bit
`int`, so it is the difference modulo 2^32.

* `procfsCopyData_eq`: one call, over the integers.
* `copyData_inBounds_iff`: at which offsets the copy stays inside the buffer.
* `copyData_pastEnd`: how a read past the end differs from one at the end.
* `readCalls_deliver`: a reader who starts at offset 0 and resumes where the last call ended is
  given the text, piece by piece and then nothing.
-/

namespace ProcFS

open Lib

/-! ## The copy -/

/-- The parts of a `uio_t` that matter here. -/
structure Uio where
  uioOffset : Int64
  uioResid : ℕ
deriving DecidableEq, Repr

/-- What a copy out of a buffer did: the error code, the positions of the
buffer that were read (in the order they were copied) and the `uio` after it. -/
structure CopyOut where
  error : Option Errno
  copied : List ℤ
  uio : Uio
deriving DecidableEq, Repr

/-- `uiomove(data + start, n, uio)` for `n >= 0`: copies `min(n, resid)` bytes
and advances the `uio` by as much. -/
def uiomove (start : ℤ) (n : ℕ) (uio : Uio) : CopyOut :=
  let k := min n uio.uioResid
  { error := none
    copied := (List.range k).map fun i : ℕ => start + (i : ℤ)
    uio := ⟨uio.uioOffset + Int64.ofNat k, uio.uioResid - k⟩ }

/-- `procfs_copy_data`; `isNull` tells whether the `data` argument is NULL. The
assignment `data_len -= start_offset` is made in 64 bits and truncated to `int`. -/
def procfsCopyData (isNull : Bool) (dataLen : Int32) (uio : Uio) : CopyOut :=
  let startOffset := uio.uioOffset
  let dataLen := (dataLen.toInt64 - startOffset).toInt32
  if 0 ≤ dataLen ∧ !isNull then uiomove startOffset.toInt dataLen.toNatClampNeg uio
  else if 0 ≤ dataLen ∧ isNull then ⟨some .EFAULT, [], uio⟩
  else if dataLen ≤ 0 ∧ !isNull then ⟨some Errno.EIO, [], uio⟩
  else ⟨some .ENOTSUP, [], uio⟩

/-- The byte of a buffer at a position; `none` lies outside the buffer. -/
def byteAt (data : CString) (p : ℤ) : Option UInt8 :=
  if 0 ≤ p then data[p.toNat]? else none

/-! ## The remaining length -/

/-- What `data_len -= start_offset` leaves in the `int`. -/
theorem remaining_toInt (dataLen : Int32) (off : Int64) :
    (dataLen.toInt64 - off).toInt32.toInt = (dataLen.toInt - off.toInt).bmod (2 ^ 32) := by
  rw [Int64.toInt_toInt32, Int64.toInt_sub, Int32.toInt_toInt64]
  exact Int.bmod_bmod_of_dvd (by norm_num)

/-- `procfs_copy_data` on a buffer of `len` bytes, over the integers. -/
theorem procfsCopyData_eq {len : ℕ} (hlen : len < 2 ^ 31) (uio : Uio) :
    procfsCopyData false (Int32.ofNat len) uio =
      if 0 ≤ ((len : ℤ) - uio.uioOffset.toInt).bmod (2 ^ 32) then
        uiomove uio.uioOffset.toInt (((len : ℤ) - uio.uioOffset.toInt).bmod (2 ^ 32)).toNat uio
      else ⟨some Errno.EIO, [], uio⟩ := by
  have hlen' : (Int32.ofNat len).toInt = (len : ℤ) := Int32.toInt_ofNat_of_lt hlen
  have hrem := remaining_toInt (Int32.ofNat len) uio.uioOffset
  rw [hlen'] at hrem
  simp only [procfsCopyData]
  generalize ((Int32.ofNat len).toInt64 - uio.uioOffset).toInt32 = r at hrem ⊢
  have hnat : r.toNatClampNeg = r.toInt.toNat := rfl
  have hle : 0 ≤ r ↔ 0 ≤ r.toInt := Int32.le_iff_toInt_le
  have hge : r ≤ 0 ↔ r.toInt ≤ 0 := Int32.le_iff_toInt_le
  rw [← hrem]
  by_cases h : 0 ≤ r.toInt
  · simp only [hle, h, hnat, Bool.not_false, and_true, if_true]
  · have h' : r.toInt ≤ 0 := by omega
    simp [hle, hge, h, h']

/-! ## Staying inside the buffer -/

/-- The copy reads only positions of a buffer of `len` bytes, and these are the
positions from the offset on. -/
def CopyOut.InBounds (len : ℕ) (off : ℤ) (r : CopyOut) : Prop :=
  (∀ p ∈ r.copied, 0 ≤ p ∧ p < len) ∧
    r.copied = (List.range r.copied.length).map fun i : ℕ => off + (i : ℤ)

/-- Whatever the remaining length, a copy starts at the offset and has no gaps. -/
theorem uiomove_copied (start : ℤ) (n : ℕ) (uio : Uio) :
    (uiomove start n uio).copied =
      (List.range (min n uio.uioResid)).map fun i : ℕ => start + (i : ℤ) := rfl

/-- A run of positions from `start` on lies in the buffer exactly when it is
empty or ends in it. -/
theorem forall_mem_range_map {start : ℤ} (hstart : 0 ≤ start) (k len : ℕ) :
    (∀ p ∈ (List.range k).map fun i : ℕ => start + (i : ℤ), 0 ≤ p ∧ p < len) ↔
      k = 0 ∨ start + k ≤ len := by
  constructor
  · intro h
    rcases Nat.eq_zero_or_pos k with hk | hk
    · exact Or.inl hk
    · have hlast := h (start + ((k - 1 : ℕ) : ℤ))
        (List.mem_map.mpr ⟨k - 1, List.mem_range.mpr (by omega), rfl⟩)
      right
      omega
  · intro h p hp
    obtain ⟨i, hi, rfl⟩ := List.mem_map.mp hp
    have hik := List.mem_range.mp hi
    omega

/-- The truncated difference of a length below 2^31 and an offset: exact up to
the end of the buffer, and past it non-positive on half of each 2^32 cycle. -/
theorem bmod_sub_cases {len : ℕ} (hlen : len < 2 ^ 31) {off : ℤ} (hoff : 0 ≤ off) :
    (off ≤ len ∧ ((len : ℤ) - off).bmod (2 ^ 32) = len - off) ∨
    (len < off ∧ (off - len) % 2 ^ 32 ≤ 2 ^ 31 ∧ ((len : ℤ) - off).bmod (2 ^ 32) ≤ 0) ∨
    (len < off ∧ 2 ^ 31 < (off - len) % 2 ^ 32 ∧ 0 < ((len : ℤ) - off).bmod (2 ^ 32)) := by
  have hb : ((len : ℤ) - off).bmod (2 ^ 32) =
      if ((len : ℤ) - off) % 2 ^ 32 < (2 ^ 32 + 1) / 2 then ((len : ℤ) - off) % 2 ^ 32
      else ((len : ℤ) - off) % 2 ^ 32 - 2 ^ 32 := by
    rw [Int.bmod_def]
    norm_num
  rw [hb]
  split <;> omega

/-- `procfs_copy_data` stays inside its buffer exactly when the offset is not
past the end, or nothing is asked for, or the distance past the end is at most
2^31 modulo 2^32. -/
theorem copyData_inBounds_iff {len : ℕ} (hlen : len < 2 ^ 31) (uio : Uio)
    (hoff : 0 ≤ uio.uioOffset.toInt) :
    (procfsCopyData false (Int32.ofNat len) uio).InBounds len uio.uioOffset.toInt ↔
      uio.uioOffset.toInt ≤ len ∨ uio.uioResid = 0 ∨
        (uio.uioOffset.toInt - len) % 2 ^ 32 ≤ 2 ^ 31 := by
  rw [procfsCopyData_eq hlen uio]
  have hcases := bmod_sub_cases hlen hoff
  generalize ((len : ℤ) - uio.uioOffset.toInt).bmod (2 ^ 32) = r at hcases
  split
  · rename_i hr
    have hgap : (uiomove uio.uioOffset.toInt r.toNat uio).copied =
        (List.range (uiomove uio.uioOffset.toInt r.toNat uio).copied.length).map
          fun i : ℕ => uio.uioOffset.toInt + (i : ℤ) := by
      rw [uiomove_copied, List.length_map, List.length_range]
    unfold CopyOut.InBounds
    rw [and_iff_left hgap, uiomove_copied, forall_mem_range_map hoff]
    omega
  · rename_i hr
    constructor
    · intro _
      omega
    · intro _
      exact ⟨by simp, by simp⟩

/-- At offset 2^32 a ten byte buffer is read four gigabytes past its end. -/
theorem copyData_outOfBounds :
    ¬ (procfsCopyData false (Int32.ofNat 10) ⟨4294967296, 4096⟩).InBounds 10 4294967296 := by
  intro h
  have h0 := h.1 4294967296 (by decide)
  exact absurd h0.2 (by decide)

theorem copyData_inBounds_at_end :
    (procfsCopyData false (Int32.ofNat 10) ⟨10, 4096⟩).InBounds 10 10 :=
  (copyData_inBounds_iff (by decide) ⟨10, 4096⟩ (by decide)).mpr (Or.inl (by decide))

/-! ## Past the end -/

/-- The truncated difference is negative past the end, on half of each 2^32 cycle. -/
theorem bmod_sub_neg {len : ℕ} {off : ℤ} (hpos : 0 < (off - len) % 2 ^ 32)
    (hle : (off - len) % 2 ^ 32 ≤ 2 ^ 31) : ((len : ℤ) - off).bmod (2 ^ 32) < 0 := by
  rw [Int.bmod_def]
  norm_num
  split <;> omega

/-- A read past the end is an error of its own: nothing is copied and the `uio` is left
alone, where a read at the end succeeds with no bytes. This leaves out the distances from the
end at which the truncated remaining length is not negative. -/
theorem copyData_pastEnd {len : ℕ} (hlen : len < 2 ^ 31) (uio : Uio)
    (hpos : 0 < (uio.uioOffset.toInt - len) % 2 ^ 32)
    (hle : (uio.uioOffset.toInt - len) % 2 ^ 32 ≤ 2 ^ 31) :
    procfsCopyData false (Int32.ofNat len) uio = ⟨some Errno.EIO, [], uio⟩ ∧
    procfsCopyData false (Int32.ofNat len) ⟨Int64.ofNat len, uio.uioResid⟩ =
      ⟨none, [], ⟨Int64.ofNat len, uio.uioResid⟩⟩ := by
  have hend : (Int64.ofNat len).toInt = (len : ℤ) := Int64.toInt_ofNat_of_lt (by omega)
  constructor
  · rw [procfsCopyData_eq hlen, if_neg (not_le.mpr (bmod_sub_neg hpos hle))]
  · rw [procfsCopyData_eq hlen, hend, sub_self]
    simp [uiomove]

/-- One byte past the end of a ten byte buffer a read fails. -/
theorem copyData_pastEnd_error :
    (procfsCopyData false (Int32.ofNat 10) ⟨11, 4096⟩).error ≠ none := by
  decide

theorem copyData_pastEnd_eleven :
    procfsCopyData false (Int32.ofNat 10) ⟨11, 4096⟩ = ⟨some Errno.EIO, [], ⟨11, 4096⟩⟩ :=
  (copyData_pastEnd (by decide) ⟨11, 4096⟩ (by decide) (by decide)).1

/-! ## Reading a text from start to end -/

/-- One read call of `n` bytes at offset `off` on a node that serves `text`. -/
def readCall (text : CString) (off : Int64) (n : ℕ) : CopyOut :=
  procfsCopyData false (Int32.ofNat text.length) ⟨off, n⟩

/-- A file descriptor being read: its offset and the bytes returned so far. -/
structure ReadState where
  offset : Int64
  returned : List (Option UInt8)

/-- The next read call resumes at the offset left by the one before. -/
def ReadState.next (text : CString) (st : ReadState) (n : ℕ) : ReadState where
  offset := (readCall text st.offset n).uio.uioOffset
  returned := st.returned ++ (readCall text st.offset n).copied.map (byteAt text)

/-- Read calls with the given buffer sizes, the first at offset 0. -/
def readCalls (text : CString) (sizes : List ℕ) : ReadState :=
  sizes.foldl (ReadState.next text) ⟨0, []⟩

/-- A read call inside the text is an error-free chunk of it. -/
theorem readCall_chunk {text : CString} (hlen : text.length < 2 ^ 31) {off : ℕ}
    (hoff : off ≤ text.length) (n : ℕ) :
    (readCall text (Int64.ofNat off) n).error = none ∧
    (readCall text (Int64.ofNat off) n).copied.map (byteAt text) =
      chunk (text.map some) off n ∧
    (readCall text (Int64.ofNat off) n).uio.uioOffset =
      Int64.ofNat (off + (chunk (text.map some) off n).length) := by
  have hoff' : (Int64.ofNat off).toInt = (off : ℤ) :=
    Int64.toInt_ofNat_of_lt (by omega)
  have hrem : ((text.length : ℤ) - off).bmod (2 ^ 32) = ((text.length - off : ℕ) : ℤ) := by
    rcases bmod_sub_cases hlen (Int.natCast_nonneg off) with h | h | h <;> omega
  have hcall : readCall text (Int64.ofNat off) n =
      uiomove off (text.length - off) ⟨Int64.ofNat off, n⟩ := by
    unfold readCall
    rw [procfsCopyData_eq hlen, hoff', hrem, if_pos (by omega), Int.toNat_natCast]
  rw [hcall]
  refine ⟨rfl, ?_, ?_⟩
  · rw [uiomove_copied]
    apply List.ext_getElem
    · simp [Nat.min_comm]
    · intro i hi hi'
      have hpos : (0 : ℤ) ≤ (off : ℤ) + i := by omega
      have hidx : ((off : ℤ) + i).toNat = off + i := by omega
      simp only [List.length_map, List.length_range] at hi
      simp [byteAt, chunk, hpos, hidx,
        List.getElem?_eq_getElem (show off + i < text.length by omega)]
  · rw [length_chunk, List.length_map, Nat.min_comm]
    exact (Int64.ofNat_add _ _).symm

/-- The state of the descriptor after some read calls, as a reader of the text. -/
theorem readCalls_synced {text : CString} (hlen : text.length < 2 ^ 31) (sizes : List ℕ) :
    ∃ r : Reader (Option UInt8), r.Synced (text.map some) ∧
      (readCalls text sizes).offset = Int64.ofNat r.off ∧
      (readCalls text sizes).returned = r.got := by
  induction sizes using List.reverseRecOn with
  | nil => exact ⟨⟨0, []⟩, Reader.synced_init _, rfl, rfl⟩
  | append_singleton sizes n ih =>
    obtain ⟨r, hr, hoff, hgot⟩ := ih
    have hle : r.off ≤ text.length := by simpa using hr.off_le
    obtain ⟨-, hcopied, hnext⟩ := readCall_chunk hlen hle n
    refine ⟨r.read (text.map some) n, hr.read n, ?_, ?_⟩
    · simp only [readCalls, List.foldl_append, List.foldl_cons, List.foldl_nil, ReadState.next]
      rw [show (sizes.foldl (ReadState.next text) ⟨0, []⟩).offset = _ from hoff, hnext]
      rfl
    · simp only [readCalls, List.foldl_append, List.foldl_cons, List.foldl_nil, ReadState.next]
      rw [show (sizes.foldl (ReadState.next text) ⟨0, []⟩).offset = _ from hoff,
        show (sizes.foldl (ReadState.next text) ⟨0, []⟩).returned = _ from hgot, hcopied]
      rfl

/-- Read calls from offset 0, each resuming where the last one stopped, return
a prefix of the text. The next call never fails, returns at least one byte
before the end of the text, and nothing once the whole text was returned. -/
theorem readCalls_deliver {text : CString} (hlen : text.length < 2 ^ 31) (sizes : List ℕ)
    {n : ℕ} (hn : 0 < n) :
    (readCalls text sizes).returned <+: text.map some ∧
    (readCall text (readCalls text sizes).offset n).error = none ∧
    ((readCalls text sizes).returned ≠ text.map some →
      (readCall text (readCalls text sizes).offset n).copied ≠ []) ∧
    ((readCalls text sizes).returned = text.map some →
      (readCall text (readCalls text sizes).offset n).copied = []) := by
  obtain ⟨r, hr, hoff, hgot⟩ := readCalls_synced hlen sizes
  have hle : r.off ≤ text.length := by simpa using hr.off_le
  obtain ⟨herr, hcopied, -⟩ := readCall_chunk hlen hle n
  rw [hoff, hgot]
  refine ⟨hr.got_prefix, herr, ?_, ?_⟩
  · intro hmore hnil
    have hend : r.off ≠ (text.map some).length := fun h => hmore (hr.got_eq_iff.mpr h)
    have hlt : r.off < (text.map some).length := lt_of_le_of_ne hr.off_le hend
    rw [hnil, List.map_nil] at hcopied
    exact chunk_ne_nil hlt hn hcopied.symm
  · intro hall
    have hend : chunk (text.map some) r.off n = [] := by
      rw [hr.got_eq_iff.mp hall, chunk_length_self]
    rw [hend] at hcopied
    exact List.map_eq_nil_iff.mp hcopied

/-- Three reads of four bytes return a six byte text and then nothing. -/
theorem readCalls_deliver_six :
    (readCall (cstr "kernel") (readCalls (cstr "kernel") [4, 4]).offset 4).error = none ∧
    (readCall (cstr "kernel") (readCalls (cstr "kernel") [4, 4]).offset 4).copied = [] := by
  have hlen : (cstr "kernel").length < 2 ^ 31 := by decide
  have h := readCalls_deliver hlen [4, 4] (show 0 < 4 by decide)
  exact ⟨h.2.1, h.2.2.2 (by decide)⟩

end ProcFS
