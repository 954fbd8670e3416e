import ProcFS.Data.Pagemap
import ProcFS.Lib.Pieces

/-!
# ProcFS.Data.PagemapReads — whether `pagemap` is one file

A reader comes to an offset of `/proc/<pid>/pagemap` with one read or with many, from any
offset. The file ends where the last region ends, but that is only looked at where a reply
begins: a reply of 256 entries that begins below the end goes on behind it. So there are up
to 255 entries that can be read or are past the end, depending on the reads before.

* `pagemapLoop_serves`: what the rest of a read has to return, and what it may.
* `PageTable.Serves.append`: two reads are like one.
* `pagemap_readsAlike_iff`: at which offsets all reads return the same.
-/

namespace ProcFS.Data

open Lib (stateAt pieceAt received)

/-! ## One read -/

section Read

variable {t : PageTable}

/-- What a read of `n` bytes at `off` does with an offset `x` on a page that exists: it
returns the byte if a region reaches above the page, and does not return one unless a region
reaches above the first page whose reply contains it. -/
structure PageTable.Serves (t : PageTable) (off n : ℕ) (bytes : List UInt8) : Prop where
  length_le : bytes.length ≤ n
  byte_of_reaches : ∀ x, x / 8 < t.pageCount → off ≤ x → x < off + n →
    t.reaches (x / 8) = true → bytes[x - off]? = t.byteOf x
  reaches_of_byte : ∀ x, x / 8 < t.pageCount → off ≤ x → x - off < bytes.length →
    t.reaches (x / 8 - 255) = true

theorem PageTable.byteOf_eq_some (t : PageTable) (x : ℕ) : ∃ b, t.byteOf x = some b := by
  have hlt : x % 8 < (Lib.leBytes 8 (t.entry (x / 8)).toNat).length := by
    rw [Lib.length_leBytes]
    exact Nat.mod_lt x (by decide)
  exact ⟨_, List.getElem?_eq_getElem hlt⟩

/-- A byte that has to be returned is returned. -/
theorem PageTable.Serves.lt_length {x off n : ℕ} {bytes : List UInt8}
    (h : t.Serves off n bytes) (hpage : x / 8 < t.pageCount) (hoff : off ≤ x) (hx : x < off + n)
    (hreach : t.reaches (x / 8) = true) : x - off < bytes.length := by
  obtain ⟨b, hb⟩ := t.byteOf_eq_some x
  rw [← h.byte_of_reaches x hpage hoff hx hreach] at hb
  exact (List.getElem?_eq_some_iff.mp hb).1

/-- Nothing is returned where no region reaches above the page. -/
theorem PageTable.Serves.nil {off n : ℕ}
    (h : n = 0 ∨ t.reaches (off / 8 % t.pageCount) = false) : t.Serves off n [] := by
  refine ⟨Nat.zero_le n, fun x hx hoff hlt hreach => ?_, fun x hx hoff hlt => by cases hlt⟩
  have hle : off / 8 ≤ x / 8 := Nat.div_le_div_right hoff
  rw [Nat.mod_eq_of_lt (by omega)] at h
  rcases h with rfl | hfalse
  · omega
  · rw [t.reaches_of_le hle hreach] at hfalse
    cases hfalse

/-- A reply, and what is returned behind it. -/
theorem PageTable.Serves.reply {off n : ℕ} {piece tail : List UInt8} (hle : piece.length ≤ n)
    (hreply : piece.length ≤ Ctl.procfsCtlMaxpayload - off % 8)
    (hreach : t.reaches (off / 8 % t.pageCount) = true)
    (hpiece : ∀ x, x / 8 < t.pageCount → off ≤ x → x - off < piece.length →
      piece[x - off]? = t.byteOf x)
    (htail : t.Serves (off + piece.length) (n - piece.length) tail) :
    t.Serves off n (piece ++ tail) := by
  have hmax : Ctl.procfsCtlMaxpayload = 2048 := rfl
  refine ⟨?_, fun x hx hoff hlt hreach' => ?_, fun x hx hoff hlt => ?_⟩
  · have hrest := htail.length_le
    rw [List.length_append]
    omega
  · by_cases hin : x - off < piece.length
    · rw [List.getElem?_append_left hin, hpiece x hx hoff hin]
    · rw [List.getElem?_append_right (by omega), Nat.sub_sub]
      exact htail.byte_of_reaches x hx (by omega) (by omega) hreach'
  · by_cases hin : x - off < piece.length
    · -- the reply begins at or before the page
      rw [Nat.mod_eq_of_lt (by omega)] at hreach
      exact t.reaches_of_le (by omega) hreach
    · rw [List.length_append] at hlt
      exact htail.reaches_of_byte x hx (by omega) (by omega)

/-- The rest of a read. -/
theorem pagemapLoop_serves {off n : ℕ} (hsum : off + n < 2 ^ 64) (any : Bool)
    (bytes : List UInt8) :
    ∃ tail, (pagemapLoop t.pageSize (procfsdHandlePagemap (some t)) any bytes
        ⟨Int64.ofNat off, n⟩).bytes = bytes ++ tail ∧
      (pagemapLoop t.pageSize (procfsdHandlePagemap (some t)) any bytes
        ⟨Int64.ofNat off, n⟩).uio.uioOffset = Int64.ofNat (off + tail.length) ∧
      t.Serves off n tail := by
  -- every reply moves at least one byte: the induction is on what is left to read
  induction n using Nat.strong_induction_on generalizing off any bytes with
  | _ n ih =>
    have hmax : Ctl.procfsCtlMaxpayload = 2048 := rfl
    by_cases hempty : n = 0 ∨ t.reaches (off / 8 % t.pageCount) = false
    · have hstop := pagemapLoop_empty (by omega) hempty any bytes
      exact ⟨[], by rw [hstop, List.append_nil], by rw [hstop]; rfl, .nil hempty⟩
    · rw [not_or, Bool.not_eq_false] at hempty
      obtain ⟨hn, hreach⟩ := hempty
      obtain ⟨m, hm⟩ : ∃ m, m = min (Ctl.procfsCtlMaxpayload - off % 8) n := ⟨_, rfl⟩
      obtain ⟨piece, rfl, hloop, hpiece⟩ :=
        pagemapLoop_piece (by omega) (Nat.pos_of_ne_zero hn) hreach any bytes hm
      obtain ⟨tail, hbytes, hoffset, hserves⟩ := @ih (n - piece.length) (by omega)
        (off + piece.length) (by omega) true (bytes ++ piece)
      refine ⟨piece ++ tail, by rw [hloop, hbytes, List.append_assoc], ?_,
        .reply (by omega) (by omega) hreach (fun x hx hoff hin => ?_) hserves⟩
      · rw [hloop, hoffset, List.length_append, Nat.add_assoc]
      · rw [hpiece (by omega) _ hin (by rw [Nat.add_sub_cancel' hoff]; exact hx),
          Nat.add_sub_cancel' hoff]

end Read

/-! ## Reads one after another -/

/-- Some reads: where the first begins, and how many bytes each of them asks for. -/
structure Reads where
  start : ℕ
  count : ℕ
  sizes : ℕ → ℕ

namespace Reads

/-- How much the first reads ask for. -/
def asked (rs : Reads) (k : ℕ) : ℕ := ((List.range k).map rs.sizes).sum

/-- The reads ask for the byte at the offset, and stay below the greatest offset. -/
structure Covers (rs : Reads) (x : ℕ) : Prop where
  start_le : rs.start ≤ x
  lt_stop : x < rs.start + rs.asked rs.count
  stop_lt : rs.start + rs.asked rs.count < 2 ^ 63

theorem asked_succ (rs : Reads) (k : ℕ) : rs.asked (k + 1) = rs.asked k + rs.sizes k := by
  rw [asked, asked, List.range_succ, List.map_append, List.sum_append, List.map_singleton,
    List.sum_singleton]

/-- One read: the bytes, and the offset that the next one begins at. -/
def call (read : Uio → ReadReply) (off : Int64) (n : ℕ) : List UInt8 × Int64 :=
  let r := read ⟨off, n⟩
  (r.bytes, r.uio.uioOffset)

/-- What the reads return. -/
def bytes (rs : Reads) (read : Uio → ReadReply) : List UInt8 :=
  received (call read) (Int64.ofNat rs.start) rs.sizes rs.count

/-- What the reads return for an offset: nothing if it is past the end. -/
def view (rs : Reads) (read : Uio → ReadReply) (x : ℕ) : Option UInt8 :=
  (rs.bytes read)[x - rs.start]?

end Reads

/-- The reads that ask for the byte at the offset return the same for it. -/
def ReadsAlike (read : Uio → ReadReply) (x : ℕ) : Prop :=
  ∀ rs rs' : Reads, rs.Covers x → rs'.Covers x → rs.view read x = rs'.view read x

section Sequence

variable {t : PageTable} {read : Uio → ReadReply}

/-- Every read serves the offsets. -/
def PageTable.ServedBy (t : PageTable) (read : Uio → ReadReply) : Prop :=
  ∀ off n, off + n < 2 ^ 63 → t.Serves off n (read ⟨Int64.ofNat off, n⟩).bytes ∧
    (read ⟨Int64.ofNat off, n⟩).uio.uioOffset =
      Int64.ofNat (off + (read ⟨Int64.ofNat off, n⟩).bytes.length)

theorem PageTable.serves_nil (t : PageTable) (off : ℕ) : t.Serves off 0 [] := by
  refine ⟨Nat.le_refl 0, fun x _ hle hlt => ?_, fun x _ _ hlt => ?_⟩
  · exact absurd hlt (Nat.not_lt.mpr hle)
  · cases hlt

/-- Two reads, the second where the first stopped, serve as one does. -/
theorem PageTable.Serves.append {off n m : ℕ} {got more : List UInt8} (h : t.Serves off n got)
    (hmore : t.Serves (off + got.length) m more) : t.Serves off (n + m) (got ++ more) := by
  have hle := h.length_le
  refine ⟨?_, ?_, ?_⟩
  · have hle' := hmore.length_le
    rw [List.length_append]
    omega
  · intro x hpage hoff hlt hreach
    by_cases hin : x - off < got.length
    · rw [List.getElem?_append_left hin]
      exact h.byte_of_reaches x hpage hoff (by omega) hreach
    · -- the first read was not short, since the region reaches above its last page too
      have hfull : got.length = n := by
        by_contra hne
        have hbelow : (off + got.length) / 8 ≤ x / 8 := Nat.div_le_div_right (by omega)
        have hshort := h.lt_length (x := off + got.length) (by omega) (by omega) (by omega)
          (t.reaches_of_le hbelow hreach)
        omega
      rw [List.getElem?_append_right (by omega), Nat.sub_sub]
      exact hmore.byte_of_reaches x hpage (by omega) (by omega) hreach
  · intro x hpage hoff hlt
    by_cases hin : x - off < got.length
    · exact h.reaches_of_byte x hpage hoff hin
    · rw [List.length_append] at hlt
      exact hmore.reaches_of_byte x hpage (by omega) (by omega)

/-- The first reads are like one read of what they ask for. -/
theorem PageTable.ServedBy.received_serves (h : t.ServedBy read) (rs : Reads) {k : ℕ}
    (hstop : rs.start + rs.asked k < 2 ^ 63) :
    t.Serves rs.start (rs.asked k)
        (received (Reads.call read) (Int64.ofNat rs.start) rs.sizes k) ∧
      stateAt (Reads.call read) (Int64.ofNat rs.start) rs.sizes k =
        Int64.ofNat (rs.start +
          (received (Reads.call read) (Int64.ofNat rs.start) rs.sizes k).length) := by
  induction k with
  | zero => exact ⟨t.serves_nil rs.start, rfl⟩
  | succ k ih =>
    rw [rs.asked_succ] at hstop
    obtain ⟨hserves, hstate⟩ := ih (by omega)
    have hle := hserves.length_le
    obtain ⟨hnext, hoffset⟩ := h _ (rs.sizes k) (show
      rs.start + (received (Reads.call read) (Int64.ofNat rs.start) rs.sizes k).length +
        rs.sizes k < 2 ^ 63 by omega)
    have hpiece : pieceAt (Reads.call read) (Int64.ofNat rs.start) rs.sizes k =
        (read ⟨Int64.ofNat (rs.start +
          (received (Reads.call read) (Int64.ofNat rs.start) rs.sizes k).length),
          rs.sizes k⟩).bytes := by
      rw [pieceAt, hstate]
      rfl
    rw [Lib.received_succ, hpiece, rs.asked_succ, List.length_append]
    refine ⟨hserves.append hnext, ?_⟩
    rw [stateAt, hstate, ← Nat.add_assoc]
    exact hoffset

/-- What can be said of an offset from any reads. -/
theorem PageTable.ServedBy.view_eq (h : t.ServedBy read) {rs : Reads} {x : ℕ} (hx : rs.Covers x)
    (hpage : x / 8 < t.pageCount) :
    (t.reaches (x / 8) = true → rs.view read x = t.byteOf x) ∧
      (t.reaches (x / 8 - 255) = false → rs.view read x = none) := by
  have hserves := (h.received_serves rs hx.stop_lt).1
  constructor
  · exact hserves.byte_of_reaches x hpage hx.start_le hx.lt_stop
  · intro hfalse
    rw [Reads.view, List.getElem?_eq_none_iff]
    by_contra hlt
    rw [hserves.reaches_of_byte x hpage hx.start_le (Nat.lt_of_not_le hlt)] at hfalse
    cases hfalse

def Reads.one (off n : ℕ) : Reads := ⟨off, 1, fun _ => n⟩

theorem Reads.one_view (off n x : ℕ) :
    (Reads.one off n).view read x = (read ⟨Int64.ofNat off, n⟩).bytes[x - off]? := by
  rw [Reads.view, Reads.bytes, Reads.one, Lib.received_succ]
  rfl

theorem Reads.one_covers {off n x : ℕ} (hoff : off ≤ x) (hx : x < off + n)
    (hstop : off + n < 2 ^ 63) : (Reads.one off n).Covers x := by
  have hasked : (Reads.one off n).asked (Reads.one off n).count = n := by
    rw [Reads.one, Reads.asked_succ]
    exact Nat.zero_add n
  exact ⟨hoff, by rw [hasked]; exact hx, by rw [hasked]; exact hstop⟩

end Sequence

/-! ## The node -/

section Node

variable {pt : ProcTable} {creds : Cred} {pnp : Pfsnode} {p : Proc}
  {taskForPid : Int32 → Option PageTable} {t : PageTable}

/-- A permitted read of the node. -/
def readPagemap (pt : ProcTable) (creds : Cred) (taskForPid : Int32 → Option PageTable)
    (pageSize : UInt64) (pnp : Pfsnode) (uio : Uio) : ReadReply :=
  procfsDopagemap pt creds true pageSize (fun pid => procfsdHandlePagemap (taskForPid pid))
    .UIO_READ pnp uio

theorem readPagemap_eq (hproc : pt.procFind pnp.nodeId.nodeidPid = some p)
    (haccess : procfsCheckCanAccessProcess creds p = none)
    (htask : taskForPid pnp.nodeId.nodeidPid = some t) :
    readPagemap pt creds taskForPid t.pageSize pnp =
      pagemapLoop t.pageSize (procfsdHandlePagemap (some t)) false [] :=
  funext fun uio => dopagemap_eq hproc haccess htask uio

theorem pagemapLoop_servedBy (t : PageTable) :
    t.ServedBy (pagemapLoop t.pageSize (procfsdHandlePagemap (some t)) false []) := by
  intro off n hsum
  obtain ⟨tail, hbytes, hoffset, hserves⟩ :=
    @pagemapLoop_serves t off n (by omega) false []
  rw [hbytes, hoffset]
  exact ⟨hserves, rfl⟩

/-- Behind the end a read of one byte returns nothing. -/
theorem pagemapLoop_view_none {x : ℕ} (hx : x < 2 ^ 50) (hpage : x / 8 < t.pageCount)
    (h : t.reaches (x / 8) = false) :
    (Reads.one x 1).view (pagemapLoop t.pageSize (procfsdHandlePagemap (some t)) false []) x =
      none := by
  rw [Reads.one_view, pagemapLoop_empty (by omega) (Or.inr (by rwa [Nat.mod_eq_of_lt hpage]))]
  rfl

/-- A read that begins 255 pages before it returns something. -/
theorem pagemapLoop_view_some {x : ℕ} (hx : x < 2 ^ 50) (hpage : x / 8 < t.pageCount)
    (h : t.reaches (x / 8 - 255) = true) :
    (Reads.one (8 * (x / 8 - 255)) (x + 1 - 8 * (x / 8 - 255))).view
      (pagemapLoop t.pageSize (procfsdHandlePagemap (some t)) false []) x ≠ none := by
  have hmax : Ctl.procfsCtlMaxpayload = 2048 := rfl
  obtain ⟨off, hoff⟩ : ∃ off, off = 8 * (x / 8 - 255) := ⟨_, rfl⟩
  have hfirst : off / 8 % t.pageCount = x / 8 - 255 := by
    rw [hoff, Nat.mul_div_cancel_left _ (by decide), Nat.mod_eq_of_lt (by omega)]
  rw [← hoff]
  -- the bytes that are asked for are in the first reply
  obtain ⟨piece, hlength, hloop, -⟩ := @pagemapLoop_piece t off (x + 1 - off) (by omega) (by omega)
    (by rw [hfirst]; exact h) false [] (x + 1 - off) (by omega)
  rw [Reads.one_view, hloop, Nat.sub_self, pagemapLoop_empty (by omega) (Or.inl rfl),
    List.nil_append, ne_eq, List.getElem?_eq_none_iff, hlength]
  omega

/-- The pages are small enough for the offsets below 2^50. -/
theorem PageTable.lt_pageCount (hsize : t.pageSize.toNat ≤ 2 ^ 17) {x : ℕ} (hx : x < 2 ^ 50) :
    x / 8 < t.pageCount := by
  have hle : 2 ^ 64 / 2 ^ 17 ≤ t.pageCount := Nat.div_le_div_left hsize t.pageSize_pos
  omega

/-- All reads of an offset agree if and only if it does not lie on one of the 255 pages
behind the end of the last region. -/
theorem pagemapLoop_readsAlike_iff (hsize : t.pageSize.toNat ≤ 2 ^ 17) {x : ℕ} (hx : x < 2 ^ 50) :
    ReadsAlike (pagemapLoop t.pageSize (procfsdHandlePagemap (some t)) false []) x ↔
      (t.reaches (x / 8 - 255) = true → t.reaches (x / 8) = true) := by
  have hpage := PageTable.lt_pageCount hsize hx
  have hserved := pagemapLoop_servedBy t
  constructor
  · intro halike hnear
    by_contra hend
    rw [Bool.not_eq_true] at hend
    refine pagemapLoop_view_some hx hpage hnear ?_
    rw [halike _ (Reads.one x 1) (Reads.one_covers (by omega) (by omega) (by omega))
      (Reads.one_covers (Nat.le_refl x) (by omega) (by omega))]
    exact pagemapLoop_view_none hx hpage hend
  · intro h rs rs' hrs hrs'
    obtain ⟨hbyte, hnone⟩ := hserved.view_eq hrs hpage
    obtain ⟨hbyte', hnone'⟩ := hserved.view_eq hrs' hpage
    cases hnear : t.reaches (x / 8 - 255) with
    | true => rw [hbyte (h hnear), hbyte' (h hnear)]
    | false => rw [hnone hnear, hnone' hnear]

theorem PageTable.reaches_zero_iff (t : PageTable) : t.reaches 0 = true ↔ t.vm.regions ≠ [] := by
  rw [PageTable.reaches, List.any_eq_true]
  constructor
  · rintro ⟨r, hr, -⟩
    exact List.ne_nil_of_mem hr
  · intro hne
    obtain ⟨r, rest, hregions⟩ := List.exists_cons_of_ne_nil hne
    have hr : r ∈ t.vm.regions := by rw [hregions]; exact List.mem_cons_self
    have hpos := t.vm.size_pos r hr
    refine ⟨r, hr, decide_eq_true ?_⟩
    unfold VmRegion.stop
    omega

/-- There is an end with pages behind it, unless there is no region or one reaches above
every page. -/
theorem PageTable.no_end_iff (t : PageTable) (last : ℕ) :
    (∀ page ≤ last, t.reaches (page - 255) = true → t.reaches page = true) ↔
      t.vm.regions = [] ∨ t.reaches last = true := by
  constructor
  · intro h
    by_cases hnil : t.vm.regions = []
    · exact Or.inl hnil
    · refine Or.inr ?_
      -- page by page from the bottom
      have hall : ∀ page ≤ last, t.reaches page = true := by
        intro page
        induction page with
        | zero => exact fun _ => t.reaches_zero_iff.mpr hnil
        | succ page ih =>
          exact fun hle => h (page + 1) hle (t.reaches_of_le (by omega) (ih (by omega)))
      exact hall last (Nat.le_refl last)
  · rintro (hnil | hlast) page hle hnear
    · exact absurd hnil (t.reaches_zero_iff.mp (t.reaches_of_le (Nat.zero_le _) hnear))
    · exact t.reaches_of_le hle hlast

/-- Permitted reads. What they return for an offset depends on the offset alone, if and only
if it does not lie on one of the 255 pages behind the end of the last region. It does so for
all offsets below 2^50 if and only if there is no region or one reaches above all of their
pages. -/
theorem pagemap_readsAlike_iff (hproc : pt.procFind pnp.nodeId.nodeidPid = some p)
    (haccess : procfsCheckCanAccessProcess creds p = none)
    (htask : taskForPid pnp.nodeId.nodeidPid = some t) (hsize : t.pageSize.toNat ≤ 2 ^ 17) :
    (∀ x < 2 ^ 50, ReadsAlike (readPagemap pt creds taskForPid t.pageSize pnp) x ↔
        (t.reaches (x / 8 - 255) = true → t.reaches (x / 8) = true)) ∧
      ((∀ x < 2 ^ 50, ReadsAlike (readPagemap pt creds taskForPid t.pageSize pnp) x) ↔
        t.vm.regions = [] ∨ t.reaches (2 ^ 47 - 1) = true) := by
  rw [readPagemap_eq hproc haccess htask]
  refine ⟨fun x hx => pagemapLoop_readsAlike_iff hsize hx, ?_⟩
  rw [← t.no_end_iff (2 ^ 47 - 1)]
  constructor
  · intro h page hle
    have hpage := (pagemapLoop_readsAlike_iff hsize (by omega)).mp (h (8 * page) (by omega))
    rwa [Nat.mul_div_cancel_left _ (by decide)] at hpage
  · intro h x hx
    exact (pagemapLoop_readsAlike_iff hsize hx).mpr (h (x / 8) (by omega))

end Node

def shReadPagemap : Uio → ReadReply :=
  readPagemap shWorld.procs ⟨501, 12⟩ (fun _ => some twoPages) twoPages.pageSize shFile

/-- The sixteenth page is one of the two: every read returns the same for its entry. -/
theorem pagemap_readsAlike_sixteenth :
    ReadsAlike shReadPagemap 128 :=
  ((@pagemap_readsAlike_iff shWorld.procs ⟨501, 12⟩ shFile shProc (fun _ => some twoPages) twoPages
    rfl (by decide) rfl (by decide)).1 128 (by decide)).mpr (by decide)

/-- The eighteenth page is the first behind the two: its entry is past the end for a read
that begins there, and zero for one that begins with the page before. -/
theorem pagemap_views_differ :
    (Reads.one 144 8).view shReadPagemap 144 = none ∧
      (Reads.one 136 16).view shReadPagemap 144 = some 0 ∧ ¬ ReadsAlike shReadPagemap 144 := by
  have hread : shReadPagemap =
      pagemapLoop twoPages.pageSize (procfsdHandlePagemap (some twoPages)) false [] :=
    readPagemap_eq (p := shProc) rfl (by decide) rfl
  have hnone : (Reads.one 144 8).view shReadPagemap 144 = none := by
    rw [hread, Reads.one_view, pagemapLoop_empty (by decide) (Or.inr (by decide))]
    rfl
  have hsome : (Reads.one 136 16).view shReadPagemap 144 = some 0 := by
    obtain ⟨piece, hlength, hloop, hbyte⟩ := @pagemapLoop_piece twoPages 136 16 (by decide)
      (by decide) (by decide) false [] 16 (by decide)
    rw [hread, Reads.one_view, hloop, pagemapLoop_empty (by decide) (Or.inl rfl)]
    exact (hbyte (by decide) 8 (by decide) (by decide)).trans (by decide)
  refine ⟨hnone, hsome, fun halike => ?_⟩
  have heq := halike (Reads.one 144 8) (Reads.one 136 16)
    (Reads.one_covers (by decide) (by decide) (by decide))
    (Reads.one_covers (by decide) (by decide) (by decide))
  rw [hnone, hsome] at heq
  cases heq

end ProcFS.Data
