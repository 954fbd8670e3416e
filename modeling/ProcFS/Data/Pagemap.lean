import ProcFS.Data.Memory
import ProcFS.Data.Regions
import ProcFS.Lib.Bytes

/-!
# ProcFS.Data.Pagemap — one entry for each virtual page

`/proc/<pid>/pagemap` has an entry of 8 bytes for each page: the file offset says which
page is meant. The kernel extension multiplies the number of the page by the page size and
asks the daemon, which answers with 256 entries, or with nothing if no region reaches
above the address. The product is computed modulo 2^64, so the numbers that are too large
for a page mean the pages at the bottom of the address space, and so do the last entries
of an answer that begins right below the top.

* `handlePagemap_entries`: the entries of one reply.
* `pagemapLoop_right_iff`: when the rest of a read is right.
* `pagemap_right_iff`: when a permitted read is.
-/

namespace ProcFS.Data

open Ctl (Result procfsCtlMaxpayload)
open Lib (leBytes)
open Transfer (enomem enotsup eperm)

/-! ## The pages of a task -/

/-- The bits of a disposition that the daemon looks at. -/
structure Disposition where
  present : Bool
  pagedOut : Bool
  external : Bool
  dirty : Bool
deriving DecidableEq, Repr

/-- The regions of a task, which are made of pages, and what is known of each page. There is
no disposition if the query fails. -/
structure PageTable where
  vm : VmMap
  pageSize : UInt64
  pow_two : ∃ k, pageSize.toNat = 2 ^ k
  aligned : ∀ r ∈ vm.regions, pageSize.toNat ∣ r.address.toNat ∧ pageSize.toNat ∣ r.stop
  disposition : ℕ → Option Disposition

namespace PageTable

variable (t : PageTable)

def pageCount : ℕ := 2 ^ 64 / t.pageSize.toNat

def mapped (page : ℕ) : Bool :=
  t.vm.regions.any fun r =>
    r.address.toNat < (page + 1) * t.pageSize.toNat && page * t.pageSize.toNat < r.stop

/-- A region reaches above the beginning of the page. -/
def reaches (page : ℕ) : Bool := t.vm.regions.any fun r => page * t.pageSize.toNat < r.stop

end PageTable

/-- `mach_vm_page_query`: the disposition of the page that contains the address, none if
there is no such page. -/
def machVmPageQuery (t : PageTable) (va : UInt64) : Option Disposition :=
  let page := va.toNat / t.pageSize.toNat
  if t.mapped page then t.disposition page else none

/-! ## The daemon -/

def pagemapEntry (disp : Option Disposition) : UInt64 :=
  match disp with
  | none => 0
  | some d =>
    (if d.present then (1 : UInt64) <<< 63 else 0) |||
      (if d.pagedOut then (1 : UInt64) <<< 62 else 0) |||
      (if d.external then (1 : UInt64) <<< 61 else 0) |||
      (if d.dirty then (1 : UInt64) <<< 55 else 0)

/-- `nent`. -/
def pagemapEntries : ℕ := procfsCtlMaxpayload / 8

/-- `procfsd_handle_pagemap`; `task` is what `task_for_pid` gave. -/
def procfsdHandlePagemap (task : Option PageTable) (start : UInt64) : Result :=
  match task with
  | none => .error eperm
  | some t =>
    match machVmRegion t.vm start with
    | none => .ok []
    | some r =>
      .ok ((List.range pagemapEntries).flatMap fun i =>
        let va := start + UInt64.ofNat i * t.pageSize
        -- the hole below the region is not asked for
        let e := if r.address ≤ va then pagemapEntry (machVmPageQuery t va) else 0
        leBytes 8 e.toNat)

/-! ## The kernel extension -/

/-- The loop of `procfs_dopagemap`. The flag is `any`. -/
def pagemapLoop (pageSize : UInt64) (request : UInt64 → Result) (any : Bool) (bytes : List UInt8)
    (uio : Uio) : ReadReply :=
  if 0 < uio.uioResid then
    let off := uio.uioOffset.toUInt64
    let startVa := off / 8 * pageSize
    let byteIn := (off % 8).toNat
    match request startVa with
    | .error rc =>
      let error := if rc = Ctl.enotconn ∨ rc = Ctl.etimedout then enotsup else rc
      ⟨if any then 0 else error, bytes, uio⟩
    | .ok got =>
      if got.length ≤ byteIn then ⟨0, bytes, uio⟩
      else
        let move := min (got.length - byteIn) uio.uioResid
        let moved := uiomove byteIn move uio
        match moved.error with
        | some e => ⟨e.code, bytes, uio⟩
        | none =>
          pagemapLoop pageSize request true (bytes ++ moved.copied.filterMap (byteAt got)) moved.uio
  else ⟨0, bytes, uio⟩
termination_by uio.uioResid
decreasing_by
  simp +zetaDelta only [uiomove] at *
  omega

/-- `procfs_dopagemap`: `malloc` tells whether its buffer was allocated, `request` is
`procfs_ctl_request` of type `PROCFS_REQ_PAGEMAP`. -/
def procfsDopagemap (pt : ProcTable) (creds : Cred) (malloc : Bool) (pageSize : UInt64)
    (request : Int32 → UInt64 → Result) (rw : UioRw) (pnp : Pfsnode) (uio : Uio) : ReadReply :=
  if rw ≠ .UIO_READ then ⟨eopnotsupp, [], uio⟩
  else
    match pt.procFind pnp.nodeId.nodeidPid with
    | none => ⟨Errno.ESRCH.code, [], uio⟩
    | some p =>
      match procfsCheckCanAccessProcess creds p with
      | some e => ⟨e.code, [], uio⟩
      | none =>
        if malloc then pagemapLoop pageSize (request pnp.nodeId.nodeidPid) false [] uio
        else ⟨enomem, [], uio⟩

/-! ## What the file should hold -/

namespace PageTable

variable (t : PageTable)

/-- The entry that describes a page: zero for a page outside every region. -/
def entry (page : ℕ) : UInt64 := if t.mapped page then pagemapEntry (t.disposition page) else 0

/-- The byte of the file at an offset: a byte of the entry of its page. -/
def byteOf (off : ℕ) : Option UInt8 := (leBytes 8 (t.entry (off / 8)).toNat)[off % 8]?

/-- Bytes that are returned for the offsets from `off` on: each of them is the byte of the
entry of its page, and there is such a page. -/
def RightFrom (off : ℕ) (bytes : List UInt8) : Prop :=
  ∀ i b, bytes[i]? = some b →
    (off + i) / 8 < t.pageCount ∧ t.byteOf (off + i) = some b

theorem pageSize_pos : 0 < t.pageSize.toNat := by
  rcases t.pow_two with ⟨k, hk⟩
  rw [hk]
  exact Nat.two_pow_pos k

theorem pageCount_mul : t.pageCount * t.pageSize.toNat = 2 ^ 64 := by
  rcases t.pow_two with ⟨k, hk⟩
  have hlt := t.pageSize.toNat_lt
  rw [hk] at hlt
  have hle : k ≤ 64 := Nat.le_of_lt ((Nat.pow_lt_pow_iff_right (by decide)).mp hlt)
  rw [pageCount, hk]
  exact Nat.div_mul_cancel (Nat.pow_dvd_pow 2 hle)

/-- What is above a page is above the pages before it. -/
theorem reaches_of_le {page page' : ℕ} (hle : page ≤ page') (h : t.reaches page' = true) :
    t.reaches page = true := by
  rw [reaches, List.any_eq_true] at h ⊢
  obtain ⟨r, hr, hlt⟩ := h
  refine ⟨r, hr, ?_⟩
  have hmul := Nat.mul_le_mul_right t.pageSize.toNat hle
  rw [decide_eq_true_eq] at hlt ⊢
  omega

theorem rightFrom_nil (off : ℕ) : t.RightFrom off [] := by
  intro i b h
  cases h

theorem rightFrom_append {off : ℕ} {bytes more : List UInt8} :
    t.RightFrom off (bytes ++ more) ↔
      t.RightFrom off bytes ∧ t.RightFrom (off + bytes.length) more := by
  constructor
  · intro h
    refine ⟨fun i b hb => ?_, fun i b hb => ?_⟩
    · exact h i b (by rw [List.getElem?_append_left (List.getElem?_eq_some_iff.mp hb).1]; exact hb)
    · have hbyte : (bytes ++ more)[bytes.length + i]? = some b := by
        rw [List.getElem?_append_right (Nat.le_add_right _ _), Nat.add_sub_cancel_left, hb]
      have hmore := h (bytes.length + i) b hbyte
      rwa [← Nat.add_assoc] at hmore
  · rintro ⟨hbytes, hmore⟩ i b hb
    by_cases hi : i < bytes.length
    · rw [List.getElem?_append_left hi] at hb
      exact hbytes i b hb
    · rw [List.getElem?_append_right (by omega)] at hb
      have hright := hmore (i - bytes.length) b hb
      rwa [Nat.add_assoc, Nat.add_sub_cancel' (by omega)] at hright

/-- There is no byte for a page that does not exist. -/
theorem not_rightFrom_of_le {off : ℕ} {bytes : List UInt8} (hoff : 8 * t.pageCount ≤ off)
    (hne : bytes ≠ []) : ¬ t.RightFrom off bytes := by
  intro h
  obtain ⟨b, rest, rfl⟩ := List.exists_cons_of_ne_nil hne
  have hpage := (h 0 b rfl).1
  omega

end PageTable

/-! ## One reply of the daemon -/

section Reply

variable {t : PageTable} {start : UInt64} {page : ℕ}

/-- Nothing reaches above the page: the reply is empty. -/
theorem handlePagemap_empty (hstart : start.toNat = page * t.pageSize.toNat)
    (h : t.reaches page = false) : procfsdHandlePagemap (some t) start = .ok [] := by
  have hnone : machVmRegion t.vm start = none := by
    rw [machVmRegion, List.find?_eq_none, hstart]
    exact fun r hr => by simpa using (List.any_eq_false.mp h) r hr
  simp only [procfsdHandlePagemap, hnone]

/-- A mapped page does not lie below the first region that reaches above a page before
it. -/
theorem address_le_of_mapped {r : VmRegion} (hr : machVmRegion t.vm start = some r) {i : ℕ}
    (hstart : start.toNat = page * t.pageSize.toNat) (h : t.mapped (page + i) = true) :
    r.address.toNat ≤ (page + i) * t.pageSize.toNat := by
  rw [PageTable.mapped, List.any_eq_true] at h
  obtain ⟨q, hq, hin⟩ := h
  rw [Bool.and_eq_true, decide_eq_true_eq, decide_eq_true_eq] at hin
  have hbelow : page * t.pageSize.toNat ≤ (page + i) * t.pageSize.toNat :=
    Nat.mul_le_mul_right _ (Nat.le_add_right page i)
  -- a region made of pages begins with a page
  have hqstart : q.address.toNat ≤ (page + i) * t.pageSize.toNat := by
    obtain ⟨k, hk⟩ := (t.aligned q hq).1
    rw [hk, Nat.mul_comm] at hin ⊢
    exact Nat.mul_le_mul_right _ (Nat.le_of_lt_succ (Nat.lt_of_mul_lt_mul_right hin.1))
  obtain ⟨-, before, after, hregions, hskip⟩ := List.find?_eq_some_iff_append.mp hr
  rw [hregions] at hq
  rcases List.mem_append.mp hq with hq | hq
  · have hnot := hskip q hq
    rw [hstart] at hnot
    simp only [Bool.not_eq_true', decide_eq_false_iff_not] at hnot
    omega
  · rcases List.mem_cons.mp hq with rfl | hq
    · exact hqstart
    · have hascending := t.vm.ascending
      rw [hregions, List.pairwise_append] at hascending
      have hle := (List.pairwise_cons.mp hascending.2.1).1 q hq
      unfold VmRegion.stop at hle
      omega

/-- What the daemon computes for a page that exists is its entry. -/
theorem reply_entry {r : VmRegion} (hr : machVmRegion t.vm start = some r) {i : ℕ}
    (hstart : start.toNat = page * t.pageSize.toNat) (hpage : page + i < t.pageCount) :
    (if r.address ≤ start + UInt64.ofNat i * t.pageSize then
      pagemapEntry (machVmPageQuery t (start + UInt64.ofNat i * t.pageSize)) else 0) =
      t.entry (page + i) := by
  have hva : (start + UInt64.ofNat i * t.pageSize).toNat = (page + i) * t.pageSize.toNat := by
    have hlt : (page + i) * t.pageSize.toNat < 2 ^ 64 := by
      rw [← t.pageCount_mul]
      exact Nat.mul_lt_mul_of_pos_right hpage t.pageSize_pos
    have hi : i ≤ (page + i) * t.pageSize.toNat :=
      Nat.le_trans (Nat.le_add_left i page) (Nat.le_mul_of_pos_right _ t.pageSize_pos)
    rw [Nat.add_mul] at hlt hi ⊢
    rw [UInt64.toNat_add, UInt64.toNat_mul, UInt64.toNat_ofNat', hstart,
      Nat.mod_eq_of_lt (show i < 2 ^ 64 by omega), Nat.mod_eq_of_lt (show i * _ < 2 ^ 64 by omega),
      Nat.mod_eq_of_lt (by omega)]
  have hnumber : (page + i) * t.pageSize.toNat / t.pageSize.toNat = page + i :=
    Nat.mul_div_cancel _ t.pageSize_pos
  simp only [UInt64.le_iff_toNat_le, machVmPageQuery, hva, hnumber, PageTable.entry]
  cases hmapped : t.mapped (page + i) with
  | true => rw [if_pos (address_le_of_mapped hr hstart hmapped)]; rfl
  | false => split <;> rfl

/-- Otherwise it has 256 entries; those of pages that exist are right. -/
theorem handlePagemap_entries (hstart : start.toNat = page * t.pageSize.toNat)
    (h : t.reaches page = true) :
    ∃ got, procfsdHandlePagemap (some t) start = .ok got ∧ got.length = procfsCtlMaxpayload ∧
      ∀ x, x < procfsCtlMaxpayload → page + x / 8 < t.pageCount →
        got[x]? = (leBytes 8 (t.entry (page + x / 8)).toNat)[x % 8]? := by
  have hmax : procfsCtlMaxpayload = 2048 := rfl
  have hent : pagemapEntries = 256 := rfl
  have hsome : (machVmRegion t.vm start).isSome = true := by
    rw [machVmRegion, List.find?_isSome, hstart]
    exact List.any_eq_true.mp h
  obtain ⟨r, hr⟩ := Option.isSome_iff_exists.mp hsome
  simp only [procfsdHandlePagemap, hr]
  refine ⟨_, rfl, ?_, fun x hx hpage => ?_⟩
  · rw [Lib.length_flatMap_of_length (w := 8) (fun i => Lib.length_leBytes 8 _), List.length_range,
      hent, hmax]
  · rw [Lib.getElem?_flatMap (w := 8) (fun i => Lib.length_leBytes 8 _) (by decide),
      List.getElem?_range (show x / 8 < pagemapEntries by omega), Option.bind_some,
      reply_entry hr hstart hpage]

end Reply

/-! ## The whole read -/

section Read

variable {t : PageTable}

/-- The address that the offset comes to is that of a page. -/
theorem PageTable.toNat_startVa (t : PageTable) {off : ℕ} (hoff : off < 2 ^ 64) :
    (UInt64.ofNat off / 8 * t.pageSize).toNat = off / 8 % t.pageCount * t.pageSize.toNat := by
  have height : (8 : UInt64).toNat = 8 := rfl
  rw [UInt64.toNat_mul, UInt64.toNat_div, UInt64.toNat_ofNat', Nat.mod_eq_of_lt hoff, height,
    ← t.pageCount_mul, Nat.mul_mod_mul_right]

/-- A read ends where the reply is empty. -/
theorem pagemapLoop_empty {off n : ℕ} (hoff : off < 2 ^ 64)
    (h : n = 0 ∨ t.reaches (off / 8 % t.pageCount) = false) (any : Bool) (bytes : List UInt8) :
    pagemapLoop t.pageSize (procfsdHandlePagemap (some t)) any bytes ⟨Int64.ofNat off, n⟩ =
      ⟨0, bytes, ⟨Int64.ofNat off, n⟩⟩ := by
  rw [pagemapLoop]
  by_cases hn : 0 < n
  · have hreply := handlePagemap_empty (t.toNat_startVa hoff) (h.resolve_left (by omega))
    have hoffset : (Int64.ofNat off).toUInt64 = UInt64.ofNat off := rfl
    simp only [if_pos hn, hoffset, hreply, List.length_nil, Nat.zero_le, if_true]
  · simp only [if_neg hn]

/-- Otherwise it goes on behind the bytes of one reply. -/
theorem pagemapLoop_piece {off n : ℕ} (hoff : off < 2 ^ 64) (hn : 0 < n)
    (h : t.reaches (off / 8 % t.pageCount) = true) (any : Bool) (bytes : List UInt8) {m : ℕ}
    (hm : m = min (procfsCtlMaxpayload - off % 8) n) :
    ∃ piece : List UInt8, piece.length = m ∧
      pagemapLoop t.pageSize (procfsdHandlePagemap (some t)) any bytes ⟨Int64.ofNat off, n⟩ =
        pagemapLoop t.pageSize (procfsdHandlePagemap (some t)) true (bytes ++ piece)
          ⟨Int64.ofNat (off + m), n - m⟩ ∧
      (off / 8 < t.pageCount → ∀ i, i < m → (off + i) / 8 < t.pageCount →
        piece[i]? = t.byteOf (off + i)) := by
  have hmax : procfsCtlMaxpayload = 2048 := rfl
  obtain ⟨got, hreply, hlength, hright⟩ := handlePagemap_entries (t.toNat_startVa hoff) h
  have hbyteIn : (UInt64.ofNat off % 8).toNat = off % 8 := by
    have height : (8 : UInt64).toNat = 8 := rfl
    rw [UInt64.toNat_mod, UInt64.toNat_ofNat', Nat.mod_eq_of_lt hoff, height]
  have hpiece : ((got.drop (off % 8)).take m).length = m := by
    rw [List.length_take, List.length_drop]
    omega
  refine ⟨(got.drop (off % 8)).take m, hpiece, ?_, fun hpage i hi hpage' => ?_⟩
  · have hmoved := @uiomove_bytes_from got (off % 8) m ⟨Int64.ofNat off, n⟩ (by omega)
      (show m ≤ n by omega)
    have huio : (uiomove (off % 8 : ℕ) m ⟨Int64.ofNat off, n⟩).uio =
        ⟨Int64.ofNat (off + m), n - m⟩ := by
      simp only [uiomove, Nat.min_eq_left (show m ≤ n by omega), Int64.ofNat_add]
    have hoffset : (Int64.ofNat off).toUInt64 = UInt64.ofNat off := rfl
    rw [pagemapLoop]
    simp only [if_pos hn, hoffset, hreply, hbyteIn, hlength,
      if_neg (show ¬ procfsCtlMaxpayload ≤ off % 8 by omega), ← hm, hmoved, huio]
    rfl
  · rw [List.getElem?_take_of_lt hi, List.getElem?_drop, hright _ (by omega)
      (by rw [Nat.mod_eq_of_lt hpage]; omega), Nat.mod_eq_of_lt hpage,
      show off / 8 + (off % 8 + i) / 8 = (off + i) / 8 by omega,
      show (off % 8 + i) % 8 = (off + i) % 8 by omega]
    rfl

/-- The bytes of one reply are right if and only if all of them belong to pages. -/
theorem PageTable.rightFrom_piece {off m : ℕ} {piece : List UInt8} (hlength : piece.length = m)
    (hpos : 0 < m)
    (h : ∀ i, i < m → (off + i) / 8 < t.pageCount → piece[i]? = t.byteOf (off + i)) :
    t.RightFrom off piece ↔ off + m ≤ 8 * t.pageCount := by
  constructor
  · -- the last byte belongs to a page
    intro hall
    have hlast : m - 1 < piece.length := by omega
    have hpage := (hall (m - 1) _ (List.getElem?_eq_getElem hlast)).1
    omega
  · intro hle i b hb
    have hi := (List.getElem?_eq_some_iff.mp hb).1
    rw [h i (by omega) (by omega)] at hb
    exact ⟨by omega, hb⟩

/-- The page that the last reply begins with, of those that begin below the top. -/
def PageTable.lastStart (t : PageTable) (off : ℕ) : ℕ :=
  off / 8 + 256 * ((t.pageCount - 1 - off / 8) / 256)

/-- The read does not come to a page that does not exist: it ends before, or the replies
end before it does. -/
def PageTable.InRange (t : PageTable) (off n : ℕ) : Prop :=
  if off / 8 < t.pageCount then off + n ≤ 8 * t.pageCount ∨ t.reaches (t.lastStart off) = false
  else n = 0 ∨ t.reaches (off / 8 % t.pageCount) = false

/-- A read that ends at once is in range. -/
theorem PageTable.inRange_of_empty {off n : ℕ}
    (h : n = 0 ∨ t.reaches (off / 8 % t.pageCount) = false) : t.InRange off n := by
  unfold PageTable.InRange
  split
  · rename_i hpage
    rcases h with rfl | h
    · exact Or.inl (by omega)
    · rw [Nat.mod_eq_of_lt hpage] at h
      refine Or.inr (Bool.eq_false_iff.mpr fun hreach => ?_)
      rw [t.reaches_of_le (Nat.le_add_right _ _) hreach] at h
      cases h
  · exact h

/-- What one reply means for the range of a read. -/
theorem PageTable.inRange_step {off n m : ℕ} (hpage : off / 8 < t.pageCount) (hn : 0 < n)
    (h : t.reaches (off / 8) = true) (hm : m = min (procfsCtlMaxpayload - off % 8) n) :
    off + m ≤ 8 * t.pageCount ∧ t.InRange (off + m) (n - m) ↔ t.InRange off n := by
  have hmax : procfsCtlMaxpayload = 2048 := rfl
  have hlast : t.pageCount ≤ off / 8 + 256 → t.lastStart off = off / 8 := by
    intro hle
    unfold PageTable.lastStart
    omega
  by_cases hmore : m = n
  · -- the last reply of the read
    have hrest : t.InRange (off + m) (n - m) :=
      PageTable.inRange_of_empty (Or.inl (by omega))
    rw [and_iff_left hrest, PageTable.InRange, if_pos hpage, hmore]
    constructor
    · exact Or.inl
    · rintro (hle | hnone)
      · exact hle
      · by_contra hlt
        rw [hlast (by omega), h] at hnone
        cases hnone
  · have hnext : (off + m) / 8 = off / 8 + 256 := by omega
    unfold PageTable.InRange
    rw [if_pos hpage, hnext]
    by_cases hbelow : off / 8 + 256 < t.pageCount
    · have hsame : t.lastStart (off + m) = t.lastStart off := by
        unfold PageTable.lastStart
        rw [hnext]
        omega
      rw [if_pos hbelow, hsame, show off + m + (n - m) = off + n by omega]
      exact and_iff_right (by omega)
    · -- the next reply begins at the bottom of the address space, where something reaches
      rw [if_neg hbelow, hlast (by omega), h]
      constructor
      · rintro ⟨hle, hempty⟩
        have htop : off / 8 + 256 = t.pageCount := by omega
        rw [htop, Nat.mod_self, t.reaches_of_le (Nat.zero_le _) h] at hempty
        rcases hempty with hzero | hfalse
        · omega
        · cases hfalse
      · rintro (hle | hfalse)
        · omega
        · cases hfalse

/-- The bytes that the rest of a read returns are right if and only if it is in range. -/
theorem pagemapLoop_right_iff {off n : ℕ} (hsum : off + n < 2 ^ 64) (any : Bool)
    (bytes : List UInt8) :
    ∃ tail, (pagemapLoop t.pageSize (procfsdHandlePagemap (some t)) any bytes
        ⟨Int64.ofNat off, n⟩).bytes = bytes ++ tail ∧
      (t.RightFrom off tail ↔ t.InRange off n) := by
  -- every reply moves at least one byte: the induction is on what is left to read
  induction n using Nat.strong_induction_on generalizing off any bytes with
  | _ n ih =>
    have hmax : procfsCtlMaxpayload = 2048 := rfl
    by_cases hempty : n = 0 ∨ t.reaches (off / 8 % t.pageCount) = false
    · refine ⟨[], ?_, iff_of_true (t.rightFrom_nil off) (PageTable.inRange_of_empty hempty)⟩
      rw [pagemapLoop_empty (by omega) hempty, List.append_nil]
    · rw [not_or, Bool.not_eq_false] at hempty
      obtain ⟨hn, hreach⟩ := hempty
      have hpos : 0 < n := Nat.pos_of_ne_zero hn
      obtain ⟨m, hm⟩ : ∃ m, m = min (procfsCtlMaxpayload - off % 8) n := ⟨_, rfl⟩
      obtain ⟨piece, hlength, hloop, hpiece⟩ :=
        pagemapLoop_piece (by omega) hpos hreach any bytes hm
      obtain ⟨tail, htail, hright⟩ := @ih (n - m) (by omega) (off + m) (by omega) true
        (bytes ++ piece)
      refine ⟨piece ++ tail, by rw [hloop, htail, List.append_assoc], ?_⟩
      by_cases hpage : off / 8 < t.pageCount
      · rw [Nat.mod_eq_of_lt hpage] at hreach
        rw [t.rightFrom_append, hlength,
          PageTable.rightFrom_piece hlength (by omega) (hpiece hpage), hright,
          PageTable.inRange_step hpage hpos hreach hm]
      · have hne : piece ++ tail ≠ [] := by
          rw [← List.length_pos_iff, List.length_append]
          omega
        refine iff_of_false (t.not_rightFrom_of_le (by omega) hne) ?_
        rw [PageTable.InRange, if_neg hpage, hreach]
        rintro (hzero | hfalse)
        · exact hn hzero
        · cases hfalse

end Read

section Node

variable {pt : ProcTable} {creds : Cred} {pnp : Pfsnode} {p : Proc}
  {taskForPid : Int32 → Option PageTable} {t : PageTable}

/-- A permitted read is the loop. -/
theorem dopagemap_eq (hproc : pt.procFind pnp.nodeId.nodeidPid = some p)
    (haccess : procfsCheckCanAccessProcess creds p = none)
    (htask : taskForPid pnp.nodeId.nodeidPid = some t) (uio : Uio) :
    procfsDopagemap pt creds true t.pageSize (fun pid => procfsdHandlePagemap (taskForPid pid))
        .UIO_READ pnp uio =
      pagemapLoop t.pageSize (procfsdHandlePagemap (some t)) false [] uio := by
  simp only [procfsDopagemap, hproc, haccess, htask]
  rfl

/-- Every byte that a permitted read returns is that of the entry of its page, and no byte is
returned for a page that does not exist, if and only if the read is in range. -/
theorem pagemap_right_iff (hproc : pt.procFind pnp.nodeId.nodeidPid = some p)
    (haccess : procfsCheckCanAccessProcess creds p = none)
    (htask : taskForPid pnp.nodeId.nodeidPid = some t)
    {off n : ℕ} (hoff : off < 2 ^ 63) (hn : n < 2 ^ 63) :
    t.RightFrom off (procfsDopagemap pt creds true t.pageSize
        (fun pid => procfsdHandlePagemap (taskForPid pid)) .UIO_READ pnp
          ⟨Int64.ofNat off, n⟩).bytes ↔
      t.InRange off n := by
  obtain ⟨tail, hbytes, hright⟩ := @pagemapLoop_right_iff t off n (by omega) false []
  rw [dopagemap_eq hproc haccess htask, hbytes, List.nil_append]
  exact hright

end Node

/-- A region of two pages, the sixteenth and the one behind it. -/
def twoPageRegion : VmRegion := ⟨65536, 8192, ⟨3, 7, 0, 0, 0⟩, ⟨2, 0, 0, 0, 0⟩⟩

theorem twoPageRegion_size_pos : ∀ r ∈ [twoPageRegion], 0 < r.size.toNat := by decide

theorem twoPageRegion_stop_le : ∀ r ∈ [twoPageRegion], r.stop ≤ 2 ^ 64 := by decide

theorem twoPageRegion_aligned :
    ∀ r ∈ [twoPageRegion], (4096 : UInt64).toNat ∣ r.address.toNat ∧
      (4096 : UInt64).toNat ∣ r.stop := by
  decide

/-- A task with that region. -/
def twoPages : PageTable where
  vm := ⟨[twoPageRegion], twoPageRegion_size_pos, twoPageRegion_stop_le,
    List.pairwise_singleton _ _⟩
  pageSize := 4096
  pow_two := firstPage.pow_two
  aligned := twoPageRegion_aligned
  disposition _ := some ⟨true, false, false, true⟩

/-- A read of the `pagemap` of the shell. -/
def shPagemap (off n : ℕ) : ReadReply :=
  procfsDopagemap shWorld.procs ⟨501, 12⟩ true twoPages.pageSize
    (fun _ => procfsdHandlePagemap (some twoPages)) .UIO_READ shFile ⟨Int64.ofNat off, n⟩

theorem pagemap_right_sixteenth : twoPages.RightFrom 128 (shPagemap 128 8).bytes :=
  (@pagemap_right_iff shWorld.procs ⟨501, 12⟩ shFile shProc (fun _ => some twoPages) twoPages rfl
    (by decide) rfl 128 8 (by decide) (by decide)).mpr
      (by rw [PageTable.InRange, if_pos (by decide)]; exact Or.inl (by decide))

/-- The number of the sixteenth page and that of all pages: the entry of the sixteenth page
is returned for a page that does not exist. -/
theorem pagemap_wraps :
    (shPagemap (8 * (2 ^ 52 + 16)) 8).bytes ≠ [] ∧
      ¬ twoPages.RightFrom (8 * (2 ^ 52 + 16)) (shPagemap (8 * (2 ^ 52 + 16)) 8).bytes := by
  have hwrong : ¬ twoPages.RightFrom (8 * (2 ^ 52 + 16))
      (shPagemap (8 * (2 ^ 52 + 16)) 8).bytes := by
    obtain ⟨tail, hbytes, hright⟩ :=
      @pagemapLoop_right_iff twoPages (8 * (2 ^ 52 + 16)) 8 (by decide) false []
    rw [shPagemap, dopagemap_eq (p := shProc) rfl (by decide) rfl, hbytes, List.nil_append, hright,
      PageTable.InRange, if_neg (by decide)]
    decide
  refine ⟨fun hnil => hwrong ?_, hwrong⟩
  rw [hnil]
  exact twoPages.rightFrom_nil _

end ProcFS.Data
