import ProcFS.Lib.Bytes
import ProcFS.Lib.Keyed
import ProcFS.Types

/-!
# ProcFS.Data.Wchan — what a blocked thread waits in

The kernel extension knows the address at which a blocked thread continues, and the daemon the
symbols of the kernel image, at the addresses of the image. The kernel runs at other addresses:
the extension asks the daemon once where `proc_pid` is in the image, takes the difference to
where it is in memory for the slide, and takes the slide off the addresses it asks about. The
daemon answers with the symbol before the address, unless it is too far away.

* `ksymLookup_nearest`: the search gives the name of a nearest symbol.
* `procfsWchanInitSlide_eq`: the slide is measured once.
* `procfsWchanResolve_nearest`: in which symbol a thread is said to wait.
-/

namespace ProcFS.Data

open Lib (leBytes u64At untilNul Qsort partitionPoint)

/-! ## The symbols of the daemon -/

/-- A string in an array of 96 characters. -/
abbrev Name96 := { s : CString // s.length < 96 ∧ 0 ∉ s }

structure KsymEnt where
  val : UInt64
  name : Name96
deriving DecidableEq, Repr

def ksymEntCmp (a b : KsymEnt) : Ordering := compare a.val b.val

/-- The end of `ksym_table_build`, where the symbols have been collected. -/
def ksymTable (qsort : Qsort ksymEntCmp) (syms : List KsymEnt) : List KsymEnt := qsort.sort syms

/-- `g_ksym_tab[mid].val <= addr`. -/
def notAbove (tab : List KsymEnt) (addr : UInt64) (mid : ℕ) : Bool :=
  tab[mid]?.any fun e => e.val ≤ addr

/-- `ksym_lookup`. The loop looks for the first entry above the address. -/
def ksymLookup (tab : List KsymEnt) (addr : UInt64) (cap : ℕ) : CString :=
  let lo := partitionPoint (notAbove tab addr) 0 tab.length
  if lo = 0 then []
  else
    tab[lo - 1]?.elim [] fun e =>
      if 0x100000 < addr - e.val then [] else e.name.val.take (cap - 1)

def ksymAddrOf (tab : List KsymEnt) (name : CString) : UInt64 :=
  (tab.find? fun e => e.name.val == name).elim 0 KsymEnt.val

/-- The requests about symbols: `PROCFS_REQ_KSYM_LOOKUP` with its argument, and
`PROCFS_REQ_KSYM_REF`. -/
inductive KsymReq
  | lookup (arg : UInt64)
  | ref
deriving DecidableEq, Repr

def procPid : CString := cstr "_proc_pid"

/-- The payload that `main` answers with. A name is shorter than `PROCFS_CTL_MAXPAYLOAD`. -/
def ksymReply (tab : List KsymEnt) : KsymReq → List UInt8
  | .lookup arg => ksymLookup tab arg 128
  | .ref => leBytes 8 (ksymAddrOf tab procPid).toNat

/-! ## The kernel extension -/

section Extension

-- `procfs_ctl_request`: the payload, unless there is an error
variable (request : KsymReq → Option (List UInt8))

/-- `procfs_wchan_init_slide`: the state is the slide, once it is known, and `rt` is where
`proc_pid` is in memory. -/
def procfsWchanInitSlide (rt : UInt64) (slide : Option UInt64) : Option UInt64 :=
  match slide with
  | some s => some s
  | none =>
    match request .ref with
    | none => none
    | some payload =>
      let out := payload.take 8
      if out.length = 8 ∧ u64At 0 out ≠ 0 then some (rt - u64At 0 out) else none

/-- One underscore less. -/
def dropUnderscore (s : CString) : CString := if s.head? = some 95 then s.tail else s

/-- `procfs_wchan_resolve` for the address at which the thread continues: the slide, and the
string in the buffer. -/
def procfsWchanResolve (rt : UInt64) (slide : Option UInt64) (runtime : UInt64) (cap : ℕ) :
    Option UInt64 × CString :=
  let slide := procfsWchanInitSlide request rt slide
  match slide with
  | none => (slide, [])
  | some s =>
    if runtime = 0 then (slide, [])
    else
      let img := runtime - s
      match request (.lookup img) with
      | none => (slide, [])
      | some payload =>
        let sym := untilNul (payload.take 127)
        if sym = [] then (slide, []) else (slide, (dropUnderscore sym).take (cap - 1))

end Extension

/-! ## The search -/

/-- A symbol with the greatest address that is not above an address. -/
def Nearest (syms : List KsymEnt) (addr : UInt64) (e : KsymEnt) : Prop :=
  e ∈ syms ∧ e.val ≤ addr ∧ ∀ e' ∈ syms, e'.val ≤ addr → e'.val ≤ e.val

theorem Nearest.val_eq {syms : List KsymEnt} {addr : UInt64} {e e' : KsymEnt}
    (h : Nearest syms addr e) (h' : Nearest syms addr e') : e.val = e'.val :=
  UInt64.le_antisymm (h'.2.2 e h.1 h.2.1) (h.2.2 e' h'.1 h'.2.1)

theorem ksymTable_le (qsort : Qsort ksymEntCmp) (syms : List KsymEnt) {i j : ℕ} {e e' : KsymEnt}
    (hij : i ≤ j) (hi : (ksymTable qsort syms)[i]? = some e)
    (hj : (ksymTable qsort syms)[j]? = some e') : e.val ≤ e'.val := by
  rcases Nat.eq_or_lt_of_le hij with rfl | hlt
  · rw [hi] at hj
    rw [Option.some.inj hj]
    exact UInt64.le_refl _
  · obtain ⟨hi', rfl⟩ := List.getElem?_eq_some_iff.mp hi
    obtain ⟨hj', rfl⟩ := List.getElem?_eq_some_iff.mp hj
    have hle := List.pairwise_iff_getElem.mp (qsort.sorted syms) i j hi' hj' hlt
    exact (Std.LawfulOrderOrd.isLE_compare _ _).mp hle

/-- The entry before the first one above the address is a nearest symbol, and where there is none
before it, all symbols are above the address. -/
theorem partitionPoint_ksymTable (qsort : Qsort ksymEntCmp) (syms : List KsymEnt) (addr : UInt64) :
    let tab := ksymTable qsort syms
    let lo := partitionPoint (notAbove tab addr) 0 tab.length
    (lo = 0 ∧ ∀ e ∈ syms, ¬ e.val ≤ addr) ∨
      ∃ e, lo ≠ 0 ∧ tab[lo - 1]? = some e ∧ Nearest syms addr e := by
  intro tab lo
  have hmem : ∀ e, e ∈ syms ↔ ∃ i : ℕ, tab[i]? = some e := by
    intro e
    rw [← List.mem_iff_getElem?]
    exact (qsort.perm syms).mem_iff.symm
  have hbelow : ∀ (i : ℕ) (e : KsymEnt), tab[i]? = some e →
      (notAbove tab addr i = true ↔ e.val ≤ addr) := by
    intro i e hi
    rw [notAbove, hi, Option.any_some, decide_eq_true_eq]
  have hmono : ∀ i j, i ≤ j → j < tab.length → notAbove tab addr j = true →
      notAbove tab addr i = true := by
    intro i j hij hj hbj
    have hi : tab[i]? = some tab[i] := List.getElem?_eq_getElem (Nat.lt_of_le_of_lt hij hj)
    have hj : tab[j]? = some tab[j] := List.getElem?_eq_getElem hj
    exact (hbelow i _ hi).mpr
      (UInt64.le_trans (ksymTable_le qsort syms hij hi hj) ((hbelow j _ hj).mp hbj))
  obtain ⟨hle, hlow, hhigh⟩ := Lib.partitionPoint_spec hmono (Nat.zero_le _) (Nat.le_refl _)
    (fun i hi => absurd hi (Nat.not_lt_zero i)) (fun i hi hin => absurd hin (Nat.not_lt.mpr hi))
  -- an entry that is not above the address is before the end of the search
  have hbefore : ∀ (i : ℕ) (e : KsymEnt), tab[i]? = some e → e.val ≤ addr → i < lo := by
    intro i e hi hval
    rw [← Nat.not_le]
    intro hge
    have hfalse := hhigh i hge (List.getElem?_eq_some_iff.mp hi).1
    rw [(hbelow i e hi).mpr hval] at hfalse
    cases hfalse
  by_cases hzero : lo = 0
  · refine Or.inl ⟨hzero, fun e he hval => ?_⟩
    obtain ⟨i, hi⟩ := (hmem e).mp he
    exact absurd (hbefore i e hi hval) (by omega)
  · have hlast : tab[lo - 1]? = some tab[lo - 1] := List.getElem?_eq_getElem (by omega)
    refine Or.inr ⟨tab[lo - 1], hzero, hlast, (hmem _).mpr ⟨_, hlast⟩,
      (hbelow _ _ hlast).mp (hlow _ (by omega)), fun e he hval => ?_⟩
    obtain ⟨i, hi⟩ := (hmem e).mp he
    have hlt := hbefore i e hi hval
    exact ksymTable_le qsort syms (by omega) hi hlast

/-- The search gives the name of a nearest symbol, or nothing if these are too far away. -/
theorem ksymLookup_nearest (qsort : Qsort ksymEntCmp) (syms : List KsymEnt) (addr : UInt64)
    (cap : ℕ) :
    (∃ e, Nearest syms addr e ∧ addr - e.val ≤ 0x100000 ∧
      ksymLookup (ksymTable qsort syms) addr cap = e.name.val.take (cap - 1)) ∨
    (ksymLookup (ksymTable qsort syms) addr cap = [] ∧
      ∀ e, Nearest syms addr e → ¬ addr - e.val ≤ 0x100000) := by
  rw [ksymLookup]
  rcases partitionPoint_ksymTable qsort syms addr with ⟨hzero, habove⟩ | ⟨e, hne, hlast, hnear⟩
  · rw [if_pos hzero]
    exact Or.inr ⟨rfl, fun e he => absurd he.2.1 (habove e he.1)⟩
  · rw [if_neg hne, hlast, Option.elim_some]
    split_ifs with hfar
    · refine Or.inr ⟨rfl, fun e' he' => ?_⟩
      rw [← hnear.val_eq he', UInt64.not_le]
      exact hfar
    · exact Or.inl ⟨e, hnear, UInt64.not_lt.mp hfar, rfl⟩

/-! ## The slide -/

/-- The symbols of a kernel image: `proc_pid` is one of them, and its address is not 0. -/
structure TextSymbols where
  syms : List KsymEnt
  long : ∀ e ∈ syms, 2 ≤ e.name.val.length
  ref : UInt64
  ref_ne : ref ≠ 0
  once : (syms.filter fun e => e.name.val == procPid).map KsymEnt.val = [ref]

theorem ksymAddrOf_procPid (qsort : Qsort ksymEntCmp) (t : TextSymbols) :
    ksymAddrOf (ksymTable qsort t.syms) procPid = t.ref := by
  have hperm := ((qsort.perm t.syms).filter fun e => e.name.val == procPid).map KsymEnt.val
  rw [t.once, List.perm_singleton] at hperm
  have hhead := congrArg List.head? hperm
  rw [List.head?_map, List.head?_filter, List.head?_cons] at hhead
  rw [ksymAddrOf, ksymTable]
  cases hfind : (qsort.sort t.syms).find? fun e => e.name.val == procPid with
  | none =>
    rw [hfind] at hhead
    cases hhead
  | some e =>
    rw [hfind] at hhead
    exact Option.some.inj hhead

section Resolving

variable (qsort : Qsort ksymEntCmp) (t : TextSymbols)

/-- Requests that succeed. -/
def answered (r : KsymReq) : Option (List UInt8) := some (ksymReply (ksymTable qsort t.syms) r)

/-- The slide is measured, or has been. -/
theorem procfsWchanInitSlide_eq (slide : UInt64) {st : Option UInt64} (hst : ∀ s ∈ st, s = slide) :
    procfsWchanInitSlide (answered qsort t) (t.ref + slide) st = some slide := by
  cases st with
  | some s => rw [procfsWchanInitSlide, hst s rfl]
  | none =>
    have hread : u64At 0 (leBytes 8 t.ref.toNat) = t.ref := by
      have hfield := Lib.fieldAt_leBytes (w := 8) t.ref.toNat_lt []
      rw [List.append_nil] at hfield
      rw [u64At, hfield, UInt64.ofNat_toNat]
    have htake : (leBytes 8 t.ref.toNat).take 8 = leBytes 8 t.ref.toNat :=
      List.take_of_length_le (Nat.le_of_eq (Lib.length_leBytes 8 _))
    simp only [procfsWchanInitSlide, answered, ksymReply, ksymAddrOf_procPid, htake, hread,
      Lib.length_leBytes]
    rw [if_pos ⟨trivial, t.ref_ne⟩, UInt64.add_comm, UInt64.add_sub_cancel]

/-- A name that is found fits into every buffer on its way. -/
theorem ksymLookup_short (addr : UInt64) :
    (ksymLookup (ksymTable qsort t.syms) addr 128).length < 96 ∧
      0 ∉ ksymLookup (ksymTable qsort t.syms) addr 128 := by
  rcases ksymLookup_nearest qsort t.syms addr 128 with ⟨e, -, -, heq⟩ | ⟨heq, -⟩
  · have hname := e.name.property
    rw [heq, List.take_of_length_le (by omega)]
    exact hname
  · rw [heq]
    exact ⟨by decide, List.not_mem_nil⟩

/-- One underscore is removed from the front, if there is one. -/
theorem dropUnderscore_cases (s : CString) :
    s = 95 :: dropUnderscore s ∨ s.head? ≠ some 95 ∧ dropUnderscore s = s := by
  cases s with
  | nil => exact Or.inr ⟨nofun, rfl⟩
  | cons b rest =>
    by_cases hb : b = 95
    · subst hb
      exact Or.inl rfl
    · have hne : (b :: rest).head? ≠ some 95 := fun h => hb (Option.some.inj h)
      exact Or.inr ⟨hne, if_neg hne⟩

theorem length_dropUnderscore_le (s : CString) : (dropUnderscore s).length ≤ s.length := by
  rcases dropUnderscore_cases s with h | ⟨-, h⟩
  · have hlen := congrArg List.length h
    rw [List.length_cons] at hlen
    omega
  · rw [h]

/-- What a call finds, once the slide is known. -/
theorem procfsWchanResolve_eq (slide : UInt64) {st : Option UInt64} (hst : ∀ s ∈ st, s = slide)
    {c : UInt64} (hc : c ≠ 0) :
    (procfsWchanResolve (answered qsort t) (t.ref + slide) st c 128).2 =
      dropUnderscore (ksymLookup (ksymTable qsort t.syms) (c - slide) 128) := by
  obtain ⟨hshort, hnul⟩ := ksymLookup_short qsort t (c - slide)
  simp only [procfsWchanResolve, procfsWchanInitSlide_eq qsort t slide hst, if_neg hc, answered,
    ksymReply]
  generalize ksymLookup (ksymTable qsort t.syms) (c - slide) 128 = name at hshort hnul
  have hdrop := length_dropUnderscore_le name
  rw [List.take_of_length_le (by omega), Lib.untilNul_of_notMem hnul]
  split_ifs with hnil
  · rw [hnil]
    rfl
  · exact List.take_of_length_le (by omega)

/-- A state that some calls lead to. -/
def stateAfter (slide : UInt64) (calls : List UInt64) : Option UInt64 :=
  calls.foldl (fun st c => (procfsWchanResolve (answered qsort t) (t.ref + slide) st c 128).1) none

/-- A call keeps what is known about the slide. -/
theorem procfsWchanResolve_slide (slide c : UInt64) {st : Option UInt64}
    (hst : ∀ s ∈ st, s = slide) :
    (procfsWchanResolve (answered qsort t) (t.ref + slide) st c 128).1 = some slide := by
  simp only [procfsWchanResolve, procfsWchanInitSlide_eq qsort t slide hst, answered]
  split_ifs <;> rfl

/-- No sequence of calls finds another slide. -/
theorem stateAfter_eq (slide : UInt64) (calls : List UInt64) :
    ∀ s ∈ stateAfter qsort t slide calls, s = slide := by
  have hrun : ∀ st : Option UInt64, (∀ s ∈ st, s = slide) → ∀ s ∈ calls.foldl (fun st c =>
      (procfsWchanResolve (answered qsort t) (t.ref + slide) st c 128).1) st, s = slide := by
    induction calls with
    | nil => exact fun st hst => hst
    | cons c calls ih =>
      intro st hst
      refine ih _ fun s hs => ?_
      exact Option.some.inj (hs.symm.trans (procfsWchanResolve_slide qsort t slide c hst))
  exact hrun none (fun s hs => nomatch hs)

/-- The name that is found for an address after some calls. -/
def wchanName (slide : UInt64) (calls : List UInt64) (c : UInt64) : CString :=
  (procfsWchanResolve (answered qsort t) (t.ref + slide) (stateAfter qsort t slide calls) c 128).2

/-- After any calls, a thread that continues at `c` is said to wait in a symbol with the greatest
address that is not above `c` without the slide, if that is near enough, and in none otherwise.
The name is that of the symbol, without the underscore it begins with if it begins with one. -/
theorem procfsWchanResolve_nearest (slide : UInt64) (calls : List UInt64) {c : UInt64}
    (hc : c ≠ 0) :
    ((∃ e, Nearest t.syms (c - slide) e ∧ c - slide - e.val ≤ 0x100000) →
      wchanName qsort t slide calls c ≠ [] ∧ ∃ e, Nearest t.syms (c - slide) e ∧
        (e.name.val = 95 :: wchanName qsort t slide calls c ∨
          e.name.val.head? ≠ some 95 ∧ wchanName qsort t slide calls c = e.name.val)) ∧
    ((¬ ∃ e, Nearest t.syms (c - slide) e ∧ c - slide - e.val ≤ 0x100000) →
      wchanName qsort t slide calls c = []) := by
  have hname : wchanName qsort t slide calls c =
      dropUnderscore (ksymLookup (ksymTable qsort t.syms) (c - slide) 128) :=
    procfsWchanResolve_eq qsort t slide (stateAfter_eq qsort t slide calls) hc
  rcases ksymLookup_nearest qsort t.syms (c - slide) 128 with ⟨e, hnear, hdist, heq⟩ | ⟨heq, hfar⟩
  · have hlong := t.long e hnear.1
    have hshort := e.name.property.1
    rw [heq, List.take_of_length_le (by omega)] at hname
    have hcases := dropUnderscore_cases e.name.val
    rw [← hname] at hcases
    refine ⟨fun _ => ⟨?_, e, hnear, hcases⟩, fun hnone => absurd ⟨e, hnear, hdist⟩ hnone⟩
    -- a name of two characters does not get lost with its underscore
    intro hnil
    rw [hnil] at hcases
    rcases hcases with h | ⟨-, h⟩
    · rw [h] at hlong
      exact absurd hlong (by decide)
    · rw [← h] at hlong
      exact absurd hlong (by decide)
  · rw [heq] at hname
    exact ⟨fun ⟨e, hnear, hdist⟩ => absurd hdist (hfar e hnear), fun _ => hname⟩

end Resolving

def procPidEnt : KsymEnt := ⟨0xfffffe0007000000, procPid, by decide⟩

def waitEnt : KsymEnt := ⟨0xfffffe0007000400, cstr "_wait1continue", by decide⟩

def twoSymbols : TextSymbols where
  syms := [waitEnt, procPidEnt]
  long := by decide
  ref := 0xfffffe0007000000
  ref_ne := by decide
  once := by decide

instance : Std.TransCmp ksymEntCmp := inferInstanceAs (Std.TransCmp (compareOn KsymEnt.val))

theorem waitEnt_nearest : Nearest twoSymbols.syms 0xfffffe0007000404 waitEnt := by
  refine ⟨by decide, by decide, ?_⟩
  decide

/-- A thread that waits, in a kernel that runs above its image: it is said to wait in
`wait1continue`. -/
theorem procfsWchanResolve_wait :
    wchanName (Qsort.insertion ksymEntCmp) twoSymbols 0x1b2c4000 [] 0xfffffe00222c4404 =
      cstr "wait1continue" := by
  have hnear := waitEnt_nearest
  obtain ⟨-, e, he, hname⟩ :=
    (procfsWchanResolve_nearest (Qsort.insertion ksymEntCmp) twoSymbols 0x1b2c4000 []
      (by decide : (0xfffffe00222c4404 : UInt64) ≠ 0)).1 ⟨waitEnt, hnear, by decide⟩
  -- the two symbols are at different addresses
  have heq : e = waitEnt := by
    rcases List.mem_cons.mp he.1 with h | h
    · exact h
    · rw [List.mem_singleton.mp h] at he
      exact absurd (he.val_eq hnear) (by decide)
  subst heq
  rcases hname with h | ⟨h, -⟩
  · exact (List.cons.inj h).2.symm
  · exact absurd rfl h

end ProcFS.Data
