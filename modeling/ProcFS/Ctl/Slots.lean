import Mathlib.Data.Nat.ModEq
import ProcFS.Ctl
import ProcFS.Lib.Ledger

/-!
# ProcFS.Ctl.Slots — who has which slot

Every slot in use belongs to one call, which knows its number, and a call has at most
one slot. Slots change hands in two steps only: a call takes a free one, and a call
gives its own back. The sequence numbers follow the count of the requests.

* `Step.kept`: most steps leave the slots with their owners.
* `Inv.eq_of_slot`: two calls never have one slot.
* `Inv.eq_of_seq`: slots in use have different numbers, as long as none is very old.
-/

namespace ProcFS.Lib

/-! ## Numbers from a wrapping counter

A counter with `m` values is increased for each request, once more when it has come back to 0, and
its value is the number of the request. Numbers are reused, but never for two requests that are less
than `m - 1` requests apart. -/

/-- The number of the `n`-th request, counted from 1; before the first it is 0. -/
def serial (m n : ℕ) : ℕ := if n = 0 then 0 else 1 + (n - 1) % (m - 1)

@[simp] theorem serial_zero (m : ℕ) : serial m 0 = 0 := if_pos rfl

theorem serial_pos {m n : ℕ} (h : 0 < n) : 0 < serial m n := by
  rw [serial, if_neg (by omega)]
  omega

/-- The next number: one more, or 1 after the last. -/
theorem serial_succ {m : ℕ} (hm : 2 ≤ m) (n : ℕ) :
    serial m (n + 1) = if serial m n + 1 = m then 1 else serial m n + 1 := by
  rcases Nat.eq_zero_or_pos n with rfl | hn
  · -- the first number is 1
    rw [serial_zero, if_neg (by omega), serial, if_neg (by omega), Nat.zero_add, Nat.sub_self,
      Nat.zero_mod]
  · have hlt : (n - 1) % (m - 1) < m - 1 := Nat.mod_lt _ (by omega)
    have hnext : (n + 1 - 1) % (m - 1) = ((n - 1) % (m - 1) + 1) % (m - 1) := by
      rw [Nat.mod_add_mod]
      congr 1
      omega
    have hn' : serial m n = 1 + (n - 1) % (m - 1) := if_neg (by omega)
    rw [hn', serial, if_neg (by omega), hnext]
    split
    · have hwrap : (n - 1) % (m - 1) + 1 = m - 1 := by omega
      rw [hwrap, Nat.mod_self]
    · rw [Nat.mod_eq_of_lt (by omega)]
      omega

/-- Two requests with the same number are the same, or at least `m - 1` apart. -/
theorem serial_inj {m a b : ℕ} (ha : 0 < a) (hab : a ≤ b) (hnear : b - a < m - 1)
    (h : serial m a = serial m b) : a = b := by
  rw [serial, serial, if_neg (by omega), if_neg (by omega)] at h
  have hmod : (a - 1) ≡ (b - 1) [MOD m - 1] := by
    show (a - 1) % (m - 1) = (b - 1) % (m - 1)
    omega
  have hdvd := (Nat.modEq_iff_dvd' (show a - 1 ≤ b - 1 by omega)).mp hmod
  have hzero : b - 1 - (a - 1) = 0 := Nat.eq_zero_of_dvd_of_lt hdvd (by omega)
  omega

end ProcFS.Lib

namespace ProcFS.Ctl

open Lib (serial)

/-! ## Steps that leave the slots with their owners -/

@[simp] theorem Pc.ticket_wake (woken : Fin procfsCtlSlots → Bool) (p : Pc) :
    (p.wake woken).ticket = p.ticket := by
  cases p with
  | asleep tk =>
    simp only [Pc.wake]
    split <;> rfl
  | _ => rfl

/-- No slot changes hands. -/
structure Kept (s s' : State) : Prop where
  inUse : ∀ k, (s'.slots k).inUse = (s.slots k).inUse
  seq : ∀ k, (s'.slots k).seq = (s.slots k).seq
  birth : ∀ k, (s'.slots k).birth = (s.slots k).birth
  ticket : ∀ i, (s'.pc i).ticket = (s.pc i).ticket
  counter : s'.gCtlSeq = s.gCtlSeq
  allocs : s'.allocs = s.allocs

theorem Kept.of_eq {s s' : State} (hslots : s'.slots = s.slots) (hpc : s'.pc = s.pc)
    (hcounter : s'.gCtlSeq = s.gCtlSeq) (hallocs : s'.allocs = s.allocs) : Kept s s' := by
  refine ⟨fun k => ?_, fun k => ?_, fun k => ?_, fun i => ?_, hcounter, hallocs⟩
  · rw [hslots]
  · rw [hslots]
  · rw [hslots]
  · rw [hpc]

/-- A call goes on with the slot it has, if any. -/
theorem Kept.setPc {s t : State} (hst : Kept s t) {i : ℕ} {p : Pc}
    (h : p.ticket = (s.pc i).ticket) : Kept s (t.setPc i p) := by
  refine ⟨hst.inUse, hst.seq, hst.birth, fun j => ?_, hst.counter, hst.allocs⟩
  by_cases hj : j = i
  · rw [hj, State.setPc_pc_self, h]
  · rw [State.setPc_pc_of_ne hj, hst.ticket]

/-- A reply is stored. -/
theorem Kept.answer (s : State) (k : Fin procfsCtlSlots) (resp : CtlResp) (payload : List UInt8) :
    Kept s ((s.setSlot k ((s.slots k).answer resp payload)).wakeup (· == k)) := by
  -- the reply is stored in one slot, and does not touch what `Kept` is about
  have hslot : ∀ l, (s.setSlot k ((s.slots k).answer resp payload)).slots l = s.slots l ∨
      (s.setSlot k ((s.slots k).answer resp payload)).slots l =
        (s.slots l).answer resp payload := by
    intro l
    by_cases hl : l = k
    · rw [hl, State.setSlot_slots_self]
      exact Or.inr rfl
    · exact Or.inl (State.setSlot_slots_of_ne hl s _)
  refine ⟨fun l => ?_, fun l => ?_, fun l => ?_, fun i => Pc.ticket_wake (· == k) (s.pc i), rfl,
    rfl⟩
  · rcases hslot l with h | h <;> rw [State.wakeup_slots, h]
    rfl
  · rcases hslot l with h | h <;> rw [State.wakeup_slots, h]
    rfl
  · rcases hslot l with h | h <;> rw [State.wakeup_slots, h]
    rfl

theorem Slot.hangUp_inUse (sl : Slot) : sl.hangUp.inUse = sl.inUse := by
  unfold Slot.hangUp
  split <;> rfl

theorem Slot.hangUp_seq (sl : Slot) : sl.hangUp.seq = sl.seq := by
  unfold Slot.hangUp
  split <;> rfl

theorem Slot.hangUp_birth (sl : Slot) : sl.hangUp.birth = sl.birth := by
  unfold Slot.hangUp
  split <;> rfl

/-- A daemon disconnects. -/
theorem Kept.disconnect (s : State) (unit : UInt32) : Kept s (s.procfsCtlDisconnect unit) :=
  ⟨fun k => (s.slots k).hangUp_inUse, fun k => (s.slots k).hangUp_seq,
    fun k => (s.slots k).hangUp_birth,
    fun i => Pc.ticket_wake (fun k => (s.slots k).isOpen) (s.pc i), rfl, rfl⟩

/-- Every step but the taking and the giving back of a slot leaves the slots with
their owners. -/
theorem Step.kept {args : ℕ → Args} {s s' : State} {a : Act} (h : Step args s a s') :
    (∃ i k, a = .allocate i ∧ s.pc i = .checked ∧ s.freeSlot = some k ∧ s' = s.takeSlot i k) ∨
    (∃ i tk result, a = .release i ∧ s.pc i = .leaving tk result ∧
      s' = s.releaseSection i tk result) ∨
    Kept s s' := by
  have hsame : Kept s s := Kept.of_eq rfl rfl rfl rfl
  -- only these two steps change who has a slot
  cases h with
  | allocate hpc hfree => exact Or.inl ⟨_, _, rfl, hpc, hfree, rfl⟩
  | release hpc => exact Or.inr (Or.inl ⟨_, _, _, rfl, hpc, rfl⟩)
  -- the call that goes on keeps the slot it has, or has none before and after
  | start hpc | startRefused hpc | allocateBusy hpc | enqueueFail _ hpc | sleep hpc | collect hpc
  | wake hpc | interrupt hpc =>
    exact Or.inr (Or.inr (hsame.setPc (by rw [hpc]; rfl)))
  | @enqueue i tk hpc =>
    have hsent : Kept s (s.enqueue (args i) tk) := Kept.of_eq rfl rfl rfl rfl
    exact Or.inr (Or.inr (hsent.setPc (by rw [hpc]; rfl)))
  | sendIgnored => exact Or.inr (Or.inr hsame)
  | connect => exact Or.inr (Or.inr (Kept.of_eq rfl rfl rfl rfl))
  | send => exact Or.inr (Or.inr (Kept.answer s _ _ _))
  | disconnect => exact Or.inr (Or.inr (Kept.disconnect s _))

/-! ## The invariant -/

/-- Who has which slot, and under which number. -/
structure Inv (s : State) : Prop where
  held : ∀ i tk, (s.pc i).ticket = some tk →
    (s.slots tk.slot).inUse = true ∧ (s.slots tk.slot).seq = tk.seq
  excl : Exclusive fun i => (s.pc i).ticket.map Ticket.slot
  used : ∀ k, (s.slots k).inUse = true → ∃ i tk, (s.pc i).ticket = some tk ∧ tk.slot = k
  counter : s.gCtlSeq.toNat = serial (2 ^ 32) s.allocs
  born : ∀ k, (s.slots k).inUse = true → 0 < (s.slots k).birth ∧ (s.slots k).birth ≤ s.allocs ∧
    (s.slots k).seq.toNat = serial (2 ^ 32) (s.slots k).birth
  apart : ∀ k l, (s.slots k).inUse = true → (s.slots l).inUse = true →
    (s.slots k).birth = (s.slots l).birth → k = l

theorem inv_initial : Inv initial where
  -- nobody has a slot, and no slot is in use
  held := by
    intro i tk h
    cases h
  excl := by
    intro i j k h
    cases h
  used := by
    intro k h
    cases h
  counter := rfl
  born := by
    intro k h
    cases h
  apart := by
    intro k l h
    cases h

/-- Two calls never have the same slot. -/
theorem Inv.eq_of_slot {s : State} (h : Inv s) {i j : ℕ} {tk tk' : Ticket}
    (hi : (s.pc i).ticket = some tk) (hj : (s.pc j).ticket = some tk')
    (hslot : tk.slot = tk'.slot) :
    i = j := by
  apply h.excl i j tk.slot
  · simp [hi]
  · simp [hj, hslot]

theorem Inv.of_kept {s s' : State} (h : Inv s) (hkept : Kept s s') : Inv s' where
  held := by
    intro i tk htk
    rw [hkept.ticket] at htk
    rw [hkept.inUse, hkept.seq]
    exact h.held i tk htk
  excl := by
    refine h.excl.of_le fun i k hk => ?_
    rw [hkept.ticket] at hk
    exact hk
  used := by
    intro k hk
    rw [hkept.inUse] at hk
    rcases h.used k hk with ⟨i, tk, htk, hslot⟩
    exact ⟨i, tk, by rw [hkept.ticket, htk], hslot⟩
  counter := by
    rw [hkept.counter, hkept.allocs]
    exact h.counter
  born := by
    intro k hk
    rw [hkept.inUse] at hk
    rw [hkept.birth, hkept.seq, hkept.allocs]
    exact h.born k hk
  apart := by
    intro k l hk hl hbirth
    rw [hkept.inUse] at hk hl
    rw [hkept.birth, hkept.birth] at hbirth
    exact h.apart k l hk hl hbirth

theorem toNat_nextSeq (seq : UInt32) :
    (nextSeq seq).toNat = if seq.toNat + 1 = 2 ^ 32 then 1 else seq.toNat + 1 := by
  have hlt := seq.toNat_lt
  have hnext : (seq + 1).toNat = (seq.toNat + 1) % 2 ^ 32 := by
    rw [UInt32.toNat_add]
    rfl
  -- the counter wraps where it would be 0, which is passed over
  have hzero : seq + 1 = 0 ↔ seq.toNat + 1 = 2 ^ 32 := by
    rw [← UInt32.toNat_inj, hnext]
    have hnat : (0 : UInt32).toNat = 0 := rfl
    omega
  unfold nextSeq
  by_cases hwrap : seq.toNat + 1 = 2 ^ 32
  · rw [if_pos (hzero.mpr hwrap), if_pos hwrap, hzero.mpr hwrap]
    rfl
  · rw [if_neg (mt hzero.mp hwrap), if_neg hwrap, hnext]
    omega

/-- A free slot belongs to nobody. -/
theorem freeSlot_inUse {s : State} {k : Fin procfsCtlSlots} (h : s.freeSlot = some k) :
    (s.slots k).inUse = false := by
  simpa using List.find?_some h

/-- A slot after call `i` took slot `k`. -/
theorem takeSlot_slots (s : State) (i : ℕ) (k l : Fin procfsCtlSlots) :
    (s.takeSlot i k).slots l = if l = k then
      { s.slots k with
        inUse := true, done := false, seq := nextSeq s.gCtlSeq, error := 0, len := 0,
        birth := s.allocs + 1 }
    else s.slots l := by
  by_cases hl : l = k
  · rw [if_pos hl, hl]
    exact Function.update_self k _ s.slots
  · rw [if_neg hl]
    exact Function.update_of_ne hl _ s.slots

theorem takeSlot_pc_self (s : State) (i : ℕ) (k : Fin procfsCtlSlots) :
    (s.takeSlot i k).pc i = .allocated (s.ticketFor k) :=
  State.setPc_pc_self _ i _

theorem takeSlot_pc_of_ne {i j : ℕ} (h : j ≠ i) (s : State) (k : Fin procfsCtlSlots) :
    (s.takeSlot i k).pc j = s.pc j :=
  State.setPc_pc_of_ne h _ _

/-- Who has which slot after call `i` took slot `k`. -/
theorem takeSlot_ticket {s : State} {i j : ℕ} {k : Fin procfsCtlSlots} {tk : Ticket}
    (h : ((s.takeSlot i k).pc j).ticket = some tk) :
    j = i ∧ tk = s.ticketFor k ∨ j ≠ i ∧ (s.pc j).ticket = some tk := by
  by_cases hj : j = i
  · rw [hj, takeSlot_pc_self] at h
    exact Or.inl ⟨hj, (Option.some.inj h).symm⟩
  · rw [takeSlot_pc_of_ne hj] at h
    exact Or.inr ⟨hj, h⟩

/-- Nobody has a free slot. -/
theorem Inv.ne_of_freeSlot {s : State} (h : Inv s) {j : ℕ} {k : Fin procfsCtlSlots} {tk : Ticket}
    (hfree : s.freeSlot = some k) (htk : (s.pc j).ticket = some tk) : tk.slot ≠ k := by
  intro hslot
  have hinUse := (h.held j tk htk).1
  rw [hslot, freeSlot_inUse hfree] at hinUse
  cases hinUse

theorem Inv.takeSlot {s : State} (h : Inv s) {i : ℕ} {k : Fin procfsCtlSlots}
    (hpc : s.pc i = .checked) (hfree : s.freeSlot = some k) : Inv (s.takeSlot i k) := by
  have hseq : (nextSeq s.gCtlSeq).toNat = serial (2 ^ 32) (s.allocs + 1) := by
    rw [toNat_nextSeq, h.counter, Lib.serial_succ (by decide)]
  constructor
  case held =>
    intro j tk htk
    rw [takeSlot_slots]
    rcases takeSlot_ticket htk with ⟨-, rfl⟩ | ⟨-, htk⟩
    · rw [if_pos (show (s.ticketFor k).slot = k from rfl)]
      exact ⟨rfl, rfl⟩
    · rw [if_neg (h.ne_of_freeSlot hfree htk)]
      exact h.held j tk htk
  case excl =>
    refine h.excl.take i (fun j l hj hl => ?_) fun j l hj hl hl' => ?_
    · rw [takeSlot_pc_of_ne hj] at hl
      exact hl
    · rw [takeSlot_pc_self] at hl'
      rcases Option.map_eq_some_iff.mp hl with ⟨tk, htk, hslot⟩
      exact h.ne_of_freeSlot hfree htk (hslot.trans (Option.some.inj hl').symm)
  case used =>
    intro l hl
    rw [takeSlot_slots] at hl
    by_cases hlk : l = k
    · refine ⟨i, s.ticketFor k, by rw [takeSlot_pc_self]; rfl, hlk.symm⟩
    · rw [if_neg hlk] at hl
      rcases h.used l hl with ⟨j, tk, htk, hslot⟩
      have hj : j ≠ i := by
        intro heq
        rw [heq, hpc] at htk
        cases htk
      exact ⟨j, tk, by rw [takeSlot_pc_of_ne hj, htk], hslot⟩
  case counter => exact hseq
  case born =>
    intro l hl
    have hallocs : (s.takeSlot i k).allocs = s.allocs + 1 := rfl
    rw [takeSlot_slots] at hl ⊢
    split
    · exact ⟨Nat.succ_pos _, Nat.le_refl _, hseq⟩
    · rename_i hlk
      rw [if_neg hlk] at hl
      rcases h.born l hl with ⟨hpos, hle, heq⟩
      exact ⟨hpos, by omega, heq⟩
  case apart =>
    intro l l' hl hl' hbirth
    -- the new request has a number of its own
    have hold : ∀ l, l ≠ k → ((s.takeSlot i k).slots l).inUse = true →
        ((s.takeSlot i k).slots l).birth = (s.slots l).birth ∧ (s.slots l).inUse = true ∧
          (s.slots l).birth ≠ s.allocs + 1 := by
      intro l hlk hl
      rw [takeSlot_slots, if_neg hlk] at hl ⊢
      have hle := (h.born l hl).2.1
      exact ⟨rfl, hl, by omega⟩
    have hnew : ((s.takeSlot i k).slots k).birth = s.allocs + 1 := by
      rw [takeSlot_slots, if_pos rfl]
    by_cases hlk : l = k
    · by_cases hlk' : l' = k
      · rw [hlk, hlk']
      · rcases hold l' hlk' hl' with ⟨heq, -, hne⟩
        rw [hlk, hnew, heq] at hbirth
        exact absurd hbirth.symm hne
    · rcases hold l hlk hl with ⟨heq, hinUse, hne⟩
      by_cases hlk' : l' = k
      · rw [hlk', hnew, heq] at hbirth
        exact absurd hbirth hne
      · rcases hold l' hlk' hl' with ⟨heq', hinUse', -⟩
        rw [heq, heq'] at hbirth
        exact h.apart l l' hinUse hinUse' hbirth

/-- A slot after a call gave its own back. -/
theorem releaseSection_slots (s : State) (i : ℕ) (tk : Ticket) (result : Result)
    (l : Fin procfsCtlSlots) :
    (s.releaseSection i tk result).slots l =
      if l = tk.slot then { s.slots tk.slot with inUse := false } else s.slots l := by
  by_cases hl : l = tk.slot
  · rw [if_pos hl, hl]
    exact State.setSlot_slots_self s tk.slot _
  · rw [if_neg hl]
    exact State.setSlot_slots_of_ne hl s _

theorem releaseSection_pc_self (s : State) (i : ℕ) (tk : Ticket) (result : Result) :
    (s.releaseSection i tk result).pc i = .returned result :=
  State.setPc_pc_self _ i _

theorem releaseSection_pc_of_ne {i j : ℕ} (h : j ≠ i) (s : State) (tk : Ticket)
    (result : Result) : (s.releaseSection i tk result).pc j = s.pc j :=
  State.setPc_pc_of_ne h _ _

/-- Who has which slot after call `i` gave its own back. -/
theorem releaseSection_ticket {s : State} {i j : ℕ} {tk tk' : Ticket} {result : Result}
    (h : ((s.releaseSection i tk result).pc j).ticket = some tk') :
    j ≠ i ∧ (s.pc j).ticket = some tk' := by
  by_cases hj : j = i
  · rw [hj, releaseSection_pc_self] at h
    cases h
  · rw [releaseSection_pc_of_ne hj] at h
    exact ⟨hj, h⟩

/-- A slot that is still in use is not the one given back. -/
theorem releaseSection_inUse {s : State} {i : ℕ} {tk : Ticket} {result : Result}
    {l : Fin procfsCtlSlots} (h : ((s.releaseSection i tk result).slots l).inUse = true) :
    l ≠ tk.slot ∧ (s.releaseSection i tk result).slots l = s.slots l := by
  rw [releaseSection_slots] at h ⊢
  by_cases hl : l = tk.slot
  · rw [if_pos hl] at h
    cases h
  · exact ⟨hl, if_neg hl⟩

theorem Inv.release {s : State} (h : Inv s) {i : ℕ} {tk : Ticket} {result : Result}
    (hpc : s.pc i = .leaving tk result) : Inv (s.releaseSection i tk result) := by
  -- the slot that is given back is the one of this call
  have hown : (s.pc i).ticket = some tk := by
    rw [hpc]
    rfl
  constructor
  -- another call has another slot
  case held =>
    intro j tk' htk
    rcases releaseSection_ticket htk with ⟨hj, htk'⟩
    have hne : tk'.slot ≠ tk.slot := fun heq => hj (h.eq_of_slot htk' hown heq)
    rw [releaseSection_slots, if_neg hne]
    exact h.held j tk' htk'
  case excl =>
    refine h.excl.of_le fun j l hl => ?_
    rcases Option.map_eq_some_iff.mp hl with ⟨tk', htk, hslot⟩
    rw [(releaseSection_ticket htk).2]
    exact congrArg some hslot
  -- a slot that is still in use is that of another call
  case used =>
    intro l hl
    rcases releaseSection_inUse hl with ⟨hne, heq⟩
    rw [heq] at hl
    rcases h.used l hl with ⟨j, tk', htk, hslot'⟩
    have hj : j ≠ i := by
      intro hji
      rw [hji, hown] at htk
      exact hne (Option.some.inj htk ▸ hslot'.symm)
    exact ⟨j, tk', by rw [releaseSection_pc_of_ne hj, htk], hslot'⟩
  case counter => exact h.counter
  case born =>
    intro l hl
    have heq := (releaseSection_inUse hl).2
    rw [heq] at hl ⊢
    exact h.born l hl
  case apart =>
    intro l l' hl hl' hbirth
    have heq := (releaseSection_inUse hl).2
    have heq' := (releaseSection_inUse hl').2
    rw [heq] at hl hbirth
    rw [heq'] at hl' hbirth
    exact h.apart l l' hl hl' hbirth

/-! ## Every state -/

theorem Inv.step {args : ℕ → Args} {s s' : State} {a : Act} (h : Inv s)
    (hstep : step args s a = some s') : Inv s' := by
  rcases (step_rule hstep).kept with ⟨i, k, -, hpc, hfree, rfl⟩ |
    ⟨i, tk, result, -, hpc, rfl⟩ | hkept
  · exact h.takeSlot hpc hfree
  · exact h.release hpc
  · exact h.of_kept hkept

theorem inv_of_run {args : ℕ → Args} {acts : List Act} {s : State}
    (h : runFrom args acts = some s) : Inv s :=
  run_invariant inv_initial (fun _ _ _ hI hstep => hI.step hstep) h

/-- No request with a slot is so old that the numbers have come round since: fewer than
`2^32 - 1` requests got a slot after it. -/
def Recent (s : State) : Prop :=
  ∀ k, (s.slots k).inUse = true → s.allocs - (s.slots k).birth < 2 ^ 32 - 1

/-- Slots in use have numbers other than 0. -/
theorem Inv.seq_ne_zero {s : State} (h : Inv s) {k : Fin procfsCtlSlots}
    (hk : (s.slots k).inUse = true) : (s.slots k).seq ≠ 0 := by
  rcases h.born k hk with ⟨hpos, -, hseq⟩
  intro hzero
  have hserial := Lib.serial_pos (m := 2 ^ 32) hpos
  rw [← hseq, hzero] at hserial
  exact absurd hserial (by decide)

/-- Different slots in use have different numbers, as long as none is very old. -/
theorem Inv.eq_of_seq {s : State} (h : Inv s) (hrecent : Recent s) {k l : Fin procfsCtlSlots}
    (hk : (s.slots k).inUse = true) (hl : (s.slots l).inUse = true)
    (hseq : (s.slots k).seq = (s.slots l).seq) : k = l := by
  rcases h.born k hk with ⟨hkpos, hkle, hkseq⟩
  rcases h.born l hl with ⟨hlpos, hlle, hlseq⟩
  have hserial : serial (2 ^ 32) (s.slots k).birth = serial (2 ^ 32) (s.slots l).birth := by
    rw [← hkseq, ← hlseq, hseq]
  apply h.apart k l hk hl
  rcases Nat.le_total (s.slots k).birth (s.slots l).birth with hle | hle
  · have hold := hrecent k hk
    exact Lib.serial_inj hkpos hle (by omega) hserial
  · have hold := hrecent l hl
    exact (Lib.serial_inj hlpos hle (by omega) hserial.symm).symm

end ProcFS.Ctl
