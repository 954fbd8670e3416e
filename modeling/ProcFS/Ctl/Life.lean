import ProcFS.Ctl.Slots

/-!
# ProcFS.Ctl.Life — each call by itself

Seen from one call, the table of slots is a mailbox of its own: the call is pending
until a reply with its number or a disconnect fills the mailbox, or until it gives up;
then it has a result, and then it returns. Meanwhile its request is sent, or that fails.
`Life` is that machine. Every step of the channel, whoever makes it, is a step of the
machine of every call, or none: the calls do not get into each other's way although they
reuse each other's slots.

* `LifeStep.send`: a reply reaches the call that has the slot, and no other.
* `LifeStep.disconnect`: a disconnect answers every call that waits.
* `Step.life`: every step of the channel is a step of the life of every call.
-/

namespace ProcFS.Ctl

/-- The life of a call. `sent` says whether its request was enqueued. -/
inductive Life where
  /-- It has not got a slot. -/
  | unheard
  /-- It returned without ever having had a slot. -/
  | refused (error : Int32)
  /-- It has a slot and no answer. -/
  | pending (tk : Ticket) (sent : Bool)
  /-- There is an answer that it has not looked at. -/
  | answered (tk : Ticket) (sent : Bool) (error : Int32) (len : ℕ) (bytes : List UInt8)
  /-- It has a result, and still its slot. -/
  | decided (tk : Ticket) (result : Result)
  /-- It returned and has given its slot back. -/
  | finished (result : Result)

/-- What a call makes of an answer. -/
def takeAnswer (outcap : ℕ) (error : Int32) (len : ℕ) (bytes : List UInt8) : Result :=
  if error = 0 then .ok (bytes.take (min len outcap)) else .error error

/-- What a step may do to the call `i`. -/
inductive LifeStep (outcap : ℕ) (i : ℕ) : Act → Life → Life → Prop where
  | same {a l} : LifeStep outcap i a l l
  | refuse {a} (error) : LifeStep outcap i a .unheard (.refused error)
  | take (tk) : LifeStep outcap i (.allocate i) .unheard (.pending tk false)
  /-- A reply with the number of the call. Its bytes are there if there are as many as
  its header says. -/
  | reply {tk sent resp payload bytes} (hmagic : resp.magic = procfsCtlMagic)
      (hseq : tk.seq = resp.seq)
      (hbytes : min resp.len.toNat procfsCtlMaxpayload ≤ payload.length →
        bytes.take (min resp.len.toNat procfsCtlMaxpayload) =
          payload.take (min resp.len.toNat procfsCtlMaxpayload)) :
      LifeStep outcap i (.send (.full resp payload)) (.pending tk sent)
        (.answered tk sent resp.error (min resp.len.toNat procfsCtlMaxpayload) bytes)
  | hangUp {tk sent} (unit len bytes) :
      LifeStep outcap i (.disconnect unit) (.pending tk sent)
        (.answered tk sent enotconn len bytes)
  | sent {tk} : LifeStep outcap i (.enqueue i 0) (.pending tk false) (.pending tk true)
  /-- The answer was there before the request was sent. -/
  | sentAnswered {tk error len bytes} :
      LifeStep outcap i (.enqueue i 0) (.answered tk false error len bytes)
        (.answered tk true error len bytes)
  | unsent {tk e} (he : e ≠ 0) :
      LifeStep outcap i (.enqueue i e) (.pending tk false) (.decided tk (.error e))
  | unsentAnswered {tk error len bytes e} (he : e ≠ 0) :
      LifeStep outcap i (.enqueue i e) (.answered tk false error len bytes)
        (.decided tk (.error e))
  | giveUp {tk} :
      LifeStep outcap i (.interrupt i) (.pending tk true) (.decided tk (.error etimedout))
  | collect {a tk error len bytes} (ha : a = .look i ∨ a = .interrupt i) :
      LifeStep outcap i a (.answered tk true error len bytes)
        (.decided tk (takeAnswer outcap error len bytes))
  | free {tk result} : LifeStep outcap i (.release i) (.decided tk result) (.finished result)

/-! ## The life of a call in a state of the channel -/

/-- The mailbox that a slot is for the call that has it. -/
def Slot.life (sl : Slot) (tk : Ticket) (sent : Bool) : Life :=
  if sl.done then .answered tk sent sl.error sl.len sl.buf.bytes else .pending tk sent

/-- The life of a call, from where it is and what its slot holds. -/
def lifeAt (slots : Fin procfsCtlSlots → Slot) : Pc → Life
  | .idle | .checked => .unheard
  | .refused error => .refused error
  | .allocated tk => (slots tk.slot).life tk false
  | .waiting tk | .asleep tk => (slots tk.slot).life tk true
  | .leaving tk result => .decided tk result
  | .returned result => .finished result

def State.life (s : State) (i : ℕ) : Life := lifeAt s.slots (s.pc i)

/-- Only the slot of the call matters. -/
theorem lifeAt_congr {slots slots' : Fin procfsCtlSlots → Slot} {p : Pc}
    (h : ∀ tk, p.ticket = some tk → slots' tk.slot = slots tk.slot) :
    lifeAt slots' p = lifeAt slots p := by
  cases p with
  | allocated tk | waiting tk | asleep tk => simp only [lifeAt, h tk rfl]
  | _ => rfl

@[simp] theorem lifeAt_wake (slots : Fin procfsCtlSlots → Slot)
    (woken : Fin procfsCtlSlots → Bool) (p : Pc) :
    lifeAt slots (p.wake woken) = lifeAt slots p := by
  cases p with
  | asleep tk =>
    simp only [Pc.wake]
    split <;> rfl
  | _ => rfl

/-- A call that goes on does not touch the life of another. -/
theorem LifeStep.setPc {outcap i j : ℕ} {a : Act} {s t : State} {p : Pc}
    (hslots : t.slots = s.slots) (hpc : t.pc = s.pc)
    (h : j = i → LifeStep outcap j a (s.life j) (lifeAt s.slots p)) :
    LifeStep outcap j a (s.life j) ((t.setPc i p).life j) := by
  by_cases hj : j = i
  · have hlife : (t.setPc i p).life j = lifeAt s.slots p := by
      rw [State.life, hj, State.setPc_pc_self, State.setPc_slots, hslots]
    rw [hlife]
    exact h hj
  · have hlife : (t.setPc i p).life j = s.life j := by
      rw [State.life, State.setPc_pc_of_ne hj, State.setPc_slots, hslots, hpc, State.life]
    rw [hlife]
    exact .same

/-! ## Every step is a step of every life -/

theorem Slot.life_of_done {sl : Slot} (h : sl.done = true) (tk : Ticket) (sent : Bool) :
    sl.life tk sent = .answered tk sent sl.error sl.len sl.buf.bytes := if_pos h

theorem Slot.life_of_not_done {sl : Slot} (h : sl.done = false) (tk : Ticket) (sent : Bool) :
    sl.life tk sent = .pending tk sent := by
  rw [Slot.life, h]
  rfl

theorem Slot.outcome_of_done {sl : Slot} (h : sl.done = true) (outcap : ℕ) :
    sl.outcome outcap = takeAnswer outcap sl.error sl.len sl.buf.bytes := if_pos h

theorem Slot.outcome_of_not_done {sl : Slot} (h : sl.done = false) (outcap : ℕ) :
    sl.outcome outcap = .error etimedout := by
  rw [Slot.outcome, h]
  rfl

/-- The wait of a call ends: it takes the answer, or gives up. -/
theorem Slot.life_outcome {sl : Slot} {outcap i : ℕ} (tk : Ticket) :
    LifeStep outcap i (.interrupt i) (sl.life tk true) (.decided tk (sl.outcome outcap)) := by
  cases hdone : sl.done with
  | true =>
    rw [sl.life_of_done hdone, sl.outcome_of_done hdone]
    exact .collect (Or.inr rfl)
  | false =>
    rw [sl.life_of_not_done hdone, sl.outcome_of_not_done hdone]
    exact .giveUp

/-- `ctl_enqueuedata` succeeds. -/
theorem Slot.life_sent {sl : Slot} {outcap i : ℕ} (tk : Ticket) :
    LifeStep outcap i (.enqueue i 0) (sl.life tk false) (sl.life tk true) := by
  cases hdone : sl.done with
  | true =>
    rw [sl.life_of_done hdone, sl.life_of_done hdone]
    exact .sentAnswered
  | false =>
    rw [sl.life_of_not_done hdone, sl.life_of_not_done hdone]
    exact .sent

/-- `ctl_enqueuedata` fails: an answer that is there already is not looked at. -/
theorem Slot.life_unsent {sl : Slot} {outcap i : ℕ} {e : Int32} (he : e ≠ 0) (tk : Ticket) :
    LifeStep outcap i (.enqueue i e) (sl.life tk false) (.decided tk (.error e)) := by
  cases hdone : sl.done with
  | true =>
    rw [sl.life_of_done hdone]
    exact .unsentAnswered he
  | false =>
    rw [sl.life_of_not_done hdone]
    exact .unsent he

/-- The slot found for a reply waits for one, under that number. -/
theorem matching_some {s : State} {seq : UInt32} {k : Fin procfsCtlSlots}
    (h : s.matching seq = some k) : (s.slots k).isOpen = true ∧ (s.slots k).seq = seq := by
  simpa using List.find?_some h

/-- The bytes of a reply, if there are as many as its header says. -/
theorem Slot.answer_bytes (sl : Slot) {resp : CtlResp} {payload : List UInt8}
    (h : min resp.len.toNat procfsCtlMaxpayload ≤ payload.length) :
    (sl.answer resp payload).buf.bytes.take (min resp.len.toNat procfsCtlMaxpayload) =
      payload.take (min resp.len.toNat procfsCtlMaxpayload) := by
  rcases Nat.eq_zero_or_pos (min resp.len.toNat procfsCtlMaxpayload) with hzero | hpos
  · rw [hzero, List.take_zero, List.take_zero]
  · have hle : min resp.len.toNat procfsCtlMaxpayload ≤ procfsCtlMaxpayload := Nat.min_le_right _ _
    simp only [Slot.answer, if_pos (And.intro hpos h), SlotBuf.copyIn, List.take_take,
      Nat.min_eq_right hle]
    rw [List.take_append_of_le_length (by simp [h]), List.take_take, Nat.min_self]

/-- A reply reaches the call that has the slot, and no other. -/
theorem LifeStep.send {outcap j : ℕ} {s : State} (hinv : Inv s) {resp : CtlResp}
    {payload : List UInt8} {k : Fin procfsCtlSlots} (hmagic : resp.magic = procfsCtlMagic)
    (hmatch : s.matching resp.seq = some k) :
    LifeStep outcap j (.send (.full resp payload)) (s.life j)
      (((s.setSlot k ((s.slots k).answer resp payload)).wakeup (· == k)).life j) := by
  rcases matching_some hmatch with ⟨hopen, hseq⟩
  have hnotdone : (s.slots k).done = false := by
    rw [Slot.isOpen, Bool.and_eq_true, Bool.not_eq_true'] at hopen
    exact hopen.2
  rw [State.life, State.life, State.wakeup_pc, State.wakeup_slots, lifeAt_wake, State.setSlot_pc]
  -- what happens to a call that has slot `k` and waits
  have hwaits : ∀ (tk : Ticket) (sent : Bool), (s.pc j).ticket = some tk →
      LifeStep outcap j (.send (.full resp payload)) ((s.slots tk.slot).life tk sent)
        (((s.setSlot k ((s.slots k).answer resp payload)).slots tk.slot).life tk sent) := by
    intro tk sent htk
    by_cases hslot : tk.slot = k
    · have hnumber : tk.seq = resp.seq := by
        rw [← (hinv.held j tk htk).2, hslot, hseq]
      rw [hslot, State.setSlot_slots_self, Slot.life_of_not_done hnotdone]
      exact .reply hmagic hnumber fun hlen => (s.slots k).answer_bytes hlen
    · rw [State.setSlot_slots_of_ne hslot]
      exact .same
  cases hpc : s.pc j with
  | allocated tk | waiting tk | asleep tk => exact hwaits tk _ (by rw [hpc]; rfl)
  | _ => exact .same

/-- What a disconnect makes of the mailbox of a call that waits. -/
theorem Slot.hangUp_life {sl : Slot} (hinUse : sl.inUse = true) (hdone : sl.done = false)
    (tk : Ticket) (sent : Bool) :
    sl.hangUp.life tk sent = .answered tk sent enotconn sl.len sl.buf.bytes := by
  have hhung : sl.hangUp = { sl with error := enotconn, done := true } := by
    simp [Slot.hangUp, Slot.isOpen, hdone, hinUse]
  rw [hhung]
  exact Slot.life_of_done rfl tk sent

theorem life_disconnect (s : State) (unit : UInt32) (j : ℕ) :
    (s.procfsCtlDisconnect unit).life j = lifeAt (fun k => (s.slots k).hangUp) (s.pc j) := by
  rw [State.life, State.procfsCtlDisconnect, State.wakeup_pc, State.wakeup_slots, lifeAt_wake]

/-- A disconnect answers every call that waits. -/
theorem LifeStep.disconnect {outcap j : ℕ} {s : State} (hinv : Inv s) (unit : UInt32) :
    LifeStep outcap j (.disconnect unit) (s.life j) ((s.procfsCtlDisconnect unit).life j) := by
  have hwaits : ∀ (tk : Ticket) (sent : Bool), (s.pc j).ticket = some tk →
      LifeStep outcap j (.disconnect unit) ((s.slots tk.slot).life tk sent)
        ((s.slots tk.slot).hangUp.life tk sent) := by
    intro tk sent htk
    have hinUse := (hinv.held j tk htk).1
    -- an answer that is there already stays
    cases hdone : (s.slots tk.slot).done with
    | true =>
      have hsame : (s.slots tk.slot).hangUp = s.slots tk.slot := by
        simp [Slot.hangUp, Slot.isOpen, hdone]
      rw [hsame]
      exact .same
    | false =>
      rw [Slot.life_of_not_done hdone, Slot.hangUp_life hinUse hdone]
      exact .hangUp unit _ _
  rw [life_disconnect, State.life]
  cases hpc : s.pc j with
  -- only a call that waits has a mailbox
  | allocated tk | waiting tk | asleep tk => exact hwaits tk _ (by rw [hpc]; rfl)
  | _ => exact .same

/-- Every step of the channel is a step of the life of every call. -/
theorem Step.life {args : ℕ → Args} {s s' : State} {a : Act} (hinv : Inv s)
    (h : Step args s a s') (j : ℕ) : LifeStep (args j).outcap j a (s.life j) (s'.life j) := by
  -- the life of a call that is where it is
  have hat : ∀ {i p}, s.pc i = p → s.life i = lifeAt s.slots p := by
    intro i p hpc
    rw [State.life, hpc]
  cases h with
  | start hpc hconn =>
    refine .setPc rfl rfl fun hj => ?_
    rw [hj, hat hpc]
    exact .same
  | startRefused hpc hconn =>
    refine .setPc rfl rfl fun hj => ?_
    rw [hj, hat hpc]
    exact .refuse enotconn
  | @allocate i k hpc hfree =>
    by_cases hj : j = i
    · have hlife : (s.takeSlot i k).life i = .pending (s.ticketFor k) false := by
        have hdone : ((s.takeSlot i k).slots k).done = false := by
          rw [takeSlot_slots, if_pos rfl]
        rw [State.life, takeSlot_pc_self]
        exact Slot.life_of_not_done hdone _ _
      rw [hj, hat hpc, hlife]
      exact .take _
    · -- the slot that was taken is nobody else's
      have hlife : (s.takeSlot i k).life j = s.life j := by
        rw [State.life, takeSlot_pc_of_ne hj, State.life]
        refine lifeAt_congr fun tk htk => ?_
        rw [takeSlot_slots, if_neg (hinv.ne_of_freeSlot hfree htk)]
      rw [hlife]
      exact .same
  | allocateBusy hpc hfree =>
    refine .setPc rfl rfl fun hj => ?_
    rw [hj, hat hpc]
    exact .refuse ebusy
  | enqueue hpc =>
    refine .setPc rfl rfl fun hj => ?_
    rw [hj, hat hpc]
    exact Slot.life_sent _
  | enqueueFail e hpc he =>
    refine .setPc rfl rfl fun hj => ?_
    rw [hj, hat hpc]
    exact Slot.life_unsent he _
  | sleep hpc hdone =>
    refine .setPc rfl rfl fun hj => ?_
    rw [hj, hat hpc]
    exact .same
  | @collect i tk hpc hdone =>
    refine .setPc rfl rfl fun hj => ?_
    rw [hj, hat hpc]
    simp only [lifeAt, Slot.life_of_done hdone, Slot.outcome_of_done hdone]
    exact .collect (Or.inl rfl)
  | wake hpc =>
    refine .setPc rfl rfl fun hj => ?_
    rw [hj, hat hpc]
    exact .same
  | interrupt hpc =>
    refine .setPc rfl rfl fun hj => ?_
    rw [hj, hat hpc]
    exact Slot.life_outcome _
  | @release i tk result hpc =>
    by_cases hj : j = i
    · have hlife : (s.releaseSection i tk result).life i = .finished result := by
        rw [State.life, releaseSection_pc_self]
        rfl
      rw [hj, hat hpc, hlife]
      exact .free
    · have hlife : (s.releaseSection i tk result).life j = s.life j := by
        rw [State.life, releaseSection_pc_of_ne hj, State.life]
        refine lifeAt_congr fun tk' htk => ?_
        have hne : tk'.slot ≠ tk.slot := by
          intro hslot
          exact hj (hinv.eq_of_slot htk (by rw [hpc]; rfl) hslot)
        rw [releaseSection_slots, if_neg hne]
      rw [hlife]
      exact .same
  | sendIgnored => exact .same
  | send hmagic hmatch => exact .send hinv hmagic hmatch
  | connect => exact .same
  | disconnect => exact .disconnect hinv _

end ProcFS.Ctl
