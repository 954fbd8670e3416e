import ProcFS.Ctl.Life

/-!
# ProcFS.Ctl.Safety — what every interleaving keeps

What a call returns comes from one reply, with its own number, that arrived while the
call waited; replies that nobody waits for change nothing. A call that got a slot gives
it back once, and a call that sleeps when the daemon disconnects returns `ENOTCONN`.
The bytes that a successful call returns are those of its reply, provided that replies
carry as many bytes as their headers say.

* `sourced_of_run`: every answer and every success has its origin.
* `completes_once`: a call is completed by one reply at most.
* `channel_safe`: the promises of the channel, in every interleaving.
* `returned_bytes_fromReply`: where the bytes come from that a call returns.
-/

namespace ProcFS.Ctl

variable {args : ℕ → Args}

/-! ## Whole lives -/

variable {i : ℕ} {tk : Ticket} {s : State} {acts : List Act}

/-- What every step of a life keeps, whole runs keep. -/
theorem life_of_run {P : Life → Prop} {t s : State} {cs : List Act}
    (hP : ∀ a l l', P l → LifeStep (args i).outcap i a l l' → P l') (hinv : Inv t)
    (h : run (step args) t cs = some s) (ht : P (t.life i)) : P (s.life i) := by
  have hboth : Inv s ∧ P (s.life i) := by
    refine run_invariant (I := fun s => Inv s ∧ P (s.life i)) ⟨hinv, ht⟩ ?_ h
    rintro u a u' ⟨hu, hPu⟩ hstep
    exact ⟨hu.step hstep, hP a _ _ hPu ((step_rule hstep).life hu i)⟩
  exact hboth.2

/-- How far a call is. -/
def Life.phase : Life → ℕ
  | .unheard => 0
  | .pending .. => 1
  | .answered .. => 2
  | .decided .. => 3
  | .refused _ | .finished _ => 4

theorem LifeStep.phase_le {outcap i : ℕ} {a : Act} {l l' : Life} (h : LifeStep outcap i a l l') :
    l.phase ≤ l'.phase := by
  cases h <;> simp [Life.phase]

/-- The slot of a call, in its life. -/
def Life.ticket : Life → Option Ticket
  | .pending tk _ | .answered tk _ _ _ _ | .decided tk _ => some tk
  | _ => none

theorem ticket_life (s : State) (i : ℕ) : (s.life i).ticket = (s.pc i).ticket := by
  rw [State.life]
  cases s.pc i with
  | allocated tk | waiting tk | asleep tk =>
    simp only [lifeAt, Slot.life]
    split <;> rfl
  | _ => rfl

theorem Slot.eq_of_life_pending {sl : Slot} {tk tk' : Ticket} {sent sent' : Bool}
    (h : sl.life tk' sent' = .pending tk sent) : sl.done = false ∧ tk' = tk ∧ sent' = sent := by
  unfold Slot.life at h
  split at h
  · cases h
  · rename_i hdone
    exact ⟨Bool.eq_false_iff.mpr hdone, Life.pending.inj h⟩

/-- Where a call waits, its slot decides. -/
theorem lifeAt_pending {slots : Fin procfsCtlSlots → Slot} {p : Pc} {sent : Bool}
    (h : lifeAt slots p = .pending tk sent) :
    (slots tk.slot).done = false ∧ ∀ slots', lifeAt slots' p = (slots' tk.slot).life tk sent := by
  cases p with
  | allocated tk' | waiting tk' | asleep tk' =>
    rcases Slot.eq_of_life_pending h with ⟨hdone, rfl, rfl⟩
    exact ⟨hdone, fun slots' => rfl⟩
  | idle | checked | refused | leaving | returned => cases h

theorem finished_iff {result : Result} :
    s.life i = .finished result ↔ s.pc i = .returned result := by
  rw [State.life]
  cases s.pc i with
  | allocated tk | waiting tk | asleep tk =>
    simp only [lifeAt, Slot.life, reduceCtorEq, iff_false]
    split <;> simp
  | _ => simp [lifeAt]

theorem decided_iff {result : Result} :
    s.life i = .decided tk result ↔ s.pc i = .leaving tk result := by
  rw [State.life]
  cases s.pc i with
  | allocated tk | waiting tk | asleep tk =>
    simp only [lifeAt, Slot.life, reduceCtorEq, iff_false]
    split <;> simp
  | _ => simp [lifeAt]

/-! ## Where an answer comes from -/

/-- The packet that arrives after `bs` fills the mailbox of the call `i`, which waits
for a reply with its number. -/
def Completes (args : ℕ → Args) (bs : List Act) (resp : CtlResp) (payload : List UInt8)
    (i : ℕ) : Prop :=
  ∃ t tk sent len bytes, runFrom args bs = some t ∧ t.life i = .pending tk sent ∧
    tk.seq = resp.seq ∧
    (t.procfsCtlSend (.full resp payload)).life i = .answered tk sent resp.error len bytes

/-- An answer is that of a packet among the steps. -/
def Origin (args : ℕ → Args) (acts : List Act) (i : ℕ) (error : Int32) (len : ℕ)
    (bytes : List UInt8) : Prop :=
  ∃ bs cs resp payload, acts = bs ++ .send (.full resp payload) :: cs ∧
    Completes args bs resp payload i ∧ resp.magic = procfsCtlMagic ∧ error = resp.error ∧
    len = min resp.len.toNat procfsCtlMaxpayload ∧
    (len ≤ payload.length → bytes.take len = payload.take len)

theorem Origin.append {error : Int32} {len : ℕ} {bytes : List UInt8}
    (h : Origin args acts i error len bytes) (a : Act) :
    Origin args (acts ++ [a]) i error len bytes := by
  rcases h with ⟨bs, cs, resp, payload, rfl, h⟩
  exact ⟨bs, cs ++ [a], resp, payload, by simp, h⟩

/-- What is known of the answer and the result of a call: an answer is that of a packet
or of a disconnect, and a success is that of a packet. -/
structure Sourced (args : ℕ → Args) (acts : List Act) (i : ℕ) (l : Life) : Prop where
  answered : ∀ tk sent error len bytes, l = .answered tk sent error len bytes →
    error = enotconn ∨ Origin args acts i error len bytes
  success : ∀ out, (∃ tk, l = .decided tk (.ok out)) ∨ l = .finished (.ok out) →
    ∃ len bytes, Origin args acts i 0 len bytes ∧ out = bytes.take (min len (args i).outcap)

theorem Sourced.append {l : Life} (h : Sourced args acts i l) (a : Act) :
    Sourced args (acts ++ [a]) i l where
  answered := by
    intro tk sent error len bytes hl
    rcases h.answered tk sent error len bytes hl with hconn | horigin
    · exact Or.inl hconn
    · exact Or.inr (horigin.append a)
  success := by
    intro out hl
    rcases h.success out hl with ⟨len, bytes, horigin, hout⟩
    exact ⟨len, bytes, horigin.append a, hout⟩

/-- Nothing is claimed of a call without an answer and without a success. -/
theorem Sourced.of_none {l : Life}
    (hanswered : ∀ tk sent error len bytes, l ≠ .answered tk sent error len bytes)
    (hdecided : ∀ tk out, l ≠ .decided tk (.ok out)) (hfinished : ∀ out, l ≠ .finished (.ok out)) :
    Sourced args acts i l where
  answered := fun tk sent error len bytes hl => absurd hl (hanswered tk sent error len bytes)
  success := by
    rintro out (⟨tk, hl⟩ | hl)
    · exact absurd hl (hdecided tk out)
    · exact absurd hl (hfinished out)

/-- One step, seen from one call. -/
theorem Sourced.step {s s' : State} {a : Act} (hrun : runFrom args acts = some s)
    (hstep : step args s a = some s') (h : Sourced args acts i (s.life i)) :
    Sourced args (acts ++ [a]) i (s'.life i) := by
  have hlife := (step_rule hstep).life (inv_of_run hrun) i
  generalize hl : s.life i = l at hlife h
  generalize hl' : s'.life i = l' at hlife
  cases hlife with
  | same => exact h.append a
  | refuse | take | sent | unsent | unsentAnswered | giveUp =>
    exact .of_none (by simp) (by simp) (by simp)
  | @reply tk sent resp payload bytes hmagic hseq hbytes =>
    refine ⟨?_, by simp⟩
    intro tk' sent' error len bytes' heq
    cases heq
    have hsend : s' = s.procfsCtlSend (.full resp payload) := (Option.some.inj hstep).symm
    rw [hsend] at hl'
    exact Or.inr ⟨acts, [], resp, payload, rfl, ⟨s, tk, sent, _, _, hrun, hl, hseq, hl'⟩, hmagic,
      rfl, rfl, hbytes⟩
  | hangUp unit len bytes =>
    refine ⟨?_, by simp⟩
    intro tk' sent' error len' bytes' heq
    cases heq
    exact Or.inl rfl
  | @sentAnswered tk error len bytes =>
    refine ⟨?_, by simp⟩
    intro tk' sent' error' len' bytes' heq
    cases heq
    exact (h.append _).answered tk false error len bytes rfl
  | @collect _ tk error len bytes ha =>
    refine ⟨by simp, ?_⟩
    rintro out (⟨tk', heq⟩ | heq)
    · -- a success is an answer without an error
      have hresult : takeAnswer (args i).outcap error len bytes = .ok out :=
        (Life.decided.inj heq).2
      unfold takeAnswer at hresult
      split at hresult
      · rename_i herror
        cases hresult
        rcases h.answered tk true error len bytes rfl with hconn | horigin
        · rw [hconn] at herror
          exact absurd herror (by decide)
        · rw [herror] at horigin
          exact ⟨len, bytes, horigin.append a, rfl⟩
      · cases hresult
    · cases heq
  | @free tk result =>
    refine ⟨by simp, ?_⟩
    rintro out (⟨tk', heq⟩ | heq)
    · cases heq
    · cases heq
      exact (h.append _).success out (Or.inl ⟨tk, rfl⟩)

/-- In every state that is reached, every answer and every success has its origin. -/
theorem sourced_of_run (h : runFrom args acts = some s) (i : ℕ) :
    Sourced args acts i (s.life i) := by
  refine run_induction (P := fun acts s => Sourced args acts i (s.life i)) ?_ ?_ h
  · exact .of_none (by simp [State.life, lifeAt, initial]) (by simp [State.life, lifeAt, initial])
      (by simp [State.life, lifeAt, initial])
  · intro acts t a t' hrun hsourced hstep
    exact hsourced.step hrun hstep

/-- A call has succeeded with these bytes. -/
def Succeeds (s : State) (i : ℕ) (out : List UInt8) : Prop :=
  (∃ tk, s.pc i = .leaving tk (.ok out)) ∨ s.pc i = .returned (.ok out)

theorem Succeeds.origin {out : List UInt8} (h : Succeeds s i out)
    (hrun : runFrom args acts = some s) :
    ∃ len bytes, Origin args acts i 0 len bytes ∧ out = bytes.take (min len (args i).outcap) := by
  apply (sourced_of_run hrun i).success out
  simp only [decided_iff, finished_iff]
  exact h

/-! ## Slots are given back -/

/-- Nobody but the call itself makes it return. -/
theorem Step.finished_iff_of_ne {s s' : State} {a : Act} (hinv : Inv s) (h : Step args s a s')
    (ha : a ≠ .release i) :
    (∃ result, s'.life i = .finished result) ↔ ∃ result, s.life i = .finished result := by
  have hlife := h.life hinv i
  generalize s.life i = l at hlife ⊢
  generalize s'.life i = l' at hlife ⊢
  cases hlife with
  | same => exact Iff.rfl
  | free => exact absurd rfl ha
  | _ => simp

/-- A call that frees its slot had not returned, and now has. -/
theorem step_release {s s' : State} (h : step args s (.release i) = some s') :
    (∃ tk result, s.life i = .decided tk result) ∧ ∃ result, s'.life i = .finished result := by
  cases step_rule h with
  | @release _ tk result hpc =>
    refine ⟨⟨tk, result, decided_iff.mpr hpc⟩, result, ?_⟩
    exact finished_iff.mpr (releaseSection_pc_self s i tk result)

/-- A call has given its slot back once if it has returned from its wait, and not at
all before. -/
theorem count_release (h : runFrom args acts = some s) (i : ℕ) :
    (∃ result, s.life i = .finished result) ∧ acts.count (.release i) = 1 ∨
      (¬ ∃ result, s.life i = .finished result) ∧ acts.count (.release i) = 0 := by
  refine run_induction (P := fun acts s =>
    (∃ result, s.life i = .finished result) ∧ acts.count (.release i) = 1 ∨
      (¬ ∃ result, s.life i = .finished result) ∧ acts.count (.release i) = 0) ?_ ?_ h
  · exact Or.inr ⟨by simp [finished_iff, initial], rfl⟩
  · intro acts t a t' hrun ht hstep
    -- the call gives its slot back, which it does only once
    by_cases ha : a = .release i
    · rw [ha] at hstep ⊢
      rcases step_release hstep with ⟨⟨tk, result, hbefore⟩, hafter⟩
      rcases ht with ⟨⟨result', hfinished⟩, -⟩ | ⟨-, hcount⟩
      · rw [hbefore] at hfinished
        cases hfinished
      · exact Or.inl ⟨hafter, by simp [hcount]⟩
    · -- nobody but the call itself counts
      have hcount : (acts ++ [a]).count (.release i) = acts.count (.release i) := by
        simp [List.count_append, ha]
      rw [hcount, (step_rule hstep).finished_iff_of_ne (inv_of_run hrun) ha]
      exact ht

/-- A call that has a slot keeps it until it returns. -/
theorem ticket_of_run {t s : State} {cs : List Act} (hinv : Inv t)
    (h : run (step args) t cs = some s) (ht : (t.life i).ticket = some tk) :
    (s.life i).ticket = some tk ∨ ∃ result, s.life i = .finished result := by
  refine life_of_run (P := fun l => l.ticket = some tk ∨ ∃ result, l = .finished result)
    ?_ hinv h (Or.inl ht)
  intro a l l' hl hstep
  cases hstep with
  | same => exact hl
  | free => exact Or.inr ⟨_, rfl⟩
  | refuse | take => simp [Life.ticket] at hl
  | _ => exact Or.inl (by simpa [Life.ticket] using hl)

/-- The call whose step it is. -/
def Act.caller : Act → Option ℕ
  | .start i | .allocate i | .enqueue i _ | .look i | .wake i | .interrupt i | .release i => some i
  | .send _ | .connect _ | .disconnect _ => none

/-- The call `i` can return by steps of its own alone. -/
def CanReturn (args : ℕ → Args) (s : State) (i : ℕ) : Prop :=
  ∃ cs s' result, (∀ a ∈ cs, a.caller = some i) ∧ run (step args) s cs = some s' ∧
    s'.pc i = .returned result

theorem CanReturn.of_step {s t : State} {a : Act} (h : CanReturn args t i) (ha : a.caller = some i)
    (hstep : step args s a = some t) : CanReturn args s i := by
  rcases h with ⟨cs, s', result, hcs, hrun, hpc⟩
  refine ⟨a :: cs, s', result, ?_, run_cons.mpr ⟨t, hstep, hrun⟩, hpc⟩
  simpa [ha] using hcs

theorem canReturn_leaving {result : Result} (h : s.pc i = .leaving tk result) :
    CanReturn args s i := by
  have hstep : step args s (.release i) = some (s.releaseSection i tk result) := by
    simp only [step, h]
  exact ⟨[.release i], s.releaseSection i tk result, result, by simp [Act.caller],
    run_cons.mpr ⟨_, hstep, rfl⟩, releaseSection_pc_self s i tk result⟩

theorem canReturn_asleep (h : s.pc i = .asleep tk) : CanReturn args s i := by
  have hstep : step args s (.interrupt i) = some (s.interruptSection i (args i) tk) := by
    simp only [step, h]
  exact (canReturn_leaving (State.setPc_pc_self s i _)).of_step rfl hstep

theorem canReturn_waiting (h : s.pc i = .waiting tk) : CanReturn args s i := by
  have hstep : step args s (.look i) = some (s.lookSection i (args i) tk) := by
    simp only [step, h]
  refine CanReturn.of_step ?_ rfl hstep
  unfold State.lookSection
  split
  · exact canReturn_leaving (State.setPc_pc_self s i _)
  · exact canReturn_asleep (State.setPc_pc_self s i _)

/-- Whatever the others do, a call that has a slot can give it back. -/
theorem canReturn_of_ticket (h : (s.pc i).ticket = some tk) : CanReturn args s i := by
  cases hpc : s.pc i with
  | allocated tk =>
    have hstep : step args s (.enqueue i 0) =
        some ((s.enqueue (args i) tk).setPc i (.waiting tk)) := by
      simp only [step, hpc, if_true]
    exact (canReturn_waiting (State.setPc_pc_self _ i _)).of_step rfl hstep
  | waiting tk => exact canReturn_waiting hpc
  | asleep tk => exact canReturn_asleep hpc
  | leaving tk result => exact canReturn_leaving hpc
  | idle | checked | refused | returned => simp [hpc, Pc.ticket] at h

/-! ## A disconnect -/

/-- A disconnect answers every call that waits. -/
theorem disconnect_pending (hinv : Inv s) {sent : Bool} (h : s.life i = .pending tk sent)
    (unit : UInt32) :
    ∃ len bytes, (s.procfsCtlDisconnect unit).life i = .answered tk sent enotconn len bytes := by
  rcases lifeAt_pending h with ⟨hdone, hother⟩
  have hinUse : (s.slots tk.slot).inUse = true := by
    refine (hinv.held i tk ?_).1
    rw [← ticket_life, h]
    rfl
  refine ⟨(s.slots tk.slot).len, (s.slots tk.slot).buf.bytes, ?_⟩
  rw [life_disconnect, hother]
  exact Slot.hangUp_life hinUse hdone tk sent

/-- A call whose request was sent and that a disconnect answered returns `ENOTCONN`. -/
theorem enotconn_of_run {t s : State} {cs : List Act} {len : ℕ} {bytes : List UInt8} (hinv : Inv t)
    (h : run (step args) t cs = some s) (ht : t.life i = .answered tk true enotconn len bytes) :
    s.life i = .answered tk true enotconn len bytes ∨ s.life i = .decided tk (.error enotconn) ∨
      s.life i = .finished (.error enotconn) := by
  refine life_of_run (P := fun l => l = .answered tk true enotconn len bytes ∨
    l = .decided tk (.error enotconn) ∨ l = .finished (.error enotconn)) ?_ hinv h (Or.inl ht)
  intro a l l' hl hstep
  -- each step takes such a call on to the next of the three, or leaves it where it is
  rcases hl with rfl | rfl | rfl
  · cases hstep with
    | same => exact Or.inl rfl
    | collect => exact Or.inr (Or.inl rfl)
  · cases hstep with
    | same => exact Or.inr (Or.inl rfl)
    | free => exact Or.inr (Or.inr rfl)
  · cases hstep with
    | same => exact Or.inr (Or.inr rfl)

/-! ## One reply for one call -/

/-- A reply whose number no call with a slot has is not looked at. -/
theorem send_unmatched (hinv : Inv s) {packet : Packet}
    (h : ∀ i tk resp payload, (s.pc i).ticket = some tk → packet = .full resp payload →
      tk.seq ≠ resp.seq) : s.procfsCtlSend packet = s := by
  cases packet with
  | short bytes => rfl
  | full resp payload =>
    -- a slot that matches is in use, so a call has it, under the number of the reply
    have hnone : s.matching resp.seq = none := by
      apply Option.eq_none_iff_forall_ne_some.mpr
      intro k hmatch
      rcases matching_some hmatch with ⟨hopen, hseq⟩
      rw [Slot.isOpen, Bool.and_eq_true] at hopen
      rcases hinv.used k hopen.1 with ⟨i, tk, htk, hslot⟩
      have hnumber := (hinv.held i tk htk).2
      rw [hslot, hseq] at hnumber
      exact h i tk resp payload htk rfl hnumber.symm
    simp only [State.procfsCtlSend, hnone, ite_self]

/-- A call that waits has a slot, with its number. -/
theorem slot_of_pending (hinv : Inv s) {sent : Bool} (h : s.life i = .pending tk sent) :
    (s.pc i).ticket = some tk ∧ (s.slots tk.slot).inUse = true ∧
      (s.slots tk.slot).seq = tk.seq := by
  have htk : (s.pc i).ticket = some tk := by
    rw [← ticket_life, h]
    rfl
  exact ⟨htk, hinv.held i tk htk⟩

/-- A reply completes one call at most. -/
theorem Completes.unique {bs : List Act} {resp : CtlResp} {payload : List UInt8} {i j : ℕ}
    (hrecent : ∀ t, runFrom args bs = some t → Recent t) (hi : Completes args bs resp payload i)
    (hj : Completes args bs resp payload j) : i = j := by
  rcases hi with ⟨t, tk, sent, len, bytes, hrun, hpending, hseq, -⟩
  rcases hj with ⟨t', tk', sent', len', bytes', hrun', hpending', hseq', -⟩
  have htt : t = t' := Option.some.inj (hrun.symm.trans hrun')
  rw [← htt] at hpending'
  have hinv := inv_of_run hrun
  rcases slot_of_pending hinv hpending with ⟨htk, hinUse, hnumber⟩
  rcases slot_of_pending hinv hpending' with ⟨htk', hinUse', hnumber'⟩
  apply hinv.eq_of_slot htk htk'
  apply hinv.eq_of_seq (hrecent t hrun) hinUse hinUse'
  rw [hnumber, hnumber', hseq, hseq']

/-- A call that was completed is not completed again. -/
theorem Completes.not_again {bs bs' : List Act} {resp resp' : CtlResp}
    {payload payload' : List UInt8} (h : Completes args bs resp payload i)
    (hlater : bs ++ [.send (.full resp payload)] <+: bs') :
    ¬ Completes args bs' resp' payload' i := by
  rcases h with ⟨t, tk, sent, len, bytes, hrun, -, -, hafter⟩
  rintro ⟨t', tk', sent', len', bytes', hrun', hpending, -, -⟩
  rcases run_next hrun' hlater hrun with ⟨u, hstep, hu⟩
  rcases run_rest hrun' hlater hu with ⟨cs, hcs⟩
  have hsend : t.procfsCtlSend (.full resp payload) = u := Option.some.inj hstep
  -- the life of the call never gets back to waiting
  have hphase : 2 ≤ (t'.life i).phase := by
    refine life_of_run (P := fun l => 2 ≤ l.phase) ?_ (inv_of_run hu) hcs ?_
    · intro a l l' hl hstep
      exact Nat.le_trans hl hstep.phase_le
    · rw [← hsend, hafter]
      exact Nat.le_refl 2
  rw [hpending, Life.phase] at hphase
  omega

/-- A call is completed by one reply at most. -/
theorem completes_once {acts bs bs' cs cs' : List Act} {resp resp' : CtlResp}
    {payload payload' : List UInt8} (hacts : acts = bs ++ .send (.full resp payload) :: cs)
    (hacts' : acts = bs' ++ .send (.full resp' payload') :: cs')
    (h : Completes args bs resp payload i) (h' : Completes args bs' resp' payload' i) :
    bs = bs' := by
  have hpre : bs ++ [.send (.full resp payload)] <+: acts := ⟨cs, by simp [hacts]⟩
  have hpre' : bs' ++ [.send (.full resp' payload')] <+: acts := ⟨cs', by simp [hacts']⟩
  have hbs : bs <+: acts := ⟨_, hacts.symm⟩
  have hbs' : bs' <+: acts := ⟨_, hacts'.symm⟩
  rcases Nat.lt_trichotomy bs.length bs'.length with hlt | heq | hlt
  · have hlater := List.prefix_of_prefix_length_le hpre hbs' (by simpa using Nat.succ_le_of_lt hlt)
    exact absurd h' (h.not_again hlater)
  · exact (List.prefix_of_prefix_length_le hbs hbs' heq.le).eq_of_length heq
  · have hlater := List.prefix_of_prefix_length_le hpre' hbs (by simpa using Nat.succ_le_of_lt hlt)
    exact absurd h (h'.not_again hlater)

/-! ## The guarantees together -/

/-- What the channel promises, of a state and the steps that led to it. -/
structure ChannelSafe (args : ℕ → Args) (acts : List Act) (s : State) : Prop where
  /-- Every slot in use belongs to one call. -/
  owner : ∀ k, (s.slots k).inUse = true → ∃! i, (s.pc i).ticket.map Ticket.slot = some k
  /-- The slots in use have numbers other than 0. -/
  nonzero : ∀ k, (s.slots k).inUse = true → (s.slots k).seq ≠ 0
  /-- Their numbers are different. -/
  apart : ∀ k l, (s.slots k).inUse = true → (s.slots l).inUse = true →
    (s.slots k).seq = (s.slots l).seq → k = l
  /-- A call succeeds only through a reply with its number that arrived while it waited. -/
  success : ∀ i out, Succeeds s i out → ∃ bs cs resp payload,
    acts = bs ++ .send (.full resp payload) :: cs ∧ resp.error = 0 ∧
      Completes args bs resp payload i
  /-- A packet with a number that no call with a slot has changes nothing. -/
  unmatched : ∀ bs t packet, bs ++ [.send packet] <+: acts → runFrom args bs = some t →
    (∀ i tk resp payload, (t.pc i).ticket = some tk → packet = .full resp payload →
      tk.seq ≠ resp.seq) → t.procfsCtlSend packet = t
  /-- A reply completes one call at most. -/
  oneCall : ∀ bs resp payload i j, bs ++ [.send (.full resp payload)] <+: acts →
    Completes args bs resp payload i → Completes args bs resp payload j → i = j
  /-- A call is completed by one reply at most. -/
  oneReply : ∀ bs cs resp payload bs' cs' resp' payload' i,
    acts = bs ++ .send (.full resp payload) :: cs →
    acts = bs' ++ .send (.full resp' payload') :: cs' →
    Completes args bs resp payload i → Completes args bs' resp' payload' i → bs = bs'
  /-- A call that got a slot has it still, or has returned and freed it once. -/
  freed : ∀ bs t i tk, bs <+: acts → runFrom args bs = some t → (t.pc i).ticket = some tk →
    (s.pc i).ticket = some tk ∧ acts.count (.release i) = 0 ∨
      (∃ result, s.pc i = .returned result) ∧ acts.count (.release i) = 1
  /-- A call that has a slot can return, by its own steps. -/
  canReturn : ∀ i tk, (s.pc i).ticket = some tk → CanReturn args s i
  /-- A call that sleeps without a reply when a disconnect runs gets `ENOTCONN`. -/
  hungUp : ∀ bs t unit i tk, bs ++ [.disconnect unit] <+: acts → runFrom args bs = some t →
    t.pc i = .asleep tk → (t.slots tk.slot).done = false →
    (∃ len bytes, s.life i = .answered tk true enotconn len bytes) ∨
      s.pc i = .leaving tk (.error enotconn) ∨ s.pc i = .returned (.error enotconn)

/-- Every interleaving keeps the promises of the channel, if no request is outstanding
for so long that the numbers come round. -/
theorem channel_safe {acts : List Act} {s : State} (hrun : runFrom args acts = some s)
    (hrecent : ∀ bs t, bs <+: acts → runFrom args bs = some t → Recent t) :
    ChannelSafe args acts s := by
  have hinv := inv_of_run hrun
  constructor
  case owner =>
    intro k hk
    rcases hinv.used k hk with ⟨i, tk, htk, hslot⟩
    refine ⟨i, by simp [htk, hslot], ?_⟩
    intro j hj
    exact hinv.excl j i k hj (by simp [htk, hslot])
  case nonzero =>
    intro k hk
    exact hinv.seq_ne_zero hk
  case apart =>
    intro k l hk hl hseq
    exact hinv.eq_of_seq (hrecent acts s List.prefix_rfl hrun) hk hl hseq
  -- a success has one reply for its origin
  case success =>
    intro i out hout
    rcases hout.origin hrun with ⟨len, bytes, horigin, -⟩
    rcases horigin with ⟨bs, cs, resp, payload, hacts, hcompletes, -, herror, -⟩
    exact ⟨bs, cs, resp, payload, hacts, herror.symm, hcompletes⟩
  case unmatched =>
    intro bs t packet _ ht hpacket
    exact send_unmatched (inv_of_run ht) hpacket
  case oneCall =>
    intro bs resp payload i j hpre hi hj
    exact hi.unique (fun t ht => hrecent bs t ((List.prefix_append bs _).trans hpre) ht) hj
  case oneReply =>
    intro bs cs resp payload bs' cs' resp' payload' i hacts hacts' h h'
    exact completes_once hacts hacts' h h'
  -- the call still has its slot, or has given it back
  case freed =>
    intro bs t i tk hpre ht htk
    rcases run_rest hrun hpre ht with ⟨cs, hcs⟩
    rw [← ticket_life] at htk ⊢
    simp only [← finished_iff]
    have hcount := count_release hrun i
    rcases ticket_of_run (inv_of_run ht) hcs htk with hkeeps | hreturned
    · -- it has not returned while it has the slot
      rcases hcount with ⟨⟨result, hfinished⟩, -⟩ | ⟨-, hzero⟩
      · rw [hfinished] at hkeeps
        cases hkeeps
      · exact Or.inl ⟨hkeeps, hzero⟩
    · rcases hcount with ⟨-, hone⟩ | ⟨hnot, -⟩
      · exact Or.inr ⟨hreturned, hone⟩
      · exact absurd hreturned hnot
  case canReturn =>
    intro i tk htk
    exact canReturn_of_ticket htk
  -- the disconnect answers the call, and later steps do not change the answer
  case hungUp =>
    intro bs t unit i tk hpre ht hpc hdone
    rcases run_next hrun hpre ht with ⟨u, hstep, hu⟩
    rcases run_rest hrun hpre hu with ⟨cs, hcs⟩
    have hpending : t.life i = .pending tk true := by
      rw [State.life, hpc]
      exact Slot.life_of_not_done hdone tk true
    rcases disconnect_pending (inv_of_run ht) hpending unit with ⟨len, bytes, hhung⟩
    rw [show t.procfsCtlDisconnect unit = u from Option.some.inj hstep] at hhung
    rcases enotconn_of_run (inv_of_run hu) hcs hhung with h | h | h
    · exact Or.inl ⟨len, bytes, h⟩
    · exact Or.inr (Or.inl (decided_iff.mp h))
    · exact Or.inr (Or.inr (finished_iff.mp h))

/-- Every request that got a slot took a step for it. -/
theorem allocs_le_length (h : runFrom args acts = some s) : s.allocs ≤ acts.length := by
  refine run_induction (P := fun acts s => s.allocs ≤ acts.length) (Nat.le_refl 0) ?_ h
  intro acts t a t' _ ht hstep
  rw [List.length_append, List.length_singleton]
  rcases (step_rule hstep).kept with ⟨i, k, -, -, -, rfl⟩ | ⟨i, tk, result, -, -, rfl⟩ | hkept
  · exact Nat.succ_le_succ ht
  · exact Nat.le_succ_of_le ht
  · rw [hkept.allocs]
    exact Nat.le_succ_of_le ht

/-- Short runs do not come near the end of the numbers. -/
theorem recent_of_length {acts bs : List Act} {t : State} (hshort : acts.length < 2 ^ 32 - 1)
    (hpre : bs <+: acts) (h : runFrom args bs = some t) : Recent t := by
  intro k _
  have hle := allocs_le_length h
  have hlen := hpre.length_le
  omega

/-- Calls that ask for anything, with room for a whole payload. -/
def plainArgs (_ : ℕ) : Args := ⟨1, 0, 0, none, procfsCtlMaxpayload⟩

/-- A reply that reports success, with a header that says `len`. -/
def replyWith (seq len : UInt32) (payload : List UInt8) : Act :=
  .send (.full ⟨procfsCtlMagic, seq, 0, len⟩ payload)

/-- A call gets a slot, sends its request and goes to sleep. -/
def callUntilAsleep (i : ℕ) : List Act := [.start i, .allocate i, .enqueue i 0, .look i]

/-- Two calls are asleep; a reply with a number that nobody has, one for the second call,
twice, and then the daemon disconnects. -/
def twoCalls : List Act :=
  [.connect 1] ++ callUntilAsleep 0 ++ callUntilAsleep 1 ++
    [replyWith 99 0 [], replyWith 2 2 [104, 105], replyWith 2 1 [0], .disconnect 1,
      .look 0, .look 1, .release 0, .release 1]

theorem channel_safe_twoCalls : ∃ s, runFrom plainArgs twoCalls = some s ∧
    s.pc 0 = .returned (.error enotconn) ∧ s.pc 1 = .returned (.ok [104, 105]) ∧
    ChannelSafe plainArgs twoCalls s :=
  ⟨_, rfl, rfl, rfl, channel_safe rfl fun _ _ hpre h =>
    recent_of_length (by decide : twoCalls.length < 2 ^ 32 - 1) hpre h⟩

/-! ## The bytes of a reply -/

/-- Every reply that reports success carries the bytes that its header announces, up to
the size of a slot. -/
def WholeReplies (acts : List Act) : Prop :=
  ∀ resp payload, .send (.full resp payload) ∈ acts → resp.magic = procfsCtlMagic →
    resp.error = 0 → min resp.len.toNat procfsCtlMaxpayload ≤ payload.length

/-- The bytes come from the packet that completed the call. -/
def FromReply (args : ℕ → Args) (acts : List Act) (i : ℕ) (out : List UInt8) : Prop :=
  ∃ bs cs resp payload, acts = bs ++ .send (.full resp payload) :: cs ∧
    Completes args bs resp payload i ∧ out <+: payload

/-- In every run in which replies are whole, a call that succeeds returns bytes of the
packet that answered it. -/
theorem returned_bytes_fromReply {acts : List Act} {s : State} (hrun : runFrom args acts = some s)
    (hwhole : WholeReplies acts) {i : ℕ} {out : List UInt8} (hout : Succeeds s i out) :
    FromReply args acts i out := by
  rcases hout.origin hrun with ⟨len, bytes, horigin, rfl⟩
  rcases horigin with ⟨bs, cs, resp, payload, hacts, hcompletes, hmagic, herror, hlen, hbytes⟩
  refine ⟨bs, cs, resp, payload, hacts, hcompletes, ?_⟩
  have hmem : .send (.full resp payload) ∈ acts := by simp [hacts]
  have henough : len ≤ payload.length := hlen ▸ hwhole resp payload hmem hmagic herror.symm
  calc bytes.take (min len (args i).outcap)
      = (bytes.take len).take (args i).outcap := by rw [List.take_take, Nat.min_comm]
    _ = (payload.take len).take (args i).outcap := by rw [hbytes henough]
    _ = payload.take (min (args i).outcap len) := List.take_take
    _ <+: payload := List.take_prefix _ _

theorem returned_bytes_fromReply_twoCalls : ∃ s, runFrom plainArgs twoCalls = some s ∧
    Succeeds s 1 [104, 105] ∧ FromReply plainArgs twoCalls 1 [104, 105] := by
  have hwhole : WholeReplies twoCalls := by
    intro resp payload hmem _ _
    have hpackets : (resp, payload) ∈ [(⟨procfsCtlMagic, 99, 0, 0⟩, []),
        (⟨procfsCtlMagic, 2, 0, 2⟩, [104, 105]), (⟨procfsCtlMagic, 2, 0, 1⟩, [0])] := by
      simpa [twoCalls, callUntilAsleep, replyWith] using hmem
    simp only [List.mem_cons, Prod.mk.injEq, List.not_mem_nil, or_false] at hpackets
    rcases hpackets with ⟨rfl, rfl⟩ | ⟨rfl, rfl⟩ | ⟨rfl, rfl⟩ <;> decide
  exact ⟨_, rfl, Or.inr rfl, returned_bytes_fromReply rfl hwhole (Or.inr rfl)⟩

/-- The first call is answered with three bytes and returns; the second gets the same
slot, and a reply that announces three bytes and has none. -/
def beforeHollowReply : List Act :=
  [.connect 1] ++ callUntilAsleep 0 ++ [replyWith 1 3 [115, 101, 99], .look 0, .release 0] ++
    callUntilAsleep 1

def hollowReply : List Act := beforeHollowReply ++ replyWith 2 3 [] :: [.look 1, .release 1]

/-- The second call returns what the first was told. -/
theorem stale_bytes_returned : ∃ s, runFrom plainArgs hollowReply = some s ∧
    Succeeds s 1 [115, 101, 99] ∧ ¬ FromReply plainArgs hollowReply 1 [115, 101, 99] := by
  refine ⟨_, rfl, Or.inr rfl, ?_⟩
  rintro ⟨bs, cs, resp, payload, hacts, hcompletes, hprefix⟩
  have hhollow : Completes plainArgs beforeHollowReply ⟨procfsCtlMagic, 2, 0, 3⟩ [] 1 :=
    ⟨_, _, _, _, _, rfl, rfl, rfl, rfl⟩
  -- no other packet completes the call
  have hsame : bs = beforeHollowReply := completes_once hacts rfl hcompletes hhollow
  rw [hsame] at hacts
  have hpacket := List.append_cancel_left hacts
  cases hpacket
  exact absurd hprefix (by decide)

end ProcFS.Ctl
