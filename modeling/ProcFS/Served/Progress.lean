import ProcFS.Served.Answers

/-!
# ProcFS.Served.Progress — no request is lost

A call that sleeps has no answer yet: no `wakeup` comes too early. Its request lies at a daemon that
is connected, and that daemon alone can get it to return: it answers what lies before the request
in its buffer, and then the request.

* `WaitsAt.daemon_step`: a daemon that a call waits for has something to do.
* `WaitsAt.answered`: it gets to the request of the call.
* `asleep_served`: so a call that sleeps can be served.
-/

namespace ProcFS.Served

open Ctl (Args CtlReq CtlResp Packet Pc Ticket Life LifeStep procfsCtlMaxpayload)
open Daemon (World serveStep)

variable {w : World} {args : ℕ → Args} {s s' : System}

/-! ## No lost wakeup -/

/-- The slot of a call that sleeps has no answer. -/
def Unanswered (c : Ctl.State) : Prop :=
  ∀ i tk, c.pc i = .asleep tk → (c.slots tk.slot).done = false

variable {i : ℕ} {tk : Ticket}

/-- A call goes on, but not to sleep. -/
theorem Unanswered.setPc {c c' : Ctl.State} (h : Unanswered c) (hslots : c'.slots = c.slots)
    (hpc : c'.pc = c.pc) {p : Pc} (hp : ∀ tk, p ≠ .asleep tk) : Unanswered (c'.setPc i p) := by
  intro j tk hj
  by_cases hji : j = i
  · rw [hji, Ctl.State.setPc_pc_self] at hj
    exact absurd hj (hp tk)
  · rw [Ctl.State.setPc_pc_of_ne hji, hpc] at hj
    rw [Ctl.State.setPc_slots, hslots]
    exact h j tk hj

/-- A call that sleeps after a `wakeup` slept before, on a slot that was not meant. -/
theorem asleep_of_wake {woken : Fin Ctl.procfsCtlSlots → Bool} {p : Pc}
    (h : p.wake woken = .asleep tk) : p = .asleep tk ∧ woken tk.slot = false := by
  cases p with
  | asleep tk' =>
    rw [Pc.wake] at h
    split at h
    · cases h
    · rename_i hwoken
      cases h
      exact ⟨rfl, Bool.eq_false_iff.mpr hwoken⟩
  | _ => cases h

theorem Unanswered.step {c c' : Ctl.State} {b : Ctl.Act} (h : Unanswered c) (hinv : Ctl.Inv c)
    (hstep : Ctl.step args c b = some c') : Unanswered c' := by
  cases Ctl.step_rule hstep with
  | start | startRefused | allocateBusy | enqueue | enqueueFail | collect | wake | interrupt =>
    exact h.setPc rfl rfl (by simp)
  | @sleep i tk hpc hdone =>
    intro j tk' hj
    by_cases hji : j = i
    · rw [hji, Ctl.State.setPc_pc_self] at hj
      cases hj
      exact hdone
    · rw [Ctl.State.setPc_pc_of_ne hji] at hj
      exact h j tk' hj
  | @allocate i k hpc hfree =>
    intro j tk' hj
    by_cases hji : j = i
    · rw [hji, Ctl.takeSlot_pc_self] at hj
      cases hj
    · rw [Ctl.takeSlot_pc_of_ne hji] at hj
      have htk : (c.pc j).ticket = some tk' := by
        rw [hj]
        rfl
      rw [Ctl.takeSlot_slots, if_neg (hinv.ne_of_freeSlot hfree htk)]
      exact h j tk' hj
  | @release i tk result hpc =>
    intro j tk' hj
    by_cases hji : j = i
    · rw [hji, Ctl.releaseSection_pc_self] at hj
      cases hj
    · rw [Ctl.releaseSection_pc_of_ne hji] at hj
      rw [Ctl.releaseSection_slots]
      split
      · rename_i hslot
        rw [← hslot]
        exact h j tk' hj
      · exact h j tk' hj
  | sendIgnored => exact h
  | @send resp payload k hmagic hmatch =>
    intro j tk' hj
    rw [Ctl.State.wakeup_pc, Ctl.State.setSlot_pc] at hj
    rcases asleep_of_wake hj with ⟨hj, hwoken⟩
    have hne : tk'.slot ≠ k := by
      rw [beq_eq_false_iff_ne] at hwoken
      exact hwoken
    rw [Ctl.State.wakeup_slots, Ctl.State.setSlot_slots_of_ne hne]
    exact h j tk' hj
  | connect => exact h
  | disconnect =>
    intro j tk' hj
    have hwake : (c.pc j).wake (fun k => (c.slots k).isOpen) = .asleep tk' := hj
    rcases asleep_of_wake hwake with ⟨hasleep, hwoken⟩
    -- but every call that sleeps is woken
    have hinUse : (c.slots tk'.slot).inUse = true := by
      refine (hinv.held j tk' ?_).1
      rw [hasleep]
      rfl
    rw [Ctl.Slot.isOpen, hinUse, h j tk' hasleep] at hwoken
    cases hwoken

theorem unanswered_of_run {acts : List Act} (h : runFrom w args acts = some s) :
    Unanswered s.chan := by
  have hboth : Ctl.Inv s.chan ∧ Unanswered s.chan := by
    refine run_invariant (I := fun s => Ctl.Inv s.chan ∧ Unanswered s.chan)
      ⟨Ctl.inv_initial, ?_⟩ ?_ h
    · intro i tk hi
      cases hi
    · -- a step that is not one of the channel leaves all calls where they are
      rintro t a t' ⟨hinv, ht⟩ hstep
      have hrule := step_rule hstep
      refine ⟨hrule.inv hinv, ?_⟩
      rcases hrule.chan with ⟨hsame, -⟩ | ⟨b, -, hchan⟩
      · rw [hsame]
        exact ht
      · exact ht.step hinv hchan
  exact hboth.2

/-! ## The steps of a daemon -/

/-- The steps that a daemon has to make before it has answered all it has. -/
def Peer.work (p : Peer) : ℕ := 2 * p.queue.length + p.todo.length

/-- The call waits, and the daemon has its letter. -/
structure WaitsAt (s : System) (unit : UInt32) (i : ℕ) (tk : Ticket) (l : Letter) : Prop where
  pending : s.chan.life i = .pending tk true
  posted : s.HasAt unit l
  birth : l.birth = (s.chan.slots tk.slot).birth

/-- What a daemon sends leaves the slots with their owners. -/
theorem kept_send (c : Ctl.State) (packet : Packet) : Ctl.Kept c (c.procfsCtlSend packet) := by
  have hstep : Ctl.step Ctl.plainArgs c (.send packet) = some (c.procfsCtlSend packet) := rfl
  rcases (Ctl.step_rule hstep).kept with ⟨i, k, hb, -⟩ | ⟨i, tk, result, hb, -⟩ | hkept
  · cases hb
  · cases hb
  · exact hkept

/-- A daemon does not let requests grow old. -/
theorem Current.of_kept (h : Current s) (hkept : Ctl.Kept s.chan s'.chan)
    (hposted : ∀ unit l, s'.HasAt unit l → s.HasAt unit l) : Current s' where
  slots := by
    intro k hk
    rw [hkept.inUse] at hk
    rw [hkept.birth, hkept.allocs]
    exact h.slots k hk
  letters := by
    intro unit l hl
    rw [hkept.allocs]
    exact h.letters unit l (hposted unit l hl)

/-- Letters come from calls only. -/
theorem hasAt_of_daemon {a : Act} {unit : UInt32} (h : Step w args s a s')
    (ha : a = .recv unit ∨ a = .reply unit) {u : UInt32} {l : Letter} (hl : s'.HasAt u l) :
    s.HasAt u l := by
  rcases h.hasAt hl with hl | ⟨i, tk, henqueue, -⟩
  · exact hl
  · rcases ha with rfl | rfl
    · cases henqueue
    · cases henqueue

/-- The daemon takes a letter. -/
theorem WaitsAt.recv {unit : UInt32} {l l' : Letter} {rest : List Letter}
    (h : WaitsAt s unit i tk l) (hwf : WellFormed w args) (hg : Good w args s)
    (hp : s.peers unit = some ⟨l' :: rest, []⟩) : WaitsAt (s.take w unit l' rest) unit i tk l := by
  refine ⟨h.pending, ⟨_, Function.update_self unit _ s.peers, ?_⟩, h.birth⟩
  rcases h.posted with ⟨p, hp', hmem⟩
  rw [hp] at hp'
  cases hp'
  rcases hmem with hmem | ⟨packet, hmem⟩
  · rcases List.mem_cons.mp hmem with rfl | hmem
    · -- it is the letter of the call, and the daemon will answer it
      rcases hg.genuine unit l h.posted with ⟨tk', hl⟩
      rw [hl.rbuf, sends_request hwf]
      exact Or.inr ⟨_, List.mem_cons_self⟩
    · exact Or.inl hmem
  · cases hmem

/-- The daemon sends a reply: it is the answer to the call, or the call goes on waiting. -/
theorem WaitsAt.reply {unit : UInt32} {i : ℕ} {tk : Ticket} {l l' : Letter} {queue : List Letter}
    {packet : Packet} {rest : List (Letter × Packet)} (h : WaitsAt s unit i tk l)
    (hwf : WellFormed w args) (hg : Good w args s) (hcurrent : Current s)
    (hp : s.peers unit = some ⟨queue, (l', packet) :: rest⟩) :
    Answered w args (s.put unit packet ⟨queue, rest⟩) i tk true ∨
      WaitsAt (s.put unit packet ⟨queue, rest⟩) unit i tk l := by
  have hdue : Due w args s l' packet := hg.due unit _ l' packet hp List.mem_cons_self
  by_cases hbirth : l'.birth = l.birth
  · exact Or.inl (hdue.answered hwf hg.inv hcurrent.slots h.pending (hbirth.trans h.birth) rfl)
  · refine Or.inr ⟨?_, ⟨_, Function.update_self unit _ s.peers, ?_⟩, ?_⟩
    · have hstep : Step w args s (.reply unit) (s.put unit packet ⟨queue, rest⟩) := .reply hp
      rcases hstep.life hg.inv i with hsame | ⟨b, hb, hlife⟩
      · exact hsame.trans h.pending
      · rw [h.pending] at hlife
        generalize (s.put unit packet ⟨queue, rest⟩).chan.life i = life at hlife ⊢
        cases hlife with
        | same => rfl
        | reply hmagic hseq hbytes =>
          -- the reply would be to a letter with the number of the call
          simp only [System.chanAct, hp, Option.bind_some, List.head?_cons, Option.map_some] at hb
          cases hb
          rcases hdue with ⟨tk', n, hl, -, hpacket⟩
          cases hpacket
          have hold : s.chan.allocs - l'.birth < 2 ^ 32 - 1 :=
            hcurrent.letters unit l' ⟨_, hp, Or.inr ⟨_, List.mem_cons_self⟩⟩
          rcases Ctl.slot_of_pending hg.inv h.pending with ⟨htk, -, -⟩
          rcases hl.eq_of_seq hg.inv hcurrent.slots hold htk hseq with ⟨-, -, hsame⟩
          exact absurd (h.birth.trans hsame).symm hbirth
        | _ =>
          simp only [System.chanAct, hp] at hb
          cases hb
    · rcases h.posted with ⟨p, hp', hmem⟩
      rw [hp] at hp'
      cases hp'
      rcases hmem with hmem | ⟨packet', hmem⟩
      · exact Or.inl hmem
      · rcases List.mem_cons.mp hmem with heq | hmem
        · cases heq
          exact absurd rfl hbirth
        · exact Or.inr ⟨packet', hmem⟩
    · exact h.birth.trans ((kept_send s.chan packet).birth tk.slot).symm

/-- As long as the call waits, its daemon has something to do, and it gets on with it. -/
theorem WaitsAt.daemon_step {unit : UInt32} {l : Letter} {p : Peer} (h : WaitsAt s unit i tk l)
    (hwf : WellFormed w args) (hg : Good w args s) (hcurrent : Current s)
    (hp : s.peers unit = some p) :
    ∃ a s', (a = .recv unit ∨ a = .reply unit) ∧ step w args s a = some s' ∧ Current s' ∧
      (Answered w args s' i tk true ∨
        WaitsAt s' unit i tk l ∧ ∃ p', s'.peers unit = some p' ∧ p'.work < p.work) := by
  rcases p with ⟨queue, _ | ⟨⟨l', packet⟩, rest⟩⟩
  · -- the daemon is in `recv`
    rcases queue with _ | ⟨l', rest⟩
    · rcases h.posted with ⟨p, hp', hmem⟩
      rw [hp] at hp'
      cases hp'
      rcases hmem with hmem | ⟨packet, hmem⟩
      · cases hmem
      · cases hmem
    · have hstep : step w args s (.recv unit) = some (s.take w unit l' rest) := by
        simp only [step, hp]
      have hposted := fun u l => hasAt_of_daemon (u := u) (l := l) (step_rule hstep) (Or.inl rfl)
      refine ⟨.recv unit, _, Or.inl rfl, hstep, ?_, Or.inr ⟨h.recv hwf hg hp, ?_⟩⟩
      · exact hcurrent.of_kept (Ctl.Kept.of_eq rfl rfl rfl rfl) hposted
      · refine ⟨_, Function.update_self unit _ s.peers, ?_⟩
        rcases hg.genuine unit l' ⟨_, hp, Or.inl List.mem_cons_self⟩ with ⟨tk', hl'⟩
        simp only [Peer.work, hl'.rbuf, sends_request hwf, List.length_map, List.length_cons,
          List.length_nil]
        omega
  · -- it has found the answer to a letter
    have hstep : step w args s (.reply unit) = some (s.put unit packet ⟨queue, rest⟩) := by
      simp only [step, hp]
    have hposted := fun u l => hasAt_of_daemon (u := u) (l := l) (step_rule hstep) (Or.inr rfl)
    refine ⟨.reply unit, _, Or.inr rfl, hstep, hcurrent.of_kept (kept_send s.chan packet) hposted,
      ?_⟩
    rcases h.reply hwf hg hcurrent hp with hanswered | hwaits
    · exact Or.inl hanswered
    · refine Or.inr ⟨hwaits, _, Function.update_self unit _ s.peers, ?_⟩
      simp only [Peer.work, List.length_cons]
      omega

/-- The daemon gets to the letter. The induction is on what it still has to do. -/
theorem WaitsAt.answered {unit : UInt32} {i : ℕ} {tk : Ticket} {l : Letter}
    (hwf : WellFormed w args) (n : ℕ) {s : System} {p : Peer} (h : WaitsAt s unit i tk l)
    (hg : Good w args s) (hcurrent : Current s) (hp : s.peers unit = some p) (hn : p.work ≤ n) :
    ∃ cs s', (∀ a ∈ cs, a = .recv unit ∨ a = .reply unit) ∧ run (step w args) s cs = some s' ∧
      Answered w args s' i tk true := by
  induction n generalizing s p with
  | zero =>
    -- a call that waits leaves its daemon something to do, and there is nothing to do
    rcases h.daemon_step hwf hg hcurrent hp with
      ⟨a, s', ha, hstep, -, hanswered | ⟨-, p', -, hless⟩⟩
    · exact ⟨[a], s', by simpa using ha, run_cons.mpr ⟨s', hstep, rfl⟩, hanswered⟩
    · omega
  | succ n ih =>
    rcases h.daemon_step hwf hg hcurrent hp with
      ⟨a, s', ha, hstep, hcurrent', hanswered | ⟨hwaits, p', hp', hless⟩⟩
    · -- this step was the reply to the call
      exact ⟨[a], s', by simpa using ha, run_cons.mpr ⟨s', hstep, rfl⟩, hanswered⟩
    · -- or the daemon has got on with its work
      have hg' : Good w args s' := hg.step hwf hcurrent (step_rule hstep)
      rcases ih hwaits hg' hcurrent' hp' (by omega) with ⟨cs, s'', hcs, hrun, hanswered⟩
      refine ⟨a :: cs, s'', ?_, run_cons.mpr ⟨s', hstep, hrun⟩, hanswered⟩
      intro b hb
      rcases List.mem_cons.mp hb with rfl | hb
      · exact ha
      · exact hcs b hb

/-! ## A call that sleeps -/

/-- Where a call is that has sent its request and has an answer. -/
theorem pc_of_answered {c : Ctl.State} {error : Int32} {len : ℕ} {bytes : List UInt8}
    (h : c.life i = .answered tk true error len bytes) :
    (c.pc i = .waiting tk ∨ c.pc i = .asleep tk) ∧ (c.slots tk.slot).done = true ∧
      (c.slots tk.slot).error = error ∧ (c.slots tk.slot).len = len ∧
      (c.slots tk.slot).buf.bytes = bytes := by
  -- an answer is in the slot of the call
  have hslot : ∀ tk' sent, (c.slots tk'.slot).life tk' sent = .answered tk true error len bytes →
      (tk' = tk ∧ sent = true) ∧ (c.slots tk.slot).done = true ∧ (c.slots tk.slot).error = error ∧
        (c.slots tk.slot).len = len ∧ (c.slots tk.slot).buf.bytes = bytes := by
    intro tk' sent hlife
    cases hdone : (c.slots tk'.slot).done with
    | false =>
      rw [Ctl.Slot.life_of_not_done hdone] at hlife
      cases hlife
    | true =>
      rw [Ctl.Slot.life_of_done hdone] at hlife
      cases hlife
      exact ⟨⟨rfl, rfl⟩, hdone, rfl, rfl, rfl⟩
  rw [Ctl.State.life] at h
  cases hpc : c.pc i with
  -- a call at this point has not sent its request
  | allocated tk' =>
    rw [hpc] at h
    rcases hslot tk' false h with ⟨⟨-, hsent⟩, -⟩
    cases hsent
  | waiting tk' =>
    rw [hpc] at h
    rcases hslot tk' true h with ⟨⟨rfl, -⟩, hrest⟩
    exact ⟨Or.inl rfl, hrest⟩
  | asleep tk' =>
    rw [hpc] at h
    rcases hslot tk' true h with ⟨⟨rfl, -⟩, hrest⟩
    exact ⟨Or.inr rfl, hrest⟩
  -- these have no mailbox
  | idle | checked | refused | leaving | returned =>
    rw [hpc] at h
    cases h

/-- A step of a call by itself. -/
theorem step_own {a : Ctl.Act} {c : Ctl.State} (ha : ownStep a = true)
    (h : Ctl.step args s.chan a = some c) :
    step w args s (.call a) = some { s with chan := c } := by
  simp only [step, ha, if_true, h, Option.map_some]

theorem release_leaving {c : Ctl.State} {result : Ctl.Result} (h : c.pc i = .leaving tk result) :
    Ctl.step args c (.release i) = some (c.releaseSection i tk result) := by
  simp only [Ctl.step, h]

/-- A call that has its answer returns it. -/
theorem returns_answer (hunanswered : Unanswered s.chan) (h : Answered w args s i tk true) :
    ∃ n s', run (step w args) s [.call (.look i), .call (.release i)] = some s' ∧
      s'.chan.pc i =
        .returned (resultOf (args i).outcap (w.answer n (Ctl.State.request (args i) tk))) := by
  rcases h with ⟨n, len, bytes, hlife, hpayload⟩
  rcases pc_of_answered hlife with ⟨hpc, hdone, herror, hlen, hbytes⟩
  -- it has been woken up
  have hwaiting : s.chan.pc i = .waiting tk := by
    rcases hpc with hpc | hpc
    · exact hpc
    · rw [hunanswered i tk hpc] at hdone
      cases hdone
  have hresult : (s.chan.slots tk.slot).outcome (args i).outcap =
      resultOf (args i).outcap (w.answer n (Ctl.State.request (args i) tk)) := by
    rw [Ctl.Slot.outcome_of_done hdone, Ctl.takeAnswer, resultOf, herror, hlen, hbytes, ← hpayload,
      List.take_take, Nat.min_comm]
  have hlook : Ctl.step args s.chan (.look i) =
      some (s.chan.setPc i (.leaving tk ((s.chan.slots tk.slot).outcome (args i).outcap))) := by
    simp only [Ctl.step, hwaiting, Ctl.State.lookSection, hdone, if_true]
  rw [hresult] at hlook
  refine ⟨n, _, run_cons.mpr ⟨_, step_own rfl hlook, run_cons.mpr ⟨_, step_own rfl
    (release_leaving (Ctl.State.setPc_pc_self s.chan i _)), rfl⟩⟩, ?_⟩
  exact Ctl.releaseSection_pc_self _ i tk _

/-- In every state that is reached, a call that sleeps has no answer yet, and the daemon that has
its request can get it to return the answer: the daemon goes on, and then the call. -/
theorem asleep_served (hwf : WellFormed w args) {acts : List Act}
    (hcurrent : AllCurrent w args acts) (h : runFrom w args acts = some s) {i : ℕ} {tk : Ticket}
    (hpc : s.chan.pc i = .asleep tk) :
    (s.chan.slots tk.slot).done = false ∧
      ∃ unit cs n s', (∀ a ∈ cs, a = .recv unit ∨ a = .reply unit) ∧
        run (step w args) s (cs ++ [.call (.look i), .call (.release i)]) = some s' ∧
        s'.chan.pc i =
          .returned (resultOf (args i).outcap (w.answer n (Ctl.State.request (args i) tk))) := by
  have hdone : (s.chan.slots tk.slot).done = false := unanswered_of_run h i tk hpc
  have hg : Good w args s := good_of_run hwf hcurrent h
  have hpending : s.chan.life i = .pending tk true := by
    rw [Ctl.State.life, hpc]
    exact Ctl.Slot.life_of_not_done hdone tk true
  -- the request of a call that waits is at a daemon
  rcases hg.posted i tk hpending with ⟨unit, l, hl, hbirth⟩
  rcases hl with ⟨p, hp, hmem⟩
  have hwaits : WaitsAt s unit i tk l := ⟨hpending, ⟨p, hp, hmem⟩, hbirth⟩
  rcases hwaits.answered hwf p.work hg (hcurrent acts s List.prefix_rfl h) hp (Nat.le_refl _) with
    ⟨cs, t, hcs, hrun, hanswered⟩
  -- the daemon answers, and then the call looks at its slot and returns
  have ht : runFrom w args (acts ++ cs) = some t := run_append.mpr ⟨s, h, hrun⟩
  rcases returns_answer (unanswered_of_run ht) hanswered with ⟨n, s', hlast, hreturned⟩
  exact ⟨hdone, unit, cs, n, s', hcs, run_append.mpr ⟨t, hrun, hlast⟩, hreturned⟩

/-- Both calls sleep, and the daemon has looked at neither request. -/
def bothAsleep : List Act := [.connect 1] ++ ask 0 ++ ask 1

/-- What the second call has. -/
def secondTicket : Ticket := ⟨⟨1, by decide⟩, 2, 1⟩

set_option maxRecDepth 4000 in
theorem asleep_served_bothAsleep : ∃ s, runFrom echo numbered bothAsleep = some s ∧
    s.chan.pc 1 = .asleep secondTicket ∧
    ∃ unit cs n s', (∀ a ∈ cs, a = .recv unit ∨ a = .reply unit) ∧
      run (step echo numbered) s (cs ++ [.call (.look 1), .call (.release 1)]) = some s' ∧
      s'.chan.pc 1 = .returned (resultOf procfsCtlMaxpayload
        (echo.answer n (Ctl.State.request (numbered 1) secondTicket))) := by
  have hshort : bothAsleep.length < 2 ^ 32 - 1 := by decide
  exact ⟨_, rfl, rfl, (asleep_served wellFormed_echo (allCurrent_of_length hshort) rfl rfl).2⟩

end ProcFS.Served
