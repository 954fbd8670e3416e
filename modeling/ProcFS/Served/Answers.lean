import ProcFS.Served

/-!
# ProcFS.Served.Answers — every call gets the answer to its own request

Late replies, for calls that have given up and whose slots others have by now, reach nobody, in
any interleaving of calls, daemons, connects and disconnects.

The numbers of the requests come round after `2^32 - 1` of them. What follows holds as long as no
request is outstanding for so long (`AllCurrent`).

* `Good.step`, `good_of_run`: every letter at a daemon is the request of its call, in every state.
* `Told.step`, `told_of_run`: every answer and every result has its origin.
* `returned_verdict`: the result of a call is the answer to its request, or an error whose cause
  came while the call had its slot.
-/

namespace ProcFS.Served

open Ctl (Args CtlReq CtlResp Packet Pc Ticket Life LifeStep procfsCtlMagic procfsCtlNamemax
  procfsCtlMaxpayload enotconn etimedout)
open Daemon (RecvOutcome Event World Answer serveStep respTo reqOf)
open Lib

/-- What both ends see to: a name is a C string, and a payload fits into the daemon's buffer. -/
structure WellFormed (w : World) (args : ℕ → Args) : Prop where
  names : ∀ i, 0 ∉ (args i).name.getD []
  fits : ∀ n req, (w.answer n req).payload.length ≤ procfsCtlMaxpayload

/-- No request with a slot and no letter at a daemon is so old that the numbers have come round. -/
structure Current (s : System) : Prop where
  slots : Ctl.Recent s.chan
  letters : ∀ unit l, s.HasAt unit l → s.chan.allocs - l.birth < 2 ^ 32 - 1

variable {w : World} {args : ℕ → Args} {s s' : System} {a : Act}

/-! ## The reply to a letter -/

/-- The reply to a request, in a round. -/
def replyTo (w : World) (n : ℕ) (req : CtlReq) : Packet :=
  .full (respTo req (w.answer n req)) (w.answer n req).payload

/-- A request that is received is answered. -/
theorem sends_request (hwf : WellFormed w args) (i n fd : ℕ) (tk : Ticket) :
    sends (serveStep w n fd (.received (packetOf (Ctl.State.request (args i) tk)))).2 =
      [replyTo w n (Ctl.State.request (args i) tk)] := by
  have hnul : 0 ∉ (Ctl.State.request (args i) tk).name := fun hmem =>
    hwf.names i (List.mem_of_mem_take hmem)
  have hlen : (Ctl.State.request (args i) tk).name.length < procfsCtlNamemax := by
    refine Nat.lt_of_le_of_lt (List.length_take_le _ _) ?_
    decide
  rw [Daemon.serveStep_of_request (request?_packetOf rfl hnul hlen)]
  rfl

theorem reqOf_request (hwf : WellFormed w args) (i : ℕ) (tk : Ticket) :
    reqOf (packetOf (Ctl.State.request (args i) tk)) = Ctl.State.request (args i) tk := by
  refine reqOf_packetOf (fun hmem => hwf.names i (List.mem_of_mem_take hmem)) ?_
  refine Nat.lt_of_le_of_lt (List.length_take_le _ _) ?_
  decide

/-- A call that waits under the number of a letter is the one that sent it. -/
theorem Letter.Genuine.eq_of_seq {c : Ctl.State} {l : Letter} {tk tk' : Ticket} {j : ℕ}
    (h : l.Genuine args c tk) (hinv : Ctl.Inv c) (hrecent : Ctl.Recent c)
    (hold : c.allocs - l.birth < 2 ^ 32 - 1) (htk' : (c.pc j).ticket = some tk')
    (hseq : tk'.seq = tk.seq) :
    j = l.call ∧ tk' = tk ∧ (c.slots tk'.slot).birth = l.birth := by
  obtain ⟨hinUse, hslot⟩ := hinv.held j tk' htk'
  obtain ⟨hpos, hle, hserial⟩ := hinv.born tk'.slot hinUse
  -- both have the same number, and neither is old enough for it to have come round
  have hsame : serial (2 ^ 32) (c.slots tk'.slot).birth = serial (2 ^ 32) l.birth := by
    rw [← hserial, hslot, hseq, h.seq]
  have hbirth : (c.slots tk'.slot).birth = l.birth := by
    have hnew := hrecent tk'.slot hinUse
    have hl := h.le
    rcases Nat.le_total (c.slots tk'.slot).birth l.birth with hle' | hle'
    · exact serial_inj hpos hle' (by omega) hsame
    · exact (serial_inj h.pos hle' (by omega) hsame.symm).symm
  obtain ⟨hj, htk⟩ := h.owner j tk' htk' hbirth
  exact ⟨hj, htk, hbirth⟩

/-- The slot that a call waits at is found by its number. -/
theorem matching_pending {c : Ctl.State} (hinv : Ctl.Inv c) (hrecent : Ctl.Recent c) {i : ℕ}
    {tk : Ticket} {sent : Bool} (h : c.life i = .pending tk sent) :
    c.matching tk.seq = some tk.slot := by
  obtain ⟨-, hinUse, hseq⟩ := Ctl.slot_of_pending hinv h
  have hdone : (c.slots tk.slot).done = false := (Ctl.lifeAt_pending h).1
  have hfound : (c.matching tk.seq).isSome := by
    rw [Ctl.State.matching, List.find?_isSome]
    refine ⟨tk.slot, List.mem_finRange _, ?_⟩
    simp [Ctl.Slot.isOpen, hinUse, hdone, hseq]
  obtain ⟨k, hk⟩ := Option.isSome_iff_exists.mp hfound
  obtain ⟨hopen, hkseq⟩ := Ctl.matching_some hk
  rw [Ctl.Slot.isOpen, Bool.and_eq_true] at hopen
  rw [hk, hinv.eq_of_seq hrecent hopen.1 hinUse (hkseq.trans hseq.symm)]

/-- A reply with the number of a call that waits is its answer. -/
theorem life_reply {c : Ctl.State} (hinv : Ctl.Inv c) (hrecent : Ctl.Recent c) {i : ℕ}
    {tk : Ticket} {sent : Bool} (h : c.life i = .pending tk sent) {resp : CtlResp}
    {payload : List UInt8} (hmagic : resp.magic = procfsCtlMagic) (hseq : resp.seq = tk.seq)
    (hlen : min resp.len.toNat procfsCtlMaxpayload = payload.length) :
    ∃ bytes, (c.procfsCtlSend (.full resp payload)).life i =
      .answered tk sent resp.error payload.length bytes ∧ bytes.take payload.length = payload := by
  -- the reply finds the slot by the number
  have hmatch : c.matching resp.seq = some tk.slot := by
    rw [hseq]
    exact matching_pending hinv hrecent h
  rcases Ctl.lifeAt_pending h with ⟨-, hother⟩
  refine ⟨((c.slots tk.slot).answer resp payload).buf.bytes, ?_, ?_⟩
  · simp only [Ctl.State.procfsCtlSend, hmagic, hmatch, if_true]
    rw [Ctl.State.life, Ctl.State.wakeup_pc, Ctl.State.wakeup_slots, Ctl.lifeAt_wake,
      Ctl.State.setSlot_pc, hother, Ctl.State.setSlot_slots_self, ← hlen]
    exact Ctl.Slot.life_of_done rfl tk sent
  · have hbytes := (c.slots tk.slot).answer_bytes hlen.le
    rw [hlen, List.take_length] at hbytes
    exact hbytes

/-- The header says how long the payload is, and all of it fits into a slot. -/
theorem len_respTo (hwf : WellFormed w args) (n : ℕ) (req : CtlReq) :
    min (respTo req (w.answer n req)).len.toNat procfsCtlMaxpayload =
      (w.answer n req).payload.length := by
  have hfits := hwf.fits n req
  have hsmall : (w.answer n req).payload.length < 2 ^ 32 := Nat.lt_of_le_of_lt hfits (by decide)
  rw [respTo, UInt32.toNat_ofNat_of_lt' hsmall, Nat.min_eq_left hfits]

/-! ## The invariant -/

/-- A packet is the reply to a letter, which was received. -/
def Due (w : World) (args : ℕ → Args) (s : System) (l : Letter) (packet : Packet) : Prop :=
  ∃ tk n, l.Genuine args s.chan tk ∧ (n, Ctl.State.request (args l.call) tk) ∈ s.received ∧
    packet = replyTo w n (Ctl.State.request (args l.call) tk)

/-- What ties the letters at the daemons to the calls. -/
structure Good (w : World) (args : ℕ → Args) (s : System) : Prop where
  inv : Ctl.Inv s.chan
  /-- Every letter is the request of its call. -/
  genuine : ∀ unit l, s.HasAt unit l → ∃ tk, l.Genuine args s.chan tk
  /-- A daemon is about to send the reply to a letter that it has. -/
  due : ∀ unit p l packet, s.peers unit = some p → (l, packet) ∈ p.todo → Due w args s l packet
  /-- A call that has sent its request and waits has a letter at a daemon. -/
  posted : ∀ i tk, s.chan.life i = .pending tk true →
    ∃ unit l, s.HasAt unit l ∧ l.birth = (s.chan.slots tk.slot).birth

theorem good_initial : Good w args initial where
  inv := Ctl.inv_initial
  genuine := by
    rintro unit l ⟨p, hp, -⟩
    cases hp
  due := by
    intro unit p l packet hp
    cases hp
  posted := by
    intro i tk h
    cases h

/-- Genuine letters stay so. -/
theorem Step.genuine (h : Step w args s a s') (hinv : Ctl.Inv s.chan) {l : Letter}
    {tk : Ticket} (hl : l.Genuine args s.chan tk) : l.Genuine args s'.chan tk := by
  rcases h.chan with ⟨hsame, -⟩ | ⟨b, -, hstep⟩
  · rw [hsame]
    exact hl
  · exact hl.step hinv hstep

theorem Good.genuine_step (hg : Good w args s) (h : Step w args s a s') (unit : UInt32) (l : Letter)
    (hl : s'.HasAt unit l) : ∃ tk, l.Genuine args s'.chan tk := by
  rcases h.hasAt hl with hold | ⟨i, tk, -, hpc, rfl⟩
  · obtain ⟨tk, htk⟩ := hg.genuine unit l hold
    exact ⟨tk, h.genuine hg.inv htk⟩
  · refine ⟨tk, h.genuine hg.inv (genuine_letter hg.inv ?_)⟩
    rw [hpc]
    rfl

theorem Good.due_step (hwf : WellFormed w args) (hg : Good w args s) (h : Step w args s a s')
    (unit : UInt32) (p' : Peer) (l : Letter) (packet : Packet) (hp' : s'.peers unit = some p')
    (hmem : (l, packet) ∈ p'.todo) : Due w args s' l packet := by
  -- it was due before, or the letter was just taken
  have hkept : ∀ p, s.peers unit = some p → (l, packet) ∈ p.todo → Due w args s' l packet := by
    intro p hp hmem
    obtain ⟨tk, n, hl, hreceived, hpacket⟩ := hg.due unit p l packet hp hmem
    exact ⟨tk, n, h.genuine hg.inv hl, h.received hreceived, hpacket⟩
  have hpeer := h.peer unit
  rw [hp'] at hpeer
  generalize hp : s.peers unit = p at hpeer
  cases hpeer with
  | same => exact hkept p' hp hmem
  | deposit ha hpc => exact hkept _ hp hmem
  | @take l' rest hreceived =>
    obtain ⟨packet', hpacket', heq⟩ := List.mem_map.mp hmem
    cases heq
    obtain ⟨tk, hl⟩ := hg.genuine unit l ⟨_, hp, Or.inl List.mem_cons_self⟩
    rw [hl.rbuf, sends_request hwf, List.mem_singleton] at hpacket'
    rw [hl.rbuf, reqOf_request hwf] at hreceived
    exact ⟨tk, s.rounds, h.genuine hg.inv hl, hreceived, hpacket'⟩
  | put hchan => exact hkept _ hp (List.mem_cons_of_mem _ hmem)
  | accept => cases hmem

/-- The number of a request is that of its slot for as long as its call has it. -/
theorem birth_of_ticket {c c' : Ctl.State} {b : Ctl.Act} (hinv : Ctl.Inv c)
    (hstep : Ctl.step args c b = some c') {i : ℕ} {tk : Ticket}
    (htk : (c.pc i).ticket = some tk) : (c'.slots tk.slot).birth = (c.slots tk.slot).birth := by
  rcases (Ctl.step_rule hstep).kept with
    ⟨j, k, -, hpc, hfree, rfl⟩ | ⟨j, tk₀, result, -, hpc, rfl⟩ | hkept
  · rw [Ctl.takeSlot_slots, if_neg (hinv.ne_of_freeSlot hfree htk)]
  · rw [Ctl.releaseSection_slots]
    split
    · rename_i heq
      rw [heq]
    · rfl
  · exact hkept.birth tk.slot

/-- A call that waits after a step waited before, unless its request was sent just now. -/
theorem Step.pending (h : Step w args s a s') (hinv : Ctl.Inv s.chan) {i : ℕ}
    {tk : Ticket} (hpending : s'.chan.life i = .pending tk true) :
    s.chan.life i = .pending tk true ∨
      ∃ p, s.chan.pc i = .allocated tk ∧ s.peers tk.unit = some p ∧ s' = s.deposit args i tk p := by
  rcases h.life hinv i with hsame | ⟨b, hb, hlife⟩
  · rw [hsame] at hpending
    exact Or.inl hpending
  · rw [hpending] at hlife
    generalize hl : s.chan.life i = l at hlife
    cases hlife with
    | same => exact Or.inl rfl
    | sent =>
      -- the only step that sends is that of the call
      refine Or.inr ?_
      cases h with
      | @enqueue j tk' p hpc hp =>
        cases hb
        have htk : tk' = tk := by
          rw [Ctl.State.life, hpc] at hl
          exact (Ctl.Slot.eq_of_life_pending hl).2.1
        rw [htk] at hpc hp ⊢
        exact ⟨p, hpc, hp, rfl⟩
      | call ha _ =>
        cases hb
        cases ha
      | enqueueFail he _ =>
        cases hb
        exact absurd rfl he
      | reply hp =>
        simp only [System.chanAct, hp] at hb
        cases hb
      | recv => cases hb
      | connect => cases hb
      | disconnect => cases hb

/-- The call has the answer to its request. -/
def Answered (w : World) (args : ℕ → Args) (s : System) (i : ℕ) (tk : Ticket) (sent : Bool) :
    Prop :=
  ∃ n len bytes, s.chan.life i = .answered tk sent
      (w.answer n (Ctl.State.request (args i) tk)).error len bytes ∧
    bytes.take len = (w.answer n (Ctl.State.request (args i) tk)).payload

/-- A call that waits under the number of a letter gets the reply to it. -/
theorem Due.answered {l : Letter} {packet : Packet} (h : Due w args s l packet)
    (hwf : WellFormed w args) (hinv : Ctl.Inv s.chan) (hrecent : Ctl.Recent s.chan) {i : ℕ}
    {tk : Ticket} {sent : Bool} (hpending : s.chan.life i = .pending tk sent)
    (hbirth : l.birth = (s.chan.slots tk.slot).birth)
    (hchan : s'.chan = s.chan.procfsCtlSend packet) : Answered w args s' i tk sent := by
  rcases h with ⟨tk', n, hl, -, rfl⟩
  rcases Ctl.slot_of_pending hinv hpending with ⟨htk, -, -⟩
  rcases hl.owner i tk htk hbirth.symm with ⟨rfl, rfl⟩
  have hlen := len_respTo hwf n (Ctl.State.request (args l.call) tk)
  rcases life_reply hinv hrecent hpending rfl rfl hlen with ⟨bytes, hlife, hpayload⟩
  rw [← replyTo, ← hchan] at hlife
  exact ⟨n, _, bytes, hlife, hpayload⟩

theorem Good.posted_step (hwf : WellFormed w args) (hg : Good w args s) (hcurrent : Current s)
    (h : Step w args s a s') (i : ℕ) (tk : Ticket) (hpending : s'.chan.life i = .pending tk true) :
    ∃ unit l, s'.HasAt unit l ∧ l.birth = (s'.chan.slots tk.slot).birth := by
  rcases h.pending hg.inv hpending with hbefore | ⟨p, hpc, hp, rfl⟩
  · obtain ⟨unit, l, hl, hbirth⟩ := hg.posted i tk hbefore
    obtain ⟨htk, -, -⟩ := Ctl.slot_of_pending hg.inv hbefore
    -- the daemon answers a request that it takes
    have hsends : ∀ rbuf, l.rbuf = rbuf →
        sends (serveStep w s.rounds unit.toNat (.received rbuf)).2 ≠ [] := by
      rintro rbuf rfl
      obtain ⟨tk', hl'⟩ := hg.genuine unit l hl
      rw [hl'.rbuf, sends_request hwf]
      exact List.cons_ne_nil _ _
    rcases h.hasAt_kept hl hsends with hkept | ⟨packet, ⟨p, hp, hmem⟩, hchan⟩ | hchan
    · refine ⟨unit, l, hkept, hbirth.trans ?_⟩
      rcases h.chan with ⟨hsame, -⟩ | ⟨b, -, hstep⟩
      · rw [hsame]
      · exact (birth_of_ticket hg.inv hstep htk).symm
    · rcases (hg.due unit p l packet hp hmem).answered hwf hg.inv hcurrent.slots hbefore hbirth
        hchan with ⟨n, len, bytes, hlife, -⟩
      rw [hlife] at hpending
      cases hpending
    · obtain ⟨len, bytes, hlife⟩ := Ctl.disconnect_pending hg.inv hbefore unit
      rw [hchan, hlife] at hpending
      cases hpending
  · refine ⟨tk.unit, s.letter args i tk, ⟨_, Function.update_self tk.unit _ s.peers, Or.inl ?_⟩,
      rfl⟩
    exact List.mem_append_right _ List.mem_cons_self

/-- Every step keeps the invariant, as long as the numbers do not come round. -/
theorem Good.step (hwf : WellFormed w args) (hg : Good w args s) (hcurrent : Current s)
    (h : Step w args s a s') : Good w args s' where
  inv := h.inv hg.inv
  genuine := hg.genuine_step h
  due := hg.due_step hwf h
  posted := hg.posted_step hwf hcurrent h

/-- No request is outstanding for so long, in all of a run, that the numbers come round. -/
def AllCurrent (w : World) (args : ℕ → Args) (acts : List Act) : Prop :=
  ∀ bs t, bs <+: acts → runFrom w args bs = some t → Current t

theorem good_of_run (hwf : WellFormed w args) {acts : List Act}
    (hcurrent : AllCurrent w args acts) (h : runFrom w args acts = some s) : Good w args s :=
  run_invariant_of (C := fun t _ => Current t) good_initial
    (fun _ _ _ hg hc hstep => hg.step hwf hc (step_rule hstep))
    (fun bs _ t hpre ht => hcurrent bs t ((List.prefix_append bs _).trans hpre) ht) h

/-! ## What a call is told -/

/-- What a call with room for `outcap` bytes makes of an answer. -/
def resultOf (outcap : ℕ) (a : Answer) : Ctl.Result :=
  if a.error = 0 then .ok (a.payload.take outcap) else .error a.error

/-- At the channel this was done while the call had this slot, under this number. -/
def During (w : World) (args : ℕ → Args) (acts : List Act) (i : ℕ) (tk : Ticket) (b : Ctl.Act) :
    Prop :=
  ∃ bs t a, bs ++ [a] <+: acts ∧ runFrom w args bs = some t ∧ (t.chan.pc i).ticket = some tk ∧
    t.chanAct a = some b

/-- A daemon received the request that the call sent, in round `n`, and what it answered came while
the call had its slot. -/
structure Asked (w : World) (args : ℕ → Args) (acts : List Act) (s : System) (i : ℕ) (tk : Ticket)
    (n : ℕ) : Prop where
  received : (n, Ctl.State.request (args i) tk) ∈ s.received
  replied : During w args acts i tk (.send (replyTo w n (Ctl.State.request (args i) tk)))

/-- Where the result of a call comes from: it is the answer to its own request, or one of three
errors. While the call had its slot a daemon disconnected (the channel does not ask which one), or
the wait of the call was cut short, or `ctl_enqueuedata` did not take its request. -/
inductive Verdict (w : World) (args : ℕ → Args) (acts : List Act) (s : System) (i : ℕ) :
    Ctl.Result → Prop where
  | answer {tk n} (h : Asked w args acts s i tk n) :
      Verdict w args acts s i
        (resultOf (args i).outcap (w.answer n (Ctl.State.request (args i) tk)))
  | hungUp {tk unit} (h : During w args acts i tk (.disconnect unit)) :
      Verdict w args acts s i (.error enotconn)
  | gaveUp {tk} (h : During w args acts i tk (.interrupt i)) :
      Verdict w args acts s i (.error etimedout)
  | unsent {tk e} (he : e ≠ 0) (h : During w args acts i tk (.enqueue i e)) :
      Verdict w args acts s i (.error e)

/-- What is known of the answer and of the result of a call. -/
structure Told (w : World) (args : ℕ → Args) (acts : List Act) (s : System) (i : ℕ) (l : Life) :
    Prop where
  answered : ∀ tk sent error len bytes, l = .answered tk sent error len bytes →
    (error = enotconn ∧ ∃ unit, During w args acts i tk (.disconnect unit)) ∨
      ∃ n, Asked w args acts s i tk n ∧
        error = (w.answer n (Ctl.State.request (args i) tk)).error ∧
        bytes.take len = (w.answer n (Ctl.State.request (args i) tk)).payload
  result : ∀ r, (∃ tk, l = .decided tk r) ∨ l = .finished r → Verdict w args acts s i r

section Told

variable {acts : List Act} {i : ℕ} {tk : Ticket}

theorem During.append {b : Ctl.Act} (h : During w args acts i tk b) (a : Act) :
    During w args (acts ++ [a]) i tk b := by
  rcases h with ⟨bs, t, c, hpre, ht, htk, hc⟩
  exact ⟨bs, t, c, hpre.trans (List.prefix_append acts [a]), ht, htk, hc⟩

/-- What is done now is done while a call has the slot that it has now. -/
theorem During.last {b : Ctl.Act} (hrun : runFrom w args acts = some s)
    (htk : (s.chan.pc i).ticket = some tk) (hb : s.chanAct a = some b) :
    During w args (acts ++ [a]) i tk b :=
  ⟨acts, s, a, List.prefix_rfl, hrun, htk, hb⟩

theorem Asked.append {n : ℕ} (h : Asked w args acts s i tk n) (hstep : Step w args s a s') :
    Asked w args (acts ++ [a]) s' i tk n :=
  ⟨hstep.received h.received, h.replied.append a⟩

theorem Verdict.append {r : Ctl.Result} (h : Verdict w args acts s i r)
    (hstep : Step w args s a s') : Verdict w args (acts ++ [a]) s' i r := by
  cases h with
  | answer h => exact .answer (h.append hstep)
  | hungUp h => exact .hungUp (h.append a)
  | gaveUp h => exact .gaveUp (h.append a)
  | unsent he h => exact .unsent he (h.append a)

theorem Told.append {l : Life} (h : Told w args acts s i l) (hstep : Step w args s a s') :
    Told w args (acts ++ [a]) s' i l where
  answered := by
    intro tk sent error len bytes hl
    rcases h.answered tk sent error len bytes hl with ⟨he, unit, hunit⟩ | ⟨n, hasked, hanswer⟩
    · exact Or.inl ⟨he, unit, hunit.append a⟩
    · exact Or.inr ⟨n, hasked.append hstep, hanswer⟩
  result := by
    intro r hl
    exact (h.result r hl).append hstep

/-- Nothing is to be shown of a call without an answer and without a result. -/
theorem Told.of_none {l : Life}
    (hanswered : ∀ tk sent e len bytes, l ≠ .answered tk sent e len bytes)
    (hdecided : ∀ tk r, l ≠ .decided tk r) (hfinished : ∀ r, l ≠ .finished r) :
    Told w args acts s i l where
  answered := by
    intro tk sent error len bytes hl
    exact absurd hl (hanswered tk sent error len bytes)
  result := by
    rintro r (⟨tk, hl⟩ | hl)
    · exact absurd hl (hdecided tk r)
    · exact absurd hl (hfinished r)

/-- A call whose answer is there. -/
theorem Told.of_answered {sent : Bool} {error : Int32} {len : ℕ} {bytes : List UInt8}
    (h : (error = enotconn ∧ ∃ unit, During w args acts i tk (.disconnect unit)) ∨
      ∃ n, Asked w args acts s i tk n ∧
        error = (w.answer n (Ctl.State.request (args i) tk)).error ∧
        bytes.take len = (w.answer n (Ctl.State.request (args i) tk)).payload) :
    Told w args acts s i (.answered tk sent error len bytes) where
  answered := by
    intro tk' sent' error' len' bytes' hl
    cases hl
    exact h
  result := by simp

/-- A call that has just got its result. -/
theorem Told.of_verdict {r : Ctl.Result} (h : Verdict w args acts s i r) :
    Told w args acts s i (.decided tk r) where
  answered := by
    intro tk' sent error len bytes hl
    cases hl
  result := by
    rintro r' (⟨tk', hl⟩ | hl)
    · cases hl
      exact h
    · cases hl

/-- A packet arrives only if a daemon sends it. -/
theorem Step.send {packet : Packet} (h : Step w args s a s')
    (hb : s.chanAct a = some (.send packet)) :
    ∃ unit p l, s.peers unit = some p ∧ (l, packet) ∈ p.todo := by
  cases h with
  | call ha _ =>
    cases hb
    cases ha
  | enqueue | enqueueFail | recv | connect | disconnect => cases hb
  | @reply unit queue l packet rest hp =>
    simp only [System.chanAct, hp, Option.bind_some, List.head?_cons, Option.map_some] at hb
    cases hb
    exact ⟨unit, _, l, hp, List.mem_cons_self⟩

/-- The reply that completes a call is the answer to its own request. -/
theorem Good.answer (hg : Good w args s) (hwf : WellFormed w args) (hcurrent : Current s)
    (h : Step w args s a s') {sent : Bool} {resp : CtlResp} {payload bytes : List UInt8}
    (hb : s.chanAct a = some (.send (.full resp payload)))
    (hpending : s.chan.life i = .pending tk sent) (hseq : tk.seq = resp.seq)
    (hbytes : min resp.len.toNat procfsCtlMaxpayload ≤ payload.length →
      bytes.take (min resp.len.toNat procfsCtlMaxpayload) =
        payload.take (min resp.len.toNat procfsCtlMaxpayload)) :
    ∃ n, (n, Ctl.State.request (args i) tk) ∈ s.received ∧
      Packet.full resp payload = replyTo w n (Ctl.State.request (args i) tk) ∧
      resp.error = (w.answer n (Ctl.State.request (args i) tk)).error ∧
      bytes.take (min resp.len.toNat procfsCtlMaxpayload) =
        (w.answer n (Ctl.State.request (args i) tk)).payload := by
  rcases h.send hb with ⟨unit, p, l, hp, hmem⟩
  rcases hg.due unit p l _ hp hmem with ⟨tk', n, hl, hreceived, hpacket⟩
  have hold : s.chan.allocs - l.birth < 2 ^ 32 - 1 :=
    hcurrent.letters unit l ⟨p, hp, Or.inr ⟨_, hmem⟩⟩
  rcases Ctl.slot_of_pending hg.inv hpending with ⟨htk, -, -⟩
  cases hpacket
  rcases hl.eq_of_seq hg.inv hcurrent.slots hold htk hseq with ⟨rfl, rfl, -⟩
  have hlen := len_respTo hwf n (Ctl.State.request (args l.call) tk)
  refine ⟨n, hreceived, rfl, rfl, ?_⟩
  rw [hbytes hlen.le, hlen, List.take_length]

/-- One step, seen from one call. -/
theorem Told.step (hwf : WellFormed w args) (hg : Good w args s) (hcurrent : Current s)
    (hrun : runFrom w args acts = some s) (h : Step w args s a s')
    (htold : Told w args acts s i (s.chan.life i)) :
    Told w args (acts ++ [a]) s' i (s'.chan.life i) := by
  rcases h.life hg.inv i with hsame | ⟨b, hb, hlife⟩
  · rw [hsame]
    exact htold.append h
  · -- what is done now is done while the call has the slot that it has now
    have hnow : ∀ tk, (s.chan.life i).ticket = some tk → During w args (acts ++ [a]) i tk b := by
      intro tk htk
      rw [Ctl.ticket_life] at htk
      exact .last hrun htk hb
    generalize hl : s.chan.life i = l at hlife htold hnow
    generalize s'.chan.life i = l' at hlife
    cases hlife with
    | same => exact htold.append h
    | refuse | take | sent => exact .of_none (by simp) (by simp) (by simp)
    | @reply tk sent resp payload bytes hmagic hseq hbytes =>
      rcases hg.answer hwf hcurrent h hb hl hseq hbytes with
        ⟨n, hreceived, hpacket, herror, hpayload⟩
      have hreplied := hnow tk rfl
      rw [hpacket] at hreplied
      exact .of_answered (Or.inr ⟨n, ⟨h.received hreceived, hreplied⟩, herror, hpayload⟩)
    | @hangUp tk sent unit len bytes => exact .of_answered (Or.inl ⟨rfl, unit, hnow tk rfl⟩)
    | @sentAnswered tk error len bytes =>
      exact .of_answered ((htold.append h).answered tk false error len bytes rfl)
    | @unsent tk e he => exact .of_verdict (.unsent he (hnow tk rfl))
    | @unsentAnswered tk error len bytes e he =>
      -- an answer that is there already is not looked at
      exact .of_verdict (.unsent he (hnow tk rfl))
    | @giveUp tk => exact .of_verdict (.gaveUp (hnow tk rfl))
    | @collect _ tk error len bytes ha =>
      refine .of_verdict ?_
      rcases htold.answered tk true error len bytes rfl with ⟨herror, unit, hunit⟩ |
        ⟨n, hasked, herror, hpayload⟩
      · rw [herror]
        exact .hungUp (hunit.append a)
      · -- what the call takes out of its slot is what the daemon put into its reply
        have hresult : Ctl.takeAnswer (args i).outcap error len bytes =
            resultOf (args i).outcap (w.answer n (Ctl.State.request (args i) tk)) := by
          rw [Ctl.takeAnswer, resultOf, herror, ← hpayload, List.take_take, Nat.min_comm]
        rw [hresult]
        exact .answer (hasked.append h)
    | @free tk result =>
      refine ⟨by simp, ?_⟩
      rintro r (⟨tk', heq⟩ | heq)
      · cases heq
      · cases heq
        exact (htold.append h).result result (Or.inl ⟨tk, rfl⟩)

end Told

/-- In every state that is reached, every answer and every result has its origin. -/
theorem told_of_run (hwf : WellFormed w args) {acts : List Act} (hcurrent : AllCurrent w args acts)
    (h : runFrom w args acts = some s) (i : ℕ) : Told w args acts s i (s.chan.life i) := by
  -- the induction is over the beginnings of the run
  have hall : ∀ bs t, bs <+: acts → runFrom w args bs = some t →
      Told w args bs t i (t.chan.life i) := by
    intro bs t hpre ht
    refine run_induction (P := fun bs t => bs <+: acts → Told w args bs t i (t.chan.life i)) ?_ ?_
      ht hpre
    · exact fun _ => .of_none (by simp [initial, Ctl.State.life, Ctl.lifeAt, Ctl.initial])
        (by simp [initial, Ctl.State.life, Ctl.lifeAt, Ctl.initial])
        (by simp [initial, Ctl.State.life, Ctl.lifeAt, Ctl.initial])
    · intro bs t a t' hrun ih hstep hpre
      have hbs : bs <+: acts := (List.prefix_append bs [a]).trans hpre
      have hgood : Good w args t :=
        good_of_run hwf (fun cs u hcs hu => hcurrent cs u (hcs.trans hbs) hu) hrun
      exact (ih hbs).step hwf hgood (hcurrent bs t hbs hrun) hrun (step_rule hstep)
  exact hall acts s List.prefix_rfl h

/-- Every request that got a slot took a step for it. -/
theorem allocs_le_length {acts : List Act} (h : runFrom w args acts = some s) :
    s.chan.allocs ≤ acts.length := by
  refine run_induction (P := fun acts s => s.chan.allocs ≤ acts.length) (Nat.le_refl 0) ?_ h
  intro acts t a t' _ ht hstep
  rw [List.length_append, List.length_singleton]
  -- of the steps of the channel, only the taking of a slot counts
  rcases (step_rule hstep).chan with ⟨hsame, -⟩ | ⟨b, -, hchan⟩
  · rw [hsame]
    exact Nat.le_succ_of_le ht
  · rcases (Ctl.step_rule hchan).kept with ⟨i, k, -, -, -, hnew⟩ |
      ⟨i, tk, result, -, -, hnew⟩ | hkept
    · rw [hnew]
      exact Nat.succ_le_succ ht
    · rw [hnew]
      exact Nat.le_succ_of_le ht
    · rw [hkept.allocs]
      exact Nat.le_succ_of_le ht

/-- Short runs do not come near the end of the numbers. -/
theorem allCurrent_of_length {acts : List Act} (hshort : acts.length < 2 ^ 32 - 1) :
    AllCurrent w args acts := by
  intro bs t hpre ht
  have hallocs := allocs_le_length ht
  have hlen := hpre.length_le
  constructor
  · intro k _
    omega
  · intro unit l _
    omega

/-- Whatever the calls, the daemons and the clock do: what a call that got a slot returns is the
answer of a daemon to the request that this call sent, or `ENOTCONN`, `ETIMEDOUT` or the error of
`ctl_enqueuedata`, and then a disconnect, the end of the wait or that failure came while the call
had its slot. -/
theorem returned_verdict (hwf : WellFormed w args) {acts : List Act}
    (hcurrent : AllCurrent w args acts) (h : runFrom w args acts = some s) {i : ℕ}
    {r : Ctl.Result} (hr : s.chan.pc i = .returned r) : Verdict w args acts s i r :=
  (told_of_run hwf hcurrent h i).result r (Or.inr (Ctl.finished_iff.mpr hr))

/-- A daemon that answers with the argument of the request. -/
def echo : World := ⟨fun _ req => ⟨0, [UInt8.ofNat req.arg.toNat]⟩, fun _ => 3⟩

/-- Calls that differ in their arguments. -/
def numbered (i : ℕ) : Args := ⟨1, 0, UInt64.ofNat i, none, procfsCtlMaxpayload⟩

theorem wellFormed_echo : WellFormed echo numbered where
  names := fun _ => List.not_mem_nil
  fits := fun _ _ => show 1 ≤ procfsCtlMaxpayload by decide

/-- A call gets a slot, sends its request and goes to sleep. -/
def ask (i : ℕ) : List Act :=
  [.call (.start i), .call (.allocate i), .enqueue i 0, .call (.look i)]

/-- The first call gives up before the daemon has looked at its request; the second gets the same
slot. Then the daemon answers both requests. -/
def lateReply : List Act :=
  [.connect 1] ++ ask 0 ++ [.call (.interrupt 0), .call (.release 0)] ++ ask 1 ++
    [.recv 1, .reply 1, .recv 1, .reply 1, .call (.look 1), .call (.release 1)]

set_option maxRecDepth 4000 in
theorem returned_verdict_lateReply : ∃ s, runFrom echo numbered lateReply = some s ∧
    s.chan.pc 0 = .returned (.error etimedout) ∧ s.chan.pc 1 = .returned (.ok [1]) ∧
    Verdict echo numbered lateReply s 0 (.error etimedout) ∧
    Verdict echo numbered lateReply s 1 (.ok [1]) := by
  have hshort : lateReply.length < 2 ^ 32 - 1 := by decide
  refine ⟨_, rfl, rfl, rfl, ?_, ?_⟩
  · exact returned_verdict wellFormed_echo (allCurrent_of_length hshort) rfl rfl
  · exact returned_verdict wellFormed_echo (allCurrent_of_length hshort) rfl rfl

end ProcFS.Served
