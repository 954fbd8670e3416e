import ProcFS.Ctl.Safety
import ProcFS.Daemon

/-!
# ProcFS.Served — the channel with the daemon at its other end

`ProcFS.Ctl` lets any packet arrive at any time, and `ProcFS.Daemon` lets `recv` return anything.
Here the two are one system. What `ctl_enqueuedata` accepts lies in the receive buffer of the
socket until the daemon takes it, first come, first served. A round of the daemon is two steps, the
`recv` and the `send`, so that the calls can go on while it looks for the answer. Daemons come and
go, also several at a time, and whatever one has not answered is gone with it.

* `request?_packetOf`: a request arrives as one.
* `Step.life`: the life of a call goes on as it does on the channel.
* `Step.hasAt`: where the letters after a step come from.
-/

namespace ProcFS.Served

open Ctl (Args CtlReq CtlResp Packet Pc Ticket LifeStep procfsCtlMagic procfsCtlNamemax
  procfsCtlMaxpayload)
open Daemon (RecvBuf RecvOutcome Event World Answer serveStep respTo reqOf sizeofCtlReq)
open Lib

/-! ## A request as bytes -/

/-- The `name` of a request: `strlcpy` into a record that was cleared. -/
def nameField (name : CString) : List UInt8 :=
  (name ++ List.replicate procfsCtlNamemax 0).take procfsCtlNamemax

/-- The fields of a request before its name. -/
def headOf (req : CtlReq) : List UInt8 :=
  leBytes 4 req.magic.toNat ++ (leBytes 4 req.seq.toNat ++ (leBytes 4 req.type.toNat ++
    (leBytes 4 req.pid.toUInt32.toNat ++ leBytes 8 req.arg.toNat)))

/-- A `struct procfs_ctl_req` in memory. -/
def bytesOf (req : CtlReq) : List UInt8 := headOf req ++ nameField req.name

theorem length_headOf (req : CtlReq) : (headOf req).length = 24 := by
  simp only [headOf, List.length_append, length_leBytes]

theorem length_bytesOf (req : CtlReq) : (bytesOf req).length = sizeofCtlReq := by
  rw [bytesOf, List.length_append, length_headOf, nameField, List.length_take, List.length_append,
    List.length_replicate, Nat.min_eq_left (Nat.le_add_left _ _), sizeofCtlReq]

/-- What the daemon receives of a request. -/
def packetOf (req : CtlReq) : RecvBuf := ⟨bytesOf req, (length_bytesOf req).le⟩

theorem untilNul_nameField {name : CString} (hnul : 0 ∉ name)
    (hlen : name.length < procfsCtlNamemax) : untilNul (nameField name) = name := by
  have hfield : nameField name =
      terminated name ++ List.replicate (procfsCtlNamemax - name.length - 1) 0 := by
    obtain ⟨n, hn⟩ : ∃ n, procfsCtlNamemax - name.length = n + 1 :=
      ⟨procfsCtlNamemax - name.length - 1, by omega⟩
    rw [nameField, List.take_append, List.take_of_length_le hlen.le, List.take_replicate,
      Nat.min_eq_left (Nat.sub_le _ _), hn, List.replicate_succ, terminated, List.append_assoc,
      Nat.add_sub_cancel]
    rfl
  rw [hfield, untilNul_terminated hnul]

/-- A request arrives as it was sent. -/
theorem reqOf_packetOf {req : CtlReq} (hnul : 0 ∉ req.name)
    (hlen : req.name.length < procfsCtlNamemax) : reqOf (packetOf req) = req := by
  -- the name takes the rest of the packet, and the fields before it are read one by one
  have hname : (bytesOf req).drop 24 = nameField req.name := by
    rw [bytesOf, List.drop_left' (length_headOf req)]
  have hmagic : fieldAt 4 0 (bytesOf req) = req.magic.toNat := by
    simp only [bytesOf, headOf, List.append_assoc]
    exact fieldAt_leBytes req.magic.toNat_lt _
  have hseq : fieldAt 4 4 (bytesOf req) = req.seq.toNat := by
    simp only [bytesOf, headOf, List.append_assoc]
    rw [fieldAt_leBytes_skip 4 _ 4 0]
    exact fieldAt_leBytes req.seq.toNat_lt _
  have htype : fieldAt 4 8 (bytesOf req) = req.type.toNat := by
    simp only [bytesOf, headOf, List.append_assoc]
    rw [fieldAt_leBytes_skip 4 _ 4 4, fieldAt_leBytes_skip 4 _ 4 0]
    exact fieldAt_leBytes req.type.toNat_lt _
  have hpid : fieldAt 4 12 (bytesOf req) = req.pid.toUInt32.toNat := by
    simp only [bytesOf, headOf, List.append_assoc]
    rw [fieldAt_leBytes_skip 4 _ 4 8, fieldAt_leBytes_skip 4 _ 4 4, fieldAt_leBytes_skip 4 _ 4 0]
    exact fieldAt_leBytes req.pid.toUInt32.toNat_lt _
  have harg : fieldAt 8 16 (bytesOf req) = req.arg.toNat := by
    simp only [bytesOf, headOf, List.append_assoc]
    rw [fieldAt_leBytes_skip 4 _ 8 12, fieldAt_leBytes_skip 4 _ 8 8, fieldAt_leBytes_skip 4 _ 8 4,
      fieldAt_leBytes_skip 4 _ 8 0]
    exact fieldAt_leBytes req.arg.toNat_lt _
  simp only [reqOf, packetOf, hmagic, hseq, htype, hpid, harg, hname, UInt32.ofNat_toNat,
    UInt64.ofNat_toNat, Int32.toInt32_toUInt32, untilNul_nameField hnul hlen]

/-- The daemon takes it for a request. -/
theorem request?_packetOf {req : CtlReq} (hmagic : req.magic = procfsCtlMagic) (hnul : 0 ∉ req.name)
    (hlen : req.name.length < procfsCtlNamemax) :
    (RecvOutcome.received (packetOf req)).request? = some req := by
  have hreq := reqOf_packetOf hnul hlen
  refine Daemon.request?_eq_some_iff.mpr ⟨⟨length_bytesOf req, ?_⟩, hreq⟩
  rw [hreq, hmagic]

/-! ## The system -/

/-- A packet on its way to the daemon. The call that sent it, and the number of that request
counted from the first one ever, are no part of the packet. -/
structure Letter where
  rbuf : RecvBuf
  call : ℕ
  birth : ℕ

/-- A daemon: what lies in the receive buffer of its socket, and what it has yet to send in the
round that it is in, for which letter. -/
structure Peer where
  queue : List Letter
  todo : List (Letter × Packet)

/-- The channel and the daemons, by the unit of the socket. `rounds` counts the rounds of all
daemons, and `received` lists the requests they received; they are no variables of the source. -/
structure System where
  chan : Ctl.State
  peers : UInt32 → Option Peer
  rounds : ℕ
  received : List (ℕ × CtlReq)

/-- The control was just registered. -/
def initial : System := ⟨Ctl.initial, fun _ => none, 0, []⟩

/-- The steps of the system. -/
inductive Act where
  /-- A step that a call makes by itself. -/
  | call (a : Ctl.Act)
  /-- `ctl_enqueuedata` returns. -/
  | enqueue (i : ℕ) (error : Int32)
  /-- `recv` returns to a daemon. -/
  | recv (unit : UInt32)
  /-- A daemon sends its reply. -/
  | reply (unit : UInt32)
  /-- A daemon connects. -/
  | connect (unit : UInt32)
  /-- A daemon disconnects or dies. -/
  | disconnect (unit : UInt32)
deriving DecidableEq

/-- The steps that need nothing but the call. -/
def ownStep : Ctl.Act → Bool
  | .start _ | .allocate _ | .look _ | .wake _ | .interrupt _ | .release _ => true
  | .enqueue _ _ | .send _ | .connect _ | .disconnect _ => false

/-- What a round sends. -/
def sends (es : List Event) : List Packet :=
  es.filterMap fun
    | .send _ resp payload => some (.full resp payload)
    | _ => none

variable (w : World) (args : ℕ → Args)

namespace System

def letter (s : System) (i : ℕ) (tk : Ticket) : Letter where
  rbuf := packetOf (Ctl.State.request (args i) tk)
  call := i
  birth := (s.chan.slots tk.slot).birth

/-- `ctl_enqueuedata` puts the request of a call into a receive buffer. -/
def deposit (s : System) (i : ℕ) (tk : Ticket) (p : Peer) : System :=
  { s with
    chan := (s.chan.enqueue (args i) tk).setPc i (.waiting tk)
    peers := Function.update s.peers tk.unit
      (some { p with queue := p.queue ++ [s.letter args i tk] }) }

/-- A daemon begins a round: it takes a letter and finds out what to send. -/
def take (s : System) (unit : UInt32) (l : Letter) (rest : List Letter) : System :=
  let es := (serveStep w s.rounds unit.toNat (.received l.rbuf)).2
  { s with
    peers := Function.update s.peers unit (some ⟨rest, (sends es).map fun packet => (l, packet)⟩)
    rounds := s.rounds + 1
    received := s.received ++ [(s.rounds, reqOf l.rbuf)] }

/-- A daemon sends; `procfs_ctl_send` runs in its thread. -/
def put (s : System) (unit : UInt32) (packet : Packet) (p : Peer) : System :=
  { s with
    chan := s.chan.procfsCtlSend packet
    peers := Function.update s.peers unit (some p) }

/-- A daemon connects; nothing is in its buffer. -/
def accept (s : System) (unit : UInt32) : System :=
  { s with
    chan := s.chan.procfsCtlConnect unit
    peers := Function.update s.peers unit (some ⟨[], []⟩) }

/-- A daemon is gone, and what was in its buffer. -/
def dismiss (s : System) (unit : UInt32) : System :=
  { s with
    chan := s.chan.procfsCtlDisconnect unit
    peers := Function.update s.peers unit none }

end System

/-- One step, if it is possible. `ctl_enqueuedata` accepts nothing for a unit that is not
connected, and a daemon does one thing at a time. -/
def step (s : System) : Act → Option System
  | .call a =>
    if ownStep a then (Ctl.step args s.chan a).map fun chan => { s with chan := chan } else none
  | .enqueue i error =>
    if error = 0 then
      match s.chan.pc i with
      | .allocated tk => (s.peers tk.unit).map fun p => s.deposit args i tk p
      | _ => none
    else (Ctl.step args s.chan (.enqueue i error)).map fun chan => { s with chan := chan }
  | .recv unit =>
    match s.peers unit with
    | some ⟨l :: rest, []⟩ => some (s.take w unit l rest)
    | _ => none
  | .reply unit =>
    match s.peers unit with
    | some ⟨queue, (_, packet) :: rest⟩ => some (s.put unit packet ⟨queue, rest⟩)
    | _ => none
  | .connect unit =>
    match s.peers unit with
    | none => some (s.accept unit)
    | some _ => none
  | .disconnect unit =>
    match s.peers unit with
    | some _ => some (s.dismiss unit)
    | none => none

def runFrom (acts : List Act) : Option System := run (step w args) initial acts

/-! ## What a step can do -/

/-- The steps as a relation. -/
inductive Step (s : System) : Act → System → Prop where
  | call {a chan} (ha : ownStep a = true) (h : Ctl.step args s.chan a = some chan) :
      Step s (.call a) { s with chan := chan }
  | enqueue {i tk p} (hpc : s.chan.pc i = .allocated tk) (hp : s.peers tk.unit = some p) :
      Step s (.enqueue i 0) (s.deposit args i tk p)
  | enqueueFail {i e chan} (he : e ≠ 0) (h : Ctl.step args s.chan (.enqueue i e) = some chan) :
      Step s (.enqueue i e) { s with chan := chan }
  | recv {unit l rest} (hp : s.peers unit = some ⟨l :: rest, []⟩) :
      Step s (.recv unit) (s.take w unit l rest)
  | reply {unit queue l packet rest} (hp : s.peers unit = some ⟨queue, (l, packet) :: rest⟩) :
      Step s (.reply unit) (s.put unit packet ⟨queue, rest⟩)
  | connect {unit} (hp : s.peers unit = none) : Step s (.connect unit) (s.accept unit)
  | disconnect {unit p} (hp : s.peers unit = some p) : Step s (.disconnect unit) (s.dismiss unit)

variable {w args} {s s' : System} {a : Act}

theorem step_rule (h : step w args s a = some s') : Step w args s a s' := by
  -- one case for each action
  cases a <;> simp only [step] at h
  case call a =>
    split at h
    · rename_i ha
      obtain ⟨chan, hchan, rfl⟩ := Option.map_eq_some_iff.mp h
      exact .call ha hchan
    · cases h
  case enqueue i e =>
    split at h
    · rename_i he
      rw [he]
      -- the kernel takes the request if the unit is connected
      split at h
      · rename_i tk hpc
        obtain ⟨p, hp, rfl⟩ := Option.map_eq_some_iff.mp h
        exact .enqueue hpc hp
      · cases h
    · rename_i he
      obtain ⟨chan, hchan, rfl⟩ := Option.map_eq_some_iff.mp h
      exact .enqueueFail he hchan
  case recv unit =>
    split at h
    · rename_i l rest hp
      cases h
      exact .recv hp
    · cases h
  case reply unit =>
    split at h
    · rename_i hp
      cases h
      exact .reply hp
    · cases h
  case connect unit =>
    split at h
    · rename_i hp
      cases h
      exact .connect hp
    · cases h
  case disconnect unit =>
    split at h
    · rename_i hp
      cases h
      exact .disconnect hp
    · cases h

/-- What a step is for the channel. -/
def System.chanAct (s : System) : Act → Option Ctl.Act
  | .call a => some a
  | .enqueue i e => some (.enqueue i e)
  | .recv _ => none
  | .reply unit => ((s.peers unit).bind fun p => p.todo.head?).map fun t => .send t.2
  | .connect unit => some (.connect unit)
  | .disconnect unit => some (.disconnect unit)

/-- Every step but a `recv` is one of the channel. -/
theorem Step.chan (h : Step w args s a s') :
    (s'.chan = s.chan ∧ s.chanAct a = none) ∨
      ∃ b, s.chanAct a = some b ∧ Ctl.step args s.chan b = some s'.chan := by
  -- only `recv` is not an action of the channel
  cases h with
  | call ha h => exact Or.inr ⟨_, rfl, h⟩
  -- the kernel has accepted the request: the channel sees a success
  | @enqueue i tk p hpc hp =>
    refine Or.inr ⟨.enqueue i 0, rfl, ?_⟩
    simp only [Ctl.step, hpc, if_true]
    rfl
  | enqueueFail he h => exact Or.inr ⟨_, rfl, h⟩
  | recv hp => exact Or.inl ⟨rfl, rfl⟩
  -- a reply arrives at the channel
  | @reply unit queue l packet rest hp =>
    refine Or.inr ⟨.send packet, ?_, rfl⟩
    simp only [System.chanAct, hp, Option.bind_some, List.head?_cons, Option.map_some]
  | connect hp => exact Or.inr ⟨_, rfl, rfl⟩
  | disconnect hp => exact Or.inr ⟨_, rfl, rfl⟩

theorem Step.inv (h : Step w args s a s') (hinv : Ctl.Inv s.chan) : Ctl.Inv s'.chan := by
  rcases h.chan with ⟨hsame, -⟩ | ⟨b, -, hstep⟩
  · rw [hsame]
    exact hinv
  · exact hinv.step hstep

/-- The life of a call goes on as it does on the channel. -/
theorem Step.life (h : Step w args s a s') (hinv : Ctl.Inv s.chan) (i : ℕ) :
    s'.chan.life i = s.chan.life i ∨
      ∃ b, s.chanAct a = some b ∧
        LifeStep (args i).outcap i b (s.chan.life i) (s'.chan.life i) := by
  rcases h.chan with ⟨hsame, -⟩ | ⟨b, hb, hstep⟩
  · exact Or.inl (by rw [hsame])
  · exact Or.inr ⟨b, hb, (Ctl.step_rule hstep).life hinv i⟩

/-! ## Letters -/

/-- A daemon has a letter: in its buffer, or it is about to answer it. -/
def System.HasAt (s : System) (unit : UInt32) (l : Letter) : Prop :=
  ∃ p, s.peers unit = some p ∧ (l ∈ p.queue ∨ ∃ packet, (l, packet) ∈ p.todo)

/-- A letter is the request of its call, and the call is the only one with that number. -/
structure Letter.Genuine (args : ℕ → Args) (c : Ctl.State) (l : Letter) (tk : Ticket) : Prop where
  rbuf : l.rbuf = packetOf (Ctl.State.request (args l.call) tk)
  seq : tk.seq.toNat = serial (2 ^ 32) l.birth
  pos : 0 < l.birth
  le : l.birth ≤ c.allocs
  owner : ∀ j tk', (c.pc j).ticket = some tk' → (c.slots tk'.slot).birth = l.birth →
    j = l.call ∧ tk' = tk

/-- Letters stay genuine whatever happens on the channel. -/
theorem Letter.Genuine.step {c c' : Ctl.State} {b : Ctl.Act} {l : Letter} {tk : Ticket}
    (h : l.Genuine args c tk) (hinv : Ctl.Inv c) (hstep : Ctl.step args c b = some c') :
    l.Genuine args c' tk := by
  rcases (Ctl.step_rule hstep).kept with
    ⟨i, k, -, hpc, hfree, rfl⟩ | ⟨i, tk₀, result, -, hpc, rfl⟩ | hkept
  · -- the request that gets a slot now has a number of its own
    refine ⟨h.rbuf, h.seq, h.pos, Nat.le_succ_of_le h.le, ?_⟩
    intro j tk' htk hbirth
    rcases Ctl.takeSlot_ticket htk with ⟨-, rfl⟩ | ⟨-, htk⟩
    · rw [Ctl.takeSlot_slots, if_pos (show (c.ticketFor k).slot = k from rfl)] at hbirth
      have hle := h.le
      have hnew : c.allocs + 1 = l.birth := hbirth
      omega
    · rw [Ctl.takeSlot_slots, if_neg (hinv.ne_of_freeSlot hfree htk)] at hbirth
      exact h.owner j tk' htk hbirth
  · refine ⟨h.rbuf, h.seq, h.pos, h.le, ?_⟩
    intro j tk' htk hbirth
    rcases Ctl.releaseSection_ticket htk with ⟨-, htk⟩
    refine h.owner j tk' htk ?_
    rw [← hbirth, Ctl.releaseSection_slots]
    split
    · rename_i heq
      rw [heq]
    · rfl
  · refine ⟨h.rbuf, h.seq, h.pos, hkept.allocs ▸ h.le, ?_⟩
    intro j tk' htk hbirth
    rw [hkept.ticket] at htk
    rw [hkept.birth] at hbirth
    exact h.owner j tk' htk hbirth

/-- The letter that a call sends is genuine. -/
theorem genuine_letter (hinv : Ctl.Inv s.chan) {i : ℕ} {tk : Ticket}
    (htk : (s.chan.pc i).ticket = some tk) : (s.letter args i tk).Genuine args s.chan tk := by
  rcases hinv.held i tk htk with ⟨hinUse, hseq⟩
  rcases hinv.born tk.slot hinUse with ⟨hpos, hle, hserial⟩
  refine ⟨rfl, hseq ▸ hserial, hpos, hle, ?_⟩
  intro j tk' htk' hbirth
  have hslot := hinv.apart tk'.slot tk.slot (hinv.held j tk' htk').1 hinUse hbirth
  have hj : j = i := hinv.eq_of_slot htk' htk hslot
  rw [hj, htk] at htk'
  exact ⟨hj, (Option.some.inj htk').symm⟩

/-- What a step may do to the daemon at a unit. -/
inductive PeerStep (w : World) (args : ℕ → Args) (s : System) (a : Act) (s' : System)
    (unit : UInt32) : Option Peer → Option Peer → Prop where
  | same {p} : PeerStep w args s a s' unit p p
  | deposit {i tk p} (ha : a = .enqueue i 0) (hpc : s.chan.pc i = .allocated tk) :
      PeerStep w args s a s' unit (some p)
        (some { p with queue := p.queue ++ [s.letter args i tk] })
  | take {l rest} (hreceived : (s.rounds, reqOf l.rbuf) ∈ s'.received) :
      PeerStep w args s a s' unit (some ⟨l :: rest, []⟩) (some ⟨rest, (sends (serveStep w s.rounds
        unit.toNat (.received l.rbuf)).2).map fun packet => (l, packet)⟩)
  | put {queue l packet rest} (hchan : s'.chan = s.chan.procfsCtlSend packet) :
      PeerStep w args s a s' unit (some ⟨queue, (l, packet) :: rest⟩) (some ⟨queue, rest⟩)
  | accept : PeerStep w args s a s' unit none (some ⟨[], []⟩)
  | dismiss {p} (hchan : s'.chan = s.chan.procfsCtlDisconnect unit) :
      PeerStep w args s a s' unit (some p) none

/-- One daemon at most takes part in a step. -/
theorem PeerStep.update {u : UInt32} {p : Option Peer}
    (hpeers : s'.peers = Function.update s.peers u p)
    (h : PeerStep w args s a s' u (s.peers u) p) (unit : UInt32) :
    PeerStep w args s a s' unit (s.peers unit) (s'.peers unit) := by
  rw [hpeers]
  by_cases hu : unit = u
  · rw [hu, Function.update_self]
    exact h
  · rw [Function.update_of_ne hu]
    exact .same

theorem Step.peer (h : Step w args s a s') (unit : UInt32) :
    PeerStep w args s a s' unit (s.peers unit) (s'.peers unit) := by
  -- at most one unit is written
  cases h with
  | call ha h => exact .same
  | enqueueFail he h => exact .same
  | enqueue hpc hp =>
    refine .update rfl ?_ unit
    rw [hp]
    exact .deposit rfl hpc
  | recv hp =>
    refine .update rfl ?_ unit
    rw [hp]
    exact .take (List.mem_append_right _ List.mem_cons_self)
  | reply hp =>
    refine .update rfl ?_ unit
    rw [hp]
    exact .put rfl
  | connect hp =>
    refine .update rfl ?_ unit
    rw [hp]
    exact .accept
  | disconnect hp =>
    refine .update rfl ?_ unit
    rw [hp]
    exact .dismiss rfl

/-- What the daemons received stays on record. -/
theorem Step.received (h : Step w args s a s') {x : ℕ × CtlReq} (hx : x ∈ s.received) :
    x ∈ s'.received := by
  cases h with
  | recv hp => exact List.mem_append_left _ hx
  | _ => exact hx

/-- Where the letters after a step come from. -/
theorem Step.hasAt (h : Step w args s a s') {unit : UInt32} {l : Letter} (hl : s'.HasAt unit l) :
    s.HasAt unit l ∨
      ∃ i tk, a = .enqueue i 0 ∧ s.chan.pc i = .allocated tk ∧ l = s.letter args i tk := by
  obtain ⟨p', hp', hmem⟩ := hl
  have hpeer := h.peer unit
  rw [hp'] at hpeer
  generalize hp : s.peers unit = p at hpeer
  -- what a daemon can do between two steps
  cases hpeer with
  | same => exact Or.inl ⟨p', hp, hmem⟩
  -- a new letter is at the end of the queue
  | @deposit i tk p ha hpc =>
    rcases hmem with hmem | hmem
    · rcases List.mem_append.mp hmem with hmem | hmem
      · exact Or.inl ⟨p, hp, Or.inl hmem⟩
      · exact Or.inr ⟨i, tk, ha, hpc, List.mem_singleton.mp hmem⟩
    · exact Or.inl ⟨p, hp, Or.inr hmem⟩
  -- the letter is on its way to a reply: it is still at the daemon
  | take =>
    rcases hmem with hmem | ⟨packet, hmem⟩
    · exact Or.inl ⟨_, hp, Or.inl (List.mem_cons_of_mem _ hmem)⟩
    · obtain ⟨packet', -, heq⟩ := List.mem_map.mp hmem
      rw [← (Prod.mk.inj heq).1]
      exact Or.inl ⟨_, hp, Or.inl List.mem_cons_self⟩
  -- the reply is sent, and what is left was there before
  | put hchan =>
    rcases hmem with hmem | ⟨packet', hmem⟩
    · exact Or.inl ⟨_, hp, Or.inl hmem⟩
    · exact Or.inl ⟨_, hp, Or.inr ⟨packet', List.mem_cons_of_mem _ hmem⟩⟩
  -- a daemon that has just connected has none
  | accept =>
    rcases hmem with hmem | ⟨packet', hmem⟩
    · cases hmem
    · cases hmem

/-- A letter stays where it is until its daemon sends the reply or is gone. -/
theorem Step.hasAt_kept (h : Step w args s a s') {unit : UInt32} {l : Letter} (hl : s.HasAt unit l)
    (hsends : ∀ rbuf, l.rbuf = rbuf →
      sends (serveStep w s.rounds unit.toNat (.received rbuf)).2 ≠ []) :
    s'.HasAt unit l ∨ (∃ packet, (∃ p, s.peers unit = some p ∧ (l, packet) ∈ p.todo) ∧
      s'.chan = s.chan.procfsCtlSend packet) ∨ s'.chan = s.chan.procfsCtlDisconnect unit := by
  obtain ⟨p, hp, hmem⟩ := hl
  have hpeer := h.peer unit
  rw [hp] at hpeer
  generalize hp' : s'.peers unit = p' at hpeer
  cases hpeer with
  | same => exact Or.inl ⟨p, hp', hmem⟩
  | deposit ha hpc =>
    refine Or.inl ⟨_, hp', ?_⟩
    rcases hmem with hmem | hmem
    · exact Or.inl (List.mem_append_left _ hmem)
    · exact Or.inr hmem
  -- the first letter is taken; there is a reply to it
  | @take l' rest =>
    rcases hmem with hmem | ⟨packet, hmem⟩
    · rcases List.mem_cons.mp hmem with rfl | hmem
      · obtain ⟨packet, hpacket⟩ := List.exists_mem_of_ne_nil _ (hsends l.rbuf rfl)
        exact Or.inl ⟨_, hp', Or.inr ⟨packet, List.mem_map_of_mem hpacket⟩⟩
      · exact Or.inl ⟨_, hp', Or.inl hmem⟩
    · cases hmem
  -- the reply that is sent is the one to this letter, or to another
  | @put queue l' packet rest hchan =>
    rcases hmem with hmem | ⟨packet', hmem⟩
    · exact Or.inl ⟨_, hp', Or.inl hmem⟩
    · rcases List.mem_cons.mp hmem with heq | hmem'
      · cases heq
        exact Or.inr (Or.inl ⟨packet, ⟨_, hp, List.mem_cons_self⟩, hchan⟩)
      · exact Or.inl ⟨_, hp', Or.inr ⟨packet', hmem'⟩⟩
  | dismiss hchan => exact Or.inr (Or.inr hchan)

end ProcFS.Served
