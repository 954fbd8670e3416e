import Mathlib.Data.List.FinRange
import Mathlib.Logic.Function.Basic
import ProcFS.Lib.Runs
import ProcFS.Types

/-!
# ProcFS.Ctl — the control channel to the daemon

What the kernel extension cannot find out by itself it asks of a daemon, over a
kernel control socket. `procfs_ctl_request` takes one of sixteen slots and a sequence
number, sends a request and sleeps until `procfs_ctl_send` stores the reply with that
number in the slot, the daemon disconnects, two seconds have passed or a signal
arrives.

Each stretch of code under `g_ctl_lock` is one step here, and so is each part without
it: the first look at `g_ctl_connected`, and `ctl_enqueuedata`. A call is known by the
point it has reached between two steps, together with its local variables. A run is
any interleaving of the steps of any number of calls, of replies with any content, and
of connects and disconnects. The control is registered throughout (`g_ctl_ref` is not
NULL); a sleeper may also wake up for no reason.

* `step_rule`: all that a step of the channel can do.
-/

namespace ProcFS.Ctl

/-! ## Constants -/

def procfsCtlSlots : ℕ := 16

def procfsCtlMaxpayload : ℕ := 2048

def procfsCtlNamemax : ℕ := 256

def procfsCtlMagic : UInt32 := 0x50524F43

/-! The error codes are plain numbers on this channel: those of the daemon are handed
on as they are. -/

def ebusy : Int32 := 16

def enotconn : Int32 := 57

def etimedout : Int32 := 60

/-! ## Packets and slots -/

/-- `struct procfs_ctl_req`, from the kernel extension to the daemon. -/
structure CtlReq where
  magic : UInt32
  seq : UInt32
  type : UInt32
  pid : Int32
  arg : UInt64
  name : CString
deriving DecidableEq, Repr

/-- `struct procfs_ctl_resp`, the header of a reply. -/
structure CtlResp where
  magic : UInt32
  seq : UInt32
  error : Int32
  len : UInt32
deriving DecidableEq, Repr

/-- A packet from the daemon: too short for a header, or a header and the bytes that
follow it. How many do follow is independent of what the header says. -/
inductive Packet where
  | short (bytes : List UInt8)
  | full (resp : CtlResp) (payload : List UInt8)
deriving DecidableEq, Repr

structure SlotBuf where
  bytes : List UInt8
  length_eq : bytes.length = procfsCtlMaxpayload

/-- `mbuf_copydata` to the start of the buffer. -/
def SlotBuf.copyIn (b : SlotBuf) (data : List UInt8) : SlotBuf where
  bytes := data.take procfsCtlMaxpayload ++ b.bytes.drop data.length
  length_eq := by
    have hlen := b.length_eq
    simp only [List.length_append, List.length_take, List.length_drop]
    omega

/-- `struct procfs_ctl_slot`. `birth` is no field of the source: it is the number of
the request that has the slot, counted from the first one ever. -/
structure Slot where
  inUse : Bool
  done : Bool
  seq : UInt32
  error : Int32
  len : ℕ
  buf : SlotBuf
  birth : ℕ

/-- The slot waits for a reply. -/
def Slot.isOpen (sl : Slot) : Bool := sl.inUse && !sl.done

/-- What a call returns: an error, or 0 and the bytes stored in the caller's buffer. -/
abbrev Result := Except Int32 (List UInt8)

/-- The end of the wait, for a caller with room for `outcap` bytes. -/
def Slot.outcome (sl : Slot) (outcap : ℕ) : Result :=
  if sl.done then
    if sl.error = 0 then .ok (sl.buf.bytes.take (min sl.len outcap)) else .error sl.error
  else .error etimedout

/-- What `procfs_ctl_send` stores. The length is that of the header, cut to the size of
the buffer; the bytes are copied only if there are as many. -/
def Slot.answer (sl : Slot) (resp : CtlResp) (payload : List UInt8) : Slot :=
  let plen := min resp.len.toNat procfsCtlMaxpayload
  { sl with
    buf := if 0 < plen ∧ plen ≤ payload.length then sl.buf.copyIn (payload.take plen) else sl.buf
    len := plen
    error := resp.error
    done := true }

/-- What a disconnect stores in a slot that waits for a reply. -/
def Slot.hangUp (sl : Slot) : Slot :=
  if sl.isOpen then { sl with error := enotconn, done := true } else sl

/-! ## Calls -/

/-- The arguments of `procfs_ctl_request_impl`. -/
structure Args where
  type : UInt32
  pid : Int32
  arg : UInt64
  name : Option CString
  outcap : ℕ

/-- The locals of a call that has a slot. -/
structure Ticket where
  slot : Fin procfsCtlSlots
  seq : UInt32
  unit : UInt32
deriving DecidableEq, Repr

/-- Where a call is in `procfs_ctl_request_impl`. -/
inductive Pc where
  /-- Not called yet. -/
  | idle
  /-- The control was connected; waiting for the lock, to look for a slot. -/
  | checked
  /-- Returned without having had a slot. -/
  | refused (error : Int32)
  /-- In `ctl_enqueuedata`. -/
  | allocated (tk : Ticket)
  /-- Waiting for the lock, to test the condition of the loop. -/
  | waiting (tk : Ticket)
  /-- In `msleep`. -/
  | asleep (tk : Ticket)
  /-- The result is known; waiting for the lock, to free the slot. -/
  | leaving (tk : Ticket) (result : Result)
  /-- Returned. -/
  | returned (result : Result)

/-- The slot of a call that has one. -/
def Pc.ticket : Pc → Option Ticket
  | .allocated tk | .waiting tk | .asleep tk | .leaving tk _ => some tk
  | _ => none

/-- `wakeup` on some slots, for one call. -/
def Pc.wake (woken : Fin procfsCtlSlots → Bool) : Pc → Pc
  | .asleep tk => if woken tk.slot then .waiting tk else .asleep tk
  | pc => pc

/-- The state of the channel. `allocs` is no variable of the source: it counts the
requests that got a slot. -/
structure State where
  gCtlConnected : Bool
  gCtlUnit : UInt32
  gCtlSeq : UInt32
  slots : Fin procfsCtlSlots → Slot
  pc : ℕ → Pc
  sent : List (UInt32 × CtlReq)
  allocs : ℕ

/-- The control was just registered. -/
def initial : State where
  gCtlConnected := false
  gCtlUnit := 0
  gCtlSeq := 0
  slots _ := ⟨false, false, 0, 0, 0, ⟨List.replicate procfsCtlMaxpayload 0, by simp⟩, 0⟩
  pc _ := .idle
  sent := []
  allocs := 0

/-- `++g_ctl_seq`, once more if that gave 0. -/
def nextSeq (seq : UInt32) : UInt32 := if seq + 1 = 0 then seq + 1 + 1 else seq + 1

namespace State

def setPc (s : State) (i : ℕ) (pc : Pc) : State := { s with pc := Function.update s.pc i pc }

def setSlot (s : State) (k : Fin procfsCtlSlots) (sl : Slot) : State :=
  { s with slots := Function.update s.slots k sl }

/-- `wakeup`: every call asleep on one of the slots becomes runnable. -/
def wakeup (s : State) (woken : Fin procfsCtlSlots → Bool) : State :=
  { s with pc := fun i => (s.pc i).wake woken }

@[simp] theorem setPc_pc_self (s : State) (i : ℕ) (p : Pc) : (s.setPc i p).pc i = p := by
  simp [setPc]

theorem setPc_pc_of_ne {i j : ℕ} (h : j ≠ i) (s : State) (p : Pc) :
    (s.setPc i p).pc j = s.pc j := by
  simp [setPc, h]

@[simp] theorem setPc_slots (s : State) (i : ℕ) (p : Pc) : (s.setPc i p).slots = s.slots := rfl

@[simp] theorem setSlot_slots_self (s : State) (k : Fin procfsCtlSlots) (sl : Slot) :
    (s.setSlot k sl).slots k = sl := by
  simp [setSlot]

theorem setSlot_slots_of_ne {k l : Fin procfsCtlSlots} (h : l ≠ k) (s : State) (sl : Slot) :
    (s.setSlot k sl).slots l = s.slots l := by
  simp [setSlot, h]

@[simp] theorem setSlot_pc (s : State) (k : Fin procfsCtlSlots) (sl : Slot) :
    (s.setSlot k sl).pc = s.pc := rfl

@[simp] theorem wakeup_slots (s : State) (woken : Fin procfsCtlSlots → Bool) :
    (s.wakeup woken).slots = s.slots := rfl

@[simp] theorem wakeup_pc (s : State) (woken : Fin procfsCtlSlots → Bool) (i : ℕ) :
    (s.wakeup woken).pc i = (s.pc i).wake woken := rfl

def freeSlot (s : State) : Option (Fin procfsCtlSlots) :=
  (List.finRange procfsCtlSlots).find? fun k => !(s.slots k).inUse

/-- The first slot that waits for a reply with this number. -/
def matching (s : State) (seq : UInt32) : Option (Fin procfsCtlSlots) :=
  (List.finRange procfsCtlSlots).find? fun k =>
    (s.slots k).isOpen && (s.slots k).seq == seq

/-! ## The sections under the lock -/

/-- The ticket of a call that gets slot `k` now. -/
def ticketFor (s : State) (k : Fin procfsCtlSlots) : Ticket := ⟨k, nextSeq s.gCtlSeq, s.gCtlUnit⟩

/-- A call takes a free slot. Its buffer keeps what is in it. -/
def takeSlot (s : State) (i : ℕ) (k : Fin procfsCtlSlots) : State :=
  let seq := nextSeq s.gCtlSeq
  { s with
    gCtlSeq := seq
    slots := Function.update s.slots k
      { s.slots k with
        inUse := true, done := false, seq := seq, error := 0, len := 0, birth := s.allocs + 1 }
    allocs := s.allocs + 1 }.setPc i (.allocated (s.ticketFor k))

/-- The search for a slot. -/
def allocateSection (s : State) (i : ℕ) : State :=
  match s.freeSlot with
  | some k => s.takeSlot i k
  | none => s.setPc i (.refused ebusy)

def request (args : Args) (tk : Ticket) : CtlReq where
  magic := procfsCtlMagic
  seq := tk.seq
  type := args.type
  pid := args.pid
  arg := args.arg
  name := (args.name.getD []).take (procfsCtlNamemax - 1)

/-- `ctl_enqueuedata` accepts the request. -/
def enqueue (s : State) (args : Args) (tk : Ticket) : State :=
  { s with sent := s.sent ++ [(tk.unit, request args tk)] }

/-- The test of the loop condition: the wait ends if the slot is done. -/
def lookSection (s : State) (i : ℕ) (args : Args) (tk : Ticket) : State :=
  if (s.slots tk.slot).done then s.setPc i (.leaving tk ((s.slots tk.slot).outcome args.outcap))
  else s.setPc i (.asleep tk)

/-- `msleep` returned an error: the wait ends in any case. -/
def interruptSection (s : State) (i : ℕ) (args : Args) (tk : Ticket) : State :=
  s.setPc i (.leaving tk ((s.slots tk.slot).outcome args.outcap))

/-- The slot is given back. -/
def releaseSection (s : State) (i : ℕ) (tk : Ticket) (result : Result) : State :=
  (s.setSlot tk.slot { s.slots tk.slot with inUse := false }).setPc i (.returned result)

def procfsCtlSend (s : State) : Packet → State
  | .short _ => s
  | .full resp payload =>
    if resp.magic = procfsCtlMagic then
      match s.matching resp.seq with
      | some k => (s.setSlot k ((s.slots k).answer resp payload)).wakeup (· == k)
      | none => s
    else s

def procfsCtlConnect (s : State) (unit : UInt32) : State :=
  { s with gCtlUnit := unit, gCtlConnected := true }

/-- `procfs_ctl_disconnect`. Which unit it was is not looked at. -/
def procfsCtlDisconnect (s : State) (_unit : UInt32) : State :=
  { s with gCtlConnected := false, slots := fun k => (s.slots k).hangUp }.wakeup
    fun k => (s.slots k).isOpen

end State

/-! ## The steps -/

/-- The steps of the calls, with the outcome of what may fail, and those of the daemon
and the kernel. -/
inductive Act where
  /-- A call begins, and looks at `g_ctl_connected` without the lock. -/
  | start (i : ℕ)
  /-- The call gets the lock and looks for a slot. -/
  | allocate (i : ℕ)
  /-- `ctl_enqueuedata` returns. -/
  | enqueue (i : ℕ) (error : Int32)
  /-- The call gets the lock and tests the condition of the loop. -/
  | look (i : ℕ)
  /-- `msleep` returns 0 although nobody called `wakeup`. -/
  | wake (i : ℕ)
  /-- `msleep` returns an error: the time is over or there is a signal. -/
  | interrupt (i : ℕ)
  /-- The call gets the lock, frees its slot and returns. -/
  | release (i : ℕ)
  /-- A packet arrives from the daemon. -/
  | send (packet : Packet)
  /-- A daemon connects. -/
  | connect (unit : UInt32)
  /-- A daemon disconnects. -/
  | disconnect (unit : UInt32)
deriving DecidableEq

/-- One step, if it is possible. `args` are the arguments of the calls. -/
def step (args : ℕ → Args) (s : State) : Act → Option State
  | .start i =>
    match s.pc i with
    | .idle =>
      if s.gCtlConnected then some (s.setPc i .checked) else some (s.setPc i (.refused enotconn))
    | _ => none
  | .allocate i =>
    match s.pc i with
    | .checked => some (s.allocateSection i)
    | _ => none
  | .enqueue i error =>
    match s.pc i with
    | .allocated tk =>
      if error = 0 then some ((s.enqueue (args i) tk).setPc i (.waiting tk))
      else some (s.setPc i (.leaving tk (.error error)))
    | _ => none
  | .look i =>
    match s.pc i with
    | .waiting tk => some (s.lookSection i (args i) tk)
    | _ => none
  | .wake i =>
    match s.pc i with
    | .asleep tk => some (s.setPc i (.waiting tk))
    | _ => none
  | .interrupt i =>
    match s.pc i with
    | .asleep tk => some (s.interruptSection i (args i) tk)
    | _ => none
  | .release i =>
    match s.pc i with
    | .leaving tk result => some (s.releaseSection i tk result)
    | _ => none
  | .send packet => some (s.procfsCtlSend packet)
  | .connect unit => some (s.procfsCtlConnect unit)
  | .disconnect unit => some (s.procfsCtlDisconnect unit)

def runFrom (args : ℕ → Args) (acts : List Act) : Option State := run (step args) initial acts

/-! ## What a step can do -/

/-- The steps as a relation, with one rule for each outcome. -/
inductive Step (args : ℕ → Args) (s : State) : Act → State → Prop where
  | start {i} (hpc : s.pc i = .idle) (hconn : s.gCtlConnected = true) :
      Step args s (.start i) (s.setPc i .checked)
  | startRefused {i} (hpc : s.pc i = .idle) (hconn : s.gCtlConnected = false) :
      Step args s (.start i) (s.setPc i (.refused enotconn))
  | allocate {i k} (hpc : s.pc i = .checked) (hfree : s.freeSlot = some k) :
      Step args s (.allocate i) (s.takeSlot i k)
  | allocateBusy {i} (hpc : s.pc i = .checked) (hfree : s.freeSlot = none) :
      Step args s (.allocate i) (s.setPc i (.refused ebusy))
  | enqueue {i tk} (hpc : s.pc i = .allocated tk) :
      Step args s (.enqueue i 0) ((s.enqueue (args i) tk).setPc i (.waiting tk))
  | enqueueFail {i tk} (e) (hpc : s.pc i = .allocated tk) (he : e ≠ 0) :
      Step args s (.enqueue i e) (s.setPc i (.leaving tk (.error e)))
  | sleep {i tk} (hpc : s.pc i = .waiting tk) (hdone : (s.slots tk.slot).done = false) :
      Step args s (.look i) (s.setPc i (.asleep tk))
  | collect {i tk} (hpc : s.pc i = .waiting tk) (hdone : (s.slots tk.slot).done = true) :
      Step args s (.look i)
        (s.setPc i (.leaving tk ((s.slots tk.slot).outcome (args i).outcap)))
  | wake {i tk} (hpc : s.pc i = .asleep tk) : Step args s (.wake i) (s.setPc i (.waiting tk))
  | interrupt {i tk} (hpc : s.pc i = .asleep tk) :
      Step args s (.interrupt i)
        (s.setPc i (.leaving tk ((s.slots tk.slot).outcome (args i).outcap)))
  | release {i tk result} (hpc : s.pc i = .leaving tk result) :
      Step args s (.release i) (s.releaseSection i tk result)
  | sendIgnored {packet} (h : s.procfsCtlSend packet = s) : Step args s (.send packet) s
  | send {resp payload k} (hmagic : resp.magic = procfsCtlMagic)
      (hmatch : s.matching resp.seq = some k) :
      Step args s (.send (.full resp payload))
        ((s.setSlot k ((s.slots k).answer resp payload)).wakeup (· == k))
  | connect {unit} : Step args s (.connect unit) (s.procfsCtlConnect unit)
  | disconnect {unit} : Step args s (.disconnect unit) (s.procfsCtlDisconnect unit)

theorem step_rule {args : ℕ → Args} {s s' : State} {a : Act} (h : step args s a = some s') :
    Step args s a s' := by
  -- one case for each action; a call that is not at the point of the action does not take it
  cases a <;> simp only [step] at h
  case start i =>
    split at h
    · rename_i hpc
      split at h
      · rename_i hconn
        cases h
        exact .start hpc hconn
      · rename_i hconn
        cases h
        exact .startRefused hpc (Bool.eq_false_iff.mpr hconn)
    · cases h
  case allocate i =>
    split at h
    · rename_i hpc
      cases h
      unfold State.allocateSection
      -- a free slot is taken, and without one the call returns `EBUSY`
      cases hfree : s.freeSlot with
      | some k => exact .allocate hpc hfree
      | none => exact .allocateBusy hpc hfree
    · cases h
  case enqueue i e =>
    split at h
    · rename_i hpc
      split at h
      · rename_i he
        cases h
        rw [he]
        exact .enqueue hpc
      · rename_i he
        cases h
        exact .enqueueFail e hpc he
    · cases h
  case look i =>
    split at h
    · rename_i tk hpc
      cases h
      unfold State.lookSection
      -- the reply is there, or the call goes to sleep
      cases hdone : (s.slots tk.slot).done with
      | true => exact .collect hpc hdone
      | false => exact .sleep hpc hdone
    · cases h
  case wake i =>
    split at h
    · rename_i hpc
      cases h
      exact .wake hpc
    · cases h
  case interrupt i =>
    split at h
    · rename_i hpc
      cases h
      exact .interrupt hpc
    · cases h
  case release i =>
    split at h
    · rename_i hpc
      cases h
      exact .release hpc
    · cases h
  case send packet =>
    cases h
    -- what is too short, has another magic number or a number that nobody waits for changes nothing
    cases packet with
    | short bytes => exact .sendIgnored rfl
    | full resp payload =>
      by_cases hmagic : resp.magic = procfsCtlMagic
      · cases hmatch : s.matching resp.seq with
        | some k =>
          simp only [State.procfsCtlSend, hmagic, hmatch, if_true]
          exact .send hmagic hmatch
        | none =>
          have hsame : s.procfsCtlSend (.full resp payload) = s := by
            simp only [State.procfsCtlSend, hmagic, hmatch, if_true]
          rw [hsame]
          exact .sendIgnored hsame
      · have hsame : s.procfsCtlSend (.full resp payload) = s := by
          simp only [State.procfsCtlSend, hmagic, if_false]
        rw [hsame]
        exact .sendIgnored hsame
  case connect unit =>
    cases h
    exact .connect
  case disconnect unit =>
    cases h
    exact .disconnect

end ProcFS.Ctl
