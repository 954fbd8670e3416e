import Mathlib.Data.Fintype.Basic
import Mathlib.Logic.Function.Basic
import ProcFS.Lib.Runs
import ProcFS.Structure

/-!
# ProcFS.NodeTable — the table of nodes under concurrent lookups

`procfsnode_find` finds or creates the `pfsnode_t` of a key in a hash table that
all threads share. It holds the table's mutex while it looks at the table, and
drops it to allocate memory, to call back for a vnode, to take a reference on a
vnode and to sleep while another thread attaches one. `procfs_vnop_reclaim` takes
a node out of the table when the kernel recycles its vnode.

Each stretch of code that runs under the mutex is one step here, and so is each
call made without it. A thread is known by the point it has reached between two
steps, together with the local variables that are live there. A run is any
interleaving of the steps of any number of threads and of the kernel's reclaims.

Memory is not reused in the model: an address names one allocation, and a vnode
together with its id names one incarnation of that vnode.

* `step_rule`: all that a step of the node table can do.
-/

namespace ProcFS.NodeTable

/-! ## Nodes, vnodes and threads -/

/-- A `pfsnode_t *`. -/
abbrev Addr := ℕ

/-- A `vnode_t` with its vnode id. -/
abbrev Vnode := ℕ

/-- What identifies a node: the mount, and the id of the node on it. -/
structure Key where
  nodeMntId : Int32
  nodeId : PfsId
deriving DecidableEq, Repr

/-- `struct pfsnode`. -/
structure NodeRec where
  key : Key
  nodeStructureNode : Option Pfssnode
  nodeVnode : Option Vnode
  nodeAttachingVnode : Bool
  nodeThreadWaitingAttach : Bool
deriving DecidableEq, Repr

/-- The life of a vnode. Once its reclaim has started, no new iocount on it can
be taken. -/
inductive Vstate where
  | unused
  | live
  | reclaiming
  | reclaimed
deriving DecidableEq, Repr

/-- The arguments of a call. -/
structure Request where
  key : Key
  snode : Option Pfssnode
deriving DecidableEq, Repr

/-- What a call returns: a node and its vnode, or an error. -/
abbrev Result := Except Errno (Addr × Vnode)

/-- Where a thread is in `procfsnode_find`. `new` is the local `new_pfsnode` and
`target` the local `target_pfsnode`. -/
inductive Pc where
  /-- Outside of `procfsnode_find`. -/
  | idle
  /-- Waiting for the mutex, to run the loop body. `slept` is no variable of the
  source: it remembers the node the thread was asleep on just before. -/
  | top (new : Option Addr) (slept : Option Addr)
  /-- In `OSMalloc`. -/
  | allocating
  /-- In `msleep`. -/
  | sleeping (target : Addr) (new : Option Addr)
  /-- In `vnode_getwithvid`. -/
  | getting (target : Addr) (targetVnode : Vnode) (new : Option Addr)
  /-- In `create_vnode_func`. -/
  | creating (target : Addr) (new : Option Addr)
  /-- Back from `create_vnode_func` and waiting for the mutex. -/
  | created (target : Addr) (new : Option Addr) (answer : Except Errno Vnode)
  /-- Out of the loop, without the mutex. -/
  | exiting (result : Result) (new : Option Addr)
  /-- Back in the caller, which has not looked at the result yet. -/
  | returned (result : Result)

/-- A thread: the arguments of its current call, and where it is in it. -/
structure Thread where
  request : Request
  pc : Pc

/-- The shared state, with `N` threads. `freed` counts how often an address was
given to `OSFree`, and `iocount` the references that callers hold on a vnode. -/
structure State (N : ℕ) where
  thread : Fin N → Thread
  buckets : ℕ → List Addr
  mem : Addr → NodeRec
  nextAddr : Addr
  freed : Addr → ℕ
  vstate : Vnode → Vstate
  fsnode : Vnode → Option Addr
  nextVnode : Vnode
  iocount : Vnode → ℕ

variable {N : ℕ}

/-- No thread has called yet and the table is empty. The content of the memory
and the arguments of the threads are whatever they are. -/
def initial (mem : Addr → NodeRec) (request : Fin N → Request) : State N where
  thread t := ⟨request t, .idle⟩
  buckets _ := []
  mem := mem
  nextAddr := 0
  freed _ := 0
  vstate _ := .unused
  fsnode _ := none
  nextVnode := 0
  iocount _ := 0

/-! ## The hash table -/

/-- `HASH_FOR_MOUNT_AND_ID`. The object id makes the exclusive or a 64-bit one;
the cast keeps the low 32 bits. -/
def hashForMountAndId (k : Key) : Int32 :=
  (((k.nodeMntId <<< 16) ^^^ k.nodeId.nodeidPid).toInt64.toUInt64 ^^^
    k.nodeId.nodeidObjectid ^^^ k.nodeId.nodeidBaseId.toUInt64).toUInt32.toInt32

/-- `pfsnode_hash_to_bucket_mask`, for `HASH_BUCKET_COUNT` buckets. -/
def pfsnodeHashToBucketMask : UInt64 := 63

/-- `PROCFS_NODE_HASH_TO_BUCKET_HEADER` of the hash of a key. -/
def bucketOf (k : Key) : ℕ :=
  ((hashForMountAndId k).toInt64.toUInt64 &&& pfsnodeHashToBucketMask).toNat

namespace State

def InTable (s : State N) (n : Addr) : Prop := ∃ b, n ∈ s.buckets b

def pc (s : State N) (t : Fin N) : Pc := (s.thread t).pc

def keyOf (s : State N) (t : Fin N) : Key := (s.thread t).request.key

/-- The walk along a bucket. -/
def lookup (s : State N) (k : Key) : Option Addr :=
  (s.buckets (bucketOf k)).find? fun n => (s.mem n).key = k

def setPc (s : State N) (t : Fin N) (pc : Pc) : State N :=
  { s with thread := Function.update s.thread t ⟨(s.thread t).request, pc⟩ }

def setNode (s : State N) (n : Addr) (f : NodeRec → NodeRec) : State N :=
  { s with mem := Function.update s.mem n (f (s.mem n)) }

/-- `LIST_INSERT_HEAD`. -/
def insertHead (s : State N) (b : ℕ) (n : Addr) : State N :=
  { s with buckets := Function.update s.buckets b (n :: s.buckets b) }

def osFree (s : State N) (n : Addr) : State N :=
  { s with freed := Function.update s.freed n (s.freed n + 1) }

/-- `procfsnode_free_node`: the node leaves the bucket it is in. -/
def procfsnodeFreeNode (s : State N) (n : Addr) : State N :=
  { s with buckets := fun b => (s.buckets b).erase n }.osFree n

end State

/-- A thread that sleeps on a node goes back to the top of the loop. -/
def Pc.wake (n : Addr) : Pc → Pc
  | .sleeping target new => if target = n then .top new (some n) else .sleeping target new
  | pc => pc

/-- `wakeup`: every thread asleep on the node becomes runnable. -/
def State.wakeup (s : State N) (n : Addr) : State N :=
  { s with thread := fun t => ⟨(s.thread t).request, (s.thread t).pc.wake n⟩ }

/-! ## The sections under the mutex -/

/-- The second half of the loop body: a node is at hand, and another thread is
attaching its vnode, or it has a vnode, or this thread has to attach one. -/
def useNode (s : State N) (t : Fin N) (target : Addr) (new : Option Addr) : State N :=
  if (s.mem target).nodeAttachingVnode then
    (s.setNode target fun r => { r with nodeThreadWaitingAttach := true }).setPc t
      (.sleeping target new)
  else
    match (s.mem target).nodeVnode with
    | some v => s.setPc t (.getting target v new)
    | none =>
      (s.setNode target fun r => { r with nodeAttachingVnode := true }).setPc t
        (.creating target new)

/-- `memset` of a new node, and its key and structure node. -/
def newNode (r : Request) : NodeRec := ⟨r.key, r.snode, none, false, false⟩

/-- The loop body from the top, up to the point where the mutex is dropped. -/
def findSection (s : State N) (t : Fin N) (new : Option Addr) : State N :=
  match s.lookup (s.keyOf t), new with
  | some target, new => useNode s t target new
  | none, none => s.setPc t .allocating
  | none, some n =>
    useNode ((s.setNode n fun _ => newNode (s.thread t).request).insertHead
      (bucketOf (s.keyOf t)) n) t n (some n)

/-- The flag writes after the callback, and the wakeup if one was asked for. -/
def clearAttaching (s : State N) (target : Addr) : State N :=
  let s := s.setNode target fun r => { r with nodeAttachingVnode := false }
  if (s.mem target).nodeThreadWaitingAttach then
    (s.setNode target fun r => { r with nodeThreadWaitingAttach := false }).wakeup target
  else s

/-- From the return of the callback to the end of the loop. A node for which
there is no vnode is removed and freed. -/
def attachSection (s : State N) (t : Fin N) (target : Addr) (new : Option Addr) :
    Except Errno Vnode → State N
  | .error e => ((clearAttaching s target).procfsnodeFreeNode target).setPc t
      (.exiting (.error e) none)
  | .ok v => ((clearAttaching s target).setNode target fun r =>
      { r with nodeVnode := some v }).setPc t (.exiting (.ok (target, v)) new)

/-- `target_pfsnode` at the end of a call: null after an error. -/
def resultNode : Result → Option Addr
  | .ok (target, _) => some target
  | .error _ => none

/-- The end of a call: the node that was allocated is freed unless it was used. -/
def exitSection (s : State N) (t : Fin N) (result : Result) (new : Option Addr) : State N :=
  match new with
  | some n =>
    if resultNode result = some n then s.setPc t (.returned result)
    else (s.osFree n).setPc t (.returned result)
  | none => s.setPc t (.returned result)

def procfsVnopReclaim (s : State N) (v : Vnode) : State N :=
  let s' := match s.fsnode v with
    | some pnp => s.procfsnodeFreeNode pnp
    | none => s
  { s' with
    vstate := Function.update s'.vstate v .reclaimed
    fsnode := Function.update s'.fsnode v none }

/-! ## The steps -/

/-- The thread holds an iocount on a vnode. -/
def Pc.holds (v : Vnode) : Pc → Bool
  | .created _ _ (.ok v') => v' = v
  | .exiting (.ok (_, v')) _ => v' = v
  | .returned (.ok (_, v')) => v' = v
  | _ => false

/-- The steps of the threads, with the outcome of the calls that may fail, and
those of the kernel. -/
inductive Act (N : ℕ) where
  /-- The thread calls `procfsnode_find`. -/
  | call (t : Fin N) (r : Request)
  /-- The thread gets the mutex and runs the loop body from the top. -/
  | find (t : Fin N)
  /-- `OSMalloc` returns. -/
  | osMalloc (t : Fin N) (ok : Bool)
  /-- `vnode_getwithvid` returns. -/
  | vnodeGetwithvid (t : Fin N) (ok : Bool)
  /-- `create_vnode_func` returns, with an error or a new vnode. -/
  | createVnode (t : Fin N) (error : Option Errno)
  /-- The thread gets the mutex after the callback. -/
  | attach (t : Fin N)
  /-- The thread leaves `procfsnode_find`. -/
  | exit (t : Fin N)
  /-- The caller takes over the iocount on the vnode it got. -/
  | leave (t : Fin N)
  /-- Someone takes another iocount on a vnode. -/
  | vnodeGet (v : Vnode)
  /-- Someone drops an iocount. -/
  | vnodePut (v : Vnode)
  /-- The kernel decides to recycle a vnode nobody holds an iocount on. -/
  | reclaimStart (v : Vnode)
  /-- The kernel calls `procfs_vnop_reclaim`, which gets the mutex. -/
  | reclaim (v : Vnode)

namespace State

/-- A call begins, with no node found or allocated. -/
def begin (s : State N) (t : Fin N) (r : Request) : State N :=
  { s with thread := Function.update s.thread t ⟨r, .top none none⟩ }

/-- `OSMalloc` hands out memory that is not in use. -/
def osMalloc (s : State N) : State N := { s with nextAddr := s.nextAddr + 1 }

/-- `vnode_create` for a node. The thread that called it holds an iocount. -/
def vnodeCreate (s : State N) (n : Addr) : State N :=
  { s with
    vstate := Function.update s.vstate s.nextVnode .live
    fsnode := Function.update s.fsnode s.nextVnode (some n)
    nextVnode := s.nextVnode + 1 }

/-- The number of iocounts that callers hold on a vnode changes. -/
def setIocount (s : State N) (v : Vnode) (c : ℕ) : State N :=
  { s with iocount := Function.update s.iocount v c }

/-- The iocount that a result comes with becomes the caller's. -/
def keepIocount (s : State N) : Result → State N
  | .ok (_, v) => s.setIocount v (s.iocount v + 1)
  | .error _ => s

/-- The reclaim of a vnode starts. -/
def reclaimStart (s : State N) (v : Vnode) : State N :=
  { s with vstate := Function.update s.vstate v .reclaiming }

end State

def step (s : State N) : Act N → Option (State N)
  | .call t r =>
    match s.pc t with
    | .idle => some (s.begin t r)
    | _ => none
  | .find t =>
    match s.pc t with
    | .top new _ => some (findSection s t new)
    | _ => none
  | .osMalloc t ok =>
    match s.pc t with
    | .allocating =>
      if ok then some (s.osMalloc.setPc t (.top (some s.nextAddr) none))
      else some (s.setPc t (.exiting (.error .ENOMEM) none))
    | _ => none
  | .vnodeGetwithvid t ok =>
    match s.pc t with
    | .getting target v new =>
      if ok then
        if s.vstate v = .live then some (s.setPc t (.exiting (.ok (target, v)) new)) else none
      -- both locals are reset before the loop is restarted
      else some (s.setPc t (.top none none))
    | _ => none
  | .createVnode t error =>
    match s.pc t with
    | .creating target new =>
      match error with
      | none => some ((s.vnodeCreate target).setPc t (.created target new (.ok s.nextVnode)))
      | some e => some (s.setPc t (.created target new (.error e)))
    | _ => none
  | .attach t =>
    match s.pc t with
    | .created target new answer => some (attachSection s t target new answer)
    | _ => none
  | .exit t =>
    match s.pc t with
    | .exiting result new => some (exitSection s t result new)
    | _ => none
  | .leave t =>
    match s.pc t with
    | .returned result => some ((s.keepIocount result).setPc t .idle)
    | _ => none
  | .vnodeGet v => if s.vstate v = .live then some (s.setIocount v (s.iocount v + 1)) else none
  | .vnodePut v => if 0 < s.iocount v then some (s.setIocount v (s.iocount v - 1)) else none
  | .reclaimStart v =>
    if s.vstate v = .live ∧ s.iocount v = 0 ∧ ∀ t, (s.pc t).holds v = false then
      some (s.reclaimStart v)
    else none
  | .reclaim v =>
    if s.vstate v = .reclaiming then some (procfsVnopReclaim s v) else none

/-- The state after a list of steps, starting with an empty table. -/
def runFrom (mem : Addr → NodeRec) (request : Fin N → Request) (acts : List (Act N)) :
    Option (State N) :=
  run step (initial mem request) acts

/-! ## What a step can do -/

/-- The steps as a relation, with one rule for each outcome. -/
inductive Step : State N → Act N → State N → Prop where
  | call {s t} (r) (hpc : s.pc t = .idle) : Step s (.call t r) (s.begin t r)
  | find {s t new slept} (hpc : s.pc t = .top new slept) : Step s (.find t) (findSection s t new)
  | malloc {s t} (hpc : s.pc t = .allocating) :
      Step s (.osMalloc t true) (s.osMalloc.setPc t (.top (some s.nextAddr) none))
  | mallocFail {s t} (hpc : s.pc t = .allocating) :
      Step s (.osMalloc t false) (s.setPc t (.exiting (.error .ENOMEM) none))
  | get {s t target v new} (hpc : s.pc t = .getting target v new) (hlive : s.vstate v = .live) :
      Step s (.vnodeGetwithvid t true) (s.setPc t (.exiting (.ok (target, v)) new))
  | getFail {s t target v new} (hpc : s.pc t = .getting target v new) :
      Step s (.vnodeGetwithvid t false) (s.setPc t (.top none none))
  | create {s t target new} (hpc : s.pc t = .creating target new) :
      Step s (.createVnode t none)
        ((s.vnodeCreate target).setPc t (.created target new (.ok s.nextVnode)))
  | createFail {s t target new} (e) (hpc : s.pc t = .creating target new) :
      Step s (.createVnode t (some e)) (s.setPc t (.created target new (.error e)))
  | attach {s t target new answer} (hpc : s.pc t = .created target new answer) :
      Step s (.attach t) (attachSection s t target new answer)
  | exit {s t result new} (hpc : s.pc t = .exiting result new) :
      Step s (.exit t) (exitSection s t result new)
  | leave {s t result} (hpc : s.pc t = .returned result) :
      Step s (.leave t) ((s.keepIocount result).setPc t .idle)
  | vnodeGet {s v} (hlive : s.vstate v = .live) :
      Step s (.vnodeGet v) (s.setIocount v (s.iocount v + 1))
  | vnodePut {s v} (hpos : 0 < s.iocount v) :
      Step s (.vnodePut v) (s.setIocount v (s.iocount v - 1))
  | reclaimStart {s v} (hlive : s.vstate v = .live) (hholds : ∀ t, (s.pc t).holds v = false) :
      Step s (.reclaimStart v) (s.reclaimStart v)
  | reclaim {s v} (hv : s.vstate v = .reclaiming) : Step s (.reclaim v) (procfsVnopReclaim s v)

theorem step_rule {s s' : State N} {a : Act N} (h : step s a = some s') : Step s a s' := by
  -- one case for each action; a thread that is not at the point of the action does not take it
  cases a <;> simp only [step] at h
  case call t r =>
    split at h
    · rename_i hpc
      cases h
      exact .call r hpc
    · cases h
  case find t =>
    split at h
    · rename_i hpc
      cases h
      exact .find hpc
    · cases h
  case osMalloc t ok =>
    split at h
    · rename_i hpc
      cases ok <;> cases h
      · exact .mallocFail hpc
      · exact .malloc hpc
    · cases h
  case vnodeGetwithvid t ok =>
    split at h
    · rename_i hpc
      cases ok
      · cases h
        exact .getFail hpc
      · -- the kernel gives an iocount only on a vnode that is not being reclaimed
        simp only [if_true] at h
        split at h
        · rename_i hlive
          cases h
          exact .get hpc hlive
        · cases h
    · cases h
  case createVnode t error =>
    split at h
    · rename_i hpc
      cases error <;> cases h
      · exact .create hpc
      · exact .createFail _ hpc
    · cases h
  case attach t =>
    split at h
    · rename_i hpc
      cases h
      exact .attach hpc
    · cases h
  case exit t =>
    split at h
    · rename_i hpc
      cases h
      exact .exit hpc
    · cases h
  case leave t =>
    split at h
    · rename_i hpc
      cases h
      exact .leave hpc
    · cases h
  case vnodeGet v =>
    split at h
    · rename_i hlive
      cases h
      exact .vnodeGet hlive
    · cases h
  case vnodePut v =>
    split at h
    · rename_i hpos
      cases h
      exact .vnodePut hpos
    · cases h
  case reclaimStart v =>
    split at h
    · rename_i hguard
      cases h
      -- the vnode is live, has no iocount, and no thread inside of a call holds it
      exact .reclaimStart hguard.1 hguard.2.2
    · cases h
  case reclaim v =>
    split at h
    · rename_i hv
      cases h
      exact .reclaim hv
    · cases h

end ProcFS.NodeTable
