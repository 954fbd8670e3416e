import ProcFS.Lib.Refs
import ProcFS.NodeSize

/-!
# ProcFS.ProcRefs — references to processes

`proc_find` returns a process with a reference to it, which `proc_rele` gives
back. Here lookup, readdir and getattr are as in the other modules, but with these
two calls in the places where the source has them. Processes may come and go
between any two calls of `proc_find`: what it returns depends on everything that
happened before.

In lookup the reference is taken in one of two branches of the loop and given back
behind it, so the loop returns it with the match. In readdir and in the size
functions it is given back in the branch that takes it, and getattr holds one while
the size is computed.

* `uses_bracket`: the rule for a process that is looked for, used and given back.
* `vnops_release_all`: lookup, readdir and getattr give back what they took, once, on every way out.
-/

namespace ProcFS.ProcRefs

open Lib

/-- A program that calls `proc_find` and `proc_rele`. -/
abbrev Refs := Traced Int32 Proc

/-- The processes that are there after what happened so far. -/
abbrev Procs := List (RefEvent Int32 Proc) → ProcTable

section Model

variable (procs : Procs) (w : World) (c : Caller) (dir : Pfsnode)

def procFind (pid : Int32) : Refs (Option Proc) := Traced.find (fun es => (procs es).procFind) pid

def procRele (p : Proc) : Refs Unit := Traced.rele p

def procfsCheckCanAccessProcPid (creds : Cred) (pid : Int32) : Refs (Option Errno) := do
  match ← procFind procs pid with
  | some p =>
    let error := procfsCheckCanAccessProcess creds p
    procRele p
    return error
  | none => return some .ESRCH

/-- The `for` loop of `procfs_get_pids`. -/
def getPidsLoop (creds : Option Cred) : ℕ → ℕ → ℕ → Refs (List Int32)
  | 0, _, _ => return []
  | n + 1, pid, count =>
    if count < procfsMaxProcs then do
      match ← procFind procs (Int32.ofNat pid) with
      | some p =>
        let visible := pidVisible creds p
        procRele p
        if visible then
          return Int32.ofNat pid :: (← getPidsLoop creds n (pid + 1) (count + 1))
        else getPidsLoop creds n (pid + 1) count
      | none => getPidsLoop creds n (pid + 1) count
    else return []

def procfsGetPids (mem : Allocs) (creds : Option Cred) : Refs (List Int32) :=
  if mem.pidList then getPidsLoop procs creds (procfsMaxPid + 1) 0 0 else return []

/-! ### Lookup -/

/-- Whether `id` is in the list of open descriptors. -/
def isOpen (p : Proc) (id : Int32) : Bool :=
  match procfsGetFdList w.mem p with
  | .ok fds => fds.contains id
  | .error _ => false

/-- The branch for a descriptor directory: `target_proc`, and what was found. -/
def lookupFd (s : Pfssnode) (id : Int32) : Refs (Option Proc × Match) :=
  if id ≠ -1 then do
    let targetProc ← procFind procs dir.nodeId.nodeidPid
    -- found or not, the process stays in `target_proc`
    if targetProc.any fun p => isOpen w p id then
      return (targetProc, .ok (some (s, ⟨dir.nodeId.nodeidPid, objectidOfInt id, s.psnBaseNodeId⟩)))
    else return (targetProc, .error .ENOENT)
  else return (none, .error .ENOENT)

/-- The branch for a process, process name or thread directory. -/
def lookupProc (name : CString) (s : Pfssnode) (id : Int32) : Refs (Option Proc × Match) := do
  match ← procFind procs (procMatchId dir s id).nodeidPid with
  | none => return (none, .error .ENOENT)
  | some p =>
    if s.psnNodeType = .procnamedir ∧ name ≠ procfsConstructProcessDirName p then
      return (some p, .error .ENOENT)
    else if c.checkAccess ∧ procfsCheckCanAccessProcess c.cred p ≠ none then
      return (some p, .error .ENOENT)
    else if s.psnNodeType = .thread ∧ ¬ hasThread w p (procMatchId dir s id).nodeidObjectid then
      return (some p, .error .ENOENT)
    else return (some p, .ok (some (s, procMatchId dir s id)))

/-- The same branch from the name on. -/
def lookupNumber (name : CString) (s : Pfssnode) (next : Refs (Option Proc × Match)) :
    Refs (Option Proc × Match) :=
  if s.psnNodeType ≠ .procnamedir ∧ (procfsAtoi name).2 ≠ [] then next
  else if (procfsAtoi name).1 ≠ -1 then lookupProc procs w c dir name s (procfsAtoi name).1
  else next

/-- The `TAILQ_FOREACH` over the children of the directory's structure node. -/
def lookupLoop (name : CString) : List Pfssnode → Refs (Option Proc × Match)
  | [] => return (none, .ok none)
  | s :: rest =>
    if procfsNodeVersionHidden w.linuxVersion s.psnName then lookupLoop name rest
    else if name = s.psnName then
      return (none,
        .ok (some (s, ⟨dir.nodeId.nodeidPid, dir.nodeId.nodeidObjectid, s.psnBaseNodeId⟩)))
    else
      match s.psnNodeType with
      | .fd => lookupFd procs w dir s (procfsAtoi name).1
      | .proc | .procnamedir | .thread => lookupNumber procs w c dir name s (lookupLoop name rest)
      | _ => lookupLoop name rest

/-- What is found at `sysctl_matched`, and `target_proc`. -/
def lookupTarget (name : CString) : Refs (Option Proc × Match) :=
  let snode := dir.nodeStructureNode
  if snode.psnNodeType = .sysctl then
    return (none, .ok ((procfsSysctlFind w.oids dir.nodeId.nodeidObjectid name).map fun oid =>
      (snode, ⟨prnodeNoPid, oid, snode.psnBaseNodeId⟩)))
  else lookupLoop procs w c dir name (w.tree.children snode)

/-- The search for a name other than `.` and `..`. What the loop left in `target_proc` is given back
before the node is looked for. -/
def lookupMatch (name : CString) : Refs Match := do
  let r ← lookupTarget procs w c dir name
  Traced.rele? r.1
  return r.2

def procfsVnopLookup (table : List Pfsnode) (cname : CString) (env : VnodeEnv) :
    Refs (Reply Pfsnode × List Pfsnode) :=
  if dir.vnodeVtype ≠ .VDIR ∨ cname.length < 1 then return (.error .EINVAL, table)
  else if cname = cstr ".." then
    return procfsnodeFind table c.pmp (dotDotId w dir) (dotDotSnode w dir) env
      (procfsCreateVnode env w.oids none)
  else if cname = cstr "." then
    match env.vnodeGet with
    | some e => return (.error e, table)
    | none => return (.ok dir, table)
  else if ¬ dir.OidRegistered w.oids then return (.panic, table)
  else do
    match ← lookupMatch procs w c dir (cname.take nameMax) with
    | .error e => return (.error e, table)
    | .ok none => return (.error .ENOENT, table)
    | .ok (some (s, nodeId)) =>
      return procfsnodeFind table c.pmp nodeId (some s) env
        (procfsCreateVnode env w.oids (some dir))

/-! ### Readdir -/

/-- What `uiomove` returns for a record. -/
abbrev Uiomove := Direntry → Option Errno

variable (uiomove : Uiomove) (startpos : ℕ)

/-- The code that all loops share. The flag is false when the loop ends here: the record does not
fit, or `uiomove` failed. -/
def copyout (e : Entry) (p : Page Direntry) : Page Direntry × Option Errno × Bool :=
  let put := direntFormat.put startpos e p
  if startpos ≤ p.pos ∧ direntFormat.size e ≤ p.room then
    match uiomove (direntryOf e (p.pos + direntFormat.size e)) with
    | some error => (p, some error, false)
    | none => (put.1, none, put.2)
  else (put.1, none, put.2)

/-- The same for a list of entries. -/
def copyoutAll : List Entry → Page Direntry → Page Direntry × Option Errno × Bool
  | [], p => (p, none, true)
  | e :: es, p =>
    match copyout uiomove startpos e p with
    | (p', _, true) => copyoutAll es p'
    | (p', error, false) => (p', error, false)

/-- `pid == PRNODE_NO_PID || !check_access ||
procfs_check_can_access_proc_pid(creds, pid) == 0`. -/
def dirVisible : Refs Bool :=
  if dir.nodeId.nodeidPid == prnodeNoPid || !c.checkAccess then return true
  else return (← procfsCheckCanAccessProcPid procs c.cred dir.nodeId.nodeidPid) == none

def pidName (type : PfsType) (pid : Int32) : Refs (Option CString) :=
  if type = .procnamedir then do
    match ← procFind procs pid with
    | none => return none
    | some p =>
      let name := procfsConstructProcessDirName p
      procRele p
      return some name
  else return some (fmtInt pid.toInt)

/-- The `for` loop over the pids; the flag is `pids_exhausted`. -/
def readdirPidLoop (s : Pfssnode) :
    List Int32 → Page Direntry → Refs (Page Direntry × Option Errno × Bool)
  | [], p => return (p, none, true)
  | pid :: pids, p => do
    match ← pidName procs s.psnNodeType pid with
    | none => readdirPidLoop s pids p
    | some name =>
      let e : Entry :=
        ⟨Vtype.VDIR.toNat, procfsGetFileid pid prnodeNoObjectid s.psnBaseNodeId, name⟩
      match copyout uiomove startpos e p with
      | (p', _, true) => readdirPidLoop s pids p'
      | (p', error, false) => return (p', error, false)

/-- The branch for `PFSproc` and `PFSprocnamedir`. -/
def readdirPids (s : Pfssnode) (last : Bool) (p : Page Direntry) : Refs LoopEnd := do
  let pids ← procfsGetPids procs w.mem (if c.checkAccess then some c.cred else none)
  let r ← readdirPidLoop procs uiomove startpos s pids p
  return (r.1, r.2.1, r.2.2 && last)

/-- The branch for `PFSthread`. -/
def readdirThreads (s : Pfssnode) (p : Page Direntry) : Refs LoopEnd := do
  match ← procFind procs dir.nodeId.nodeidPid with
  | none => return (p, some .ENOENT, false)
  | some proc =>
    -- a failure to list the threads ends in the same `proc_rele`
    let ended : LoopEnd :=
      match procfsGetThreadIdsForTask w.mem proc with
      | .ok ids =>
        let r := copyoutAll uiomove startpos (threadEntries dir s ids) p
        (r.1, r.2.1, false)
      | .error e => (p, some e, false)
    procRele proc
    return ended

/-- The branch for `PFSfd`. -/
def readdirFds (s : Pfssnode) (p : Page Direntry) : Refs LoopEnd := do
  match ← procFind procs dir.nodeId.nodeidPid with
  | none => return (p, some .ENOENT, false)
  | some proc =>
    let r := copyoutAll uiomove startpos (fdEntries dir s (listedFds w proc)) p
    procRele proc
    return (r.1, r.2.1, false)

/-- The `while` loop of `procfs_vnop_readdir`. -/
def readdirLoop : List Pfssnode → Page Direntry → Refs (Option LoopEnd)
  | [], p => return some (p, none, true)
  | s :: rest, p =>
    if p.room = 0 then return some (p, none, false)
    else if procfsNodeVersionHidden w.linuxVersion s.psnName then readdirLoop rest p
    else do
      if ← dirVisible procs c dir then
        match s.psnNodeType with
        -- the loop goes round for ever
        | .root => return none
        | .proc | .procnamedir =>
          return some (← readdirPids procs w c uiomove startpos s rest.isEmpty p)
        | .thread => return some (← readdirThreads procs w dir uiomove startpos s p)
        | .fd => return some (← readdirFds procs w dir uiomove startpos s p)
        | _ =>
          match copyout uiomove startpos (staticEntry w dir s) p with
          | (p', _, true) => readdirLoop rest p'
          | (p', error, false) => return some (p', error, false)
      else readdirLoop rest p

/-- `procfs_vnop_readdir`. No process is looked for in `/proc/sys`. -/
def procfsVnopReaddir (room : ℕ) : Refs (Option ReaddirReply) :=
  if dir.vnodeVtype ≠ .VDIR then return some ⟨some .ENOTDIR, startpos, false, []⟩
  else if dir.nodeStructureNode.psnNodeType = .sysctl then
    return procfsSysctlReaddir w dir startpos room
  else do
    let r ← readdirLoop procs w c dir uiomove startpos (w.tree.children dir.nodeStructureNode)
      ⟨0, room, []⟩
    return r.map fun r => ⟨r.2.1, r.1.pos, r.2.2, r.1.out⟩

/-! ### Getattr -/

def procfsNodeTypeHasPid : PfsType → Bool
  | .root | .curproc | .dir | .cpuinfo | .version | .meminfo | .mtab | .stat | .vmstat | .uptime
  | .swaps | .filesystems | .sysctl | .extensions | .modules | .diskstats | .devices | .netdev
  | .allocinfo | .apm | .bootconfig | .buddyinfo | .pcidevices | .dma | .rtc | .execdomains | .fb
  | .nfsexports | .interrupts | .irq | .tty | .ioports | .iomem | .softirqs | .kcmdline | .ide
  | .vmallocinfo | .isapnp | .scsi | .sysvipc | .pagetypeinfo | .slabinfo | .locks | .kcore | .kmsg
  | .lastkmsg | .ksyms | .misc => false
  | _ => true

/-- The types that getattr looks for no process for. -/
def noProcess : PfsType → Bool
  | .cpuinfo | .loadavg | .partitions | .version | .meminfo | .mtab | .stat | .vmstat | .uptime
  | .swaps | .filesystems | .sysctl | .extensions | .modules | .diskstats | .devices | .netdev
  | .allocinfo | .apm | .bootconfig | .buddyinfo | .pcidevices | .dma | .rtc | .execdomains | .fb
  | .nfsexports | .interrupts | .irq | .tty | .ioports | .iomem | .softirqs | .kcmdline | .ide
  | .vmallocinfo | .isapnp | .scsi | .sysvipc | .pagetypeinfo | .slabinfo | .locks | .kcore | .kmsg
  | .lastkmsg | .ksyms | .misc => true
  | _ => false

/-- `pid == PRNODE_NO_PID ? NULL : proc_find(pid)`. -/
def procOf (pnp : Pfsnode) : Refs (Option Proc) :=
  if pnp.nodeId.nodeidPid = prnodeNoPid then return none
  else procFind procs pnp.nodeId.nodeidPid

/-- `procfs_get_process_info`: the process of a node, if it has one. -/
def procfsGetProcessInfo (pnp : Pfsnode) : Refs (Except Errno (Option Proc)) := do
  let p ← procOf procs pnp
  if p.isNone ∧ procfsNodeTypeHasPid pnp.nodeStructureNode.psnNodeType then return .error .ENOENT
  else return .ok p

/-- What the size functions share: the size is 0 when the process of the node is gone. -/
def nodeSize (size : Proc → ℕ) (pnp : Pfsnode) : Refs ℕ := do
  match ← procFind procs pnp.nodeId.nodeidPid with
  | some p =>
    let n := size p
    procRele p
    return n
  | none => return 0

def procfsProcessNodeSize : Pfsnode → Refs ℕ := nodeSize procs fun _ => sizeofInt

def procfsThreadNodeSize : Pfsnode → Refs ℕ := nodeSize procs fun p =>
  let tcount := procfsGetTaskThreadCount w.mem p
  if 0 < tcount then tcount else 1

def procfsFdNodeSize : Pfsnode → Refs ℕ := nodeSize procs fun p =>
  match procfsGetFdList w.mem p with
  | .ok fds => fds.length
  | .error _ => 0

def psnGetsizeFn : PfsType → Option (Pfsnode → Refs ℕ)
  | .proc | .procnamedir => some (procfsProcessNodeSize procs)
  | .thread => some (procfsThreadNodeSize procs w)
  | .fd => some (procfsFdNodeSize procs w)
  | _ => none

/-- What a child adds to the size of a directory. -/
def childSize (pnp : Pfsnode) (s : Pfssnode) : Refs ℕ :=
  match psnGetsizeFn procs w s.psnNodeType with
  | none => return 1
  | some nodeSizeFn => nodeSizeFn pnp

/-- The `TAILQ_FOREACH` over the children. -/
def childrenSize (pnp : Pfsnode) : List Pfssnode → Refs ℕ
  | [] => return 0
  | s :: rest => do
    let size ← childSize procs w pnp s
    return size + (← childrenSize pnp rest)

/-- `procfs_get_node_size_attr`, where the assertion holds with the structure node `snode`. -/
def procfsGetNodeSizeAttr (psnNodeSize : Pfssnode → ℕ) (pnp : Pfsnode) (snode : Pfssnode) :
    Refs ℕ :=
  if procfsIsDirectoryType pnp.nodeStructureNode.psnNodeType then
    childrenSize procs w pnp (w.tree.children snode)
  else
    match psnGetsizeFn procs w snode.psnNodeType with
    | none => return psnNodeSize snode
    | some nodeSizeFn => nodeSizeFn pnp

/-- `struct vnode_attr`: what getattr sets of it. -/
structure VnodeAttr where
  vaMode : ℕ
  vaType : Vtype
  vaFsid : Int32
  vaFileid : UInt64
  vaDataSize : ℕ
  vaAccessTime : Timespec
  vaChangeTime : Timespec
  vaCreateTime : Timespec
  vaModifyTime : Timespec
  vaUid : ℕ
  vaGid : ℕ
deriving DecidableEq, Repr

/-- What getattr reads besides: the field `psn_node_size`, the start time of a process in seconds
and microseconds, and the clock. -/
structure AttrEnv where
  psnNodeSize : Pfssnode → ℕ
  pStart : Proc → ℤ × ℤ
  nanotime : Timespec

/-- `va_mode`. The two files that can be written are known by their read functions, which no other
node has. -/
def vaMode (pnp : Pfsnode) : ℕ :=
  let snode := pnp.nodeStructureNode
  if snode.psnNodeType = .file ∧ snode.psnName = cstr "clear_refs" then 0o220
  else if snode.psnNodeType = .file ∧ snode.psnName = cstr "note" then 0o660
  else
    match snode.psnNodeType with
    | .curproc | .procnamedir | .proclink => 0o777
    | .sysctl => if procfsSysctlIsNode w.oids pnp.nodeId.nodeidObjectid then 0o555 else 0o444
    | type => if procfsIsDirectoryType type then 0o555 else 0o444

/-- `procfs_vnop_getattr` from where the process `p` of the node is known on. -/
def getattrOf (env : AttrEnv) (pnp : Pfsnode) (p : Option Proc) : Refs (Reply VnodeAttr) :=
  match sizeSnode w.tree pnp.nodeStructureNode with
  | none => return .panic
  | some snode => do
    let size ← procfsGetNodeSizeAttr procs w env.psnNodeSize pnp snode
    let createTime : Timespec :=
      match p with
      | some p => ⟨(env.pStart p).1, (env.pStart p).2 * 1000⟩
      | none => env.nanotime
    let owner : ℕ × ℕ :=
      match p with
      | some p => (p.pRuid, p.pRgid)
      | none => (0, 0)
    -- nothing is read from the process after this
    Traced.rele? p
    return .ok
      { vaMode := vaMode w pnp
        vaType := nodeVtype w.oids pnp.nodeStructureNode pnp.nodeId
        vaFsid := c.pmp.pmntId
        vaFileid := procfsGetNodeFileid pnp
        vaDataSize := size
        vaAccessTime := createTime
        vaChangeTime := createTime
        vaCreateTime := createTime
        vaModifyTime := createTime
        vaUid := owner.1
        vaGid := owner.2 }

/-- The process that getattr asks for, unless the node is one of the system. -/
def getattrInfo (pnp : Pfsnode) : Refs (Except Errno (Option Proc)) :=
  if noProcess pnp.nodeStructureNode.psnNodeType then return .ok none
  else procfsGetProcessInfo procs pnp

def procfsVnopGetattr (env : AttrEnv) (pnp : Pfsnode) : Refs (Reply VnodeAttr) := do
  match ← getattrInfo procs pnp with
  | .error e => return .error e
  | .ok p => getattrOf procs w c env pnp p

end Model

/-! ## What each of them owns -/

section Owned

variable {procs : Procs} {w : World} {c : Caller} {dir : Pfsnode}

theorem uses_procFind (pid : Int32) : Uses 0 (procFind procs pid) found := Uses.find _ pid

/-- A process that is looked for, used and given back. -/
theorem uses_bracket {α : Type} {pid : Int32} {body : Option Proc → Refs α}
    (hnone : Uses 0 (body none) fun _ => 0) (hsome : ∀ p, Uses {p} (body (some p)) fun _ => 0) :
    Uses 0 (procFind procs pid >>= body) fun _ => 0 := by
  refine Uses.bind (uses_procFind pid) fun r => ?_
  cases r with
  | none => exact hnone
  | some p => exact hsome p

theorem uses_rele_return {α : Type} (p : Proc) (a : α) :
    Uses {p} (procRele p >>= fun _ => (pure a : Refs α)) fun _ => 0 :=
  Uses.bind (Uses.rele p) fun _ => Uses.done a

theorem uses_checkCanAccessProcPid (creds : Cred) (pid : Int32) :
    Uses 0 (procfsCheckCanAccessProcPid procs creds pid) fun _ => 0 :=
  uses_bracket (Uses.done _) fun p => uses_rele_return p _

theorem uses_getPidsLoop (creds : Option Cred) (n pid count : ℕ) :
    Uses 0 (getPidsLoop procs creds n pid count) fun _ => 0 := by
  induction n generalizing pid count with
  | zero => exact Uses.done _
  | succ n ih =>
    rw [getPidsLoop]
    split_ifs
    · -- the reference is given back before the pid is kept or passed over
      refine uses_bracket (ih _ _) fun p => ?_
      refine Uses.bind (Uses.rele p) fun _ => ?_
      split_ifs
      · exact Uses.bind (ih _ _) fun _ => Uses.done _
      · exact ih _ _
    · exact Uses.done _

theorem uses_getPids (mem : Allocs) (creds : Option Cred) :
    Uses 0 (procfsGetPids procs mem creds) fun _ => 0 := by
  rw [procfsGetPids]
  split_ifs
  · exact uses_getPidsLoop creds _ _ _
  · exact Uses.done _

/-! ### Lookup -/

theorem uses_lookupFd (s : Pfssnode) (id : Int32) :
    Uses 0 (lookupFd procs w dir s id) fun r => found r.1 := by
  rw [lookupFd]
  split_ifs
  · refine Uses.bind (uses_procFind _) fun targetProc => ?_
    split_ifs
    · exact Uses.pure (targetProc, _) fun r => found r.1
    · exact Uses.pure (targetProc, _) fun r => found r.1
  · exact Uses.pure (none, _) fun r => found r.1

theorem uses_lookupProc (name : CString) (s : Pfssnode) (id : Int32) :
    Uses 0 (lookupProc procs w c dir name s id) fun r => found r.1 := by
  refine Uses.bind (uses_procFind _) fun targetProc => ?_
  cases targetProc with
  | none => exact Uses.pure (none, _) fun r => found r.1
  | some p =>
    -- every way out of this branch leaves the loop with `target_proc`
    dsimp only
    split_ifs
    all_goals exact Uses.pure (some p, _) fun r => found r.1

theorem uses_lookupNumber (name : CString) (s : Pfssnode) {next : Refs (Option Proc × Match)}
    (hnext : Uses 0 next fun r => found r.1) :
    Uses 0 (lookupNumber procs w c dir name s next) fun r => found r.1 := by
  rw [lookupNumber]
  split_ifs
  · exact hnext
  · exact uses_lookupProc name s _
  · exact hnext

/-- The loop ends with the reference in `target_proc`, and with no other. -/
theorem uses_lookupLoop (name : CString) (children : List Pfssnode) :
    Uses 0 (lookupLoop procs w c dir name children) fun r => found r.1 := by
  induction children with
  | nil => exact Uses.pure (none, _) fun r => found r.1
  | cons s rest ih =>
    rw [lookupLoop]
    split_ifs
    · exact ih
    · exact Uses.pure (none, _) fun r => found r.1
    · -- the loop goes on only where no process was looked for
      split
      · exact uses_lookupFd s _
      · exact uses_lookupNumber name s ih
      · exact uses_lookupNumber name s ih
      · exact uses_lookupNumber name s ih
      · exact ih

theorem uses_lookupTarget (name : CString) :
    Uses 0 (lookupTarget procs w c dir name) fun r => found r.1 := by
  unfold lookupTarget
  dsimp only
  split_ifs
  · exact Uses.pure (none, _) fun r => found r.1
  · exact uses_lookupLoop name _

theorem uses_lookupMatch (name : CString) :
    Uses 0 (lookupMatch procs w c dir name) fun _ => 0 := by
  refine Uses.bind (uses_lookupTarget name) fun r => ?_
  exact Uses.bind (Uses.rele? r.1) fun _ => Uses.done r.2

theorem uses_vnopLookup (table : List Pfsnode) (cname : CString) (env : VnodeEnv) :
    Uses 0 (procfsVnopLookup procs w c dir table cname env) fun _ => 0 := by
  rw [procfsVnopLookup]
  split_ifs
  · exact Uses.done _
  · exact Uses.done _
  · split
    · exact Uses.done _
    · exact Uses.done _
  · refine Uses.bind (uses_lookupMatch _) fun m => ?_
    rcases m with e | _ | ⟨s, nodeId⟩
    all_goals exact Uses.done _
  · -- a stale oid: no process was looked for
    exact Uses.done _

/-! ### Readdir -/

section Readdir

variable {uiomove : Uiomove} {startpos : ℕ}

theorem uses_dirVisible : Uses 0 (dirVisible procs c dir) fun _ => 0 := by
  rw [dirVisible]
  split_ifs
  · exact Uses.done _
  · exact Uses.bind (uses_checkCanAccessProcPid _ _) fun _ => Uses.done _

theorem uses_pidName (type : PfsType) (pid : Int32) :
    Uses 0 (pidName procs type pid) fun _ => 0 := by
  rw [pidName]
  split_ifs
  · exact uses_bracket (Uses.done _) fun p => uses_rele_return p _
  · exact Uses.done _

theorem uses_readdirPidLoop (s : Pfssnode) (pids : List Int32) (p : Page Direntry) :
    Uses 0 (readdirPidLoop procs uiomove startpos s pids p) fun _ => 0 := by
  induction pids generalizing p with
  | nil => exact Uses.done _
  | cons pid pids ih =>
    refine Uses.bind (uses_pidName _ _) fun name => ?_
    cases name with
    | none => exact ih p
    | some name =>
      dsimp only
      split
      · exact ih _
      · exact Uses.done _

theorem uses_readdirPids (s : Pfssnode) (last : Bool) (p : Page Direntry) :
    Uses 0 (readdirPids procs w c uiomove startpos s last p) fun _ => 0 := by
  refine Uses.bind (uses_getPids _ _) fun pids => ?_
  exact Uses.bind (uses_readdirPidLoop s pids p) fun _ => Uses.done _

theorem uses_readdirThreads (s : Pfssnode) (p : Page Direntry) :
    Uses 0 (readdirThreads procs w dir uiomove startpos s p) fun _ => 0 :=
  uses_bracket (Uses.done _) fun proc => uses_rele_return proc _

theorem uses_readdirFds (s : Pfssnode) (p : Page Direntry) :
    Uses 0 (readdirFds procs w dir uiomove startpos s p) fun _ => 0 :=
  uses_bracket (Uses.done _) fun proc => uses_rele_return proc _

theorem uses_readdirLoop (children : List Pfssnode) (p : Page Direntry) :
    Uses 0 (readdirLoop procs w c dir uiomove startpos children p) fun _ => 0 := by
  induction children generalizing p with
  | nil => exact Uses.done _
  | cons s rest ih =>
    rw [readdirLoop]
    split_ifs
    · exact Uses.done _
    · exact ih p
    · refine Uses.bind uses_dirVisible fun visible => ?_
      split_ifs
      · split
        · exact Uses.done _
        · exact Uses.bind (uses_readdirPids s _ p) fun _ => Uses.done _
        · exact Uses.bind (uses_readdirPids s _ p) fun _ => Uses.done _
        · exact Uses.bind (uses_readdirThreads s p) fun _ => Uses.done _
        · exact Uses.bind (uses_readdirFds s p) fun _ => Uses.done _
        · split
          · exact ih _
          · exact Uses.done _
      · exact ih p

theorem uses_vnopReaddir (room : ℕ) :
    Uses 0 (procfsVnopReaddir procs w c dir uiomove startpos room) fun _ => 0 := by
  rw [procfsVnopReaddir]
  split_ifs
  · exact Uses.done _
  · exact Uses.done _
  · exact Uses.bind (uses_readdirLoop _ _) fun _ => Uses.done _

end Readdir

/-! ### Getattr -/

section Getattr

variable {env : AttrEnv} {pnp : Pfsnode}

/-- What `procfs_get_process_info` leaves with its caller. -/
def infoRefs : Except Errno (Option Proc) → Multiset Proc
  | .error _ => 0
  | .ok p => found p

theorem uses_procOf : Uses 0 (procOf procs pnp) found := by
  rw [procOf]
  split_ifs
  · exact Uses.pure none found
  · exact uses_procFind _

theorem uses_getProcessInfo : Uses 0 (procfsGetProcessInfo procs pnp) infoRefs := by
  refine Uses.bind uses_procOf fun p => ?_
  split_ifs with hgone
  · -- nothing was found, so there is nothing to give back
    rw [Option.isNone_iff_eq_none.mp hgone.1]
    exact Uses.pure (.error Errno.ENOENT) infoRefs
  · exact Uses.pure (.ok p) infoRefs

theorem uses_nodeSize (size : Proc → ℕ) : Uses 0 (nodeSize procs size pnp) fun _ => 0 :=
  uses_bracket (Uses.done _) fun p => uses_rele_return p _

theorem uses_psnGetsizeFn {type : PfsType} {nodeSizeFn : Pfsnode → Refs ℕ}
    (h : psnGetsizeFn procs w type = some nodeSizeFn) : Uses 0 (nodeSizeFn pnp) fun _ => 0 := by
  unfold psnGetsizeFn at h
  split at h
  · cases h
    exact uses_nodeSize _
  · cases h
    exact uses_nodeSize _
  · cases h
    exact uses_nodeSize _
  · cases h
    exact uses_nodeSize _
  · cases h

theorem uses_childSize (s : Pfssnode) : Uses 0 (childSize procs w pnp s) fun _ => 0 := by
  unfold childSize
  split
  · exact Uses.done _
  · rename_i nodeSizeFn hfn
    exact uses_psnGetsizeFn hfn

theorem uses_childrenSize (children : List Pfssnode) :
    Uses 0 (childrenSize procs w pnp children) fun _ => 0 := by
  induction children with
  | nil => exact Uses.done _
  | cons s rest ih =>
    refine Uses.bind (uses_childSize s) fun _ => ?_
    exact Uses.bind ih fun _ => Uses.done _

theorem uses_getNodeSizeAttr (psnNodeSize : Pfssnode → ℕ) (snode : Pfssnode) :
    Uses 0 (procfsGetNodeSizeAttr procs w psnNodeSize pnp snode) fun _ => 0 := by
  unfold procfsGetNodeSizeAttr
  split_ifs
  · exact uses_childrenSize _
  · split
    · exact Uses.done _
    · rename_i nodeSizeFn hfn
      exact uses_psnGetsizeFn hfn

theorem uses_getattrInfo : Uses 0 (getattrInfo procs pnp) infoRefs := by
  rw [getattrInfo]
  split_ifs
  · exact Uses.pure (.ok none) infoRefs
  · exact uses_getProcessInfo

/-- The process is held while the size is computed, and then given back. -/
theorem uses_getattrOf {snode : Pfssnode}
    (hsize : sizeSnode w.tree pnp.nodeStructureNode = some snode) (p : Option Proc) :
    Uses (found p) (getattrOf procs w c env pnp p) fun _ => 0 := by
  simp only [getattrOf, hsize]
  refine Uses.bind ((uses_getNodeSizeAttr _ snode).inside (found p)) fun size => ?_
  exact Uses.bind (Uses.rele? p) fun _ => Uses.done _

theorem uses_vnopGetattr {snode : Pfssnode}
    (hsize : sizeSnode w.tree pnp.nodeStructureNode = some snode) :
    Uses 0 (procfsVnopGetattr procs w c env pnp) fun _ => 0 := by
  refine Uses.bind uses_getattrInfo fun info => ?_
  cases info with
  | error e => exact Uses.done _
  | ok p => exact uses_getattrOf hsize p

/-- Where the assertion fails, getattr only returns the error that it returns before. -/
theorem vnopGetattr_returns_error (hsize : sizeSnode w.tree pnp.nodeStructureNode = none)
    {es : List (RefEvent Int32 Proc)}
    (hreturns : ((procfsVnopGetattr procs w c env pnp).run es).1 ≠ .panic) :
    ∃ new, ((procfsVnopGetattr procs w c env pnp).run es).2 = es ++ new ∧ Balanced new := by
  obtain ⟨new, heq, hheld⟩ := @uses_getattrInfo procs pnp es
  have hrun : (procfsVnopGetattr procs w c env pnp).run es =
      StateT.run (match ((getattrInfo procs pnp).run es).1 with
        | .error e => pure (.error e)
        | .ok p => getattrOf procs w c env pnp p) ((getattrInfo procs pnp).run es).2 := rfl
  rw [hrun] at hreturns ⊢
  cases hinfo : ((getattrInfo procs pnp).run es).1 with
  | error e =>
    -- the process is gone, and nothing is held
    rw [hinfo] at hheld
    exact ⟨new, heq, hheld.balanced⟩
  | ok p =>
    rw [hinfo] at hreturns
    simp only [getattrOf, hsize] at hreturns
    exact absurd rfl hreturns

end Getattr

end Owned

/-- For every directory or other node, name, credential, buffer, and whatever the processes and the
daemon do meanwhile: lookup, readdir and getattr give back every reference that `proc_find` returned
to them, each of them once and after it was taken, when they return. -/
theorem vnops_release_all (procs : Procs) (w : World) (c : Caller) (pnp : Pfsnode)
    (es : List (RefEvent Int32 Proc)) :
    (∀ table cname env, ∃ new,
      ((procfsVnopLookup procs w c pnp table cname env).run es).2 = es ++ new ∧ Balanced new) ∧
    (∀ uiomove startpos room, ∃ new,
      ((procfsVnopReaddir procs w c pnp uiomove startpos room).run es).2 = es ++ new ∧
        Balanced new) ∧
    ∀ env, ((procfsVnopGetattr procs w c env pnp).run es).1 ≠ .panic → ∃ new,
      ((procfsVnopGetattr procs w c env pnp).run es).2 = es ++ new ∧ Balanced new := by
  refine ⟨fun table cname env => (uses_vnopLookup table cname env).balanced es,
    fun uiomove startpos room => (uses_vnopReaddir room).balanced es, fun env hreturns => ?_⟩
  cases hsize : sizeSnode w.tree pnp.nodeStructureNode with
  | none => exact vnopGetattr_returns_error hsize hreturns
  | some snode => exact (uses_vnopGetattr hsize).balanced es

/-- Getattr on the `threads` directory of the shell takes two references to it: one of its own, and
one to count the threads while that is held. -/
theorem vnops_release_all_shThreads :
    ∃ new,
      ((procfsVnopGetattr (fun _ => shWorld.procs) shWorld (userCaller 501)
        ⟨fun _ => 0, fun _ => (0, 0), ⟨0, 0⟩⟩ shThreads).run []).2 = [] ++ new ∧
      Balanced new ∧ (taken new).map Proc.pPid = [7, 7] := by
  obtain ⟨-, -, hgetattr⟩ :=
    vnops_release_all (fun _ => shWorld.procs) shWorld (userCaller 501) shThreads []
  obtain ⟨new, heq, hbalanced⟩ :=
    hgetattr ⟨fun _ => 0, fun _ => (0, 0), ⟨0, 0⟩⟩ (by decide +kernel)
  refine ⟨new, heq, hbalanced, ?_⟩
  rw [List.nil_append] at heq
  rw [← heq]
  decide +kernel

end ProcFS.ProcRefs
