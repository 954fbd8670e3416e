import ProcFS.Lib.Paging
import ProcFS.Lookup

/-!
# ProcFS.Readdir — listing a directory

`procfs_vnop_readdir` walks over the children of the directory's structure node
and emits one record for each, or many for a child that stands for processes,
threads or descriptors; `/proc/sys` is listed from the sysctl tree. Every call
starts over from the first entry, and skips by adding up record sizes until it
reaches the offset it was called with.
-/

namespace ProcFS

/-! ## Records -/

/-- The arguments of `procfs_copyout_dirent` that describe an entry. -/
structure Entry where
  type : ℕ
  fileId : UInt64
  name : CString
deriving DecidableEq, Repr

structure Direntry where
  dIno : UInt64
  dSeekoff : ℕ
  dReclen : ℕ
  dNamlen : ℕ
  dType : ℕ
  dName : CString
deriving DecidableEq, Repr

/-- `sizeof(struct direntry) - sizeof(entry.d_name)`. -/
def direntFixedSize : ℕ := 24

/-- The offset of `d_name` in `struct direntry`. -/
def direntNameOffset : ℕ := 21

/-- `procfs_calc_dirent_size`; `(n + 7) & ~7` rounds up to a multiple of 8. -/
def procfsCalcDirentSize (name : CString) : ℕ :=
  direntFixedSize + (name.length + 1 + 7) / 8 * 8

/-- The record that `procfs_copyout_dirent` builds. Two of its fields have 16 bits. -/
def direntryOf (e : Entry) (seekoff : ℕ) : Direntry where
  dIno := e.fileId
  dSeekoff := seekoff
  dReclen := procfsCalcDirentSize e.name % 2 ^ 16
  dNamlen := e.name.length % 2 ^ 16
  dType := e.type % 2 ^ 8
  dName := e.name

/-- Entries and their records. `RecordFormat.put` of this format is the code that
all four loops share: `procfs_copyout_dirent` if `nextpos >= startpos`, which
copies nothing when the record does not fit, then `nextpos += size`. -/
def direntFormat : RecordFormat Entry Direntry where
  size e := procfsCalcDirentSize e.name
  size_pos e := by
    unfold procfsCalcDirentSize direntFixedSize
    omega
  record := direntryOf
  seekoff := Direntry.dSeekoff
  seekoff_record _ _ := rfl

/-- What a readdir call returns; `a_numdirent` is the number of records. -/
structure ReaddirReply where
  error : Option Errno
  uioOffset : ℕ
  eofflag : Bool
  records : List Direntry
deriving DecidableEq, Repr

/-! ## The entries of a child -/

/-- The `type` that the switch on the node type selects for an entry of its own. -/
def staticType : PfsType → ℕ
  | .dir | .sysctl | .dirthis | .dirparent => dtDir
  | .curproc | .proclink => dtLnk
  | _ => dtReg

/-- The id behind the `d_ino` of such an entry: that of the directory for `.`, of
its parent for `..`. -/
def staticId (w : World) (dir : Pfsnode) (s : Pfssnode) : PfsId :=
  match s.psnNodeType with
  | .dirthis => dir.nodeId
  | .dirparent => procfsGetParentNodeId w.tree dir
  | _ => ⟨dir.nodeId.nodeidPid, dir.nodeId.nodeidObjectid, s.psnBaseNodeId⟩

/-- `procfs_get_fileid` of an id. -/
def PfsId.fileId (id : PfsId) : UInt64 :=
  procfsGetFileid id.nodeidPid id.nodeidObjectid id.nodeidBaseId

def staticEntry (w : World) (dir : Pfsnode) (s : Pfssnode) : Entry :=
  ⟨staticType s.psnNodeType, (staticId w dir s).fileId, s.psnName⟩

/-- The name of a listed pid. In `byname` a process that is gone by now is left
out. -/
def pidName (w : World) (type : PfsType) (pid : Int32) : Option CString :=
  if type = .procnamedir then (w.procs.procFind pid).map procfsConstructProcessDirName
  else some (fmtInt pid.toInt)

def pidEntries (w : World) (c : Caller) (s : Pfssnode) : List Entry :=
  (procfsGetPids w.procs w.mem (if c.checkAccess then some c.cred else none)).filterMap fun pid =>
    (pidName w s.psnNodeType pid).map fun name =>
      ⟨Vtype.VDIR.toNat, procfsGetFileid pid prnodeNoObjectid s.psnBaseNodeId, name⟩

/-- One entry for each thread; `"%lld"` prints the id as a signed number. -/
def threadEntries (dir : Pfsnode) (s : Pfssnode) (ids : List UInt64) : List Entry :=
  ids.map fun id =>
    ⟨Vtype.VDIR.toNat, procfsGetFileid dir.nodeId.nodeidPid id s.psnBaseNodeId,
      fmtInt id.toInt64.toInt⟩

def fdEntries (dir : Pfsnode) (s : Pfssnode) (fds : List Int32) : List Entry :=
  fds.map fun fd =>
    ⟨Vtype.VDIR.toNat, procfsGetFileid dir.nodeId.nodeidPid (objectidOfInt fd) s.psnBaseNodeId,
      fmtInt fd.toInt⟩

/-- The descriptors that are listed: none when there is no list. -/
def listedFds (w : World) (p : Proc) : List Int32 :=
  match procfsGetFdList w.mem p with
  | .ok fds => fds
  | .error _ => []

/-! ## The main loop -/

/-- `pid == PRNODE_NO_PID || !check_access ||
procfs_check_can_access_proc_pid(creds, pid) == 0`. -/
def dirVisible (w : World) (c : Caller) (dir : Pfsnode) : Bool :=
  dir.nodeId.nodeidPid == prnodeNoPid || !c.checkAccess ||
    procfsCheckCanAccessProcPid w.procs c.cred dir.nodeId.nodeidPid == none

/-- How the loop over the children ends: the page, the error and whether `snode`
is NULL. -/
abbrev LoopEnd := Page Direntry × Option Errno × Bool

/-- The branch for `PFSproc` and `PFSprocnamedir`. `snode` moves on, to NULL if it
was the last child, only when every pid was emitted. -/
def readdirPids (w : World) (c : Caller) (startpos : ℕ) (s : Pfssnode) (last : Bool)
    (p : Page Direntry) : LoopEnd :=
  let r := direntFormat.putAll startpos (pidEntries w c s) p
  (r.1, none, r.2 && last)

/-- The branch for `PFSthread`. -/
def readdirThreads (w : World) (dir : Pfsnode) (startpos : ℕ) (s : Pfssnode)
    (p : Page Direntry) : LoopEnd :=
  match w.procs.procFind dir.nodeId.nodeidPid with
  | none => (p, some .ENOENT, false)
  | some proc =>
    match procfsGetThreadIdsForTask w.mem proc with
    | .ok ids => ((direntFormat.putAll startpos (threadEntries dir s ids) p).1, none, false)
    | .error e => (p, some e, false)

/-- The branch for `PFSfd`. -/
def readdirFds (w : World) (dir : Pfsnode) (startpos : ℕ) (s : Pfssnode) (p : Page Direntry) :
    LoopEnd :=
  match w.procs.procFind dir.nodeId.nodeidPid with
  | none => (p, some .ENOENT, false)
  | some proc =>
    ((direntFormat.putAll startpos (fdEntries dir s (listedFds w proc)) p).1, none, false)

/-- The `while` loop of `procfs_vnop_readdir`. `none` is a call that never returns:
a child of type `PFSroot` is met again and again. -/
def readdirLoop (w : World) (c : Caller) (dir : Pfsnode) (startpos : ℕ) :
    List Pfssnode → Page Direntry → Option LoopEnd
  | [], p => some (p, none, true)
  | s :: rest, p =>
    if p.room = 0 then some (p, none, false)
    else if procfsNodeVersionHidden w.linuxVersion s.psnName then
      readdirLoop w c dir startpos rest p
    else if dirVisible w c dir then
      match s.psnNodeType with
      | .root => none
      | .proc | .procnamedir => some (readdirPids w c startpos s rest.isEmpty p)
      | .thread => some (readdirThreads w dir startpos s p)
      | .fd => some (readdirFds w dir startpos s p)
      | _ =>
        match direntFormat.put startpos (staticEntry w dir s) p with
        | (p', true) => readdirLoop w c dir startpos rest p'
        | (p', false) => some (p', none, false)
    else readdirLoop w c dir startpos rest p

/-! ## `/proc/sys` -/

/-- The entries `.` and `..`, both with the file id of the directory. -/
def sysctlDots (dir : Pfsnode) : List Entry :=
  let selfFileid := procfsGetFileid dir.nodeId.nodeidPid dir.nodeId.nodeidObjectid
    dir.nodeStructureNode.psnBaseNodeId
  [⟨dtDir, selfFileid, cstr "."⟩, ⟨dtDir, selfFileid, cstr ".."⟩]

def sysctlEntry (dir : Pfsnode) (child : SysctlChild) : Entry :=
  ⟨if child.isNode then dtDir else dtReg,
    procfsGetFileid prnodeNoPid child.objectid dir.nodeStructureNode.psnBaseNodeId,
    child.name.bytes⟩

/-- The `for` loop over the indexes, with `n` rounds left; the flag is `more`.
`none` is a loop that did not end in time, or one that followed a stale pointer. -/
def sysctlReaddirLoop (w : World) (dir : Pfsnode) (startpos : ℕ) :
    ℕ → ℕ → Page Direntry → Option (Page Direntry × Bool)
  | 0, _, _ => none
  | n + 1, index, p =>
    if p.room = 0 then some (p, true)
    -- `procfs_sysctl_child_at` follows the pointer in the object id
    else if ¬ oidRegistered w.oids dir.nodeId.nodeidObjectid then none
    else
      match procfsSysctlChildAt w.oids dir.nodeId.nodeidObjectid index with
      | none => some (p, false)
      | some child =>
        match direntFormat.put startpos (sysctlEntry dir child) p with
        | (p', true) => sysctlReaddirLoop w dir startpos n (index + 1) p'
        | (p', false) => some (p', true)

/-- A bound on the rounds of the loop: the oids of the directory, the synthetic
children and one to find the end. -/
def sysctlRounds (w : World) (dir : Pfsnode) : ℕ :=
  ((procfsSysctlChildren w.oids dir.nodeId.nodeidObjectid).getD []).length +
    procfsRandomLeaves.length + 2

def procfsSysctlReaddir (w : World) (dir : Pfsnode) (startpos room : ℕ) : Option ReaddirReply :=
  match direntFormat.putAll startpos (sysctlDots dir) ⟨0, room, []⟩ with
  | (p, false) => some ⟨none, p.pos, false, p.out⟩
  | (p, true) =>
    (sysctlReaddirLoop w dir startpos (sysctlRounds w dir) 0 p).map fun r =>
      ⟨none, r.1.pos, !r.2, r.1.out⟩

/-- `procfs_vnop_readdir`, at offset `startpos` with a buffer of `room` bytes. -/
def procfsVnopReaddir (w : World) (c : Caller) (dir : Pfsnode) (startpos room : ℕ) :
    Option ReaddirReply :=
  if dir.vnodeVtype ≠ .VDIR then some ⟨some .ENOTDIR, startpos, false, []⟩
  else if dir.nodeStructureNode.psnNodeType = .sysctl then
    procfsSysctlReaddir w dir startpos room
  else
    (readdirLoop w c dir startpos (w.tree.children dir.nodeStructureNode) ⟨0, room, []⟩).map
      fun r => ⟨r.2.1, r.1.pos, r.2.2, r.1.out⟩

end ProcFS
