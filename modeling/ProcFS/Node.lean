import ProcFS.Process
import ProcFS.Structure
import ProcFS.Sysctl
import ProcFS.Version

/-!
# ProcFS.Node — file system nodes

A `pfsnode_t` is the file system's side of a vnode: a node id, and the
structure node it is an instance of. This module has what the vnode operations
share: the world they run in, the id of a node's parent, the vnode with the type
it was created with, and `procfsnode_find` as one caller sees it. What it does when
many callers run at once is the subject of `ProcFS.NodeTable`.

* `procfsCreateVnode_ok`: the vnode that is made for a node.
* `procfsnodeFind_cases`: all that `procfsnode_find` can do.
* `Pfsnode.IsDir.of_nodeVtype`: a directory that is still reported as one can be searched.
-/

namespace ProcFS

/-! ## The world of a vnode operation -/

/-- What the vnode operations read besides their arguments: the structure tree,
the `procfs.linux_version` setting, the sysctl oids, the process table and the
outcome of the allocations made on the way. -/
structure World where
  tree : SnodeTree
  linuxVersion : Int32
  oids : List SysctlOid
  procs : ProcTable
  mem : Allocs

/-- The caller: its credential and the mount it works on. -/
structure Caller where
  cred : Cred
  pmp : Pfsmount
deriving DecidableEq, Repr

/-- `!suser && procfs_should_access_check(pmp)`. -/
def Caller.checkAccess (c : Caller) : Bool :=
  !vfsContextSuser c.cred && procfsShouldAccessCheck c.pmp

/-- A caller other than root is checked on a mount with process permissions. -/
theorem Caller.checkAccess_of {c : Caller} (hcred : vfsContextSuser c.cred = false)
    (hflags : c.pmp.pmntFlags &&& procfsMoptNoprocperms = 0) : c.checkAccess = true := by
  simp [Caller.checkAccess, procfsShouldAccessCheck, hcred, hflags]

/-- A vnode, as far as the file system asks about it: the mount and the type it was
created with. Neither changes afterwards. -/
structure Vnode where
  vMount : MountPoint
  vType : Vtype
deriving DecidableEq, Repr

/-- `struct pfsnode`, without the fields that only `procfsnode_find` uses. -/
structure Pfsnode where
  nodeMntId : Int32
  nodeId : PfsId
  nodeStructureNode : Pfssnode
  nodeVnode : Vnode
deriving DecidableEq, Repr

/-- `vnode_mount` of the vnode of a node. -/
def Pfsnode.vnodeMount (pnp : Pfsnode) : MountPoint := pnp.nodeVnode.vMount

/-- `vnode_vtype` of the vnode of a node. -/
def Pfsnode.vnodeVtype (pnp : Pfsnode) : Vtype := pnp.nodeVnode.vType

/-- The node that `procfs_root` looks for, with a vnode from `procfs_create_root_vnode`. -/
structure IsRoot (w : World) (c : Caller) (pnp : Pfsnode) : Prop where
  mnt_eq : pnp.nodeMntId = c.pmp.pmntId
  id_eq : pnp.nodeId = procfsRootNodeId
  snode_eq : procfsStructureRootNode w.tree = some pnp.nodeStructureNode
  vdir : pnp.vnodeVtype = .VDIR

/-- A freshly mounted file system in which the shell is live and nothing fails. -/
def shWorld : World where
  tree := procfsStructureInit 0 2
  linuxVersion := 0
  oids := []
  procs := ProcTable.single shProc (by decide)
  mem := ⟨true, true, true, true⟩

/-- A caller with the given user id and no group in common with the shell. -/
def userCaller (uid : ℕ) : Caller := ⟨⟨uid, 12⟩, ⟨1, 0, 0, ⟨0, 0⟩⟩⟩

/-- `procfs_get_parent_node_id`. The root is its own parent; the process and
object ids are kept when the parent is process- or thread-related. -/
def procfsGetParentNodeId (t : SnodeTree) (pnp : Pfsnode) : PfsId :=
  let snode := pnp.nodeStructureNode
  let parentSnode := (t.parent snode).getD snode
  let pidNode := parentSnode.psnFlags &&& psnFlagProcess != 0
  let threadNode := parentSnode.psnFlags &&& psnFlagThread != 0
  { nodeidBaseId := parentSnode.psnBaseNodeId
    nodeidPid := if pidNode then pnp.nodeId.nodeidPid else prnodeNoPid
    nodeidObjectid := if threadNode then pnp.nodeId.nodeidObjectid else prnodeNoObjectid }

/-- The type that `procfs_create_vnode` gives to the vnode of a node, and that
`procfs_vnop_getattr` reports: by oid below `/proc/sys`, by structure node type
elsewhere. The oids are those registered at that moment. -/
def nodeVtype (oids : List SysctlOid) (snode : Pfssnode) (nodeId : PfsId) : Vtype :=
  if snode.psnNodeType = .sysctl then
    if procfsSysctlIsNode oids nodeId.nodeidObjectid then .VDIR else .VREG
  else procfsAllocvp snode.psnNodeType

/-- Below `/proc/sys`, that the oid of a directory is still registered. If it is not,
a search in the directory follows a stale pointer. -/
def Pfsnode.OidRegistered (dir : Pfsnode) (oids : List SysctlOid) : Prop :=
  dir.nodeStructureNode.psnNodeType = .sysctl →
    oidRegistered oids dir.nodeId.nodeidObjectid = true

instance (dir : Pfsnode) (oids : List SysctlOid) : Decidable (dir.OidRegistered oids) :=
  inferInstanceAs (Decidable (_ → _))

/-- A directory whose names can be searched and listed: its vnode was created as one,
and its oid is not gone. -/
structure Pfsnode.IsDir (dir : Pfsnode) (oids : List SysctlOid) : Prop where
  vdir : dir.vnodeVtype = .VDIR
  registered : dir.OidRegistered oids

/-- Outside `/proc/sys` there is no oid to ask for. -/
theorem Pfsnode.IsDir.of_ne_sysctl {dir : Pfsnode} (hvdir : dir.vnodeVtype = .VDIR)
    (hsysctl : dir.nodeStructureNode.psnNodeType ≠ .sysctl) (oids : List SysctlOid) :
    dir.IsDir oids :=
  ⟨hvdir, fun h => absurd h hsysctl⟩

/-- How a vnode operation ends: with a value, with an error code, or not at
all because the kernel followed a null pointer or one to an oid that is gone. -/
inductive Reply (α : Type) where
  | ok (a : α)
  | error (e : Errno)
  | panic
deriving DecidableEq, Repr

/-- What the kernel answers while a node is looked up: whether memory for a
pfsnode is available, and what `vnode_create` and `vnode_get` return. -/
structure VnodeEnv where
  osMalloc : Bool
  vnodeCreate : Option Errno
  vnodeGet : Option Errno
deriving DecidableEq, Repr

/-- `vnode_create` on a mount, for a vnode of a given type. -/
def vnodeCreateOn (env : VnodeEnv) (mp : MountPoint) (vtype : Vtype) : Reply Vnode :=
  match env.vnodeCreate with
  | some e => .error e
  | none => .ok ⟨mp, vtype⟩

/-- `procfs_create_vnode`: the vnode is created on the mount of the parent, and
`vnode_mount` needs a real vnode. -/
def procfsCreateVnode (env : VnodeEnv) (oids : List SysctlOid) (parentvp : Option Pfsnode)
    (snode : Pfssnode) (nodeId : PfsId) : Reply Vnode :=
  match parentvp with
  | none => .panic
  | some dvp => vnodeCreateOn env dvp.vnodeMount (nodeVtype oids snode nodeId)

/-- The vnode that `procfs_create_vnode` makes. -/
theorem procfsCreateVnode_ok {env : VnodeEnv} {oids : List SysctlOid} {dvp : Pfsnode}
    {snode : Pfssnode} {nodeId : PfsId} {vp : Vnode}
    (h : procfsCreateVnode env oids (some dvp) snode nodeId = .ok vp) :
    vp = ⟨dvp.vnodeMount, nodeVtype oids snode nodeId⟩ := by
  simp only [procfsCreateVnode, vnodeCreateOn] at h
  split at h
  · cases h
  · exact (Reply.ok.inj h).symm

/-- `procfsnode_find` as a single caller sees it: the node of the table with the
requested id, or else a new one, entered into the table. `create` is the vnode
creation callback, which is given the new node. -/
def procfsnodeFind (table : List Pfsnode) (pmp : Pfsmount) (nodeId : PfsId)
    (snode : Option Pfssnode) (env : VnodeEnv) (create : Pfssnode → PfsId → Reply Vnode) :
    Reply Pfsnode × List Pfsnode :=
  match table.find? fun pnp => pnp.nodeMntId = pmp.pmntId ∧ pnp.nodeId = nodeId with
  | some pnp => (.ok pnp, table)
  | none =>
    if env.osMalloc then
      match snode with
      | none => (.panic, table)
      | some s =>
        match create s nodeId with
        | .ok vp => (.ok ⟨pmp.pmntId, nodeId, s, vp⟩, ⟨pmp.pmntId, nodeId, s, vp⟩ :: table)
        | .error e => (.error e, table)
        | .panic => (.panic, table)
    else (.error .ENOMEM, table)

/-- What `procfsnode_find` does: it returns a node of the table with the
requested key, or enters and returns a new one, or fails without a change. -/
theorem procfsnodeFind_cases (table : List Pfsnode) (pmp : Pfsmount) (nodeId : PfsId)
    (snode : Option Pfssnode) (env : VnodeEnv) (create : Pfssnode → PfsId → Reply Vnode) :
    (∃ pnp ∈ table, pnp.nodeMntId = pmp.pmntId ∧ pnp.nodeId = nodeId ∧
      procfsnodeFind table pmp nodeId snode env create = (.ok pnp, table)) ∨
    (∃ s vp, snode = some s ∧ create s nodeId = .ok vp ∧
      procfsnodeFind table pmp nodeId snode env create =
        (.ok ⟨pmp.pmntId, nodeId, s, vp⟩, ⟨pmp.pmntId, nodeId, s, vp⟩ :: table)) ∨
    ((∀ pnp, (procfsnodeFind table pmp nodeId snode env create).1 ≠ .ok pnp) ∧
      (procfsnodeFind table pmp nodeId snode env create).2 = table) := by
  unfold procfsnodeFind
  split
  · -- in the table
    rename_i pnp hfound
    have hkey := List.find?_some hfound
    simp only [decide_eq_true_eq] at hkey
    exact Or.inl ⟨pnp, List.mem_of_find?_eq_some hfound, hkey.1, hkey.2, rfl⟩
  · right
    split
    · split
      · exact Or.inr ⟨by simp, rfl⟩
      · rename_i s
        cases hcreate : create s nodeId with
        | ok vp => exact Or.inl ⟨s, vp, rfl, hcreate, rfl⟩
        | error e => exact Or.inr ⟨by simp, rfl⟩
        | panic => exact Or.inr ⟨by simp, rfl⟩
    · exact Or.inr ⟨by simp, rfl⟩

/-- The node that `procfsnode_find` returns has the requested id. -/
theorem procfsnodeFind_ok {table : List Pfsnode} {pmp : Pfsmount} {nodeId : PfsId}
    {snode : Option Pfssnode} {env : VnodeEnv} {create : Pfssnode → PfsId → Reply Vnode}
    {pnp : Pfsnode} (h : (procfsnodeFind table pmp nodeId snode env create).1 = .ok pnp) :
    pnp.nodeMntId = pmp.pmntId ∧ pnp.nodeId = nodeId := by
  rcases procfsnodeFind_cases table pmp nodeId snode env create with
    ⟨found, -, hmnt, hid, heq⟩ | ⟨s, vp, -, -, heq⟩ | ⟨hfail, -⟩
  · rw [heq] at h
    cases h
    exact ⟨hmnt, hid⟩
  · rw [heq] at h
    cases h
    exact ⟨rfl, rfl⟩
  · exact absurd h (hfail pnp)

end ProcFS
