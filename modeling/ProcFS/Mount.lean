import Mathlib.Logic.Function.Basic
import ProcFS.Lib.Runs
import ProcFS.Lookup

/-!
# ProcFS.Mount — mounting and unmounting

The state of the kernel extension across mounts: the per-mount records, the
counters, the one structure tree that all instances share and the table of
nodes. Two questions are answered here. What decides whether a mount applies
process permissions: `procfs_mount` reads the options word but never stores it,
so it is the memory the record was allocated in. And when the shared tree
outlives the instances that use it: `procfs_unmount` frees it every time, so
only as long as no other instance is mounted.

* `procfsMount_honours_iff`: which mounts honour their options.
* `Kext.Inv.step`: what every call keeps, if an instance that is unmounted is the last one.
* `history_safe_iff`: which histories are safe all along.
-/

namespace ProcFS

/-! ## The state of the kernel extension -/

/-- The parts of `struct vfsstatfs` that tell mounts apart. -/
structure Statfs where
  fFsid : Int32 × Int32
  fMntfromname : CString
deriving DecidableEq, Repr

/-- `struct mount`: the private data and the statfs record of a mount point. -/
structure VfsMount where
  fsprivate : Option Pfsmount
  statfs : Statfs
deriving DecidableEq, Repr

/-- The static data of the kernel extension and the mounts it serves.
`structureBuilds` counts the trees built so far; a structure node that is not in
the current tree has been freed. -/
structure Kext where
  vfsMount : MountPoint → VfsMount
  vfsTypenum : Int32
  procfsMountId : Int32
  mountedInstanceCount : Int32
  structureBuilds : ℕ
  nextNodeId : UInt16
  rootNode : Option SnodeTree
  table : List Pfsnode

def Kext.init : Kext where
  vfsMount _ := ⟨none, ⟨(0, 0), []⟩⟩
  vfsTypenum := 0
  procfsMountId := 0
  mountedInstanceCount := 0
  structureBuilds := 0
  nextNodeId := procfsRootNodeBaseId + 1
  rootNode := none
  table := []

def Kext.Mounted (k : Kext) (mp : MountPoint) : Prop := (k.vfsMount mp).fsprivate ≠ none

/-- A structure node has been allocated and not freed. -/
def Kext.SnodeLive (k : Kext) (s : Pfssnode) : Prop := ∃ t, k.rootNode = some t ∧ s ∈ t.nodes

/-! ## Mount and unmount -/

/-- The `data` argument of the mount call: NULL, an address that `copyin` fails
on, or the options word found there. -/
inductive MountData where
  | null
  | fault
  | args (mntOptions : Int32)
deriving DecidableEq, Repr

/-- `mount_args.mnt_options` when the record is allocated. -/
def MountData.mntOptions : MountData → Int32
  | .null => 0
  | .fault => 0
  | .args w => w

def mountedDeviceName : CString := cstr "proc"

/-- `populate_statfs_info`, the fields that are not constants. -/
def populateStatfsInfo (k : Kext) (pmp : Pfsmount) : Statfs where
  fFsid := (pmp.pmntId, k.vfsTypenum)
  fMntfromname :=
    if k.mountedInstanceCount = 1 then mountedDeviceName
    else mountedDeviceName ++ fmtInt k.mountedInstanceCount.toInt

/-- `procfs_structure_init`: builds the tree unless there is one. -/
def Kext.structureInit (k : Kext) : Kext :=
  match k.rootNode with
  | some _ => k
  | none =>
    let t := procfsStructureInit k.structureBuilds k.nextNodeId
    { k with
      rootNode := some t
      structureBuilds := k.structureBuilds + 1
      nextNodeId := t.nextNodeId }

@[simp] theorem Kext.structureInit_vfsMount (k : Kext) :
    k.structureInit.vfsMount = k.vfsMount := by
  unfold Kext.structureInit
  split <;> rfl

@[simp] theorem Kext.structureInit_table (k : Kext) : k.structureInit.table = k.table := by
  unfold Kext.structureInit
  split <;> rfl

/-- `procfs_structure_free`. -/
def Kext.structureFree (k : Kext) : Kext := { k with rootNode := none }

/-- The record of a new instance, in memory with content `m`: `pmnt_flags` is the
one field that is not set. -/
def newPfsmount (k : Kext) (mp : MountPoint) (m : Pfsmount) (now : Timespec) : Pfsmount :=
  { m with
    pmntId := k.procfsMountId + 1
    pmntMp := mp
    pmntMountTime := now }

/-- The record is linked to the mount point and the instance counted. -/
def Kext.addInstance (k : Kext) (mp : MountPoint) (m : Pfsmount) (now : Timespec) : Kext :=
  let k' := { k with
    procfsMountId := k.procfsMountId + 1
    mountedInstanceCount := k.mountedInstanceCount + 1 }
  let pmp := newPfsmount k mp m now
  { k' with vfsMount := Function.update k.vfsMount mp ⟨some pmp, populateStatfsInfo k' pmp⟩ }

/-- `procfs_mount`. `mem` is what `OSMalloc` returns for the `pfsmount_t`: nothing,
or memory with some content. The options word is read from `data` first, and not
used afterwards. -/
def procfsMount (k : Kext) (mp : MountPoint) (_data : MountData) (mem : Option Pfsmount)
    (now : Timespec) : Option Errno × Kext :=
  match (k.vfsMount mp).fsprivate, mem with
  | some _, _ => (none, k)
  | none, none => (some .ENOMEM, k)
  | none, some m => (none, (k.addInstance mp m now).structureInit)

/-- A first mount enters a record that keeps the flags found in memory. -/
theorem procfsMount_new {k : Kext} {mp : MountPoint} (hnew : (k.vfsMount mp).fsprivate = none)
    (data : MountData) (m : Pfsmount) (now : Timespec) :
    (procfsMount k mp data (some m) now).1 = none ∧
    ((procfsMount k mp data (some m) now).2.vfsMount mp).fsprivate =
      some (newPfsmount k mp m now) := by
  simp [procfsMount, hnew, Kext.addInstance]

/-- `vflush(mp, NULLVP, FORCECLOSE)`: every vnode of the mount is reclaimed, which
takes its node out of the table. -/
def vflush (table : List Pfsnode) (mp : MountPoint) : List Pfsnode :=
  table.filter fun pnp => pnp.vnodeMount ≠ mp

/-- `procfs_unmount`. The structure tree is freed in any case. -/
def procfsUnmount (k : Kext) (mp : MountPoint) : Kext :=
  match (k.vfsMount mp).fsprivate with
  | none => k.structureFree
  | some _ =>
    { k with
      table := vflush k.table mp
      vfsMount := Function.update k.vfsMount mp { k.vfsMount mp with fsprivate := none }
      mountedInstanceCount := k.mountedInstanceCount - 1 }.structureFree

def procfsCreateRootVnode (env : VnodeEnv) (mp : MountPoint) (_snode : Pfssnode)
    (_nodeId : PfsId) : Reply Vnode :=
  vnodeCreateOn env mp .VDIR

/-- `procfs_root` on a mounted instance. -/
def procfsRoot (k : Kext) (pmp : Pfsmount) (mp : MountPoint) (env : VnodeEnv) :
    Reply Pfsnode × List Pfsnode :=
  procfsnodeFind k.table pmp procfsRootNodeId (k.rootNode.bind procfsStructureRootNode) env
    (procfsCreateRootVnode env mp)

/-! ## Which mounts check access -/

/-- What the options word promises: access is checked unless the word has
`PROCFS_MOPT_NOPROCPERMS`, and where it is checked, a process that refuses the
caller cannot be looked up by name, in `/proc` or in `/proc/byname`. -/
structure HonoursOptions (mntOptions : Int32) (pmp : Pfsmount) : Prop where
  check_iff : procfsShouldAccessCheck pmp = true ↔ mntOptions &&& procfsMoptNoprocperms = 0
  refused_absent : mntOptions &&& procfsMoptNoprocperms = 0 →
    ∀ (w : World) (build : ℕ) (next : UInt16) (cred : Cred) (dir : Pfsnode) (s : Pfssnode)
      (p : Proc) (table : List Pfsnode) (env : VnodeEnv),
      w.tree = procfsStructureInit build next → vfsContextSuser cred = false →
      dir.nodeStructureNode ∈ w.tree.nodes → dir.vnodeVtype = .VDIR →
      s ∈ w.tree.children dir.nodeStructureNode →
      (s.psnNodeType = .proc ∨ s.psnNodeType = .procnamedir) →
      w.procs.procFind p.pPid = some p → procfsCheckCanAccessProcess cred p ≠ none →
      (procfsVnopLookup w ⟨cred, pmp⟩ table dir (processEntryName s.psnNodeType p) env).1 =
        .error .ENOENT

/-- A mount honours its options exactly when its access check agrees with them. -/
theorem honoursOptions_iff (mntOptions : Int32) (pmp : Pfsmount) :
    HonoursOptions mntOptions pmp ↔
      (pmp.pmntFlags &&& procfsMoptNoprocperms = 0 ↔ mntOptions &&& procfsMoptNoprocperms = 0) := by
  -- the check is made where the flag is not set
  have hcheck : procfsShouldAccessCheck pmp = true ↔
      pmp.pmntFlags &&& procfsMoptNoprocperms = 0 := by
    simp [procfsShouldAccessCheck]
  constructor
  · intro h
    rw [← hcheck]
    exact h.check_iff
  · intro h
    refine ⟨hcheck.trans h, ?_⟩
    -- what the options ask for: a refused process is not found
    intro hopts w build next cred dir s p table env htree huser hdir hvdir hs htype hlive hrefused
    have haccess : (Caller.mk cred pmp).checkAccess = true := by
      simp [Caller.checkAccess, huser, hcheck.mpr (h.mpr hopts)]
    exact procfsVnopLookup_refused htree hdir hvdir hs htype haccess hlive hrefused table env

/-- A first mount succeeds, and honours the options word exactly when the flag was
already right in the memory it allocated. -/
theorem procfsMount_honours_iff (k : Kext) (mp : MountPoint) (data : MountData) (m : Pfsmount)
    (now : Timespec) (hnew : (k.vfsMount mp).fsprivate = none) :
    (procfsMount k mp data (some m) now).1 = none ∧
    ∃ pmp, ((procfsMount k mp data (some m) now).2.vfsMount mp).fsprivate = some pmp ∧
      (HonoursOptions data.mntOptions pmp ↔
        (m.pmntFlags &&& procfsMoptNoprocperms = 0 ↔
          data.mntOptions &&& procfsMoptNoprocperms = 0)) := by
  obtain ⟨hok, hprivate⟩ := procfsMount_new hnew data m now
  exact ⟨hok, newPfsmount k mp m now, hprivate, honoursOptions_iff _ _⟩

/-- With default options in memory whose second word was 1, the mount does not
check access, and another user's process is found by name. -/
theorem procfsMount_stale_flags :
    ∃ pmp, ((procfsMount Kext.init 0 .null (some ⟨0, 1, 0, ⟨0, 0⟩⟩) ⟨0, 0⟩).2.vfsMount
      0).fsprivate =
        some pmp ∧
      procfsShouldAccessCheck pmp = false ∧
      procfsCheckCanAccessProcess ⟨502, 12⟩ shProc = some .EACCES ∧
      (procfsVnopLookup shWorld ⟨⟨502, 12⟩, pmp⟩ []
        ⟨1, procfsRootNodeId, ⟨0, 0, .root, cstr "/", 1, 0, none⟩, 0, .VDIR⟩ (cstr "7")
        ⟨true, none, none⟩).1 ≠ .error .ENOENT ∧
      ¬ HonoursOptions MountData.null.mntOptions pmp := by
  refine ⟨newPfsmount Kext.init 0 ⟨0, 1, 0, ⟨0, 0⟩⟩ ⟨0, 0⟩, ?_, by decide, by decide,
    by decide +kernel, ?_⟩
  · exact (procfsMount_new rfl .null ⟨0, 1, 0, ⟨0, 0⟩⟩ ⟨0, 0⟩).2
  · rw [honoursOptions_iff]
    decide

theorem procfsMount_honours_cleared :
    ∃ pmp, ((procfsMount Kext.init 0 .null (some ⟨0, 0, 0, ⟨0, 0⟩⟩) ⟨0, 0⟩).2.vfsMount
      0).fsprivate =
        some pmp ∧
      HonoursOptions MountData.null.mntOptions pmp := by
  obtain ⟨-, pmp, hprivate, hiff⟩ :=
    procfsMount_honours_iff Kext.init 0 .null ⟨0, 0, 0, ⟨0, 0⟩⟩ ⟨0, 0⟩ rfl
  exact ⟨pmp, hprivate, hiff.mpr (by decide)⟩

/-! ## Histories of mounts and unmounts -/

/-- What a lookup brings along besides the tree and the table. -/
structure LookupCall where
  linuxVersion : Int32
  oids : List SysctlOid
  procs : ProcTable
  mem : Allocs
  cred : Cred
  name : CString
  env : VnodeEnv

/-- A call into the kernel extension: from VFS to mount, unmount or find the
root, from a caller to look up a name, from the vnode layer to reclaim a node. -/
inductive Event where
  | mount (mp : MountPoint) (data : MountData) (mem : Option Pfsmount) (now : Timespec)
  | unmount (mp : MountPoint)
  | root (mp : MountPoint) (env : VnodeEnv)
  | lookup (dir : Pfsnode) (call : LookupCall)
  | reclaim (pnp : Pfsnode)

/-- The table after a lookup in `dir`, which searches the tree `t`. -/
def lookupTable (k : Kext) (t : SnodeTree) (pmp : Pfsmount) (dir : Pfsnode) (call : LookupCall) :
    List Pfsnode :=
  (procfsVnopLookup ⟨t, call.linuxVersion, call.oids, call.procs, call.mem⟩ ⟨call.cred, pmp⟩
    k.table dir call.name call.env).2

/-- One call. An instance is unmounted, and asked for its root, only while it is
mounted; a lookup needs a directory in the table, on a mounted instance, whose
structure node can still be read. -/
def Kext.step (k : Kext) : Event → Option Kext
  | .mount mp data mem now => some (procfsMount k mp data mem now).2
  | .unmount mp =>
    match (k.vfsMount mp).fsprivate with
    | none => none
    | some _ => some (procfsUnmount k mp)
  | .root mp env =>
    match (k.vfsMount mp).fsprivate with
    | none => none
    | some pmp => some { k with table := (procfsRoot k pmp mp env).2 }
  | .lookup dir call =>
    match (k.vfsMount dir.vnodeMount).fsprivate, k.rootNode with
    | some pmp, some t =>
      if dir ∈ k.table ∧ dir.nodeStructureNode ∈ t.nodes then
        some { k with table := lookupTable k t pmp dir call }
      else none
    | _, _ => none
  | .reclaim pnp => if pnp ∈ k.table then some { k with table := k.table.erase pnp } else none

/-- What every mounted instance relies on: the tree exists, and the nodes in the
table point into it. -/
def Kext.Safe (k : Kext) : Prop :=
  (∃ mp, k.Mounted mp) →
    k.rootNode.bind procfsStructureRootNode ≠ none ∧
    ∀ pnp ∈ k.table, k.SnodeLive pnp.nodeStructureNode

/-- The instance being unmounted is the only one. -/
def UnmountsLast (k : Kext) : Event → Prop
  | .unmount mp => ∀ mp', k.Mounted mp' → mp' = mp
  | _ => True

/-- The invariant of histories that only unmount the last instance. -/
structure Kext.Inv (k : Kext) : Prop where
  tree_built : ∀ t, k.rootNode = some t → ∃ build next, t = procfsStructureInit build next
  tree_exists : ∀ mp, k.Mounted mp → k.rootNode ≠ none
  node_mounted : ∀ pnp ∈ k.table, k.Mounted pnp.vnodeMount
  node_live : ∀ pnp ∈ k.table, k.SnodeLive pnp.nodeStructureNode

theorem Kext.Inv.safe {k : Kext} (h : k.Inv) : k.Safe := by
  rintro ⟨mp, hmp⟩
  refine ⟨?_, h.node_live⟩
  cases hroot : k.rootNode with
  | none => exact absurd hroot (h.tree_exists mp hmp)
  | some t =>
    obtain ⟨build, next, ht⟩ := h.tree_built t hroot
    rw [ht]
    exact procfsStructureRootNode_ne_none build next

theorem Kext.inv_init : Kext.init.Inv where
  tree_built t h := by cases h
  tree_exists mp h := absurd rfl h
  node_mounted pnp h := by cases h
  node_live pnp h := by cases h

/-- A step that only changes the table keeps the invariant if each node of the
new table was there before or is on a mounted instance with a live structure
node. -/
theorem Kext.Inv.table_step {k : Kext} (h : k.Inv) {table : List Pfsnode}
    (hnew : ∀ pnp ∈ table, pnp ∈ k.table ∨
      k.Mounted pnp.vnodeMount ∧ k.SnodeLive pnp.nodeStructureNode) :
    { k with table := table }.Inv where
  tree_built := h.tree_built
  tree_exists := h.tree_exists
  node_mounted pnp hpnp := by
    rcases hnew pnp hpnp with hold | hadded
    · exact h.node_mounted pnp hold
    · exact hadded.1
  node_live pnp hpnp := by
    rcases hnew pnp hpnp with hold | hadded
    · exact h.node_live pnp hold
    · exact hadded.2

theorem Kext.addInstance_mounted (k : Kext) (mp : MountPoint) (m : Pfsmount) (now : Timespec)
    (mp' : MountPoint) : (k.addInstance mp m now).Mounted mp' ↔ mp' = mp ∨ k.Mounted mp' := by
  unfold Kext.Mounted Kext.addInstance
  by_cases hmp : mp' = mp
  · subst hmp
    simp
  · simp [hmp]

/-- A mount builds the tree if there is none. The table is empty then: its nodes
would point into a tree. -/
theorem Kext.Inv.mount {k : Kext} (h : k.Inv) (mp : MountPoint) (m : Pfsmount) (now : Timespec) :
    (k.addInstance mp m now).structureInit.Inv := by
  have hmounted := k.addInstance_mounted mp m now
  have hroot : (k.addInstance mp m now).rootNode = k.rootNode := rfl
  have htable : (k.addInstance mp m now).table = k.table := rfl
  generalize k.addInstance mp m now = k' at hmounted hroot htable
  have hmono : ∀ pnp ∈ k'.table, k'.Mounted pnp.vnodeMount := by
    intro pnp hpnp
    rw [htable] at hpnp
    exact (hmounted pnp.vnodeMount).mpr (Or.inr (h.node_mounted pnp hpnp))
  -- the tree is there already, and stays
  cases hk : k.rootNode with
  | some t =>
    have hsame : k'.structureInit = k' := by simp [Kext.structureInit, hroot, hk]
    rw [hsame]
    refine ⟨?_, ?_, hmono, ?_⟩
    · rw [hroot]
      exact h.tree_built
    · intro mp' _
      rw [hroot, hk]
      simp
    · intro pnp hpnp
      rw [htable] at hpnp
      obtain ⟨t', ht', hmem⟩ := h.node_live pnp hpnp
      exact ⟨t', hroot.trans ht', hmem⟩
  -- the tree is built now; without one there can be no nodes
  | none =>
    have hnew : k'.structureInit.rootNode =
        some (procfsStructureInit k'.structureBuilds k'.nextNodeId) := by
      simp [Kext.structureInit, hroot, hk]
    have hempty : k'.structureInit.table = [] := by
      rw [Kext.structureInit_table, htable, List.eq_nil_iff_forall_not_mem]
      intro pnp hpnp
      obtain ⟨t, ht, -⟩ := h.node_live pnp hpnp
      rw [hk] at ht
      cases ht
    refine ⟨?_, ?_, ?_, ?_⟩
    · intro t ht
      rw [hnew, Option.some.injEq] at ht
      exact ⟨_, _, ht.symm⟩
    · intro mp' _
      rw [hnew]
      simp
    · rw [hempty]
      simp
    · rw [hempty]
      simp

/-- Unmounting the only instance leaves no mount, no node and no tree. -/
theorem Kext.Inv.unmount {k : Kext} (h : k.Inv) {mp : MountPoint}
    (hlast : ∀ mp', k.Mounted mp' → mp' = mp) (hmp : k.Mounted mp) :
    (procfsUnmount k mp).Inv := by
  obtain ⟨pmp, hpmp⟩ := Option.ne_none_iff_exists'.mp hmp
  -- all nodes are on this mount, so none is left
  have hflush : vflush k.table mp = [] := by
    rw [vflush, List.filter_eq_nil_iff]
    intro pnp hpnp
    simp [hlast _ (h.node_mounted pnp hpnp)]
  simp only [procfsUnmount, hpmp, hflush, Kext.structureFree]
  refine ⟨by simp, ?_, by simp, by simp⟩
  -- and no other mount is left either
  intro mp' hmp'
  unfold Kext.Mounted at hmp'
  by_cases heq : mp' = mp
  · subst heq
    simp at hmp'
  · simp only [Function.update_of_ne heq] at hmp'
    exact absurd (hlast mp' hmp') heq

theorem Kext.Inv.root {k : Kext} (h : k.Inv) {mp : MountPoint} (hmp : k.Mounted mp)
    (pmp : Pfsmount) (env : VnodeEnv) : { k with table := (procfsRoot k pmp mp env).2 }.Inv := by
  apply h.table_step
  intro pnp hpnp
  unfold procfsRoot at hpnp
  rcases procfsnodeFind_cases k.table pmp procfsRootNodeId
      (k.rootNode.bind procfsStructureRootNode) env (procfsCreateRootVnode env mp) with
    ⟨found, -, -, -, heq⟩ | ⟨s, vp, hs, hvp, heq⟩ | ⟨-, heq⟩
  · -- the root was in the table
    rw [heq] at hpnp
    exact Or.inl hpnp
  · rw [heq] at hpnp
    -- the root is entered, on this mount and with the structure node of the root
    rcases List.mem_cons.mp hpnp with rfl | hold
    · right
      obtain ⟨t, ht, hroot⟩ := Option.bind_eq_some_iff.mp hs
      have hvp' : vp = ⟨mp, .VDIR⟩ := by
        unfold procfsCreateRootVnode vnodeCreateOn at hvp
        split at hvp
        · cases hvp
        · exact (Reply.ok.inj hvp).symm
      subst hvp'
      exact ⟨hmp, t, ht, List.mem_of_getElem? hroot⟩
    · exact Or.inl hold
  · rw [heq] at hpnp
    exact Or.inl hpnp

theorem Kext.Inv.lookup {k : Kext} (h : k.Inv) {t : SnodeTree} (ht : k.rootNode = some t)
    {dir : Pfsnode} (hdir : dir ∈ k.table) (pmp : Pfsmount) (call : LookupCall) :
    { k with table := lookupTable k t pmp dir call }.Inv := by
  apply h.table_step
  intro pnp hpnp
  rcases procfsVnopLookup_table hpnp with hold | ⟨hmount, hsnode⟩
  · exact Or.inl hold
  · right
    rw [hmount]
    refine ⟨h.node_mounted dir hdir, ?_⟩
    rcases hsnode with hsame | hmem
    · rw [hsame]
      exact h.node_live dir hdir
    · exact ⟨t, ht, hmem⟩

/-- One call keeps the invariant, provided an unmounted instance is the last. -/
theorem Kext.Inv.step {k k' : Kext} {e : Event} (h : k.Inv) (hlast : UnmountsLast k e)
    (hstep : k.step e = some k') : k'.Inv := by
  cases e with
  | mount mp data mem now =>
    simp only [Kext.step, procfsMount, Option.some.injEq] at hstep
    subst hstep
    -- a second mount of an instance and a lack of memory change nothing
    split
    · exact h
    · exact h
    · exact h.mount mp _ now
  | unmount mp =>
    simp only [Kext.step] at hstep
    split at hstep
    · cases hstep
    · rename_i pmp hpmp
      cases hstep
      exact h.unmount hlast (by simp [Kext.Mounted, hpmp])
  -- the other three change only the table
  | root mp env =>
    simp only [Kext.step] at hstep
    split at hstep
    · cases hstep
    · rename_i pmp hpmp
      cases hstep
      exact h.root (by simp [Kext.Mounted, hpmp]) pmp env
  | lookup dir call =>
    simp only [Kext.step] at hstep
    split at hstep
    · rename_i pmp t hpmp ht
      split at hstep
      · rename_i hdir
        cases hstep
        exact h.lookup ht hdir.1 pmp call
      · cases hstep
    · cases hstep
  | reclaim pnp =>
    simp only [Kext.step] at hstep
    split at hstep
    · cases hstep
      exact h.table_step fun pnp' hpnp' => Or.inl (List.mem_of_mem_erase hpnp')
    · cases hstep

/-- Unmounting an instance while another one is mounted leaves that one without a
tree. -/
theorem procfsUnmount_not_safe {k : Kext} {mp mp' : MountPoint} (hmp' : k.Mounted mp')
    (hne : mp' ≠ mp) : ¬ (procfsUnmount k mp).Safe := by
  intro hsafe
  have hmounted : (procfsUnmount k mp).Mounted mp' := by
    unfold procfsUnmount
    split
    · exact hmp'
    · simpa [Kext.Mounted, Kext.structureFree, Function.update_of_ne hne] using hmp'
  have hroot : (procfsUnmount k mp).rootNode = none := by
    unfold procfsUnmount
    split <;> rfl
  exact (hsafe ⟨mp', hmounted⟩).1 (by rw [hroot]; rfl)

/-- The states a history passes through are all safe exactly when no instance was
unmounted while another one was mounted. -/
theorem history_safe_iff {es : List Event} {k : Kext}
    (h : run Kext.step Kext.init es = some k) :
    (∀ es' k', es' <+: es → run Kext.step Kext.init es' = some k' → k'.Safe) ↔
    (∀ es' e k', es' ++ [e] <+: es → run Kext.step Kext.init es' = some k' →
      UnmountsLast k' e) := by
  constructor
  · intro hsafe es' e k' hpre hk'
    cases e with
    | unmount mp =>
      intro mp' hmp'
      by_contra hne
      -- the instance that stays has lost its tree in the state after the unmount
      obtain ⟨k'', hk''⟩ := run_of_isPrefix h hpre
      have hafter := hsafe _ k'' hpre hk''
      obtain ⟨k₀, hk₀, hstep⟩ := run_concat.mp hk''
      rw [hk', Option.some.injEq] at hk₀
      subst hk₀
      simp only [Kext.step] at hstep
      split at hstep
      · cases hstep
      · cases hstep
        exact procfsUnmount_not_safe hmp' hne hafter
    | _ => trivial
  · -- conversely, the invariant is kept by every call
    intro hlast es' k' hpre hk'
    have hinv : k'.Inv := run_invariant_of Kext.inv_init (fun t e t' hI hC => hI.step hC)
      (fun bs e t hbs ht => hlast bs e t (hbs.trans hpre) ht) hk'
    exact hinv.safe

/-- Two instances, the first of them unmounted: the second has lost its tree. -/
theorem history_two_mounts_not_safe :
    ∃ k, run Kext.step Kext.init
        [.mount 0 .null (some ⟨0, 0, 0, ⟨0, 0⟩⟩) ⟨0, 0⟩,
         .mount 1 .null (some ⟨0, 0, 0, ⟨0, 0⟩⟩) ⟨0, 0⟩, .unmount 0] = some k ∧
      ¬ k.Safe := by
  let k₁ := (procfsMount Kext.init 0 .null (some ⟨0, 0, 0, ⟨0, 0⟩⟩) ⟨0, 0⟩).2
  let k₂ := (procfsMount k₁ 1 .null (some ⟨0, 0, 0, ⟨0, 0⟩⟩) ⟨0, 0⟩).2
  have hmounted : k₂.Mounted 1 := by
    simp [k₂, k₁, Kext.Mounted, procfsMount, Kext.addInstance, Kext.init]
  exact ⟨procfsUnmount k₂ 0, rfl, procfsUnmount_not_safe hmounted (by decide)⟩

/-- One instance mounted and unmounted again. -/
theorem history_single_mount_safe :
    (run Kext.step Kext.init
      [.mount 0 .null (some ⟨0, 0, 0, ⟨0, 0⟩⟩) ⟨0, 0⟩, .unmount 0]).isSome = true ∧
    ∀ es' k', es' <+: [.mount 0 .null (some ⟨0, 0, 0, ⟨0, 0⟩⟩) ⟨0, 0⟩, .unmount 0] →
      run Kext.step Kext.init es' = some k' → k'.Safe := by
  refine ⟨rfl, (history_safe_iff rfl).mpr ?_⟩
  intro es' e k' hpre hk'
  rcases es' with _ | ⟨e', _ | ⟨e'', rest⟩⟩
  · obtain ⟨rfl, -⟩ := List.cons_prefix_cons.mp hpre
    trivial
  · -- the unmount: only mount point 0 is mounted
    obtain ⟨rfl, hrest⟩ := List.cons_prefix_cons.mp hpre
    obtain ⟨rfl, -⟩ := List.cons_prefix_cons.mp hrest
    cases hk'
    intro mp' hmp'
    have hmounted := (Kext.init.addInstance_mounted 0 ⟨0, 0, 0, ⟨0, 0⟩⟩ ⟨0, 0⟩ mp').mp
      (by simpa [Kext.Mounted, procfsMount, Kext.init] using hmp')
    rcases hmounted with h | h
    · exact h
    · exact absurd rfl h
  · obtain ⟨-, hrest⟩ := List.cons_prefix_cons.mp hpre
    obtain ⟨-, hnil⟩ := List.cons_prefix_cons.mp hrest
    simp at hnil

end ProcFS
