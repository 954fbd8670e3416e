import ProcFS.Lookup

/-!
# ProcFS.Placement — where the reached nodes sit in the tree

A node is a structure node together with a process id and an object id, and
parents are never stored: they are recomputed from flags of the structure nodes.
That works only because the ids of the nodes that lookups reach obey the layout:
a node outside the process directories has no process id, and only threads,
descriptors and sysctl nodes have an object id. This module states that law
(`Placed`).

* `lookupMatch_cases`: what a lookup can match.
* `Placed.of_match`: a node that is created obeys the law if its directory does.
* `Reach.placed`: so does every node that is ever reached.
-/

namespace ProcFS

variable {build : ℕ} {next : UInt16} {t : SnodeTree} {dir : Pfsnode} {w : World} {c : Caller}
  {name : CString} {id : PfsId} {s : Pfssnode}

/-- A child has the node it was added to as its parent. -/
theorem parent_of_mem_children {s c : Pfssnode} (hs : s ∈ (procfsStructureInit build next).nodes)
    (hc : c ∈ (procfsStructureInit build next).children s) :
    (procfsStructureInit build next).parent c = some s := by
  have hparent : c.psnParent = some s.psnAddr := beq_iff_eq.mp (List.mem_filter.mp hc).2
  rw [SnodeTree.parent, hparent, Option.bind_some]
  exact node?_psnAddr hs

/-! ## The law of the ids -/

/-- A node whose id fits its structure node. Directories outside the process
directories have no process id; those that are not a thread, a descriptor or a
sysctl node have no object id. Outside `/proc/sys` the structure node also says what
type the vnode was created with. -/
structure Placed (t : SnodeTree) (pnp : Pfsnode) : Prop where
  mem : pnp.nodeStructureNode ∈ t.nodes
  noDot : pnp.nodeStructureNode.psnNodeType.isDot = false
  base_eq : pnp.nodeId.nodeidBaseId = pnp.nodeStructureNode.psnBaseNodeId
  pid_eq : procfsAllocvp pnp.nodeStructureNode.psnNodeType = .VDIR →
    pnp.nodeStructureNode.psnFlags &&& psnFlagProcess = 0 → pnp.nodeId.nodeidPid = prnodeNoPid
  objectid_eq : procfsAllocvp pnp.nodeStructureNode.psnNodeType = .VDIR →
    pnp.nodeStructureNode.psnNodeType.hasObject = false →
    pnp.nodeId.nodeidObjectid = prnodeNoObjectid
  vtype_eq : pnp.nodeStructureNode.psnNodeType ≠ .sysctl →
    pnp.vnodeVtype = procfsAllocvp pnp.nodeStructureNode.psnNodeType

/-- A directory has a structure node of a directory type. -/
theorem Placed.allocvp_of_vdir (h : Placed t dir) (hvdir : dir.vnodeVtype = .VDIR) :
    procfsAllocvp dir.nodeStructureNode.psnNodeType = .VDIR := by
  by_cases hsysctl : dir.nodeStructureNode.psnNodeType = .sysctl
  · rw [hsysctl]
    rfl
  · rw [← h.vtype_eq hsysctl, hvdir]

theorem Placed.root {pnp : Pfsnode} (htree : w.tree = procfsStructureInit build next)
    (h : IsRoot w c pnp) : Placed w.tree pnp := by
  have hroot := h.snode_eq
  rw [htree, procfsStructureRootNode_eq, Option.some.injEq] at hroot
  -- all ids of the root are fixed
  refine ⟨List.mem_of_getElem? h.snode_eq, ?_, ?_, fun _ _ => ?_, fun _ _ => ?_, fun _ => ?_⟩
  · rw [← hroot]
    rfl
  · rw [h.id_eq, ← hroot]
    rfl
  · rw [h.id_eq]
    rfl
  · rw [h.id_eq]
    rfl
  · rw [h.vdir, ← hroot]
    rfl

/-- The root is a directory whatever oids there are. -/
theorem IsRoot.isDir {pnp : Pfsnode} (h : IsRoot w c pnp)
    (htree : w.tree = procfsStructureInit build next) (oids : List SysctlOid) : pnp.IsDir oids := by
  have hroot := h.snode_eq
  rw [htree, procfsStructureRootNode_eq, Option.some.injEq] at hroot
  refine .of_ne_sysctl h.vdir ?_ oids
  rw [← hroot]
  exact PfsType.noConfusion

/-! ## What a match is -/

/-- A match in the loop over the children: the child itself with the ids of the
directory, or a process, or a thread or descriptor of the directory's process. -/
inductive ChildMatch (dir : Pfsnode) (name : CString) (s : Pfssnode) : PfsId → Prop
  | named (hname : name = s.psnName) :
      ChildMatch dir name s ⟨dir.nodeId.nodeidPid, dir.nodeId.nodeidObjectid, s.psnBaseNodeId⟩
  | process (pid : Int32) (htype : s.psnNodeType = .proc ∨ s.psnNodeType = .procnamedir)
      (hpid : pid ≠ prnodeNoPid) :
      ChildMatch dir name s ⟨pid, dir.nodeId.nodeidObjectid, s.psnBaseNodeId⟩
  | object (objectid : UInt64) (htype : s.psnNodeType = .thread ∨ s.psnNodeType = .fd)
      (hpid : dir.nodeId.nodeidPid ≠ prnodeNoPid) :
      ChildMatch dir name s ⟨dir.nodeId.nodeidPid, objectid, s.psnBaseNodeId⟩

/-- No process is found under the pid that stands for none. -/
theorem ne_noPid_of_procFind {pid : Int32} {p : Proc} (h : w.procs.procFind pid = some p) :
    pid ≠ prnodeNoPid := by
  intro heq
  rw [heq, ProcTable.procFind_noPid] at h
  cases h

theorem Accepts.childMatch (h : Accepts w c dir name s id) : ChildMatch dir name s id := by
  cases h with
  | named hname => exact .named hname
  | number i p htype hlive haccess =>
    have hpid := ne_noPid_of_procFind hlive
    unfold procMatchId at hpid ⊢
    split at hpid
    · rename_i hthread
      rw [if_pos hthread]
      exact .object _ (Or.inl hthread) hpid
    · rename_i hthread
      rw [if_neg hthread]
      refine .process _ ?_ hpid
      rcases htype with h | h | h
      · exact Or.inl h
      · exact Or.inr h
      · exact absurd h hthread
  | fd i htype hfd =>
    -- a descriptor is found only in a process that is there
    refine .object _ (Or.inr htype) ?_
    unfold hasFd at hfd
    split at hfd
    · cases hfd
    · rename_i hlive
      exact ne_noPid_of_procFind hlive

/-- What a lookup of a name other than `.` and `..` matches: an oid, with the
structure node of the directory, or one of its children. -/
theorem lookupMatch_cases (h : lookupMatch w c dir name = .ok (some (s, id))) :
    (dir.nodeStructureNode.psnNodeType = .sysctl ∧ s = dir.nodeStructureNode ∧
      ∃ oid, procfsSysctlFind w.oids dir.nodeId.nodeidObjectid name = some oid ∧
        id = ⟨prnodeNoPid, oid, s.psnBaseNodeId⟩) ∨
    (dir.nodeStructureNode.psnNodeType ≠ .sysctl ∧
      s ∈ w.tree.children dir.nodeStructureNode ∧ ChildMatch dir name s id) := by
  simp only [lookupMatch] at h
  split at h
  · rename_i hsysctl
    simp only [Except.ok.injEq, Option.map_eq_some_iff] at h
    obtain ⟨oid, hfind, hid⟩ := h
    cases hid
    exact Or.inl ⟨hsysctl, rfl, oid, hfind, rfl⟩
  · rename_i hsysctl
    have hfound := lookupLoop_accepts h
    exact Or.inr ⟨hsysctl, hfound.1, hfound.2.2.childMatch⟩

/-! ## The law is kept -/

/-- A name other than `.` and `..` is not that of a dot entry. -/
theorem Site.noDot_of_name {s c : Pfssnode} (h : Site s c)
    (hdots : name ≠ cstr "." ∧ name ≠ cstr "..") (hname : name = c.psnName) :
    c.psnNodeType.isDot = false := by
  by_contra hdot
  rw [Bool.not_eq_false] at hdot
  rcases h.dot_name hdot with heq | heq
  · exact hdots.1 (hname.trans heq)
  · exact hdots.2 (hname.trans heq)

theorem ChildMatch.noDot (h : ChildMatch dir name s id) (hsite : Site dir.nodeStructureNode s)
    (hdots : name ≠ cstr "." ∧ name ≠ cstr "..") : s.psnNodeType.isDot = false := by
  cases h with
  | named hname => exact hsite.noDot_of_name hdots hname
  | process pid htype => rcases htype with h | h <;> rw [h] <;> rfl
  | object objectid htype => rcases htype with h | h <;> rw [h] <;> rfl

theorem ChildMatch.base_eq (h : ChildMatch dir name s id) : id.nodeidBaseId = s.psnBaseNodeId := by
  cases h <;> rfl

/-- A matched child outside the process directories has no process id. -/
theorem ChildMatch.pid_eq (h : ChildMatch dir name s id) (hdir : Placed t dir)
    (hvdir : procfsAllocvp dir.nodeStructureNode.psnNodeType = .VDIR)
    (hsite : Site dir.nodeStructureNode s) (hflags : s.psnFlags &&& psnFlagProcess = 0) :
    id.nodeidPid = prnodeNoPid := by
  have hpid : dir.nodeId.nodeidPid = prnodeNoPid := hdir.pid_eq hvdir (hsite.process hflags)
  cases h with
  | named hname => exact hpid
  | process pid htype => exact absurd hflags (hsite.proc_flags htype).1
  | object objectid htype => exact hpid

/-- A matched directory that is no thread, descriptor or sysctl node has no object
id. -/
theorem ChildMatch.objectid_eq (h : ChildMatch dir name s id) (hdir : Placed t dir)
    (hvdir : procfsAllocvp dir.nodeStructureNode.psnNodeType = .VDIR)
    (hsite : Site dir.nodeStructureNode s) (hdot : s.psnNodeType.isDot = false)
    (hs : procfsAllocvp s.psnNodeType = .VDIR) (hobject : s.psnNodeType.hasObject = false) :
    id.nodeidObjectid = prnodeNoObjectid := by
  have hobjectid : dir.nodeId.nodeidObjectid = prnodeNoObjectid :=
    hdir.objectid_eq hvdir (hsite.dir_parent hdot hs).1
  cases h with
  | named hname => exact hobjectid
  | process pid htype => exact hobjectid
  | object objectid htype => rcases htype with h | h <;> rw [h] at hobject <;> cases hobject

/-- The node that a lookup creates obeys the law if its directory does. -/
theorem Placed.of_match (htree : w.tree = procfsStructureInit build next) (hdir : Placed w.tree dir)
    (hvdir : procfsAllocvp dir.nodeStructureNode.psnNodeType = .VDIR)
    (hdots : name ≠ cstr "." ∧ name ≠ cstr "..") (h : lookupMatch w c dir name = .ok (some (s, id)))
    (mnt : Int32) (mp : MountPoint) : Placed w.tree ⟨mnt, id, s, mp, nodeVtype w.oids s id⟩ := by
  -- the vnode is created with the type of the node
  have hvtype : s.psnNodeType ≠ .sysctl → nodeVtype w.oids s id = procfsAllocvp s.psnNodeType :=
    fun hsysctl => if_neg hsysctl
  rcases lookupMatch_cases h with ⟨hsysctl, rfl, oid, -, rfl⟩ | ⟨-, hs, hmatch⟩
  · refine ⟨hdir.mem, hdir.noDot, rfl, fun _ _ => rfl, fun _ hobject => ?_, hvtype⟩
    simp [hsysctl, PfsType.hasObject] at hobject
  · have hmem : s ∈ w.tree.nodes := List.mem_of_mem_filter hs
    have hsite := (layoutOk_of_mem htree hdir.mem).site s hs
    have hdot := hmatch.noDot hsite hdots
    exact ⟨hmem, hdot, hmatch.base_eq, fun _ => hmatch.pid_eq hdir hvdir hsite,
      hmatch.objectid_eq hdir hvdir hsite hdot, hvtype⟩

/-! ## Reached nodes -/

/-- The nodes ever reached on a mount from its root, by successful lookups of any
callers. The world may change between two lookups, except for the structure tree;
the nodes of this mount that are in the table were themselves reached. -/
inductive Reach (t : SnodeTree) (pmp : Pfsmount) : Pfsnode → Prop
  | root (w : World) (cred : Cred) {pnp : Pfsnode} (htree : w.tree = t)
      (h : IsRoot w ⟨cred, pmp⟩ pnp) : Reach t pmp pnp
  | lookup (w : World) (cred : Cred) (table : List Pfsnode) {dir pnp : Pfsnode} (name : CString)
      (env : VnodeEnv) (htree : w.tree = t) (hdir : Reach t pmp dir)
      (htable : ∀ n ∈ table, n.nodeMntId = pmp.pmntId → Reach t pmp n)
      (h : (procfsVnopLookup w ⟨cred, pmp⟩ table dir name env).1 = .ok pnp) : Reach t pmp pnp

/-- A table in which every node of the mount was reached on it. -/
def TableReached (t : SnodeTree) (pmp : Pfsmount) (table : List Pfsnode) : Prop :=
  ∀ n ∈ table, n.nodeMntId = pmp.pmntId → Reach t pmp n

theorem tableReached_nil (t : SnodeTree) (pmp : Pfsmount) : TableReached t pmp [] := by
  intro n hn
  cases hn

theorem tableReached_singleton {pmp : Pfsmount} {n : Pfsnode} (h : Reach t pmp n) :
    TableReached t pmp [n] := by
  intro n' hn _
  rw [List.mem_singleton.mp hn]
  exact h

/-- What a successful lookup returns: the directory itself, a node of the table, or
a node made of what was matched. -/
theorem procfsVnopLookup_ok {table : List Pfsnode} {dir pnp : Pfsnode} {env : VnodeEnv}
    (h : (procfsVnopLookup w c table dir name env).1 = .ok pnp) :
    dir.vnodeVtype = .VDIR ∧ (name = cstr "." ∧ pnp = dir ∨
      pnp ∈ table ∧ pnp.nodeMntId = c.pmp.pmntId ∨
      (name ≠ cstr "." ∧ name ≠ cstr "..") ∧ ∃ s id,
        pnp = ⟨c.pmp.pmntId, id, s, dir.vnodeMount, nodeVtype w.oids s id⟩ ∧
        lookupMatch w c dir (name.take nameMax) = .ok (some (s, id))) := by
  unfold procfsVnopLookup at h
  split at h
  · cases h
  rename_i hvalid
  have hvdir : dir.vnodeVtype = .VDIR := by
    by_contra hne
    exact hvalid (Or.inl hne)
  refine ⟨hvdir, ?_⟩
  split at h
  · -- `..`: nothing can be created without a parent vnode
    rcases procfsnodeFind_cases table c.pmp (dotDotId w dir) (dotDotSnode w dir) env
      (procfsCreateVnode env w.oids none) with
      ⟨found, hmem, hmnt, -, heq⟩ | ⟨s, vp, -, hvp, -⟩ | ⟨hfail, -⟩
    · rw [heq] at h
      cases h
      exact Or.inr (Or.inl ⟨hmem, hmnt⟩)
    · cases hvp
    · exact absurd h (hfail pnp)
  rename_i hdotdot
  split at h
  · rename_i hdot
    split at h
    · cases h
    · cases h
      exact Or.inl ⟨hdot, rfl⟩
  rename_i hdot
  split at h
  · cases h
  split at h
  · cases h
  · cases h
  · rename_i s id hmatch
    rcases procfsnodeFind_cases table c.pmp id (some s) env
      (procfsCreateVnode env w.oids (some dir)) with
      ⟨found, hmem, hmnt, -, heq⟩ | ⟨s', vp, hs, hvp, heq⟩ | ⟨hfail, -⟩
    · rw [heq] at h
      cases h
      exact Or.inr (Or.inl ⟨hmem, hmnt⟩)
    · -- a new node, with the type that its oid or its structure node gives now
      rw [heq] at h
      cases h
      cases hs
      rw [procfsCreateVnode_ok hvp]
      exact Or.inr (Or.inr ⟨⟨hdot, hdotdot⟩, s, id, rfl, hmatch⟩)
    · exact absurd h (hfail pnp)

/-- A name that is short after it was cut was not cut. -/
theorem eq_of_take_nameMax {name short : CString} (hlen : short.length < nameMax)
    (h : name.take nameMax = short) : name = short := by
  have hle : name.length ≤ nameMax := by
    have hlen' := congrArg List.length h
    rw [List.length_take] at hlen'
    omega
  rwa [List.take_of_length_le hle] at h

/-- A name that is neither `.` nor `..` is still neither after it was cut. -/
theorem take_nameMax_ne_dots (h : name ≠ cstr "." ∧ name ≠ cstr "..") :
    name.take nameMax ≠ cstr "." ∧ name.take nameMax ≠ cstr ".." :=
  ⟨fun heq => h.1 (eq_of_take_nameMax (by decide) heq),
    fun heq => h.2 (eq_of_take_nameMax (by decide) heq)⟩

/-- Every node reached on a mount of a built tree obeys the law of the ids, and
belongs to that mount. -/
theorem Reach.placed {pmp : Pfsmount} {pnp : Pfsnode} (htree : t = procfsStructureInit build next)
    (h : Reach t pmp pnp) : Placed t pnp ∧ pnp.nodeMntId = pmp.pmntId := by
  induction h with
  | root w cred hw hroot =>
    have hplaced := Placed.root (hw.trans htree) hroot
    rw [hw] at hplaced
    exact ⟨hplaced, hroot.mnt_eq⟩
  | @lookup w cred table dir pnp name env hw hdir htable hlookup ihdir ihtable =>
    rcases procfsVnopLookup_ok hlookup with
      ⟨hvdir, ⟨-, rfl⟩ | ⟨hmem, hmnt⟩ | ⟨hdots, s, id, rfl, hmatch⟩⟩
    · -- the directory itself, for `.`
      exact ihdir
    · -- a node that is in the table already
      exact ihtable _ hmem hmnt
    · -- a new node, for what was matched
      have hplaced : Placed w.tree dir := by
        rw [hw]
        exact ihdir.1
      have hnew := Placed.of_match (hw.trans htree) hplaced (hplaced.allocvp_of_vdir hvdir)
        (take_nameMax_ne_dots hdots) hmatch pmp.pmntId dir.vnodeMount
      rw [hw] at hnew
      exact ⟨hnew, rfl⟩

end ProcFS
