import ProcFS.Resolve
import ProcFS.SysctlForest

/-!
# ProcFS.Parent — `..` undoes the lookup of a name

A node does not store its parent. `..` recomputes it from the flags of the parent
structure node, and below `/proc/sys` by a search of the oid forest. For the node
that a lookup matched this gives back the directory. But the node that a lookup
returns is the one in the table under the matched id, and the root has a fixed base
id that the counter passes again once it wrapped around: a child that got this id
outside the root is taken for the root, whose parent is the root.

* `dotDotId_of_match`: the node that was matched has the directory for its parent.
* `eq_root_of_shared_id`: a child with the id of the root is taken for the root.
* `dotDot_undoes_lookup_iff`: when `..` leads back to the directory of a lookup.
-/

namespace ProcFS

section

variable {w : World} {c : Caller} {build : ℕ} {next : UInt16} {dir : Pfsnode} {name : CString}

/-- The node that was matched has the directory as its parent. -/
theorem dotDotId_of_match (htree : w.tree = procfsStructureInit build next)
    (hdir : Placed w.tree dir) (hvdir : dir.vnodeVtype = .VDIR)
    (honce : OidsOnce w.oids) (haddrs : OidsAboveSyn w.oids)
    (hdots : name ≠ cstr "." ∧ name ≠ cstr "..") {s : Pfssnode} {id : PfsId}
    (hmatch : lookupMatch w c dir name = .ok (some (s, id)))
    (hs : procfsAllocvp s.psnNodeType = .VDIR) (mnt : Int32) (vp : Vnode) :
    dotDotId w ⟨mnt, id, s, vp⟩ = dir.nodeId := by
  have halloc := hdir.allocvp_of_vdir hvdir
  rcases lookupMatch_cases hmatch with ⟨hsysctl, rfl, oid, hfind, rfl⟩ | ⟨-, hmem, hchild⟩
  · -- an oid: the forest is searched for the directory it was found in
    rcases procfsSysctlParent_of_find honce haddrs hfind with ⟨hne, hparent⟩
    have hpid := hdir.pid_eq halloc (sysctl_unflagged (htree ▸ hdir.mem) hsysctl)
    simp only [dotDotId, if_pos (And.intro hsysctl hne), hparent, Option.getD_some]
    exact PfsId.ext hpid.symm rfl hdir.base_eq.symm
  · -- a child: its structure node has the one of the directory as its parent
    have hsite := (layoutOk_of_mem htree hdir.mem).site s hmem
    have hdot := hchild.noDot hsite hdots
    rcases hsite.dir_parent hdot hs with ⟨hobject, hthread⟩
    have hobjectid := hdir.objectid_eq halloc hobject
    have hparent : w.tree.parent s = some dir.nodeStructureNode := by
      have hdirmem := hdir.mem
      rw [htree] at hmem hdirmem ⊢
      exact parent_of_mem_children hdirmem hmem
    -- only `/proc/sys` itself is a child of type sysctl, and it has no object id
    have hstatic : ¬ (s.psnNodeType = .sysctl ∧ id.nodeidObjectid ≠ 0) := by
      rintro ⟨hsysctl, hne⟩
      cases hchild with
      | named hname => exact hne hobjectid
      | process pid htype => rcases htype with h | h <;> rw [h] at hsysctl <;> cases hsysctl
      | object objectid htype => rcases htype with h | h <;> rw [h] at hsysctl <;> cases hsysctl
    -- a process is entered from outside; everything else keeps the pid
    have hpid : dir.nodeStructureNode.psnFlags &&& psnFlagProcess ≠ 0 →
        id.nodeidPid = dir.nodeId.nodeidPid := by
      intro hflags
      cases hchild with
      | named hname => rfl
      | process pid htype => exact absurd (hsite.proc_flags htype).2.1 hflags
      | object objectid htype => rfl
    simp only [dotDotId, if_neg hstatic, procfsGetParentNodeId, hparent, Option.getD_some, hthread]
    refine PfsId.ext ?_ hobjectid.symm hdir.base_eq.symm
    by_cases hflags : dir.nodeStructureNode.psnFlags &&& psnFlagProcess = 0
    · simp [hflags, hdir.pid_eq halloc hflags]
    · simp [hflags, hpid hflags]

/-! ## The root -/

/-- The structure node of the root in a built tree. -/
theorem rootSnode_eq (htree : w.tree = procfsStructureInit build next) :
    w.tree.node? 0 = some ⟨build, 0, .root, cstr "/", procfsRootNodeBaseId, 0, none⟩ := by
  rw [htree]
  exact procfsStructureRootNode_eq build next

/-- A node with the structure node of the root has the id of the root, and is its own
parent. -/
theorem Placed.root_ids {pnp : Pfsnode} (h : Placed w.tree pnp)
    (hroot : pnp.nodeStructureNode = ⟨build, 0, .root, cstr "/", procfsRootNodeBaseId, 0, none⟩) :
    pnp.nodeId = procfsRootNodeId ∧ dotDotId w pnp = procfsRootNodeId := by
  have halloc : procfsAllocvp pnp.nodeStructureNode.psnNodeType = .VDIR := by rw [hroot]; rfl
  have hbase := h.base_eq
  have hpid := h.pid_eq halloc (by simp [hroot])
  have hobjectid := h.objectid_eq halloc (by rw [hroot]; rfl)
  rw [hroot] at hbase
  refine ⟨PfsId.ext hpid hobjectid hbase, ?_⟩
  simp only [dotDotId, procfsGetParentNodeId, hroot, SnodeTree.parent, Option.bind_none,
    Option.getD_none, reduceCtorEq, false_and, if_false]
  rfl

/-- A child that is not matched under the structure node it was found with is taken
for the root. -/
theorem eq_root_of_shared_id (htree : w.tree = procfsStructureInit build next)
    (hdir : Placed w.tree dir) {s : Pfssnode} {id : PfsId}
    (hmatch : lookupMatch w c dir name = .ok (some (s, id))) {pnp : Pfsnode}
    (hpnp : Placed w.tree pnp) (hid : pnp.nodeId = id) (hne : pnp.nodeStructureNode ≠ s) :
    pnp.nodeStructureNode = ⟨build, 0, .root, cstr "/", procfsRootNodeBaseId, 0, none⟩ := by
  have hs : s ∈ w.tree.nodes ∧ s.psnBaseNodeId = id.nodeidBaseId ∧ s.psnNodeType ≠ .root := by
    rcases lookupMatch_cases hmatch with ⟨hsysctl, rfl, oid, -, rfl⟩ | ⟨-, hmem, hchild⟩
    · exact ⟨hdir.mem, rfl, by rw [hsysctl]; decide⟩
    · exact ⟨List.mem_of_mem_filter hmem, hchild.base_eq.symm,
        (layoutOk_of_mem htree hdir.mem).ne_root hmem⟩
  rcases hs with ⟨hmem, hbase, hnoroot⟩
  rw [htree] at hmem
  have hpmem : pnp.nodeStructureNode ∈ (procfsStructureInit build next).nodes := htree ▸ hpnp.mem
  by_contra hroot
  refine hne (eq_of_psnBaseNodeId hpmem hmem (fun h => hroot (eq_root_of_psnAddr hpmem h))
    (fun h => hnoroot ?_) ?_)
  · rw [eq_root_of_psnAddr hmem h]
  · rw [hbase, ← hid, hpnp.base_eq]

/-! ## Lookup and `..` -/

/-- Whatever directory a lookup of the name returns, on any table of reached nodes,
`..` computes the id of the directory it was looked up in. -/
def DotDotUndoes (w : World) (c : Caller) (dir : Pfsnode) (name : CString) : Prop :=
  ∀ table env pnp, TableReached w.tree c.pmp table →
    (procfsVnopLookup w c table dir name env).1 = .ok pnp → pnp.vnodeVtype = .VDIR →
    dotDotId w pnp = dir.nodeId

/-- The name is that of a child of a directory other than the root and outside the
processes, whose base id is the one reserved for the root. -/
def TakenForRoot (w : World) (dir : Pfsnode) (name : CString) : Prop :=
  dir.nodeId ≠ procfsRootNodeId ∧ dir.nodeId.nodeidPid = prnodeNoPid ∧
    dir.nodeId.nodeidObjectid = prnodeNoObjectid ∧
    ∃ s ∈ w.tree.children dir.nodeStructureNode, name = s.psnName ∧
      procfsNodeVersionHidden w.linuxVersion s.psnName = false ∧
      s.psnBaseNodeId = procfsRootNodeBaseId

/-- Such a name leads to the root, if that is in the table. -/
theorem TakenForRoot.not_undoes (htree : w.tree = procfsStructureInit build next)
    (hreach : Reach w.tree c.pmp dir) (hvdir : dir.vnodeVtype = .VDIR)
    (hdots : name ≠ cstr "." ∧ name ≠ cstr "..") (h : TakenForRoot w dir name) :
    ¬ DotDotUndoes w c dir name := by
  rcases h with ⟨hnoroot, hpid, hobjectid, s, hs, rfl, hshown, hbase⟩
  have hdir := (hreach.placed htree).1
  let root : Pfsnode := ⟨c.pmp.pmntId, procfsRootNodeId,
    ⟨build, 0, .root, cstr "/", procfsRootNodeBaseId, 0, none⟩, dir.vnodeMount, .VDIR⟩
  have hroot : Reach w.tree c.pmp root :=
    Reach.root w c.cred rfl ⟨rfl, rfl, rootSnode_eq htree, rfl⟩
  have hlayout := layoutOk_of_mem htree hdir.mem
  have hfound : (procfsVnopLookup w c [root] dir s.psnName ⟨true, none, none⟩).1 = .ok root := by
    rw [procfsVnopLookup_name (hlayout.isDir hs hvdir w.oids) (hlayout.name_ne_nil hs) hdots,
      hlayout.take_nameMax hs, lookupMatch_named htree hdir.mem hs hshown, hpid, hobjectid, hbase]
    simp [procfsnodeFind, root, procfsRootNodeId]
  intro hundoes
  have hparent := hundoes [root] _ root (tableReached_singleton hroot) hfound rfl
  rw [((hroot.placed htree).1.root_ids rfl).2] at hparent
  exact hnoroot hparent.symm

/-- Outside the root, the only matches with the id of the root are such names: oids
have an object id, and the entries that stand for many are of live processes. -/
theorem takenForRoot_of_match (htree : w.tree = procfsStructureInit build next)
    (hdir : Placed w.tree dir) (honce : OidsOnce w.oids) (haddrs : OidsAboveSyn w.oids)
    (hnoroot : dir.nodeId ≠ procfsRootNodeId) {s : Pfssnode}
    (hmatch : lookupMatch w c dir (name.take nameMax) = .ok (some (s, procfsRootNodeId))) :
    TakenForRoot w dir name := by
  rcases lookupMatch_cases hmatch with ⟨-, -, oid, hfind, hid⟩ | ⟨hsysctl, hs, hchild⟩
  · have hoid : oid = 0 := (congrArg PfsId.nodeidObjectid hid).symm
    exact absurd hoid (procfsSysctlParent_of_find honce haddrs hfind).1
  · have hlayout := layoutOk_of_mem htree hdir.mem
    have hshown : procfsNodeVersionHidden w.linuxVersion s.psnName = false := by
      simp only [lookupMatch, if_neg hsysctl] at hmatch
      exact (lookupLoop_accepts hmatch).2.1
    generalize hid : procfsRootNodeId = id at hchild
    cases hchild with
    | named hname =>
      have hlen := hlayout.name_length hs
      have hmax : maxStructNodeNameLen = 32 ∧ nameMax = 255 := ⟨rfl, rfl⟩
      exact ⟨hnoroot, (congrArg PfsId.nodeidPid hid).symm,
        (congrArg PfsId.nodeidObjectid hid).symm, s, hs,
        eq_of_take_nameMax (by omega) hname, hshown, (congrArg PfsId.nodeidBaseId hid).symm⟩
    | process pid htype hpid => exact absurd (congrArg PfsId.nodeidPid hid).symm hpid
    | object objectid htype hpid => exact absurd (congrArg PfsId.nodeidPid hid).symm hpid

/-- For every directory ever reached, every name and every forest in which each oid
occurs once: if a lookup of the name ends at a directory, `..` leads back, exactly when
the name is not that of a child that is taken for the root. -/
theorem dotDot_undoes_lookup_iff (htree : w.tree = procfsStructureInit build next)
    (hreach : Reach w.tree c.pmp dir) (hvdir : dir.vnodeVtype = .VDIR)
    (honce : OidsOnce w.oids) (haddrs : OidsAboveSyn w.oids)
    (hdots : name ≠ cstr "." ∧ name ≠ cstr "..") :
    DotDotUndoes w c dir name ↔ ¬ TakenForRoot w dir name := by
  have hdir := (hreach.placed htree).1
  constructor
  · intro hundoes htaken
    exact htaken.not_undoes htree hreach hvdir hdots hundoes
  · intro huntaken table env pnp htable hok hpnpdir
    have hresolves : Resolves w c dir name pnp.nodeId := ⟨table, env, pnp, htable, hok, rfl⟩
    have hcut := take_nameMax_ne_dots hdots
    have hpnp : Placed w.tree pnp :=
      ((Reach.lookup w c.cred table name env rfl hreach htable hok).placed htree).1
    rcases (resolves_iff (hresolves.isDir hdots) hresolves.ne_nil hdots).mp hresolves with
      ⟨s, hmatch⟩
    by_cases hsame : pnp.nodeStructureNode = s
    · rw [← hsame] at hmatch
      exact dotDotId_of_match htree hdir hvdir honce haddrs hcut hmatch
        (hpnp.allocvp_of_vdir hpnpdir) pnp.nodeMntId pnp.nodeVnode
    · -- another node with the matched id: the root
      have hroot := eq_root_of_shared_id htree hdir hmatch hpnp rfl hsame
      rcases hpnp.root_ids hroot with ⟨hid, hparent⟩
      rw [hparent]
      by_contra hnoroot
      apply huntaken
      rw [hid] at hmatch
      exact takenForRoot_of_match htree hdir honce haddrs (Ne.symm hnoroot) hmatch

end

/-- The directory `video` of a fresh mount. -/
def shVideo : Pfsnode :=
  ⟨1, ⟨prnodeNoPid, 0, 61⟩, ⟨0, 60, .dir, cstr "video", 61, 0, some 0⟩, 0, .VDIR⟩

theorem reach_shVideo : Reach shWorld.tree (userCaller 501).pmp shVideo := by
  have hroot : Reach shWorld.tree (userCaller 501).pmp
      ⟨1, procfsRootNodeId, ⟨0, 0, .root, cstr "/", 1, 0, none⟩, 0, .VDIR⟩ :=
    Reach.root shWorld ⟨501, 12⟩ rfl ⟨rfl, rfl, procfsStructureRootNode_eq 0 2, rfl⟩
  exact Reach.lookup shWorld ⟨501, 12⟩ [] (cstr "video") ⟨true, none, none⟩ rfl hroot
    (tableReached_nil _ _) (by decide +kernel)

/-- From `video/bttv` of a fresh mount, `..` leads back to `video`. -/
theorem dotDot_undoes_lookup_shVideo :
    Reach shWorld.tree (userCaller 501).pmp shVideo ∧
      DotDotUndoes shWorld (userCaller 501) shVideo (cstr "bttv") := by
  have hbases : ∀ s ∈ shWorld.tree.children shVideo.nodeStructureNode,
      s.psnBaseNodeId ≠ procfsRootNodeBaseId := by decide +kernel
  refine ⟨reach_shVideo, (dotDot_undoes_lookup_iff rfl reach_shVideo rfl
    (by simp [OidsOnce, shWorld, addrsList])
    (by simp [OidsAboveSyn, shWorld, addrsList]) (by decide)).mpr ?_⟩
  rintro ⟨-, -, -, s, hs, -, -, hbase⟩
  exact hbases s hs hbase

/-! ## After many mounts -/

/-- The counter after a number of buildings of the tree. -/
theorem nextNodeId_after (n : ℕ) (next : UInt16) :
    (fun next => (procfsStructureInit 0 next).nextNodeId)^[n] next =
      next + UInt16.ofNat (174 * n) := by
  induction n generalizing next with
  | zero => exact (UInt16.add_zero next).symm
  | succ n ih =>
    have hlit : UInt16.ofNat 174 = 174 := rfl
    rw [Function.iterate_succ_apply, ih, procfsStructureInit_nextNodeId, Nat.mul_succ,
      Nat.add_comm, UInt16.ofNat_add, hlit, UInt16.add_assoc]

/-- A machine on which the file system was mounted and unmounted 14312 times before. -/
def wrappedWorld : World := { shWorld with tree := procfsStructureInit 14312 65458 }

/-- The root and the directory `fs` on it. -/
def wrappedRoot : Pfsnode :=
  ⟨1, procfsRootNodeId, ⟨14312, 0, .root, cstr "/", 1, 0, none⟩, 0, .VDIR⟩

def wrappedFs : Pfsnode :=
  ⟨1, ⟨prnodeNoPid, 0, 65534⟩, ⟨14312, 77, .dir, cstr "fs", 65534, 0, some 0⟩, 0, .VDIR⟩

/-- There the counter gave `fs/nfs` the base id of the root: the lookup of `nfs` in
`fs` returns the root, and `..` does not lead back to `fs`. -/
theorem nfs_taken_for_root :
    (fun next => (procfsStructureInit 0 next).nextNodeId)^[14312] 2 = 65458 ∧
      Reach wrappedWorld.tree (userCaller 501).pmp wrappedFs ∧
      (procfsVnopLookup wrappedWorld (userCaller 501) [wrappedRoot] wrappedFs (cstr "nfs")
        ⟨true, none, none⟩).1 = .ok wrappedRoot ∧
      ¬ DotDotUndoes wrappedWorld (userCaller 501) wrappedFs (cstr "nfs") := by
  have hroot : Reach wrappedWorld.tree (userCaller 501).pmp wrappedRoot :=
    Reach.root wrappedWorld ⟨501, 12⟩ rfl ⟨rfl, rfl, procfsStructureRootNode_eq 14312 65458, rfl⟩
  have htable := tableReached_singleton hroot
  have hreach : Reach wrappedWorld.tree (userCaller 501).pmp wrappedFs :=
    Reach.lookup wrappedWorld ⟨501, 12⟩ [wrappedRoot] (cstr "fs") ⟨true, none, none⟩ rfl hroot
      htable (by decide +kernel)
  have hlookup : (procfsVnopLookup wrappedWorld (userCaller 501) [wrappedRoot] wrappedFs
      (cstr "nfs") ⟨true, none, none⟩).1 = .ok wrappedRoot := by decide +kernel
  refine ⟨?_, hreach, hlookup, fun hundoes => ?_⟩
  · rw [nextNodeId_after]
    rfl
  · have hparent := hundoes [wrappedRoot] _ wrappedRoot htable hlookup rfl
    exact absurd hparent (by decide +kernel)

end ProcFS
