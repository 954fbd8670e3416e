import ProcFS.DirentTypes

/-!
# ProcFS.Dots — what readdir and lookup make of the two dots

The parent of a directory is computed twice. The main loop of readdir and the lookup of `..`
use the same function, so the number in the record is that of the node. Below `/proc/sys`
lookup has a branch of its own, which searches the oid forest, while readdir stores the number
of the directory itself for both dots.

The lookup of `..` also differs from that of a name in what it passes on for the creation of a
vnode: no parent vnode. It depends on the parent being in the table of nodes.

* `procfsVnopLookup_panic_iff`: which lookups end in a panic.
* `lookup_createsOnMount_iff`: whether a lookup creates its vnode on the mount of the directory.
* `dotRecords_agree_iff`: whether the records of the dots have the numbers of the nodes they lead
  to.
-/

namespace ProcFS

/-! ## A vnode for the parent -/

/-- A vnode that a lookup creates is on the mount of the directory, and a lookup of `..` fails
only where there is no memory or `vnode_create` fails. No lookup ends in a panic; a search by name
in the directory of an oid that is gone is left out here, since it follows a stale pointer. -/
structure CreatesOnMount (w : World) (c : Caller) (table : List Pfsnode) (dir : Pfsnode)
    (name : CString) (env : VnodeEnv) : Prop where
  no_panic : name = cstr ".." ∨ dir.OidRegistered w.oids →
    (procfsVnopLookup w c table dir name env).1 ≠ .panic
  created_on : ∀ pnp ∈ (procfsVnopLookup w c table dir name env).2,
    pnp ∈ table ∨ pnp.vnodeMount = dir.vnodeMount
  dotDot_error : dir.vnodeVtype = .VDIR → name = cstr ".." →
    ∀ e, (procfsVnopLookup w c table dir name env).1 = .error e →
      env.vnodeCreate = some e ∨ env.osMalloc = false ∧ e = .ENOMEM

/-- The node of the parent is not in the table and has to be made again. -/
def RecreatesParent (w : World) (c : Caller) (table : List Pfsnode) (dir : Pfsnode)
    (name : CString) (env : VnodeEnv) : Prop :=
  dir.vnodeVtype = .VDIR ∧ name = cstr ".." ∧ env.osMalloc = true ∧
    ∀ pnp ∈ table, pnp.nodeMntId = c.pmp.pmntId → pnp.nodeId ≠ dotDotId w dir

/-- The lookup of `..` can only find the parent: there is nothing to create its vnode on. -/
theorem procfsVnopLookup_dotDot {w : World} {dir : Pfsnode} (hvdir : dir.vnodeVtype = .VDIR)
    (c : Caller) (table : List Pfsnode) (env : VnodeEnv) :
    procfsVnopLookup w c table dir (cstr "..") env =
      (table.find? fun pnp => pnp.nodeMntId = c.pmp.pmntId ∧ pnp.nodeId = dotDotId w dir).elim
        (if env.osMalloc then (.panic, table) else (.error .ENOMEM, table))
        fun pnp => (.ok pnp, table) := by
  rw [procfsVnopLookup_find_dotDot hvdir]
  unfold procfsnodeFind
  cases table.find? fun pnp => pnp.nodeMntId = c.pmp.pmntId ∧ pnp.nodeId = dotDotId w dir with
  | some pnp => rfl
  | none => cases dotDotSnode w dir <;> rfl

/-- With a parent vnode to take the mount from, nothing is dereferenced that is not there. -/
theorem procfsnodeFind_ne_panic (table : List Pfsnode) (pmp : Pfsmount) (nodeId : PfsId)
    (s : Pfssnode) (env : VnodeEnv) (oids : List SysctlOid) (dir : Pfsnode) :
    (procfsnodeFind table pmp nodeId (some s) env (procfsCreateVnode env oids (some dir))).1 ≠
      .panic := by
  unfold procfsnodeFind
  split
  · simp
  · split
    · simp only [procfsCreateVnode, vnodeCreateOn]
      cases env.vnodeCreate <;> simp
    · simp

/-- A lookup that follows no stale pointer ends in a panic if and only if it has to make the
parent again. -/
theorem procfsVnopLookup_panic_iff {w : World} {dir : Pfsnode} {name : CString}
    (hoid : name = cstr ".." ∨ dir.OidRegistered w.oids) (c : Caller) (table : List Pfsnode)
    (env : VnodeEnv) :
    (procfsVnopLookup w c table dir name env).1 = .panic ↔
      RecreatesParent w c table dir name env := by
  by_cases hdotdot : dir.vnodeVtype = .VDIR ∧ name = cstr ".."
  · obtain ⟨hvdir, rfl⟩ := hdotdot
    rw [procfsVnopLookup_dotDot hvdir]
    cases hfind : table.find? fun pnp =>
        pnp.nodeMntId = c.pmp.pmntId ∧ pnp.nodeId = dotDotId w dir with
    | some pnp =>
      have hkey := List.find?_some hfind
      simp only [decide_eq_true_eq] at hkey
      simp only [Option.elim_some, reduceCtorEq, false_iff]
      rintro ⟨-, -, -, habsent⟩
      exact habsent pnp (List.mem_of_find?_eq_some hfind) hkey.1 hkey.2
    | none =>
      have habsent : ∀ pnp ∈ table, pnp.nodeMntId = c.pmp.pmntId → pnp.nodeId ≠ dotDotId w dir := by
        intro pnp hpnp hmnt hid
        have hno := List.find?_eq_none.mp hfind pnp hpnp
        simp [hmnt, hid] at hno
      cases hmalloc : env.osMalloc with
      | true => exact iff_of_true rfl ⟨hvdir, rfl, hmalloc, habsent⟩
      | false =>
        refine iff_of_false (by simp) ?_
        rintro ⟨-, -, hmalloc', -⟩
        rw [hmalloc] at hmalloc'
        cases hmalloc'
  · refine iff_of_false ?_ fun h => hdotdot ⟨h.1, h.2.1⟩
    unfold procfsVnopLookup
    split
    · simp
    · rename_i hvalid
      split
      · rename_i hname
        exact absurd ⟨not_not.mp fun h => hvalid (Or.inl h), hname⟩ hdotdot
      · rename_i hname
        split
        · split <;> simp
        · -- a name: the pointer of the directory is followed, but it is not stale
          rw [if_neg (not_not_intro (hoid.resolve_left hname))]
          split
          · simp
          · simp
          · exact procfsnodeFind_ne_panic _ _ _ _ _ _ _

/-- For every world, caller, table, directory and name, and whatever the kernel answers: a
vnode is created on the mount of the directory, and `..` fails only as `vnode_create` does,
exactly when the node of the parent need not be made again. The directory is one by the type that
its vnode was created with, also where the oid behind it is gone. -/
theorem lookup_createsOnMount_iff (w : World) (c : Caller) (table : List Pfsnode) (dir : Pfsnode)
    (name : CString) (env : VnodeEnv) :
    CreatesOnMount w c table dir name env ↔ ¬ RecreatesParent w c table dir name env := by
  constructor
  · intro h hrecreates
    have hdotdot : name = cstr ".." ∨ dir.OidRegistered w.oids := Or.inl hrecreates.2.1
    exact h.no_panic hdotdot ((procfsVnopLookup_panic_iff hdotdot c table env).mpr hrecreates)
  · intro hparent
    refine ⟨fun hoid => mt (procfsVnopLookup_panic_iff hoid c table env).mp hparent,
      fun pnp hpnp => (procfsVnopLookup_table hpnp).imp_right And.left, ?_⟩
    rintro hvdir rfl e herror
    have hpanic := mt (procfsVnopLookup_panic_iff (Or.inl rfl) c table env).mp hparent
    rw [procfsVnopLookup_dotDot hvdir] at hpanic herror
    -- the parent is in the table, or memory for it was asked for
    cases hfind : table.find? fun pnp =>
        pnp.nodeMntId = c.pmp.pmntId ∧ pnp.nodeId = dotDotId w dir with
    | some pnp =>
      rw [hfind] at herror
      cases herror
    | none =>
      rw [hfind] at herror hpanic
      cases hmalloc : env.osMalloc with
      | true =>
        rw [hmalloc] at hpanic
        exact absurd rfl hpanic
      | false =>
        rw [hmalloc] at herror
        cases herror
        exact Or.inr ⟨rfl, rfl⟩

/-- The directory of the shell was reclaimed while its `threads` directory is in use: `..` from
there is a null pointer dereference, although a vnode could have been created. -/
theorem lookup_dotDot_panics :
    Reach shWorld.tree (userCaller 501).pmp shThreads ∧
    TableReached shWorld.tree (userCaller 501).pmp [shThreads] ∧
    (procfsVnopLookup shWorld (userCaller 501) [shThreads] shThreads (cstr "..")
      ⟨true, none, none⟩).1 = .panic :=
  ⟨reach_shThreads, tableReached_singleton reach_shThreads, by decide +kernel⟩

/-- So it is in the directory of an oid that was unregistered: its vnode is still one of a
directory, the search of the forest finds no parent, and `/proc/sys` has to be made again. -/
example :
    (procfsVnopLookup shWorld (userCaller 501) [] ⟨1, ⟨prnodeNoPid, 4096, 27⟩,
      ⟨0, 26, .sysctl, cstr "sys", 27, 0, some 0⟩, 0, .VDIR⟩ (cstr "..") ⟨true, none, none⟩).1 =
      .panic := by decide +kernel

/-! ## The numbers of the two dots -/

/-- The records of `.` and `..` that a complete reading returns first have the numbers of the
directory and of whatever node the lookup of `..` returns. -/
structure DotRecordsAgree (w : World) (c : Caller) (dir : Pfsnode) : Prop where
  dot : ∀ calls entries e, CompleteReading w c dir calls entries →
    entries.find? (fun e => e.name = cstr ".") = some e → e.fileId = procfsGetNodeFileid dir
  dotDot : ∀ calls entries e table env pnp, CompleteReading w c dir calls entries →
    entries.find? (fun e => e.name = cstr "..") = some e → TableReached w.tree c.pmp table →
    (procfsVnopLookup w c table dir (cstr "..") env).1 = .ok pnp →
    e.fileId = procfsGetNodeFileid pnp

/-- A directory below `/proc/sys` has the number of its parent: `/proc/sys` itself if its base
id is the one reserved for the root, the others if the addresses of the oids agree in the bits
that are kept. -/
def SharesParentNumber (w : World) (dir : Pfsnode) : Prop :=
  if dir.nodeId.nodeidObjectid = 0 then
    dir.nodeStructureNode.psnBaseNodeId = procfsRootNodeBaseId
  else
    ((procfsSysctlParent w.oids dir.nodeId.nodeidObjectid).getD 0).toNat % 2 ^ 40 =
      dir.nodeId.nodeidObjectid.toNat % 2 ^ 40

/-- The number of a node without a process: the base id, and 40 bits of the object id. -/
theorem toNat_fileId_noPid (objectid : UInt64) (base : UInt16) :
    (⟨prnodeNoPid, objectid, base⟩ : PfsId).fileId.toNat =
      base.toNat ||| objectid.toNat % 2 ^ 40 * 2 ^ 24 := by
  have hfile : (⟨prnodeNoPid, objectid, base⟩ : PfsId).fileId =
      base.toUInt64 ||| (objectid <<< 24) := rfl
  have hshift : (24 : UInt64).toNat % 64 = 24 := rfl
  rw [hfile, UInt64.toNat_or, UInt16.toNat_toUInt64, UInt64.toNat_shiftLeft, hshift,
    Nat.shiftLeft_eq]
  congr 1
  omega

theorem fileId_noPid_eq_iff (objectid objectid' : UInt64) (base base' : UInt16) :
    (⟨prnodeNoPid, objectid, base⟩ : PfsId).fileId =
        (⟨prnodeNoPid, objectid', base'⟩ : PfsId).fileId ↔
      base = base' ∧ objectid.toNat % 2 ^ 40 = objectid'.toNat % 2 ^ 40 := by
  -- the fields do not overlap
  have hfields : ∀ (b : UInt16) (o : ℕ), (b.toNat ||| o * 2 ^ 24) % 2 ^ 24 = b.toNat ∧
      (b.toNat ||| o * 2 ^ 24) / 2 ^ 24 = o := by
    intro b o
    have hb := b.toNat_lt
    have hlow : b.toNat % 2 ^ 24 = b.toNat := Nat.mod_eq_of_lt (by omega)
    have hhigh : b.toNat / 2 ^ 24 = 0 := Nat.div_eq_of_lt (by omega)
    constructor
    · rw [Nat.or_mod_two_pow, Nat.mul_mod_left, Nat.or_zero, hlow]
    · rw [Nat.or_div_two_pow, hhigh, Nat.zero_or, Nat.mul_div_cancel _ (by decide)]
  rw [← UInt64.toNat_inj, toNat_fileId_noPid, toNat_fileId_noPid]
  constructor
  · intro h
    have hlow := congrArg (· % 2 ^ 24) h
    have hhigh := congrArg (· / 2 ^ 24) h
    simp only [(hfields _ _).1, (hfields _ _).2] at hlow hhigh
    exact ⟨UInt16.toNat_inj.mp hlow, hhigh⟩
  · rintro ⟨rfl, hobject⟩
    rw [hobject]

/-- The one sysctl node of the tree is the child `sys` of the root. -/
theorem sysctl_is_sys {build : ℕ} {next : UInt16} {s : Pfssnode}
    (hs : s ∈ (procfsStructureInit build next).nodes) (htype : s.psnNodeType = .sysctl) :
    s.psnParent = some 0 ∧ s.psnName = cstr "sys" := by
  have hall : ∀ s ∈ (procfsStructureInit 0 2).shape, s.psnNodeType = .sysctl →
      s.psnParent = some 0 ∧ s.psnName = cstr "sys" := by decide +kernel
  exact forall_shape hall hs htype

section

variable {w : World} {c : Caller} {build : ℕ} {next : UInt16} {dir : Pfsnode}

/-- The two ways to the parent of a directory below `/proc/sys`. -/
theorem dotDotId_sysctl (htree : w.tree = procfsStructureInit build next)
    (hmem : dir.nodeStructureNode ∈ w.tree.nodes)
    (hsysctl : dir.nodeStructureNode.psnNodeType = .sysctl) :
    dotDotId w dir = if dir.nodeId.nodeidObjectid = 0 then procfsRootNodeId else
      ⟨prnodeNoPid, (procfsSysctlParent w.oids dir.nodeId.nodeidObjectid).getD 0,
        dir.nodeStructureNode.psnBaseNodeId⟩ := by
  by_cases hobject : dir.nodeId.nodeidObjectid = 0
  · have hparent : w.tree.parent dir.nodeStructureNode =
        some ⟨build, 0, .root, cstr "/", procfsRootNodeBaseId, 0, none⟩ := by
      rw [SnodeTree.parent, (sysctl_is_sys (htree ▸ hmem) hsysctl).1]
      exact rootSnode_eq htree
    rw [if_pos hobject]
    simp only [dotDotId, hobject, ne_eq, not_true_eq_false, and_false, if_false,
      procfsGetParentNodeId, hparent, Option.getD_some]
    rfl
  · rw [if_neg hobject]
    simp only [dotDotId, if_pos (And.intro hsysctl hobject)]

/-- In the main loop the records of the dots come from the entries of their own. -/
theorem dot_fileIds (htree : w.tree = procfsStructureInit build next)
    (hmem : dir.nodeStructureNode ∈ w.tree.nodes)
    (hsysctl : dir.nodeStructureNode.psnNodeType ≠ .sysctl) {e : Entry}
    (he : e ∈ dirListing w c dir) :
    (e.name = cstr "." → e.fileId = dir.nodeId.fileId) ∧
      (e.name = cstr ".." → e.fileId = (dotDotId w dir).fileId) := by
  have hlayout := layoutOk_of_mem htree hmem
  obtain ⟨-, s, hs, -, hentry⟩ := (mem_dirListing_iff hsysctl).mp he
  have hnamed := @dot_named build next s (htree ▸ List.mem_of_mem_filter hs)
  -- no number is called like a dot, so the entry is one of its own
  have hstatic : e.name = cstr "." ∨ e.name = cstr ".." → e = staticEntry w dir s := by
    intro hname
    have hlisting : s.psnNodeType.isListing = false := by
      by_contra hlisting
      have hdots := childEntries_ne_dots (Bool.eq_true_of_not_eq_false hlisting) hentry
      exact hname.elim hdots.1 hdots.2
    rw [childEntries_static hlisting (hlayout.ne_root hs)] at hentry
    exact List.mem_singleton.mp hentry
  constructor
  · intro hname
    have heq := hstatic (Or.inl hname)
    have htype : s.psnNodeType = .dirthis := hnamed.1.mpr (by rw [← hname, heq]; rfl)
    rw [heq, staticEntry, staticId, htype]
  · intro hname
    have heq := hstatic (Or.inr hname)
    have htype : s.psnNodeType = .dirparent := hnamed.2.mpr (by rw [← hname, heq]; rfl)
    have hid : dotDotId w dir = procfsGetParentNodeId w.tree dir := by
      simp only [dotDotId, hsysctl, false_and, if_false]
    rw [heq, staticEntry, staticId, htype, hid]

/-- Below `/proc/sys` both dots have the number of the directory. -/
theorem sysctl_dot_fileIds (hsysctl : dir.nodeStructureNode.psnNodeType = .sysctl) :
    (∃ e, (dirListing w c dir).find? (fun e => e.name = cstr ".") = some e ∧
      e.fileId = procfsGetNodeFileid dir) ∧
    ∃ e, (dirListing w c dir).find? (fun e => e.name = cstr "..") = some e ∧
      e.fileId = procfsGetNodeFileid dir := by
  rw [dirListing, if_pos hsysctl]
  exact ⟨⟨_, rfl, rfl⟩, ⟨_, rfl, rfl⟩⟩

/-- A world with some oids and nothing else of interest. -/
def oidWorld (build : ℕ) (next : UInt16) (oids : List SysctlOid) : World :=
  { shWorld with tree := procfsStructureInit build next, oids := oids }

/-- `/proc/sys` of a mount is reached. -/
theorem reach_sys {s : Pfssnode} (hs : s ∈ (procfsStructureInit build next).nodes)
    (hsysctl : s.psnNodeType = .sysctl) (pmp : Pfsmount) :
    Reach (procfsStructureInit build next) pmp
      ⟨pmp.pmntId, ⟨prnodeNoPid, 0, s.psnBaseNodeId⟩, s, 0, .VDIR⟩ := by
  let root : Pfsnode := ⟨pmp.pmntId, procfsRootNodeId,
    ⟨build, 0, .root, cstr "/", procfsRootNodeBaseId, 0, none⟩, 0, .VDIR⟩
  let w := oidWorld build next []
  have hsnode : w.tree.node? 0 = some root.nodeStructureNode := rootSnode_eq rfl
  have hroot : Reach (procfsStructureInit build next) pmp root :=
    Reach.root w ⟨0, 0⟩ rfl ⟨rfl, rfl, hsnode, rfl⟩
  obtain ⟨hparent, hname⟩ := sysctl_is_sys hs hsysctl
  have hmem : root.nodeStructureNode ∈ w.tree.nodes := List.mem_of_getElem? hsnode
  have hchild : s ∈ w.tree.children root.nodeStructureNode :=
    List.mem_filter.mpr ⟨hs, by rw [hparent]; rfl⟩
  refine Reach.lookup w ⟨0, 0⟩ [] (cstr "sys") ⟨true, none, none⟩ rfl hroot
    (tableReached_nil _ _) ?_
  have hmatch := @lookupMatch_named w ⟨⟨0, 0⟩, pmp⟩ build next root s rfl hmem hchild
    (by rw [hname]; exact procfsNodeVersionHidden_of_ne (by decide) w.linuxVersion)
  have hlayout := layoutOk_of_mem rfl hmem
  rw [procfsVnopLookup_name (hlayout.isDir hchild rfl _) (by decide) (by decide), ← hname,
    hlayout.take_nameMax hchild, hmatch]
  have hvtype : nodeVtype w.oids s ⟨prnodeNoPid, 0, s.psnBaseNodeId⟩ = .VDIR := by
    simp [nodeVtype, hsysctl, procfsSysctlIsNode]
  exact congrArg (fun vtype => Reply.ok (⟨pmp.pmntId, ⟨prnodeNoPid, 0, s.psnBaseNodeId⟩, s, 0,
    vtype⟩ : Pfsnode)) hvtype

/-- So is the node of any object id, in a world in which there is such an oid. -/
theorem reach_oid {s : Pfssnode} (hs : s ∈ (procfsStructureInit build next).nodes)
    (hsysctl : s.psnNodeType = .sysctl) (pmp : Pfsmount) (objectid : UInt64) :
    ∃ vp, Reach (procfsStructureInit build next) pmp
      ⟨pmp.pmntId, ⟨prnodeNoPid, objectid, s.psnBaseNodeId⟩, s, vp⟩ := by
  let vm : SysctlOid := .mk objectid (some ⟨cstr "vm", by decide⟩) 1 0 (some [])
  have hfind : procfsSysctlFind [vm] 0 (cstr "vm") = some objectid := by
    have hkernel : cstr "vm" ≠ cstr "kernel" := by decide
    have hsyn : (0 : UInt64) ≠ procfsSynRandom := by decide
    have hshown : procfsSysctlHidden vm = false := by
      show (false || (1 : UInt32) &&& ctlflagMasked != 0 || (0 : ℤ) == oidMutableAnchor) = false
      decide
    have hname : vm.oidName = some ⟨cstr "vm", by decide⟩ := rfl
    simp only [procfsSysctlFind, hkernel, and_false, if_false, if_neg hsyn, procfsSysctlChildren,
      if_true, List.find?_cons, hshown, hname, Bool.not_false, Option.any_some, beq_self_eq_true,
      Bool.and_self]
    rfl
  refine ⟨⟨0, nodeVtype [vm] s ⟨prnodeNoPid, objectid, s.psnBaseNodeId⟩⟩,
    Reach.lookup (oidWorld build next [vm]) ⟨0, 0⟩ [] (cstr "vm") ⟨true, none, none⟩ rfl
      (reach_sys hs hsysctl pmp) (tableReached_nil _ _) ?_⟩
  rw [procfsVnopLookup_name ⟨rfl, fun _ => rfl⟩ (by decide) (by decide),
    show (cstr "vm").take nameMax = cstr "vm" from rfl, lookupMatch, if_pos hsysctl]
  simp only [oidWorld, hfind, Option.map_some]
  rfl

/-- The parent of a directory below `/proc/sys` is reached. -/
theorem exists_reach_dotDotId (htree : w.tree = procfsStructureInit build next)
    (hmem : dir.nodeStructureNode ∈ w.tree.nodes)
    (hsysctl : dir.nodeStructureNode.psnNodeType = .sysctl) (pmp : Pfsmount) :
    ∃ pnp, Reach w.tree pmp pnp ∧ pnp.nodeId = dotDotId w dir := by
  rw [dotDotId_sysctl htree hmem hsysctl]
  split
  · exact ⟨⟨pmp.pmntId, procfsRootNodeId,
      ⟨build, 0, .root, cstr "/", procfsRootNodeBaseId, 0, none⟩, 0, .VDIR⟩,
      Reach.root w ⟨0, 0⟩ rfl ⟨rfl, rfl, rootSnode_eq htree, rfl⟩, rfl⟩
  · rw [htree] at hmem ⊢
    obtain ⟨vp, hreach⟩ := reach_oid hmem hsysctl pmp
      ((procfsSysctlParent w.oids dir.nodeId.nodeidObjectid).getD 0)
    exact ⟨_, hreach, rfl⟩

theorem Placed.sharesParentNumber_iff (h : Placed w.tree dir)
    (htree : w.tree = procfsStructureInit build next) (hvdir : dir.vnodeVtype = .VDIR)
    (hsysctl : dir.nodeStructureNode.psnNodeType = .sysctl) :
    procfsGetNodeFileid dir = (dotDotId w dir).fileId ↔ SharesParentNumber w dir := by
  have hpid := h.pid_eq (h.allocvp_of_vdir hvdir) (sysctl_unflagged (htree ▸ h.mem) hsysctl)
  have hself : procfsGetNodeFileid dir =
      (⟨prnodeNoPid, dir.nodeId.nodeidObjectid, dir.nodeStructureNode.psnBaseNodeId⟩ :
        PfsId).fileId := by
    rw [procfsGetNodeFileid, hpid]
    rfl
  rw [hself, dotDotId_sysctl htree h.mem hsysctl, SharesParentNumber]
  split
  · rename_i hobject
    rw [procfsRootNodeId, fileId_noPid_eq_iff, hobject]
    exact and_iff_left rfl
  · rw [fileId_noPid_eq_iff, eq_comm (b := dir.nodeId.nodeidObjectid.toNat % 2 ^ 40)]
    exact and_iff_right rfl

/-- For every directory ever reached: the records of the dots have the numbers of the directory
and of the node that `..` leads to, exactly when the directory is not below `/proc/sys` or
happens to have the number of its parent. -/
theorem dotRecords_agree_iff (htree : w.tree = procfsStructureInit build next)
    (hreach : Reach w.tree c.pmp dir) (hisdir : dir.IsDir w.oids) :
    DotRecordsAgree w c dir ↔
      (dir.nodeStructureNode.psnNodeType = .sysctl → SharesParentNumber w dir) := by
  have hplaced := (hreach.placed htree).1
  have hmem := hplaced.mem
  -- what the lookup of `..` returns has the id of the parent
  have hdotDot : ∀ table env pnp, TableReached w.tree c.pmp table →
      (procfsVnopLookup w c table dir (cstr "..") env).1 = .ok pnp →
      procfsGetNodeFileid pnp = (dotDotId w dir).fileId := by
    intro table env pnp htable hok
    have hpnp := (Reach.lookup w c.cred table (cstr "..") env rfl hreach htable hok).placed htree
    rw [hpnp.1.fileid_eq]
    rw [procfsVnopLookup, if_neg (by rw [hisdir.vdir]; decide), if_pos rfl] at hok
    rw [(procfsnodeFind_ok hok).2]
  by_cases hsysctl : dir.nodeStructureNode.psnNodeType = .sysctl
  · obtain ⟨⟨dot, hdot, hdotId⟩, dotDot, hdotdot, hdotdotId⟩ :=
      @sysctl_dot_fileIds w c dir hsysctl
    have hiff := hplaced.sharesParentNumber_iff htree hisdir.vdir hsysctl
    constructor
    · intro h _
      -- the parent is in the table
      obtain ⟨pnp, hpnp, hid⟩ := exists_reach_dotDotId htree hmem hsysctl c.pmp
      have hfound : (procfsVnopLookup w c [pnp] dir (cstr "..") ⟨true, none, none⟩).1 =
          .ok pnp := by
        rw [procfsVnopLookup_dotDot hisdir.vdir]
        simp [(hpnp.placed htree).2, hid]
      obtain ⟨calls, hreading⟩ := @exists_completeReading w c dir build next htree hmem hisdir
      have hagree := h.dotDot calls _ dotDot [pnp] _ pnp hreading hdotdot
        (tableReached_singleton hpnp) hfound
      rw [← hiff, ← hdotdotId, hagree, hdotDot _ _ pnp (tableReached_singleton hpnp) hfound]
    · intro h
      refine ⟨?_, ?_⟩
      · intro calls entries e hreading hfind
        rw [hreading.eq_dirListing htree hmem hisdir, hdot, Option.some.injEq] at hfind
        rw [← hfind, hdotId]
      · intro calls entries e table env pnp hreading hfind htable hok
        rw [hreading.eq_dirListing htree hmem hisdir, hdotdot, Option.some.injEq] at hfind
        rw [← hfind, hdotdotId, hdotDot table env pnp htable hok, hiff]
        exact h hsysctl
  · refine iff_of_true ⟨?_, ?_⟩ fun h => absurd h hsysctl
    · intro calls entries e hreading hfind
      rw [hreading.eq_dirListing htree hmem hisdir] at hfind
      have hname : e.name = cstr "." := by simpa using List.find?_some hfind
      rw [hplaced.fileid_eq]
      exact (dot_fileIds htree hmem hsysctl (List.mem_of_find?_eq_some hfind)).1 hname
    · intro calls entries e table env pnp hreading hfind htable hok
      rw [hreading.eq_dirListing htree hmem hisdir] at hfind
      have hname : e.name = cstr ".." := by simpa using List.find?_some hfind
      rw [hdotDot table env pnp htable hok]
      exact (dot_fileIds htree hmem hsysctl (List.mem_of_find?_eq_some hfind)).2 hname

end

/-- The threads of the shell lie outside `/proc/sys`. -/
theorem dotRecords_agree_shThreads :
    Reach shWorld.tree (userCaller 501).pmp shThreads ∧
      DotRecordsAgree shWorld (userCaller 501) shThreads :=
  ⟨reach_shThreads, (dotRecords_agree_iff rfl reach_shThreads (isDir_shThreads _)).mpr
    fun h => by cases h⟩

/-- `/proc/sys` of a fresh mount. -/
def shSys : Pfsnode :=
  ⟨1, ⟨prnodeNoPid, 0, 27⟩, ⟨0, 26, .sysctl, cstr "sys", 27, 0, some 0⟩, 0, .VDIR⟩

theorem reach_shSys : Reach shWorld.tree (userCaller 501).pmp shSys :=
  Reach.lookup shWorld ⟨501, 12⟩ [] (cstr "sys") ⟨true, none, none⟩ rfl reach_shRoot
    (tableReached_nil _ _) (by decide +kernel)

/-- There the record of `..` has the number 27 of the directory, and `..` leads to the root,
which has the number 1. -/
theorem dotRecords_disagree_shSys :
    Reach shWorld.tree (userCaller 501).pmp shSys ∧
    (∃ r, procfsVnopReaddir shWorld (userCaller 501) shSys 0 4096 = some r ∧
      (r.records.map fun d => (d.dName, d.dIno)).take 2 = [(cstr ".", 27), (cstr "..", 27)]) ∧
    (procfsVnopLookup shWorld (userCaller 501) [shRoot] shSys (cstr "..") ⟨true, none, none⟩).1 =
      .ok shRoot ∧
    procfsGetNodeFileid shRoot = 1 := by
  have hcall : (procfsVnopReaddir shWorld (userCaller 501) shSys 0 4096).any (fun r =>
      (r.records.map fun d => (d.dName, d.dIno)).take 2 = [(cstr ".", 27), (cstr "..", 27)]) =
        true := by decide +kernel
  obtain ⟨r, hr, hdots⟩ := (Option.any_eq_true _ _).mp hcall
  exact ⟨reach_shSys, ⟨r, hr, of_decide_eq_true hdots⟩, by decide +kernel, by decide +kernel⟩

end ProcFS
