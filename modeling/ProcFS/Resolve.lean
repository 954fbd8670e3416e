import ProcFS.Placement
import ProcFS.Readdir

/-!
# ProcFS.Resolve — what a name is resolved to

The loop of `procfs_vnop_lookup` over the children stops at the first child that
accepts the name. In a built tree siblings have different names and only the last
child stands for many entries, so the outcome can be said without the loop: the
child of that name if there is one, and otherwise what the last child makes of the
name as a number. The table of nodes has no part in it: whether a node was there
already or had to be created, it has the id that was matched.

* `lookupMatch_named`: a name of a child is matched by that child.
* `procfsVnopLookup_name`: a lookup looks for a match and then for its node.
* `procfsnodeFind_succeeds`: which is found or created while there is memory.
-/

namespace ProcFS

/-! ## Children found by name -/

/-- A child that is shown is found under its name. -/
theorem lookupLoop_named {w : World} {c : Caller} {dir : Pfsnode} {children : List Pfssnode}
    {s : Pfssnode} (hs : s ∈ children) (hnames : (children.map Pfssnode.psnName).Nodup)
    (hstatic : ∀ s ∈ children.dropLast, s.psnNodeType.isListing = false)
    (hshown : procfsNodeVersionHidden w.linuxVersion s.psnName = false) :
    lookupLoop w c dir s.psnName children =
      .ok (some (s, ⟨dir.nodeId.nodeidPid, dir.nodeId.nodeidObjectid, s.psnBaseNodeId⟩)) := by
  induction children with
  | nil => cases hs
  | cons child rest ih =>
    rw [List.map_cons, List.nodup_cons] at hnames
    rcases List.mem_cons.mp hs with rfl | hs
    · rw [lookupLoop, hshown]
      simp
    · -- a child before it has another name and stands for itself only
      have hrest : rest ≠ [] := List.ne_nil_of_mem hs
      have hne : s.psnName ≠ child.psnName := by
        intro heq
        apply hnames.1
        rw [← heq]
        exact List.mem_map_of_mem hs
      rw [List.dropLast_cons_of_ne_nil hrest] at hstatic
      have hlisting := hstatic child List.mem_cons_self
      have ih' := ih hs hnames.2 fun s' hs' => hstatic s' (List.mem_cons_of_mem child hs')
      have hskip : lookupLoop w c dir s.psnName ([child] ++ rest) =
          lookupLoop w c dir s.psnName rest := lookupLoop_append rest (by simp [hlisting, hne])
      rw [List.singleton_append] at hskip
      rw [hskip, ih']

section

variable {w : World} {c : Caller} {build : ℕ} {next : UInt16} {dir : Pfsnode}

/-- In a built tree, the name of a child that is shown is matched by that child. -/
theorem lookupMatch_named {s : Pfssnode} (htree : w.tree = procfsStructureInit build next)
    (hdir : dir.nodeStructureNode ∈ w.tree.nodes)
    (hs : s ∈ w.tree.children dir.nodeStructureNode)
    (hshown : procfsNodeVersionHidden w.linuxVersion s.psnName = false) :
    lookupMatch w c dir s.psnName =
      .ok (some (s, ⟨dir.nodeId.nodeidPid, dir.nodeId.nodeidObjectid, s.psnBaseNodeId⟩)) := by
  have hlayout := layoutOk_of_mem htree hdir
  have hstatic := (childrenOk_iff.mp hlayout.ok).1
  rw [lookupMatch, if_neg (hlayout.ne_sysctl hs)]
  exact lookupLoop_named hs hlayout.names_nodup hstatic hshown

/-! ## The table has no part in it -/

def procfsGetNodeFileid (pnp : Pfsnode) : UInt64 :=
  procfsGetFileid pnp.nodeId.nodeidPid pnp.nodeId.nodeidObjectid
    pnp.nodeStructureNode.psnBaseNodeId

theorem Placed.fileid_eq {t : SnodeTree} {pnp : Pfsnode} (h : Placed t pnp) :
    procfsGetNodeFileid pnp = pnp.nodeId.fileId := by
  rw [procfsGetNodeFileid, PfsId.fileId, h.base_eq]

/-- Some lookup of the name, on some table of reached nodes, ends with a node of
that id. -/
def Resolves (w : World) (c : Caller) (dir : Pfsnode) (name : CString) (id : PfsId) : Prop :=
  ∃ table env pnp, TableReached w.tree c.pmp table ∧
    (procfsVnopLookup w c table dir name env).1 = .ok pnp ∧ pnp.nodeId = id

/-- Every lookup of the name, on any table of reached nodes and while memory and
vnodes are available, ends with a node of that file id. -/
def ResolvesTo (w : World) (c : Caller) (dir : Pfsnode) (name : CString) (fileId : UInt64) :
    Prop :=
  ∀ table env, TableReached w.tree c.pmp table → env.osMalloc = true → env.vnodeCreate = none →
    ∃ pnp, (procfsVnopLookup w c table dir name env).1 = .ok pnp ∧
      procfsGetNodeFileid pnp = fileId

/-- What every lookup resolves, some lookup does. -/
theorem ResolvesTo.resolves {name : CString} {fileId : UInt64}
    (h : ResolvesTo w c dir name fileId) : ∃ id, Resolves w c dir name id := by
  have hempty := tableReached_nil w.tree c.pmp
  rcases h [] ⟨true, none, none⟩ hempty rfl rfl with ⟨pnp, hok, -⟩
  exact ⟨pnp.nodeId, [], ⟨true, none, none⟩, pnp, hempty, hok, rfl⟩

/-- An empty name is never resolved. -/
theorem Resolves.ne_nil {name : CString} {id : PfsId} (h : Resolves w c dir name id) :
    name ≠ [] := by
  rintro rfl
  rcases h with ⟨table, env, pnp, -, hok, -⟩
  rw [procfsVnopLookup, if_pos (Or.inr (by simp))] at hok
  cases hok

/-- A name other than the dots is resolved only where it can be searched for. -/
theorem Resolves.isDir {name : CString} {id : PfsId} (h : Resolves w c dir name id)
    (hdots : name ≠ cstr "." ∧ name ≠ cstr "..") : dir.IsDir w.oids := by
  rcases h with ⟨table, env, pnp, -, hok, -⟩
  refine ⟨(procfsVnopLookup_ok hok).1, ?_⟩
  by_contra hoid
  unfold procfsVnopLookup at hok
  rw [if_neg hdots.2, if_neg hdots.1, if_pos hoid] at hok
  split at hok <;> cases hok

/-- A lookup of a proper name looks for a match and then for its node. -/
theorem procfsVnopLookup_name (hisdir : dir.IsDir w.oids) {name : CString}
    (hne : name ≠ []) (hdots : name ≠ cstr "." ∧ name ≠ cstr "..") (table : List Pfsnode)
    (env : VnodeEnv) :
    procfsVnopLookup w c table dir name env =
      match lookupMatch w c dir (name.take nameMax) with
      | .error e => (.error e, table)
      | .ok none => (.error .ENOENT, table)
      | .ok (some (s, nodeId)) =>
        procfsnodeFind table c.pmp nodeId (some s) env
          (procfsCreateVnode env w.oids (some dir)) := by
  have hvalid : ¬ (dir.vnodeVtype ≠ .VDIR ∨ name.length < 1) := by
    rintro (h | h)
    · exact h hisdir.vdir
    · exact hne (List.eq_nil_of_length_eq_zero (by omega))
  have hoid : ¬ ¬ dir.OidRegistered w.oids := not_not_intro hisdir.registered
  unfold procfsVnopLookup
  exact (if_neg hvalid).trans
    ((if_neg hdots.2).trans ((if_neg hdots.1).trans (if_neg hoid)))

/-- While memory and vnodes are available, a node is found or created. -/
theorem procfsnodeFind_succeeds (table : List Pfsnode) (pmp : Pfsmount) (nodeId : PfsId)
    (s : Pfssnode) {env : VnodeEnv} {create : Pfssnode → PfsId → Reply Vnode} {vp : Vnode}
    (hmalloc : env.osMalloc = true) (hcreate : create s nodeId = .ok vp) :
    ∃ pnp, (procfsnodeFind table pmp nodeId (some s) env create).1 = .ok pnp ∧
      pnp.nodeId = nodeId ∧
      (pnp ∈ table ∧ pnp.nodeMntId = pmp.pmntId ∨ pnp = ⟨pmp.pmntId, nodeId, s, vp⟩) := by
  rcases procfsnodeFind_cases table pmp nodeId (some s) env create with
    ⟨found, hmem, hmnt, hid, heq⟩ | ⟨s', vp', hs, hvp, heq⟩ | ⟨hfail, -⟩
  · exact ⟨found, by rw [heq], hid, Or.inl ⟨hmem, hmnt⟩⟩
  · cases hs
    rw [hcreate] at hvp
    cases hvp
    exact ⟨_, by rw [heq], rfl, Or.inr rfl⟩
  · -- neither the memory nor the vnode was refused
    exfalso
    unfold procfsnodeFind at hfail
    split at hfail
    · exact hfail _ rfl
    · simp only [hmalloc, if_true, hcreate] at hfail
      exact hfail _ rfl

/-- A vnode that the kernel does not refuse. -/
theorem procfsCreateVnode_of_none {env : VnodeEnv} (hcreate : env.vnodeCreate = none)
    (oids : List SysctlOid) (dvp : Pfsnode) (s : Pfssnode) (nodeId : PfsId) :
    procfsCreateVnode env oids (some dvp) s nodeId =
      .ok ⟨dvp.vnodeMount, nodeVtype oids s nodeId⟩ := by
  simp only [procfsCreateVnode, vnodeCreateOn, hcreate]

theorem resolves_iff (hisdir : dir.IsDir w.oids) {name : CString}
    (hne : name ≠ []) (hdots : name ≠ cstr "." ∧ name ≠ cstr "..") {id : PfsId} :
    Resolves w c dir name id ↔
      ∃ s, lookupMatch w c dir (name.take nameMax) = .ok (some (s, id)) := by
  constructor
  · rintro ⟨table, env, pnp, -, hok, rfl⟩
    rw [procfsVnopLookup_name hisdir hne hdots] at hok
    split at hok
    · cases hok
    · cases hok
    · rename_i s nodeId hmatch
      rw [(procfsnodeFind_ok hok).2]
      exact ⟨s, hmatch⟩
  · rintro ⟨s, hmatch⟩
    have hempty := tableReached_nil w.tree c.pmp
    let env : VnodeEnv := ⟨true, none, none⟩
    have hcreated := @procfsCreateVnode_of_none env rfl w.oids dir s id
    obtain ⟨pnp, hok, hid, -⟩ :=
      procfsnodeFind_succeeds [] c.pmp id s (show env.osMalloc = true from rfl) hcreated
    refine ⟨[], env, pnp, hempty, ?_, hid⟩
    rw [procfsVnopLookup_name hisdir hne hdots, hmatch]
    exact hok

theorem resolvesTo_iff (htree : w.tree = procfsStructureInit build next)
    (hreach : Reach w.tree c.pmp dir) (hisdir : dir.IsDir w.oids) {name : CString}
    (hne : name ≠ []) (hdots : name ≠ cstr "." ∧ name ≠ cstr "..") {fileId : UInt64} :
    ResolvesTo w c dir name fileId ↔
      ∃ s id, lookupMatch w c dir (name.take nameMax) = .ok (some (s, id)) ∧
        id.fileId = fileId := by
  have hplaced := (hreach.placed htree).1
  constructor
  · intro hresolves
    have hempty := tableReached_nil w.tree c.pmp
    obtain ⟨pnp, hok, hfile⟩ := hresolves [] ⟨true, none, none⟩ hempty rfl rfl
    have hreached : Reach w.tree c.pmp pnp :=
      Reach.lookup w c.cred [] name ⟨true, none, none⟩ rfl hreach hempty hok
    rw [(hreached.placed htree).1.fileid_eq] at hfile
    obtain ⟨s, hmatch⟩ := (resolves_iff hisdir hne hdots).mp
      ⟨[], ⟨true, none, none⟩, pnp, hempty, hok, rfl⟩
    exact ⟨s, pnp.nodeId, hmatch, hfile⟩
  · rintro ⟨s, id, hmatch, rfl⟩ table env htable hmalloc hcreate
    have hcreated := procfsCreateVnode_of_none hcreate w.oids dir s id
    obtain ⟨pnp, hok, rfl, hcase⟩ := procfsnodeFind_succeeds table c.pmp id s hmalloc hcreated
    refine ⟨pnp, ?_, ?_⟩
    · rw [procfsVnopLookup_name hisdir hne hdots, hmatch]
      exact hok
    · -- cached or new, the node obeys the law of the ids
      rcases hcase with ⟨hmem, hmnt⟩ | hnew
      · exact ((htable pnp hmem hmnt).placed htree).1.fileid_eq
      · rw [hnew]
        exact (Placed.of_match htree hplaced (hplaced.allocvp_of_vdir hisdir.vdir)
          (take_nameMax_ne_dots hdots) hmatch _ _).fileid_eq

end

end ProcFS
