import ProcFS.DirentTypes

/-!
# ProcFS.NodeSize — the size attribute of a directory

`procfs_get_node_size_attr` is to give a directory the number of its entries. It adds up one
for each child of the structure node, and for the children that stand for many what their size
function returns for the directory. These functions count threads and descriptors as readdir
does. The one for processes takes the size of the type of the count instead of the count, and
looks for a process with the id of the directory, which in the directories that list
processes is none. And nothing here asks whether the caller may see the directory.

* `sum_childSize_iff`: whether the sizes of the children add up to the number of their entries.
* `nodeSize_counts_iff`: whether the size of a directory is the number of its entries.
-/

namespace ProcFS

/-! ## The size functions -/

def sizeofInt : ℕ := 4

/-- `procfs_process_node_size`: `sizeof(procfs_get_process_count(creds))`, which does not
evaluate its operand. -/
def procfsProcessNodeSize (w : World) (pnp : Pfsnode) (_creds : Cred) : ℕ :=
  match w.procs.procFind pnp.nodeId.nodeidPid with
  | some _ => sizeofInt
  | none => 0

def procfsGetTaskThreadCount (mem : Allocs) (p : Proc) : ℕ :=
  match procfsGetThreadIdsForTask mem p with
  | .ok ids => ids.length
  | .error _ => 0

def procfsThreadNodeSize (w : World) (pnp : Pfsnode) (_creds : Cred) : ℕ :=
  match w.procs.procFind pnp.nodeId.nodeidPid with
  | some p =>
    let tcount := procfsGetTaskThreadCount w.mem p
    if 0 < tcount then tcount else 1
  | none => 0

def procfsFdNodeSize (w : World) (pnp : Pfsnode) (_creds : Cred) : ℕ :=
  match w.procs.procFind pnp.nodeId.nodeidPid with
  | some p =>
    match procfsGetFdList w.mem p with
    | .ok fds => fds.length
    | .error _ => 0
  | none => 0

/-- `psn_getsize_fn`, as `procfs_structure_init` sets it: NULL except for the entries that stand
for many. -/
def psnGetsizeFn : PfsType → Option (World → Pfsnode → Cred → ℕ)
  | .proc | .procnamedir => some procfsProcessNodeSize
  | .thread => some procfsThreadNodeSize
  | .fd => some procfsFdNodeSize
  | _ => none

def procfsIsDirectoryType : PfsType → Bool
  | .root | .proc | .thread | .dir | .dirthis | .dirparent | .procnamedir | .fd => true
  | _ => false

/-- The structure node whose children count: that of the parent for `.`, and for `..` that of
the grandparent, unless the parent is the root. -/
def sizeSnode (t : SnodeTree) (s : Pfssnode) : Option Pfssnode :=
  match s.psnNodeType with
  | .dirthis => t.parent s
  | .dirparent => (t.parent s).bind fun p => if p.psnNodeType ≠ .root then t.parent p else some p
  | _ => some s

/-- What a child adds to the size of a directory. -/
def childSize (w : World) (pnp : Pfsnode) (creds : Cred) (s : Pfssnode) : ℕ :=
  match psnGetsizeFn s.psnNodeType with
  | none => 1
  | some nodeSizeFn => nodeSizeFn w pnp creds

/-- `procfs_get_node_size_attr`; nothing where the assertion fails. `psnNodeSize` is the field
of that name, which only files use. -/
def procfsGetNodeSizeAttr (w : World) (psnNodeSize : Pfssnode → ℕ) (pnp : Pfsnode) (creds : Cred) :
    Option ℕ :=
  (sizeSnode w.tree pnp.nodeStructureNode).map fun snode =>
    if procfsIsDirectoryType pnp.nodeStructureNode.psnNodeType then
      ((w.tree.children snode).map (childSize w pnp creds)).sum
    else
      match psnGetsizeFn snode.psnNodeType with
      | none => psnNodeSize snode
      | some nodeSizeFn => nodeSizeFn w pnp creds

/-! ## Size and listing -/

/-- The caller sees the directory, it lists no process, and threads are listed if their process
is there. -/
structure SizeCounts (w : World) (c : Caller) (dir : Pfsnode) : Prop where
  visible : dirVisible w c dir = true
  no_process : ∀ s ∈ w.tree.children dir.nodeStructureNode,
    s.psnNodeType = .proc ∨ s.psnNodeType = .procnamedir →
      procfsGetPids w.procs w.mem (scanCred c) = []
  threads : ∀ s ∈ w.tree.children dir.nodeStructureNode, s.psnNodeType = .thread →
    ∀ p, w.procs.procFind dir.nodeId.nodeidPid = some p →
      ∃ ids, procfsGetThreadIdsForTask w.mem p = .ok ids

section

variable {w : World} {c : Caller} {build : ℕ} {next : UInt16} {dir : Pfsnode} {s : Pfssnode}

theorem childSize_static (hlisting : s.psnNodeType.isListing = false) (creds : Cred) :
    childSize w dir creds s = 1 := by
  unfold childSize psnGetsizeFn
  cases htype : s.psnNodeType with
  | proc | procnamedir | thread | fd => simp [htype, PfsType.isListing] at hlisting
  | _ => rfl

/-- Descriptors are counted as they are listed. -/
theorem childSize_fd (htype : s.psnNodeType = .fd) (creds : Cred) :
    childSize w dir creds s = (childEntries w c dir s).length := by
  simp only [childSize, childEntries, htype, psnGetsizeFn, procfsFdNodeSize]
  cases w.procs.procFind dir.nodeId.nodeidPid with
  | none => rfl
  | some p =>
    simp only [fdEntries, List.length_map, listedFds]
    cases procfsGetFdList w.mem p <;> rfl

/-- A list of threads is never empty. -/
theorem threadCount_pos_iff (mem : Allocs) (p : Proc) :
    0 < procfsGetTaskThreadCount mem p ↔ ∃ ids, procfsGetThreadIdsForTask mem p = .ok ids := by
  unfold procfsGetTaskThreadCount
  cases hids : procfsGetThreadIdsForTask mem p with
  | error e => simp
  | ok ids =>
    refine iff_of_true ?_ ⟨ids, rfl⟩
    unfold procfsGetThreadIdsForTask at hids
    split at hids
    · split at hids
      · split at hids
        · cases hids
          exact Nat.succ_pos _
        · cases hids
      · cases hids
      · cases hids
      · cases hids
    · cases hids

theorem length_listedThreads {pid : Int32} {p : Proc} (hlive : w.procs.procFind pid = some p) :
    (listedThreads w pid).length = procfsGetTaskThreadCount w.mem p := by
  simp only [listedThreads, hlive, procfsGetTaskThreadCount]
  cases procfsGetThreadIdsForTask w.mem p <;> rfl

/-- So are threads, where there is a list. -/
theorem childSize_thread (htype : s.psnNodeType = .thread) (creds : Cred) :
    childSize w dir creds s = (childEntries w c dir s).length ↔
      ∀ p, w.procs.procFind dir.nodeId.nodeidPid = some p →
        ∃ ids, procfsGetThreadIdsForTask w.mem p = .ok ids := by
  have hlisted : (childEntries w c dir s).length =
      (listedThreads w dir.nodeId.nodeidPid).length := by
    simp only [childEntries, htype, threadEntries, List.length_map]
  have hsize : childSize w dir creds s = procfsThreadNodeSize w dir creds := by
    simp only [childSize, htype, psnGetsizeFn]
  rw [hlisted, hsize, procfsThreadNodeSize]
  cases hlive : w.procs.procFind dir.nodeId.nodeidPid with
  | none => simp [listedThreads, hlive]
  | some p =>
    simp only [length_listedThreads hlive, Option.some.injEq, forall_eq', ← threadCount_pos_iff]
    split <;> omega

/-- A directory that lists processes belongs to none, so they are not counted. -/
theorem childSize_pids (hplaced : Placed w.tree dir)
    (htree : w.tree = procfsStructureInit build next) (hvdir : dir.vnodeVtype = .VDIR)
    (hs : s ∈ w.tree.children dir.nodeStructureNode)
    (htype : s.psnNodeType = .proc ∨ s.psnNodeType = .procnamedir) (creds : Cred) :
    childSize w dir creds s = (childEntries w c dir s).length ↔
      procfsGetPids w.procs w.mem (scanCred c) = [] := by
  have hsite := (layoutOk_of_mem htree hplaced.mem).site s hs
  have hpid := hplaced.pid_eq (hplaced.allocvp_of_vdir hvdir) (hsite.proc_flags htype).2.1
  have hsize : childSize w dir creds s = 0 := by
    have hfn : psnGetsizeFn s.psnNodeType = some procfsProcessNodeSize := by
      rcases htype with h | h <;> rw [h] <;> rfl
    simp only [childSize, hfn, procfsProcessNodeSize, hpid, ProcTable.procFind_noPid]
  have hentries : childEntries w c dir s = pidEntries w c s := by
    rcases htype with h | h <;> simp only [childEntries, h]
  rw [hsize, hentries, ← pidEntries_eq_nil_iff (s := s), eq_comm, List.length_eq_zero_iff]

/-- Every directory of the tree has a `.`. -/
theorem exists_dirthis (hplaced : Placed w.tree dir)
    (htree : w.tree = procfsStructureInit build next) (hvdir : dir.vnodeVtype = .VDIR)
    (hsysctl : dir.nodeStructureNode.psnNodeType ≠ .sysctl) :
    ∃ s ∈ w.tree.children dir.nodeStructureNode, s.psnNodeType = .dirthis := by
  have hall : ∀ s ∈ (procfsStructureInit 0 2).shape, procfsAllocvp s.psnNodeType = .VDIR →
      s.psnNodeType.isDot = false → s.psnNodeType ≠ .sysctl →
      ((procfsStructureInit 0 2).shape.filter fun c => c.psnParent == some s.psnAddr).any
        (fun c => c.psnNodeType = .dirthis) = true := by decide +kernel
  have hsame : (procfsStructureInit build next).shape = (procfsStructureInit 0 2).shape :=
    procfsStructureInit_sameShape build next
  rw [← hsame] at hall
  have hmem := hplaced.mem
  rw [htree] at hmem ⊢
  have hany : (((procfsStructureInit build next).children dir.nodeStructureNode).map
      Pfssnode.shape).any (fun c => c.psnNodeType = .dirthis) = true := by
    rw [SnodeTree.children_shape]
    exact hall dir.nodeStructureNode.shape (List.mem_map_of_mem hmem)
      (hplaced.allocvp_of_vdir hvdir) hplaced.noDot hsysctl
  rw [List.any_map, List.any_eq_true] at hany
  obtain ⟨s, hs, htype⟩ := hany
  exact ⟨s, hs, of_decide_eq_true htype⟩

/-- The sizes of the children add up to the number of their entries if and only if that of the
one that stands for many is right. -/
theorem sum_childSize_iff (hmem : dir.nodeStructureNode ∈ w.tree.nodes)
    (htree : w.tree = procfsStructureInit build next) (creds : Cred) :
    ((w.tree.children dir.nodeStructureNode).map (childSize w dir creds)).sum =
        ((w.tree.children dir.nodeStructureNode).flatMap (childEntries w c dir)).length ↔
      ∀ s ∈ w.tree.children dir.nodeStructureNode, s.psnNodeType.isListing = true →
        childSize w dir creds s = (childEntries w c dir s).length := by
  have hlayout := layoutOk_of_mem htree hmem
  -- the others add one to both
  have hstatic : ∀ s ∈ w.tree.children dir.nodeStructureNode, s.psnNodeType.isListing = false →
      childSize w dir creds s = (childEntries w c dir s).length := by
    intro s hs hlisting
    rw [childSize_static hlisting, childEntries_static hlisting (hlayout.ne_root hs)]
    rfl
  rw [List.length_flatMap]
  constructor
  · intro h s hs hlisting
    have hdir := hmem
    have hs' := hs
    rw [htree] at hdir hs'
    obtain ⟨skipped, hchildren, hskipped⟩ := children_listing hdir hs' hlisting
    rw [← htree] at hchildren
    have hsame : skipped.map (childSize w dir creds) =
        skipped.map fun s => (childEntries w c dir s).length :=
      List.map_congr_left fun s' hs' =>
        hstatic s' (by rw [hchildren]; exact List.mem_append_left _ hs') (hskipped s' hs')
    rw [hchildren, List.map_append, List.map_append, hsame, List.sum_append, List.sum_append] at h
    simpa using h
  · intro h
    congr 1
    refine List.map_congr_left fun s hs => ?_
    cases hlisting : s.psnNodeType.isListing with
    | true => exact h s hs hlisting
    | false => exact hstatic s hs hlisting

/-- With no release spoofed, a caller who sees the directory gets the entries of every child. -/
theorem dirListing_eq_flatMap (hsysctl : dir.nodeStructureNode.psnNodeType ≠ .sysctl)
    (hvisible : dirVisible w c dir = true)
    (hrelease : procfsSpoofedRelease w.linuxVersion = none) :
    dirListing w c dir =
      (w.tree.children dir.nodeStructureNode).flatMap (childEntries w c dir) := by
  have hshown : (w.tree.children dir.nodeStructureNode).filter
      (fun s => !procfsNodeVersionHidden w.linuxVersion s.psnName) =
      w.tree.children dir.nodeStructureNode := by
    rw [List.filter_eq_self]
    intro s hs
    simp [procfsNodeVersionHidden, hrelease]
  rw [dirListing, if_neg hsysctl, childrenEntries, if_pos hvisible, hshown]

theorem procfsGetNodeSizeAttr_dir (hplaced : Placed w.tree dir)
    (hvdir : dir.vnodeVtype = .VDIR)
    (hsysctl : dir.nodeStructureNode.psnNodeType ≠ .sysctl) (psnNodeSize : Pfssnode → ℕ)
    (creds : Cred) :
    procfsGetNodeSizeAttr w psnNodeSize dir creds =
      some ((w.tree.children dir.nodeStructureNode).map (childSize w dir creds)).sum := by
  have halloc := hplaced.allocvp_of_vdir hvdir
  have hdot := hplaced.noDot
  unfold procfsGetNodeSizeAttr sizeSnode
  cases htype : dir.nodeStructureNode.psnNodeType with
  | dirthis | dirparent => simp [htype, PfsType.isDot] at hdot
  | sysctl => exact absurd htype hsysctl
  | root | proc | thread | dir | fd => rfl
  | _ => simp [htype, procfsAllocvp] at halloc

theorem SizeCounts.iff_childSize (hplaced : Placed w.tree dir)
    (htree : w.tree = procfsStructureInit build next) (hvdir : dir.vnodeVtype = .VDIR)
    (creds : Cred) :
    SizeCounts w c dir ↔ dirVisible w c dir = true ∧
      ∀ s ∈ w.tree.children dir.nodeStructureNode, s.psnNodeType.isListing = true →
        childSize w dir creds s = (childEntries w c dir s).length := by
  constructor
  · intro h
    refine ⟨h.visible, fun s hs hlisting => ?_⟩
    have hpids : s.psnNodeType = .proc ∨ s.psnNodeType = .procnamedir →
        childSize w dir creds s = (childEntries w c dir s).length := fun htype =>
      (childSize_pids hplaced htree hvdir hs htype creds).mpr (h.no_process s hs htype)
    rcases PfsType.isListing_iff.mp hlisting with htype | htype | htype
    · exact hpids htype
    · exact (childSize_thread htype creds).mpr (h.threads s hs htype)
    · exact childSize_fd htype creds
  · rintro ⟨hvisible, hsizes⟩
    refine ⟨hvisible, fun s hs htype => ?_, fun s hs htype => ?_⟩
    · have hlisting : s.psnNodeType.isListing = true :=
        PfsType.isListing_iff.mpr (Or.inl htype)
      exact (childSize_pids hplaced htree hvdir hs htype creds).mp (hsizes s hs hlisting)
    · exact (childSize_thread htype creds).mp (hsizes s hs (by rw [htype]; rfl))

/-- For every directory ever reached outside `/proc/sys`, every caller and process table, with
no release spoofed: the size is the number of records of any complete reading exactly when the
caller sees the directory, it lists no process and the threads it lists can be obtained. -/
theorem nodeSize_counts_iff (htree : w.tree = procfsStructureInit build next)
    (hreach : Reach w.tree c.pmp dir) (hvdir : dir.vnodeVtype = .VDIR)
    (hsysctl : dir.nodeStructureNode.psnNodeType ≠ .sysctl)
    (hrelease : procfsSpoofedRelease w.linuxVersion = none) (psnNodeSize : Pfssnode → ℕ) :
    (∀ calls entries, CompleteReading w c dir calls entries →
      procfsGetNodeSizeAttr w psnNodeSize dir c.cred = some entries.length) ↔
      SizeCounts w c dir := by
  have hplaced := (hreach.placed htree).1
  have hmem := hplaced.mem
  have hisdir : dir.IsDir w.oids := .of_ne_sysctl hvdir hsysctl w.oids
  have hlisting : (∀ calls entries, CompleteReading w c dir calls entries →
      procfsGetNodeSizeAttr w psnNodeSize dir c.cred = some entries.length) ↔
      ((w.tree.children dir.nodeStructureNode).map (childSize w dir c.cred)).sum =
        (dirListing w c dir).length := by
    rw [procfsGetNodeSizeAttr_dir hplaced hvdir hsysctl]
    constructor
    · intro h
      obtain ⟨calls, hreading⟩ := @exists_completeReading w c dir build next htree hmem hisdir
      exact Option.some.inj (h calls _ hreading)
    · intro h calls entries hreading
      rw [hreading.eq_dirListing htree hmem hisdir, h]
  rw [hlisting, SizeCounts.iff_childSize hplaced htree hvdir c.cred]
  cases hvisible : dirVisible w c dir with
  | false =>
    -- nothing is listed, but the dots are counted
    obtain ⟨s, hs, htype⟩ := exists_dirthis hplaced htree hvdir hsysctl
    have hone : childSize w dir c.cred s = 1 := childSize_static (by rw [htype]; rfl) c.cred
    have hpos := List.sum_pos_iff_exists_pos_nat.mpr
      ⟨_, List.mem_map_of_mem hs, Nat.lt_of_lt_of_eq Nat.zero_lt_one hone.symm⟩
    have hnil : dirListing w c dir = [] := by
      rw [dirListing, if_neg hsysctl, childrenEntries, hvisible]
      rfl
    rw [hnil]
    exact iff_of_false (Nat.ne_of_gt hpos) fun h => by cases h.1
  | true =>
    rw [dirListing_eq_flatMap hsysctl hvisible hrelease, sum_childSize_iff hmem htree c.cred]
    exact (and_iff_right rfl).symm

end

/-- The `threads` directory of the shell has as many entries as it says. -/
theorem nodeSize_counts_shThreads :
    Reach shWorld.tree (userCaller 501).pmp shThreads ∧
    procfsGetNodeSizeAttr shWorld (fun _ => 0) shThreads ⟨501, 12⟩ = some 4 ∧
    ∀ calls entries, CompleteReading shWorld (userCaller 501) shThreads calls entries →
      procfsGetNodeSizeAttr shWorld (fun _ => 0) shThreads (userCaller 501).cred =
        some entries.length := by
  have hkinds : ∀ s ∈ shWorld.tree.children shThreads.nodeStructureNode,
      ¬ (s.psnNodeType = .proc ∨ s.psnNodeType = .procnamedir) := by decide +kernel
  refine ⟨reach_shThreads, by decide +kernel,
    (nodeSize_counts_iff rfl reach_shThreads rfl (by decide) rfl _).mpr ⟨by decide +kernel, ?_, ?_⟩⟩
  · intro s hs htype
    exact absurd htype (hkinds s hs)
  · intro s hs htype p hp
    exact ⟨[11, 12], by cases hp; rfl⟩

/-- The root lists the shell, but does not count it. -/
theorem nodeSize_root_short :
    Reach shWorld.tree (userCaller 501).pmp shRoot ∧
    ∃ calls entries, CompleteReading shWorld (userCaller 501) shRoot calls entries ∧
      procfsGetNodeSizeAttr shWorld (fun _ => 0) shRoot (userCaller 501).cred ≠
        some entries.length := by
  have hplaced := (reach_shRoot.placed rfl).1
  have hpid : (procfsGetPids shWorld.procs shWorld.mem (scanCred (userCaller 501))).head? =
      some 7 := by decide +kernel
  obtain ⟨s, hs, htype⟩ := (layoutOk_of_mem rfl shRoot_mem).root_lists rfl
  obtain ⟨calls, hreading⟩ := exists_completeReading (c := userCaller 501) rfl shRoot_mem
    (isDir_shRoot _)
  refine ⟨reach_shRoot, calls, _, hreading, ?_⟩
  rw [procfsGetNodeSizeAttr_dir hplaced rfl (by decide),
    dirListing_eq_flatMap (by decide) (by decide) rfl, ne_eq, Option.some.injEq,
    sum_childSize_iff shRoot_mem rfl]
  intro h
  have hnone := (childSize_pids hplaced rfl rfl hs (Or.inl htype) _).mp
    (h s hs (by rw [htype]; rfl))
  rw [hnone] at hpid
  cases hpid

end ProcFS
