import ProcFS.Agreement

/-!
# ProcFS.Accepted — the names that lookup accepts

The name of an entry that stands for many is itself resolved, but never listed. The
numbers that such an entry accepts are read by `procfs_atoi`, which counts modulo
`2^32` and does not mind leading zeros; so a process, thread or descriptor has many
spellings.

* `resolved_names_listed_iff`: what lookup resolves is listed, unless the directory has an entry
  that stands for many.
* `resolves_number_iff`: which node a numeric name is resolved to.
* `numeric_names_apart_iff`: when two numeric names never lead to one node.
-/

namespace ProcFS

/-! ## Resolved names are listed -/

/-- The nodes that a caller reaches from the root by names that readdir lists for
it, while the world does not change. -/
inductive ReachListed (w : World) (c : Caller) : Pfsnode → Prop
  | root {pnp : Pfsnode} (h : IsRoot w c pnp) : ReachListed w c pnp
  | lookup (table : List Pfsnode) {dir pnp : Pfsnode} (e : Entry) (env : VnodeEnv)
      (hdir : ReachListed w c dir) (htable : TableReached w.tree c.pmp table)
      (hlisted : Emits w c dir e)
      (h : (procfsVnopLookup w c table dir e.name env).1 = .ok pnp) : ReachListed w c pnp

theorem ReachListed.reach {w : World} {c : Caller} {pnp : Pfsnode} (h : ReachListed w c pnp) :
    Reach w.tree c.pmp pnp := by
  induction h with
  | root h => exact Reach.root w c.cred rfl h
  | lookup table e env hdir htable hlisted h ih =>
    exact Reach.lookup w c.cred table e.name env rfl ih htable h

/-- A caller reaches only directories that it may list. -/
theorem ReachListed.dirVisible {w : World} {c : Caller} {pnp : Pfsnode} (h : ReachListed w c pnp) :
    dirVisible w c pnp = true := by
  by_cases hcheck : c.checkAccess = true
  · have hallowed : PidAllowed w.procs c.cred pnp.nodeId.nodeidPid := by
      induction h with
      | root h =>
        rw [h.id_eq]
        exact Or.inl rfl
      | lookup table e env hdir htable hlisted h ih =>
        exact procfsVnopLookup_allowed hcheck ih h
    rcases hallowed with hpid | ⟨p, hlive, haccess⟩
    · simp [ProcFS.dirVisible, hpid]
    · simp [ProcFS.dirVisible, procfsCheckCanAccessProcPid, hlive, haccess]
  · simp [ProcFS.dirVisible, hcheck]

/-- Every path component that lookup resolves in the directory, other than `.`, `..`
and the alias `kernel` at the top of `/proc/sys`, is among the entries of every
complete reading by the same caller. -/
def ResolvedNamesListed (w : World) (c : Caller) (dir : Pfsnode) : Prop :=
  ∀ name id, name.length ≤ nameMax → name ≠ cstr "." → name ≠ cstr ".." →
    ¬ (dir.nodeStructureNode.psnNodeType = .sysctl ∧
      dir.nodeId.nodeidObjectid = 0 ∧ name = cstr "kernel") →
    Resolves w c dir name id →
    ∀ calls entries, CompleteReading w c dir calls entries → name ∈ entries.map Entry.name

section

variable {w : World} {c : Caller} {build : ℕ} {next : UInt16} {dir : Pfsnode}

/-- The entries of a child that stands for many are not called like any child. -/
theorem childEntries_listing_ne (htree : w.tree = procfsStructureInit build next)
    (hdir : dir.nodeStructureNode ∈ w.tree.nodes) {s s' : Pfssnode}
    (hs : s ∈ w.tree.children dir.nodeStructureNode) (hlisting : s'.psnNodeType.isListing = true)
    {e : Entry} (he : e ∈ childEntries w c dir s') : e.name ≠ s.psnName := by
  rcases childEntries_numbered hlisting he with ⟨p, hlive, hname⟩ | ⟨n, -, hname⟩
  · rw [hname]
    rw [htree] at hdir hs
    exact ne_psnName_of_digit hdir
      (processEntryName_digit s'.psnNodeType (w.procs.pid_nonneg _ _ hlive)).1 s hs
  · rw [hname]
    exact fmtInt_ne_psnName htree hdir n s hs

/-- The name of an entry that stands for many is resolved, but not listed. -/
theorem placeholder_resolved_unlisted (htree : w.tree = procfsStructureInit build next)
    (hdir : Placed w.tree dir) (hvdir : dir.vnodeVtype = .VDIR) {s : Pfssnode}
    (hs : s ∈ w.tree.children dir.nodeStructureNode)
    (hlisting : s.psnNodeType.isListing = true) :
    (∃ id, Resolves w c dir s.psnName id) ∧
      s.psnName ∉ (dirListing w c dir).map Entry.name := by
  have hlayout := layoutOk_of_mem htree hdir.mem
  have hsite := hlayout.site s hs
  have hhead := hsite.listing_name hlisting
  constructor
  · have hdots : s.psnName ≠ cstr "." ∧ s.psnName ≠ cstr ".." := by
      constructor <;> intro heq <;> rw [heq] at hhead <;> exact absurd hhead (by decide)
    have hmatch := lookupMatch_named (c := c) htree hdir.mem hs
      (hsite.listing_shown hlisting w.linuxVersion)
    rw [← hlayout.take_nameMax hs] at hmatch
    exact ⟨_, (resolves_iff (hlayout.isDir hs hvdir w.oids) (hlayout.name_ne_nil hs) hdots).mpr
      ⟨s, hmatch⟩⟩
  · intro hmem
    rcases List.mem_map.mp hmem with ⟨e, he, hname⟩
    rcases (mem_dirListing_iff (hlayout.ne_sysctl hs)).mp he with ⟨-, s', hs', -, hentry⟩
    by_cases hlisting' : s'.psnNodeType.isListing = true
    · exact childEntries_listing_ne htree hdir.mem hs hlisting' hentry hname
    · -- an entry of its own has a name of its own
      rw [Bool.not_eq_true] at hlisting'
      rw [childEntries_static hlisting' (hlayout.ne_root hs'), List.mem_singleton] at hentry
      rw [hentry] at hname
      have heq : s' = s := List.inj_on_of_nodup_map hlayout.names_nodup hs' hs hname
      rw [heq, hlisting] at hlisting'
      cases hlisting'

/-- Below `/proc/sys`, what is found under a name other than the alias is listed. -/
theorem resolved_oid_listed (hsysctl : dir.nodeStructureNode.psnNodeType = .sysctl)
    {name : CString} (hkernel : ¬ (dir.nodeId.nodeidObjectid = 0 ∧ name = cstr "kernel"))
    {oid : UInt64} (hfind : procfsSysctlFind w.oids dir.nodeId.nodeidObjectid name = some oid) :
    name ∈ (dirListing w c dir).map Entry.name := by
  rw [procfsSysctlFind_eq, soughtName, if_neg hkernel] at hfind
  rcases Option.map_eq_some_iff.mp hfind with ⟨child, hchild, -⟩
  have hname : child.name.bytes = name := by simpa using List.find?_some hchild
  rw [dirListing, if_pos hsysctl]
  refine List.mem_map.mpr ⟨sysctlEntry dir child, ?_, hname⟩
  exact List.mem_append_right _ (List.mem_map_of_mem (List.mem_of_find?_eq_some hchild))

/-- A child found under its own name is listed, unless it stands for many. -/
theorem resolved_child_listed (htree : w.tree = procfsStructureInit build next)
    (hdir : Placed w.tree dir) (hvisible : dirVisible w c dir = true)
    (hsysctl : dir.nodeStructureNode.psnNodeType ≠ .sysctl)
    (hnone : ∀ s ∈ w.tree.children dir.nodeStructureNode, s.psnNodeType.isListing = false)
    {name : CString} {s : Pfssnode} {id : PfsId}
    (hmatch : lookupMatch w c dir name = .ok (some (s, id))) :
    name ∈ (dirListing w c dir).map Entry.name := by
  have hlayout := layoutOk_of_mem htree hdir.mem
  have hshown : procfsNodeVersionHidden w.linuxVersion s.psnName = false := by
    simp only [lookupMatch, if_neg hsysctl] at hmatch
    exact (lookupLoop_accepts hmatch).2.1
  rcases lookupMatch_cases hmatch with ⟨h, -⟩ | ⟨-, hs, hchild⟩
  · exact absurd h hsysctl
  have hlisting := hnone s hs
  cases hchild with
  | named hname =>
    refine List.mem_map.mpr ⟨staticEntry w dir s, ?_, hname.symm⟩
    refine (mem_dirListing_iff hsysctl).mpr ⟨hvisible, s, hs, hshown, ?_⟩
    rw [childEntries_static hlisting (hlayout.ne_root hs)]
    exact List.mem_singleton_self _
  | process pid htype => rcases htype with h | h <;> rw [h] at hlisting <;> cases hlisting
  | object objectid htype => rcases htype with h | h <;> rw [h] at hlisting <;> cases hlisting

/-- For every directory that a caller reaches by listed names: each name that the
caller's lookups resolve there is one that a complete reading by the same caller
returns, exactly when the directory has no entry that stands for many. -/
theorem resolved_names_listed_iff (htree : w.tree = procfsStructureInit build next)
    (hreach : ReachListed w c dir) (hisdir : dir.IsDir w.oids) :
    ResolvedNamesListed w c dir ↔
      ∀ s ∈ w.tree.children dir.nodeStructureNode, s.psnNodeType.isListing = false := by
  have hplaced := (hreach.reach.placed htree).1
  constructor
  · intro hall s hs
    by_contra hlisting
    rw [Bool.not_eq_false] at hlisting
    -- the name `__…__` is resolved, but no complete reading has it
    rcases placeholder_resolved_unlisted (c := c) htree hplaced hisdir.vdir hs hlisting with
      ⟨⟨id, hresolves⟩, hunlisted⟩
    have hlayout := layoutOk_of_mem htree hplaced.mem
    have hsite := hlayout.site s hs
    have hother : ∀ name : CString, name.head? ≠ some 95 → s.psnName ≠ name := by
      intro name hhead heq
      exact hhead (heq ▸ hsite.listing_name hlisting)
    rcases exists_completeReading (c := c) htree hplaced.mem hisdir with ⟨calls, hread⟩
    exact hunlisted (hall s.psnName id (hlayout.length_le_nameMax hs) (hother _ (by decide))
      (hother _ (by decide)) (fun h => hother _ (by decide) h.2.2) hresolves calls _ hread)
  · intro hnone name id hlen hdot hdotdot hkernel hresolves calls entries hread
    rw [hread.eq_dirListing htree hplaced.mem hisdir]
    rcases (resolves_iff hisdir hresolves.ne_nil ⟨hdot, hdotdot⟩).mp hresolves with ⟨s, hmatch⟩
    rw [List.take_of_length_le hlen] at hmatch
    by_cases hsysctl : dir.nodeStructureNode.psnNodeType = .sysctl
    · rcases lookupMatch_cases hmatch with ⟨-, -, oid, hfind, -⟩ | ⟨h, -⟩
      · exact resolved_oid_listed hsysctl (fun h => hkernel ⟨hsysctl, h⟩) hfind
      · exact absurd hsysctl h
    · exact resolved_child_listed htree hplaced hreach.dirVisible hsysctl hnone hmatch

end

/-- The directory `tty`, where there are only entries of their own. -/
def shTty : Pfsnode :=
  ⟨1, ⟨prnodeNoPid, 0, 52⟩, ⟨0, 51, .dir, cstr "tty", 52, 0, some 0⟩, 0, .VDIR⟩

theorem isDir_shTty (oids : List SysctlOid) : shTty.IsDir oids :=
  .of_ne_sysctl rfl (by decide) oids

/-- Every name that resolves in `tty` is listed there. -/
theorem resolved_names_listed_shTty :
    ReachListed shWorld (userCaller 501) shTty ∧
      ResolvedNamesListed shWorld (userCaller 501) shTty := by
  have hroot : ReachListed shWorld (userCaller 501) shRoot := .root isRoot_shRoot
  have hlisted : ∃ e ∈ dirListing shWorld (userCaller 501) shRoot, e.name = cstr "tty" := by
    decide +kernel
  have hlookup : (procfsVnopLookup shWorld (userCaller 501) [] shRoot (cstr "tty")
      ⟨true, none, none⟩).1 = .ok shTty := by decide +kernel
  have hreach : ReachListed shWorld (userCaller 501) shTty := by
    rcases hlisted with ⟨e, he, hname⟩
    refine .lookup [] e ⟨true, none, none⟩ hroot (tableReached_nil _ _)
      ((emits_iff rfl shRoot_mem (isDir_shRoot _)).mpr he) ?_
    rw [hname]
    exact hlookup
  exact ⟨hreach, (resolved_names_listed_iff rfl hreach (isDir_shTty _)).mpr (by decide +kernel)⟩

/-- The root resolves the name of the entry that stands for its processes, but does
not list it. -/
theorem placeholder_unlisted_shRoot :
    ReachListed shWorld (userCaller 501) shRoot ∧
      (∃ id, Resolves shWorld (userCaller 501) shRoot (cstr "__Process__") id) ∧
      ∃ calls entries, CompleteReading shWorld (userCaller 501) shRoot calls entries ∧
        cstr "__Process__" ∉ entries.map Entry.name := by
  have hfound : ∃ s ∈ shWorld.tree.children shRoot.nodeStructureNode,
      s.psnName = cstr "__Process__" ∧ s.psnNodeType.isListing = true := by decide +kernel
  rcases hfound with ⟨s, hs, hname, hlisting⟩
  have hroot : ReachListed shWorld (userCaller 501) shRoot := .root isRoot_shRoot
  have hplaced := (hroot.reach.placed rfl).1
  rcases placeholder_resolved_unlisted (c := userCaller 501) rfl hplaced rfl hs hlisting with
    ⟨hresolves, hunlisted⟩
  rw [hname] at hresolves hunlisted
  rcases exists_completeReading (c := userCaller 501) rfl shRoot_mem
    (isDir_shRoot _) with ⟨calls, hread⟩
  exact ⟨hroot, hresolves, calls, _, hread, hunlisted⟩

/-! ## Numeric names -/

/-- What `procfs_atoi` makes of a name that starts with a digit. -/
theorem procfsAtoi_digits {name : CString} (h : name.head?.any isDigit = true) :
    procfsAtoi name =
      (Int32.ofNat (decimalValue (name.takeWhile isDigit)), name.dropWhile isDigit) := by
  have hscan : scanDigits 0 name = _ := scanDigits_eq name 0
  have hlen : (name.dropWhile isDigit).length ≠ name.length := by
    cases name with
    | nil => cases h
    | cons b name =>
      have hb : isDigit b = true := by simpa using h
      have hle := (List.dropWhile_suffix isDigit (l := name)).length_le
      rw [List.dropWhile_cons_of_pos hb, List.length_cons]
      omega
  rw [procfsAtoi, hscan]
  simp only [if_neg hlen]
  rfl

/-- The number that a numeric name, cut to `NAME_MAX`, stands for: the value of its
leading digits as an `int`. Where descriptors are listed other characters may follow;
elsewhere the digits must be all there is. -/
structure Spells (s : Pfssnode) (name : CString) (v : Int32) : Prop where
  value : Int32.ofNat (decimalValue ((name.take nameMax).takeWhile isDigit)) = v
  whole : s.psnNodeType ≠ .fd → (name.take nameMax).dropWhile isDigit = []

/-- The number is that of a process the caller may see, of a thread of a process it
may see, or of an open descriptor: whichever the child stands for. -/
def Numbered (w : World) (c : Caller) (dir : Pfsnode) (s : Pfssnode) (v : Int32) : Prop :=
  v ≠ -1 ∧
    match s.psnNodeType with
    | .fd => ∃ p, w.procs.procFind dir.nodeId.nodeidPid = some p ∧ v ∈ listedFds w p
    | .thread => MaySee w c dir.nodeId.nodeidPid ∧
        objectidOfInt v ∈ listedThreads w dir.nodeId.nodeidPid
    | _ => MaySee w c v

/-- The id of the node with that number. -/
def numberedId (dir : Pfsnode) (s : Pfssnode) (v : Int32) : PfsId :=
  if s.psnNodeType = .proc then ⟨v, dir.nodeId.nodeidObjectid, s.psnBaseNodeId⟩
  else ⟨dir.nodeId.nodeidPid, objectidOfInt v, s.psnBaseNodeId⟩

theorem objectidOfInt_inj {v v' : Int32} (h : objectidOfInt v = objectidOfInt v') : v = v' := by
  have hint : v.toInt64 = v'.toInt64 := by
    have hbits := congrArg UInt64.toInt64 h
    simpa [objectidOfInt] using hbits
  apply Int32.toInt_inj.mp
  rw [← Int32.toInt_toInt64 v, hint, Int32.toInt_toInt64]

theorem numberedId_inj {dir : Pfsnode} {s : Pfssnode} {v v' : Int32}
    (h : numberedId dir s v = numberedId dir s v') : v = v' := by
  unfold numberedId at h
  split at h
  · exact congrArg PfsId.nodeidPid h
  · exact objectidOfInt_inj (congrArg PfsId.nodeidObjectid h)

section

variable {w : World} {c : Caller} {build : ℕ} {next : UInt16} {dir : Pfsnode} {s : Pfssnode}

theorem hasFd_iff {pid fd : Int32} :
    hasFd w pid fd = true ↔ ∃ p, w.procs.procFind pid = some p ∧ fd ∈ listedFds w p := by
  cases hlive : w.procs.procFind pid with
  | none => simp [hasFd, hlive]
  | some p => cases hlist : procfsGetFdList w.mem p <;> simp [hasFd, hlive, listedFds, hlist]

/-- The access check of lookup lets through the processes that the caller may see. -/
theorem maySee_iff_access {pid : Int32} :
    MaySee w c pid ↔ ∃ p, w.procs.procFind pid = some p ∧
      ¬ (c.checkAccess = true ∧ procfsCheckCanAccessProcess c.cred p ≠ none) := by
  rw [maySee_iff]
  refine exists_congr fun p => and_congr_right fun _ => ?_
  by_cases hcheck : c.checkAccess = true <;> simp [scanCred, hcheck, pidVisible]

theorem match_ok_iff {s' : Pfssnode} {id id' : PfsId} :
    (Except.ok (some (s, id)) : Match) = .ok (some (s', id')) ↔ s' = s ∧ id' = id := by
  simp only [Except.ok.injEq, Option.some.injEq, Prod.mk.injEq]
  exact ⟨fun h => ⟨h.1.symm, h.2.symm⟩, fun h => ⟨h.1.symm, h.2.symm⟩⟩

theorem lookupFd_ok_iff {v : Int32} {s' : Pfssnode} {id : PfsId} (htype : s.psnNodeType = .fd) :
    lookupFd w dir s v = .ok (some (s', id)) ↔
      Numbered w c dir s v ∧ s' = s ∧ id = numberedId dir s v := by
  have hnumbered : Numbered w c dir s v ↔ v ≠ -1 ∧ hasFd w dir.nodeId.nodeidPid v = true := by
    rw [hasFd_iff]
    simp only [Numbered, htype]
  have hid : numberedId dir s v = ⟨dir.nodeId.nodeidPid, objectidOfInt v, s.psnBaseNodeId⟩ := by
    simp [numberedId, htype]
  rw [hnumbered, hid, lookupFd]
  split
  · rename_i hopen
    rw [match_ok_iff, and_iff_right hopen]
  · rename_i hclosed
    simp [hclosed]

theorem lookupProc_ok_iff {name : CString} {v : Int32} (hv : v ≠ -1) {s' : Pfssnode} {id : PfsId}
    (htype : s.psnNodeType = .proc ∨ s.psnNodeType = .thread) :
    lookupProc w c dir name s v = .ok (some (s', id)) ↔
      Numbered w c dir s v ∧ s' = s ∧ id = numberedId dir s v := by
  have hid : procMatchId dir s v = numberedId dir s v := by
    rcases htype with h | h <;> simp [procMatchId, numberedId, h]
  rcases htype with htype | htype
  · -- a process
    have hpid : (numberedId dir s v).nodeidPid = v := by simp [numberedId, htype]
    simp only [lookupProc, hid, hpid, Numbered, htype, maySee_iff_access, hv, ne_eq,
      not_false_eq_true, true_and, reduceCtorEq, false_and, if_false]
    cases hlive : w.procs.procFind v with
    | none => simp
    | some p =>
      by_cases haccess : c.checkAccess = true ∧ ¬ procfsCheckCanAccessProcess c.cred p = none
      · simp [haccess]
      · simp only [haccess, if_false, match_ok_iff, Option.some.injEq, exists_eq_left',
          not_false_eq_true, true_and]
  · -- a thread
    have hpid : (numberedId dir s v).nodeidPid = dir.nodeId.nodeidPid ∧
        (numberedId dir s v).nodeidObjectid = objectidOfInt v := by simp [numberedId, htype]
    simp only [lookupProc, hid, hpid.1, hpid.2, Numbered, htype, maySee_iff_access, hv, ne_eq,
      not_false_eq_true, true_and, reduceCtorEq, false_and, if_false]
    cases hlive : w.procs.procFind dir.nodeId.nodeidPid with
    | none => simp
    | some p =>
      have hhas := hasThread_eq hlive (objectidOfInt v)
      by_cases haccess : c.checkAccess = true ∧ ¬ procfsCheckCanAccessProcess c.cred p = none
      · simp [haccess]
      · by_cases hthread : objectidOfInt v ∈ listedThreads w dir.nodeId.nodeidPid
        · simp only [haccess, hhas, hthread, decide_true, not_true_eq_false, if_false,
            match_ok_iff, Option.some.injEq, exists_eq_left', not_false_eq_true, true_and]
        · simp [hhas, hthread]

/-- A numeric name is resolved to the node of the number it spells, if there is one
that the caller may see. -/
theorem resolves_number_iff (htree : w.tree = procfsStructureInit build next)
    (hdir : dir.nodeStructureNode ∈ w.tree.nodes) (hvdir : dir.vnodeVtype = .VDIR)
    (hs : s ∈ w.tree.children dir.nodeStructureNode)
    (htype : s.psnNodeType = .proc ∨ s.psnNodeType = .thread ∨ s.psnNodeType = .fd)
    {name : CString} (hdigit : name.head?.any isDigit = true) {id : PfsId} :
    Resolves w c dir name id ↔
      ∃ v, Spells s name v ∧ Numbered w c dir s v ∧ id = numberedId dir s v := by
  have hne : name ≠ [] := by
    rintro rfl
    cases hdigit
  have hdots : name ≠ cstr "." ∧ name ≠ cstr ".." := by
    constructor <;> rintro rfl <;> exact absurd hdigit (by decide)
  have hcut : (name.take nameMax).head?.any isDigit = true := by
    rw [List.head?_take]
    exact hdigit
  have hother : ∀ s' ∈ w.tree.children dir.nodeStructureNode, name.take nameMax ≠ s'.psnName := by
    rw [htree] at hdir ⊢
    exact ne_psnName_of_digit hdir hcut
  have hlisting : s.psnNodeType.isListing = true := by
    rcases htype with h | h | h <;> rw [h] <;> rfl
  have hisdir := (layoutOk_of_mem htree hdir).isDir hs hvdir w.oids
  rw [resolves_iff hisdir hne hdots, lookupMatch_number htree hdir hs hlisting hother, numberMatch]
  have hread := procfsAtoi_digits hcut
  by_cases hfd : s.psnNodeType = .fd
  · -- what follows the digits is not looked at
    simp only [if_pos hfd, hread, lookupFd_ok_iff (c := c) hfd]
    constructor
    · rintro ⟨s', hnumbered, -, hid⟩
      exact ⟨_, ⟨rfl, fun h => absurd hfd h⟩, hnumbered, hid⟩
    · rintro ⟨v, ⟨rfl, -⟩, hnumbered, hid⟩
      exact ⟨s, hnumbered, rfl, hid⟩
  · have htype' : s.psnNodeType = .proc ∨ s.psnNodeType = .thread := by
      rcases htype with h | h | h
      · exact Or.inl h
      · exact Or.inr h
      · exact absurd h hfd
    have hnamedir : s.psnNodeType ≠ .procnamedir := by
      rcases htype' with h | h <;> rw [h] <;> decide
    rw [if_neg hfd, lookupNumber, hread]
    by_cases hwhole : (name.take nameMax).dropWhile isDigit = []
    · rw [if_neg fun h => h.2 hwhole]
      by_cases hminus : Int32.ofNat (decimalValue ((name.take nameMax).takeWhile isDigit)) = -1
      · rw [if_neg (not_not.mpr hminus)]
        refine iff_of_false (by simp) ?_
        rintro ⟨v, ⟨rfl, -⟩, hnumbered, -⟩
        exact hnumbered.1 hminus
      · rw [if_pos hminus]
        simp only [lookupProc_ok_iff hminus htype']
        constructor
        · rintro ⟨s', hnumbered, -, hid⟩
          exact ⟨_, ⟨rfl, fun _ => hwhole⟩, hnumbered, hid⟩
        · rintro ⟨v, ⟨rfl, -⟩, hnumbered, hid⟩
          exact ⟨s, hnumbered, rfl, hid⟩
    · rw [if_pos ⟨hnamedir, hwhole⟩]
      refine iff_of_false (by simp) ?_
      rintro ⟨v, hspells, -⟩
      exact hwhole (hspells.whole hfd)

/-- For every directory of processes, threads or descriptors ever reached: two numeric
names never lead to the same node, unless both spell the same number and the number
is that of a process, thread or descriptor there. -/
theorem numeric_names_apart_iff (htree : w.tree = procfsStructureInit build next)
    (hreach : Reach w.tree c.pmp dir) (hvdir : dir.vnodeVtype = .VDIR)
    (hs : s ∈ w.tree.children dir.nodeStructureNode)
    (htype : s.psnNodeType = .proc ∨ s.psnNodeType = .thread ∨ s.psnNodeType = .fd)
    {name name' : CString} (hdigit : name.head?.any isDigit = true)
    (hdigit' : name'.head?.any isDigit = true) :
    (¬ ∃ id, Resolves w c dir name id ∧ Resolves w c dir name' id) ↔
      ¬ ∃ v, Spells s name v ∧ Spells s name' v ∧ Numbered w c dir s v := by
  have hmem := (hreach.placed htree).1.mem
  simp only [resolves_number_iff htree hmem hvdir hs htype hdigit,
    resolves_number_iff htree hmem hvdir hs htype hdigit']
  refine not_congr ⟨?_, ?_⟩
  · rintro ⟨id, ⟨v, hspells, hnumbered, rfl⟩, v', hspells', -, heq⟩
    rw [← numberedId_inj heq] at hspells'
    exact ⟨v, hspells, hspells', hnumbered⟩
  · rintro ⟨v, hspells, hspells', hnumbered⟩
    exact ⟨_, ⟨v, hspells, hnumbered, rfl⟩, v, hspells', hnumbered, rfl⟩

end

/-- The names `7` and `8` lead to different nodes of the root. -/
theorem numeric_names_apart_shRoot :
    Reach shWorld.tree (userCaller 501).pmp shRoot ∧
      ¬ ∃ id, Resolves shWorld (userCaller 501) shRoot (cstr "7") id ∧
        Resolves shWorld (userCaller 501) shRoot (cstr "8") id := by
  have hfound : ∃ s ∈ shWorld.tree.children shRoot.nodeStructureNode, s.psnNodeType = .proc := by
    decide +kernel
  rcases hfound with ⟨s, hs, htype⟩
  refine ⟨reach_shRoot, (numeric_names_apart_iff rfl reach_shRoot rfl hs (Or.inl htype)
    (by decide) (by decide)).mpr ?_⟩
  rintro ⟨v, hseven, height, -⟩
  exact absurd (hseven.value.trans height.value.symm) (by decide)

/-- The names `7` and `07` lead to the same one. -/
theorem leading_zero_same_node :
    Reach shWorld.tree (userCaller 501).pmp shRoot ∧
      Resolves shWorld (userCaller 501) shRoot (cstr "7") ⟨7, 0, 114⟩ ∧
      Resolves shWorld (userCaller 501) shRoot (cstr "07") ⟨7, 0, 114⟩ := by
  have hempty := tableReached_nil shWorld.tree (userCaller 501).pmp
  let node : Pfsnode :=
    ⟨1, ⟨7, 0, 114⟩, ⟨0, 113, .proc, cstr "__Process__", 114, psnFlagProcess, some 0⟩, 0, .VDIR⟩
  refine ⟨reach_shRoot, ⟨[], ⟨true, none, none⟩, node, hempty, ?_, rfl⟩,
    ⟨[], ⟨true, none, none⟩, node, hempty, ?_, rfl⟩⟩
  · decide +kernel
  · decide +kernel

end ProcFS
