import ProcFS.Layout
import ProcFS.Node

/-!
# ProcFS.Lookup — resolving a name

`procfs_vnop_lookup` resolves one path component in a directory. A name is
matched against the children of the directory's structure node; the children
that stand for processes, threads and descriptors match numeric names, and
`/proc/sys` is searched in the sysctl tree instead. Only one branch checks
whether the caller may access the process, so what a caller can reach is an
invariant of whole walks (`Walk`), not a property of one call.

* `procfsVnopLookup_allowed`: one lookup leads from an allowed node to an allowed one.
* `procfsVnopLookup_table`: what a lookup enters into the table of nodes.
* `procfsVnopLookup_refused`: a process that is refused looks absent.
* `walk_pidAllowed`: the nodes that a checked caller ever reaches.
-/

namespace ProcFS

/-! ## Matching a name -/

def nameMax : ℕ := 255

/-- An `int` stored in the 64-bit object id, with its sign extended. -/
def objectidOfInt (id : Int32) : UInt64 := id.toInt64.toUInt64

/-- What the search for a name found: the matched structure node with the id of
the node it names, nothing, or an error. -/
abbrev Match := Except Errno (Option (Pfssnode × PfsId))

/-- Whether `id` is an open descriptor of the process with the given pid. -/
def hasFd (w : World) (pid id : Int32) : Bool :=
  match w.procs.procFind pid with
  | none => false
  | some p =>
    match procfsGetFdList w.mem p with
    | .ok fds => fds.contains id
    | .error _ => false

/-- The branch for a descriptor directory, once the name was converted to `id`.
What follows the number in the name is not looked at. -/
def lookupFd (w : World) (dir : Pfsnode) (s : Pfssnode) (id : Int32) : Match :=
  if id ≠ -1 ∧ hasFd w dir.nodeId.nodeidPid id then
    .ok (some (s, ⟨dir.nodeId.nodeidPid, objectidOfInt id, s.psnBaseNodeId⟩))
  else .error .ENOENT

/-- Whether a thread id belongs to a thread of the process. -/
def hasThread (w : World) (p : Proc) (objectid : UInt64) : Bool :=
  match procfsGetThreadIdsForTask w.mem p with
  | .ok ids => ids.contains objectid
  | .error _ => false

/-- The id named by `id` in a directory of processes or threads: the number
replaces either the pid or the object id of the directory. -/
def procMatchId (dir : Pfsnode) (s : Pfssnode) (id : Int32) : PfsId :=
  if s.psnNodeType = .thread then
    ⟨dir.nodeId.nodeidPid, objectidOfInt id, s.psnBaseNodeId⟩
  else ⟨id, dir.nodeId.nodeidObjectid, s.psnBaseNodeId⟩

/-- The branch for a process, process name or thread directory, once the name
was converted to `id`. -/
def lookupProc (w : World) (c : Caller) (dir : Pfsnode) (name : CString) (s : Pfssnode)
    (id : Int32) : Match :=
  match w.procs.procFind (procMatchId dir s id).nodeidPid with
  | none => .error .ENOENT
  | some p =>
    if s.psnNodeType = .procnamedir ∧ name ≠ procfsConstructProcessDirName p then .error .ENOENT
    else if c.checkAccess ∧ procfsCheckCanAccessProcess c.cred p ≠ none then
      -- not permitted: claim that the path does not exist
      .error .ENOENT
    else if s.psnNodeType = .thread ∧ ¬ hasThread w p (procMatchId dir s id).nodeidObjectid then
      .error .ENOENT
    else .ok (some (s, procMatchId dir s id))

/-- The same branch from the name on. `next` is what the rest of the loop finds:
a name that is no number is left to the later children. -/
def lookupNumber (w : World) (c : Caller) (dir : Pfsnode) (name : CString) (s : Pfssnode)
    (next : Match) : Match :=
  if s.psnNodeType ≠ .procnamedir ∧ (procfsAtoi name).2 ≠ [] then next
  else if (procfsAtoi name).1 ≠ -1 then lookupProc w c dir name s (procfsAtoi name).1
  else next

/-- The `TAILQ_FOREACH` over the children of the directory's structure node. -/
def lookupLoop (w : World) (c : Caller) (dir : Pfsnode) (name : CString) :
    List Pfssnode → Match
  | [] => .ok none
  | s :: rest =>
    if procfsNodeVersionHidden w.linuxVersion s.psnName then lookupLoop w c dir name rest
    else if name = s.psnName then
      .ok (some (s, ⟨dir.nodeId.nodeidPid, dir.nodeId.nodeidObjectid, s.psnBaseNodeId⟩))
    else
      match s.psnNodeType with
      | .fd => lookupFd w dir s (procfsAtoi name).1
      | .proc | .procnamedir | .thread =>
        lookupNumber w c dir name s (lookupLoop w c dir name rest)
      | _ => lookupLoop w c dir name rest

/-- The search for a name other than `.` and `..`. -/
def lookupMatch (w : World) (c : Caller) (dir : Pfsnode) (name : CString) : Match :=
  let snode := dir.nodeStructureNode
  if snode.psnNodeType = .sysctl then
    .ok ((procfsSysctlFind w.oids dir.nodeId.nodeidObjectid name).map fun oid =>
      (snode, ⟨prnodeNoPid, oid, snode.psnBaseNodeId⟩))
  else lookupLoop w c dir name (w.tree.children snode)

/-- The id of the node that `..` names. A nested `/proc/sys` directory has the
enclosing oid as its parent; a failed search leaves the parent oid at 0. -/
def dotDotId (w : World) (dir : Pfsnode) : PfsId :=
  let snode := dir.nodeStructureNode
  if snode.psnNodeType = .sysctl ∧ dir.nodeId.nodeidObjectid ≠ 0 then
    { nodeidBaseId := snode.psnBaseNodeId
      nodeidPid := prnodeNoPid
      nodeidObjectid := (procfsSysctlParent w.oids dir.nodeId.nodeidObjectid).getD 0 }
  else procfsGetParentNodeId w.tree dir

/-- The structure node passed along with it. -/
def dotDotSnode (w : World) (dir : Pfsnode) : Option Pfssnode :=
  let snode := dir.nodeStructureNode
  if snode.psnNodeType = .sysctl ∧ dir.nodeId.nodeidObjectid ≠ 0 then some snode
  else w.tree.parent snode

/-- `procfs_vnop_lookup`, on a table of nodes. The parent vnode given to a
creation on behalf of `..` is NULLVP. -/
def procfsVnopLookup (w : World) (c : Caller) (table : List Pfsnode) (dir : Pfsnode)
    (cname : CString) (env : VnodeEnv) : Reply Pfsnode × List Pfsnode :=
  if dir.vnodeVtype ≠ .VDIR ∨ cname.length < 1 then (.error .EINVAL, table)
  else if cname = cstr ".." then
    -- the forest is searched for the address of the oid, which is not followed
    procfsnodeFind table c.pmp (dotDotId w dir) (dotDotSnode w dir) env
      (procfsCreateVnode env w.oids none)
  else if cname = cstr "." then
    match env.vnodeGet with
    | some e => (.error e, table)
    | none => (.ok dir, table)
  -- `procfs_sysctl_find` follows the pointer in the object id
  else if ¬ dir.OidRegistered w.oids then (.panic, table)
  else
    match lookupMatch w c dir (cname.take nameMax) with
    | .error e => (.error e, table)
    | .ok none => (.error .ENOENT, table)
    | .ok (some (s, nodeId)) =>
      procfsnodeFind table c.pmp nodeId (some s) env (procfsCreateVnode env w.oids (some dir))

/-! ## What the loop over the children finds -/

variable {w : World} {dir : Pfsnode} {id : PfsId} {c : Caller} {name : CString}
  {children : List Pfssnode} {s : Pfssnode} {next : UInt16}

/-- How a child accepts a name: under its own, as the number of a process or thread whose process
is there and passes the access check, or as that of an open descriptor. -/
inductive Accepts (w : World) (c : Caller) (dir : Pfsnode) (name : CString) (s : Pfssnode) :
    PfsId → Prop where
  | named (hname : name = s.psnName) :
      Accepts w c dir name s ⟨dir.nodeId.nodeidPid, dir.nodeId.nodeidObjectid, s.psnBaseNodeId⟩
  | number (i : Int32) (p : Proc)
      (htype : s.psnNodeType = .proc ∨ s.psnNodeType = .procnamedir ∨ s.psnNodeType = .thread)
      (hlive : w.procs.procFind (procMatchId dir s i).nodeidPid = some p)
      (haccess : ¬ (c.checkAccess = true ∧ procfsCheckCanAccessProcess c.cred p ≠ none)) :
      Accepts w c dir name s (procMatchId dir s i)
  | fd (i : Int32) (htype : s.psnNodeType = .fd)
      (hfd : hasFd w dir.nodeId.nodeidPid i = true) :
      Accepts w c dir name s ⟨dir.nodeId.nodeidPid, objectidOfInt i, s.psnBaseNodeId⟩

/-- What the loop finds is one of the children, is not hidden, and accepts the name. -/
theorem lookupLoop_accepts (h : lookupLoop w c dir name children = .ok (some (s, id))) :
    s ∈ children ∧ procfsNodeVersionHidden w.linuxVersion s.psnName = false ∧
      Accepts w c dir name s id := by
  induction children with
  | nil => cases h
  | cons child rest ih =>
    have hrest : lookupLoop w c dir name rest = .ok (some (s, id)) → s ∈ child :: rest ∧
        procfsNodeVersionHidden w.linuxVersion s.psnName = false ∧ Accepts w c dir name s id :=
      fun hmatch => ⟨List.mem_cons_of_mem child (ih hmatch).1, (ih hmatch).2⟩
    unfold lookupLoop at h
    split at h
    · -- a child that is hidden is passed over
      exact hrest h
    · rename_i hshown
      rw [Bool.not_eq_true] at hshown
      -- the branches for numbers end with this child, or go on with the rest
      have hnumber : (child.psnNodeType = .proc ∨ child.psnNodeType = .procnamedir ∨
          child.psnNodeType = .thread) →
          lookupNumber w c dir name child (lookupLoop w c dir name rest) = .ok (some (s, id)) →
          s ∈ child :: rest ∧ procfsNodeVersionHidden w.linuxVersion s.psnName = false ∧
            Accepts w c dir name s id := by
        intro htype hn
        unfold lookupNumber lookupProc at hn
        split_ifs at hn
        · exact hrest hn
        · split at hn
          · cases hn
          · rename_i p hlive
            split_ifs at hn with hname haccess
            cases hn
            exact ⟨List.mem_cons_self, hshown, .number _ p htype hlive haccess⟩
        · exact hrest hn
      split at h
      · -- the name is that of the child
        rename_i hname
        cases h
        exact ⟨List.mem_cons_self, hshown, .named hname⟩
      · -- `switch` on the type of the child
        split at h
        · rename_i htype
          unfold lookupFd at h
          split at h
          · rename_i hfd
            cases h
            exact ⟨List.mem_cons_self, hshown, .fd _ htype hfd.2⟩
          · cases h
        · rename_i htype
          exact hnumber (Or.inl htype) h
        · rename_i htype
          exact hnumber (Or.inr (Or.inl htype)) h
        · rename_i htype
          exact hnumber (Or.inr (Or.inr htype)) h
        · exact hrest h

/-! ## The process id of a matched node -/

/-- The ids a caller is meant to hold: of no process, or of one that the access
check allows. -/
def PidAllowed (procs : ProcTable) (cred : Cred) (pid : Int32) : Prop :=
  pid = prnodeNoPid ∨
    ∃ p, procs.procFind pid = some p ∧ procfsCheckCanAccessProcess cred p = none

/-- A match keeps the pid of the directory, or passed the access check. -/
theorem Accepts.pid (hcheck : c.checkAccess = true) (h : Accepts w c dir name s id) :
    id.nodeidPid = dir.nodeId.nodeidPid ∨ PidAllowed w.procs c.cred id.nodeidPid := by
  cases h with
  | named hname => exact Or.inl rfl
  | fd i htype hfd => exact Or.inl rfl
  | number i p htype hlive haccess =>
    refine Or.inr (Or.inr ⟨p, hlive, ?_⟩)
    by_contra hdenied
    exact haccess ⟨hcheck, hdenied⟩

theorem lookupMatch_pid (hcheck : c.checkAccess = true)
    (hdir : PidAllowed w.procs c.cred dir.nodeId.nodeidPid)
    (h : lookupMatch w c dir name = .ok (some (s, id))) :
    PidAllowed w.procs c.cred id.nodeidPid := by
  simp only [lookupMatch] at h
  split at h
  · -- sysctl nodes belong to no process
    simp only [Except.ok.injEq, Option.map_eq_some_iff] at h
    obtain ⟨oid, -, hid⟩ := h
    cases hid
    exact Or.inl rfl
  · rcases (lookupLoop_accepts h).2.2.pid hcheck with heq | hallowed
    · rw [heq]
      exact hdir
    · exact hallowed

/-- `..` drops the process id or keeps it. -/
theorem dotDotId_pid (w : World) (dir : Pfsnode) :
    (dotDotId w dir).nodeidPid = prnodeNoPid ∨
    (dotDotId w dir).nodeidPid = dir.nodeId.nodeidPid := by
  simp only [dotDotId, procfsGetParentNodeId]
  split
  · exact Or.inl rfl
  · simp only
    split
    · exact Or.inr rfl
    · exact Or.inl rfl

/-- One lookup, on any table of nodes, leads from an allowed node to an allowed
node. -/
theorem procfsVnopLookup_allowed {table : List Pfsnode} {dir pnp : Pfsnode} {env : VnodeEnv}
    (hcheck : c.checkAccess = true) (hdir : PidAllowed w.procs c.cred dir.nodeId.nodeidPid)
    (h : (procfsVnopLookup w c table dir name env).1 = .ok pnp) :
    PidAllowed w.procs c.cred pnp.nodeId.nodeidPid := by
  unfold procfsVnopLookup at h
  split at h
  · cases h
  split at h
  · -- `..`
    rw [(procfsnodeFind_ok h).2]
    rcases dotDotId_pid w dir with heq | heq
    · exact Or.inl heq
    · rw [heq]
      exact hdir
  split at h
  · -- `.`
    split at h
    · cases h
    · cases h
      exact hdir
  split at h
  · cases h
  · split at h
    · cases h
    · cases h
    · rename_i s id hmatch
      rw [(procfsnodeFind_ok h).2]
      exact lookupMatch_pid hcheck hdir hmatch

/-! ## The node that a lookup enters into the table -/

theorem lookupMatch_snode (h : lookupMatch w c dir name = .ok (some (s, id))) :
    s = dir.nodeStructureNode ∨ s ∈ w.tree.nodes := by
  simp only [lookupMatch] at h
  split at h
  · simp only [Except.ok.injEq, Option.map_eq_some_iff] at h
    obtain ⟨oid, -, hid⟩ := h
    cases hid
    exact Or.inl rfl
  · exact Or.inr (List.mem_of_mem_filter (lookupLoop_accepts h).1)

/-- A lookup enters at most one node, on the mount of the directory and with a
structure node of the tree. -/
theorem procfsVnopLookup_table {table : List Pfsnode} {dir pnp : Pfsnode} {env : VnodeEnv}
    (h : pnp ∈ (procfsVnopLookup w c table dir name env).2) :
    pnp ∈ table ∨ pnp.vnodeMount = dir.vnodeMount ∧
      (pnp.nodeStructureNode = dir.nodeStructureNode ∨ pnp.nodeStructureNode ∈ w.tree.nodes) := by
  have hfind : ∀ (nodeId : PfsId) (snode : Option Pfssnode)
      (create : Pfssnode → PfsId → Reply Vnode),
      pnp ∈ (procfsnodeFind table c.pmp nodeId snode env create).2 →
      pnp ∈ table ∨ snode = some pnp.nodeStructureNode ∧
        create pnp.nodeStructureNode nodeId = .ok pnp.nodeVnode := by
    intro nodeId snode create hmem
    rcases procfsnodeFind_cases table c.pmp nodeId snode env create with
      ⟨found, -, -, -, heq⟩ | ⟨s, vp, hs, hvp, heq⟩ | ⟨-, heq⟩
    · rw [heq] at hmem
      exact Or.inl hmem
    · rw [heq] at hmem
      rcases List.mem_cons.mp hmem with rfl | hmem
      · exact Or.inr ⟨hs, hvp⟩
      · exact Or.inl hmem
    · rw [heq] at hmem
      exact Or.inl hmem
  unfold procfsVnopLookup at h
  split at h
  · exact Or.inl h
  split at h
  · -- `..` never creates a vnode: there is no parent to take the mount from
    rcases hfind _ _ _ h with hold | ⟨-, hcreated⟩
    · exact Or.inl hold
    · cases hcreated
  split at h
  · split at h <;> exact Or.inl h
  split at h
  · exact Or.inl h
  · split at h
    · exact Or.inl h
    · exact Or.inl h
    · rename_i s nodeId hmatch
      rcases hfind _ _ _ h with hold | ⟨hs, hcreated⟩
      · exact Or.inl hold
      · right
        rw [Option.some.injEq] at hs
        rw [Pfsnode.vnodeMount, procfsCreateVnode_ok hcreated, ← hs]
        exact ⟨rfl, lookupMatch_snode hmatch⟩

/-! ## A refused process looks absent -/

/-- An entry that stands for many is never hidden. -/
theorem Site.listing_shown {s c : Pfssnode} (h : Site s c)
    (hlisting : c.psnNodeType.isListing = true) (linuxVersion : Int32) :
    procfsNodeVersionHidden linuxVersion c.psnName = false := by
  have hhead := h.listing_name hlisting
  apply procfsNodeVersionHidden_of_ne
  constructor <;> intro heq <;> rw [heq] at hhead <;> exact absurd hhead (by decide)

/-- Children with other names, none of which stands for many entries, are passed
over. -/
theorem lookupLoop_append {skipped : List Pfssnode} (rest : List Pfssnode)
    (h : ∀ s ∈ skipped, s.psnNodeType.isListing = false ∧ name ≠ s.psnName) :
    lookupLoop w c dir name (skipped ++ rest) = lookupLoop w c dir name rest := by
  induction skipped with
  | nil => rfl
  | cons s skipped ih =>
    obtain ⟨hlisting, hname⟩ := h s List.mem_cons_self
    have ih' := ih fun s' hs' => h s' (List.mem_cons_of_mem s hs')
    rw [List.cons_append, lookupLoop, if_neg hname, ih']
    split_ifs
    · rfl
    · cases htype : s.psnNodeType with
      | proc | procnamedir | thread | fd => simp [htype, PfsType.isListing] at hlisting
      | _ => rfl

/-- What a child that stands for many entries makes of a name that is not its own. -/
def numberMatch (w : World) (c : Caller) (dir : Pfsnode) (name : CString) (s : Pfssnode) : Match :=
  if s.psnNodeType = .fd then lookupFd w dir s (procfsAtoi name).1
  else lookupNumber w c dir name s (.ok none)

/-- The names in the tree are short enough for lookup. -/
theorem LayoutOk.length_le_nameMax {s c : Pfssnode} (h : LayoutOk s children) (hc : c ∈ children) :
    c.psnName.length ≤ nameMax := by
  have hlen := h.name_length hc
  have hmax : maxStructNodeNameLen = 32 ∧ nameMax = 255 := ⟨rfl, rfl⟩
  omega

theorem LayoutOk.take_nameMax {s c : Pfssnode} (h : LayoutOk s children) (hc : c ∈ children) :
    c.psnName.take nameMax = c.psnName :=
  List.take_of_length_le (h.length_le_nameMax hc)

/-- A directory with children is not below `/proc/sys`. -/
theorem LayoutOk.isDir {c : Pfssnode} (h : LayoutOk dir.nodeStructureNode children)
    (hc : c ∈ children) (hvdir : dir.vnodeVtype = .VDIR) (oids : List SysctlOid) : dir.IsDir oids :=
  .of_ne_sysctl hvdir (h.ne_sysctl hc) oids

/-- In a built tree, a name that no child has is left to the child that stands for
many entries. -/
theorem lookupMatch_number {build : ℕ} (htree : w.tree = procfsStructureInit build next)
    (hdir : dir.nodeStructureNode ∈ w.tree.nodes) (hs : s ∈ w.tree.children dir.nodeStructureNode)
    (hlisting : s.psnNodeType.isListing = true)
    (hname : ∀ s' ∈ w.tree.children dir.nodeStructureNode, name ≠ s'.psnName) :
    lookupMatch w c dir name = numberMatch w c dir name s := by
  have hlayout := layoutOk_of_mem htree hdir
  have hdirtype := hlayout.ne_sysctl hs
  have hshown := (hlayout.site s hs).listing_shown hlisting w.linuxVersion
  have hne := hname s hs
  rw [lookupMatch, if_neg hdirtype]
  rw [htree] at hdir hs hname ⊢
  obtain ⟨skipped, hchildren, hskipped⟩ := children_listing hdir hs hlisting
  rw [hchildren] at hname ⊢
  -- every child before the last is passed over
  rw [lookupLoop_append [s] fun s' hs' =>
    ⟨hskipped s' hs', hname s' (List.mem_append_left _ hs')⟩]
  rw [lookupLoop, hshown, if_neg Bool.false_ne_true, if_neg hne, numberMatch]
  rcases PfsType.isListing_iff.mp hlisting with (htype | htype) | htype | htype
  all_goals
    simp only [htype]
    rfl

/-- A name that starts with a digit is not that of a child. -/
theorem ne_psnName_of_digit {build : ℕ} {dir : Pfssnode}
    (hdir : dir ∈ (procfsStructureInit build next).nodes) (hdigit : name.head?.any isDigit = true) :
    ∀ s ∈ (procfsStructureInit build next).children dir, name ≠ s.psnName := by
  obtain ⟨-, hnames, -⟩ := childrenOk_iff.mp (procfsStructureInit_childrenOk hdir)
  intro s hs heq
  rw [heq, (hnames s hs).2.1] at hdigit
  cases hdigit

/-- The process branch accepts the name of a process, unless the access check hides it. -/
theorem lookupProc_process {p : Proc} (htype : s.psnNodeType = .proc ∨ s.psnNodeType = .procnamedir)
    (hlive : w.procs.procFind p.pPid = some p) :
    lookupProc w c dir (processEntryName s.psnNodeType p) s p.pPid =
      if c.checkAccess = true ∧ procfsCheckCanAccessProcess c.cred p ≠ none then .error .ENOENT
      else .ok (some (s, ⟨p.pPid, dir.nodeId.nodeidObjectid, s.psnBaseNodeId⟩)) := by
  have hthread : s.psnNodeType ≠ .thread := by
    rcases htype with h | h <;> simp [h]
  have hname : ¬ (s.psnNodeType = .procnamedir ∧
      processEntryName s.psnNodeType p ≠ procfsConstructProcessDirName p) := by
    rintro ⟨hnamedir, hne⟩
    exact hne (by simp [processEntryName, hnamedir])
  simp only [lookupProc, procMatchId, hlive, if_neg hname, hthread, false_and, if_false]

/-- The name of a process is read as its pid. -/
theorem lookupNumber_processEntryName {p : Proc} (hpid : 0 ≤ p.pPid) (next : Match) :
    lookupNumber w c dir (processEntryName s.psnNodeType p) s next =
      lookupProc w c dir (processEntryName s.psnNodeType p) s p.pPid := by
  obtain ⟨hatoi, hend⟩ := procfsAtoi_processEntryName s.psnNodeType hpid
  have hend' : ¬ (s.psnNodeType ≠ .procnamedir ∧
      (procfsAtoi (processEntryName s.psnNodeType p)).2 ≠ []) := fun h => h.2 (hend h.1)
  have hid : p.pPid ≠ -1 := by
    rintro h
    rw [h] at hpid
    exact absurd hpid (by decide)
  rw [lookupNumber, if_neg hend', hatoi, if_pos hid]

/-- So does the search in a built tree, since no child has such a name. -/
theorem lookupMatch_process {build : ℕ} {p : Proc} (htree : w.tree = procfsStructureInit build next)
    (hdir : dir.nodeStructureNode ∈ w.tree.nodes) (hs : s ∈ w.tree.children dir.nodeStructureNode)
    (htype : s.psnNodeType = .proc ∨ s.psnNodeType = .procnamedir)
    (hlive : w.procs.procFind p.pPid = some p) :
    lookupMatch w c dir (processEntryName s.psnNodeType p) =
      if c.checkAccess = true ∧ procfsCheckCanAccessProcess c.cred p ≠ none then .error .ENOENT
      else .ok (some (s, ⟨p.pPid, dir.nodeId.nodeidObjectid, s.psnBaseNodeId⟩)) := by
  have hpid := w.procs.pid_nonneg _ _ hlive
  obtain ⟨hdigit, -⟩ := processEntryName_digit s.psnNodeType hpid
  have hlisting : s.psnNodeType.isListing = true := PfsType.isListing_iff.mpr (Or.inl htype)
  have hfd : s.psnNodeType ≠ .fd := by
    rcases htype with h | h <;> rw [h] <;> decide
  have hname : ∀ s' ∈ w.tree.children dir.nodeStructureNode,
      processEntryName s.psnNodeType p ≠ s'.psnName := by
    rw [htree] at hdir ⊢
    exact ne_psnName_of_digit hdir hdigit
  rw [lookupMatch_number htree hdir hs hlisting hname, numberMatch, if_neg hfd,
    lookupNumber_processEntryName hpid, lookupProc_process htype hlive]

/-- On a built tree, a caller subject to the access check that looks up the name
of a process it may not access gets `ENOENT`. -/
theorem procfsVnopLookup_refused {build : ℕ} {p : Proc}
    (htree : w.tree = procfsStructureInit build next) (hdir : dir.nodeStructureNode ∈ w.tree.nodes)
    (hvdir : dir.vnodeVtype = .VDIR) (hs : s ∈ w.tree.children dir.nodeStructureNode)
    (htype : s.psnNodeType = .proc ∨ s.psnNodeType = .procnamedir) (hcheck : c.checkAccess = true)
    (hlive : w.procs.procFind p.pPid = some p)
    (hrefused : procfsCheckCanAccessProcess c.cred p ≠ none) (table : List Pfsnode)
    (env : VnodeEnv) :
    (procfsVnopLookup w c table dir (processEntryName s.psnNodeType p) env).1 =
      .error .ENOENT := by
  have hpid := w.procs.pid_nonneg _ _ hlive
  have hmatch := lookupMatch_process (c := c) htree hdir hs htype hlive
  rw [if_pos ⟨hcheck, hrefused⟩] at hmatch
  obtain ⟨hdigit, hlen⟩ := processEntryName_digit s.psnNodeType hpid
  generalize processEntryName s.psnNodeType p = name at hmatch hdigit hlen
  -- the name begins with a digit, so it is neither of the dots and not empty
  have hdots : name ≠ cstr ".." ∧ name ≠ cstr "." := by
    constructor <;> rintro rfl <;> exact absurd hdigit (by decide)
  have hne : ¬ name.length < 1 := by
    intro hlt
    have hnil : name = [] := List.eq_nil_of_length_eq_zero (by omega)
    simp [hnil] at hdigit
  -- and short enough not to be cut
  have htake : name.take nameMax = name :=
    List.take_of_length_le (le_trans hlen (by decide))
  have hvalid : ¬ (dir.vnodeVtype ≠ .VDIR ∨ name.length < 1) := by
    rintro (h | h)
    · exact h hvdir
    · exact hne h
  have hoid : ¬ ¬ dir.OidRegistered w.oids :=
    not_not_intro ((layoutOk_of_mem htree hdir).isDir hs hvdir w.oids).registered
  rw [procfsVnopLookup, if_neg hvalid, if_neg hdots.1, if_neg hdots.2, if_neg hoid, htake, hmatch]

/-! ## Walks -/

/-- The nodes a caller reaches from the root by successful lookups while the
process table stays as it is. Everything else may change between two lookups:
other callers enter and remove nodes, allocations fail, the spoofed release is
set. -/
inductive Walk (procs : ProcTable) (c : Caller) : Pfsnode → Prop
  | root (w : World) {pnp : Pfsnode} (h : IsRoot w c pnp) : Walk procs c pnp
  | lookup (w : World) (table : List Pfsnode) {dir pnp : Pfsnode} (name : CString)
      (env : VnodeEnv) (hdir : Walk procs c dir) (hprocs : w.procs = procs)
      (h : (procfsVnopLookup w c table dir name env).1 = .ok pnp) : Walk procs c pnp

/-- A caller that is not root, on a mount with process permissions, only ever
reaches nodes of no process and nodes of processes it may access. -/
theorem walk_pidAllowed {procs : ProcTable} {c : Caller} {pnp : Pfsnode}
    (hcred : vfsContextSuser c.cred = false)
    (hflags : c.pmp.pmntFlags &&& procfsMoptNoprocperms = 0) (h : Walk procs c pnp) :
    pnp.nodeId.nodeidPid = prnodeNoPid ∨
    ∃ p, procs.procFind pnp.nodeId.nodeidPid = some p ∧
      procfsCheckCanAccessProcess c.cred p = none := by
  have hcheck := Caller.checkAccess_of hcred hflags
  induction h with
  | root w h =>
    rw [h.id_eq]
    exact Or.inl rfl
  | lookup w table name env hdir hprocs h ih =>
    subst hprocs
    exact procfsVnopLookup_allowed hcheck ih h

/-- The owner of the shell walks to `/proc/7`. -/
theorem walk_pidAllowed_owner :
    ∃ pnp, Walk shWorld.procs (userCaller 501) pnp ∧ pnp.nodeId.nodeidPid = 7 ∧
      PidAllowed shWorld.procs (userCaller 501).cred pnp.nodeId.nodeidPid := by
  have hroot : Walk shWorld.procs (userCaller 501)
      ⟨1, procfsRootNodeId, ⟨0, 0, .root, cstr "/", 1, 0, none⟩, 0, .VDIR⟩ :=
    Walk.root shWorld ⟨rfl, rfl, by decide +kernel, rfl⟩
  have hproc : Walk shWorld.procs (userCaller 501)
      ⟨1, ⟨7, 0, 114⟩, ⟨0, 113, .proc, cstr "__Process__", 114, psnFlagProcess, some 0⟩,
        0, .VDIR⟩ :=
    Walk.lookup shWorld [] (cstr "7") ⟨true, none, none⟩ hroot rfl (by decide +kernel)
  exact ⟨_, hproc, rfl, walk_pidAllowed rfl (by decide) hproc⟩

end ProcFS
