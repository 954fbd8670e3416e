import ProcFS.ProcRefs

/-!
# ProcFS.ProcRefs.Values — what the calls return

Where the same processes are there during a whole call, and nothing goes wrong
in `uiomove`, lookup, readdir and the size functions of `ProcFS.ProcRefs` return
what those of the other modules return. So what these say about results is about
the same code, whose references `ProcFS.ProcRefs` accounts for.

* `returns_vnopLookup`: lookup returns the same in both models.
* `returns_vnopReaddir`: so does readdir.
* `returns_getNodeSizeAttr`: and so does the size of a node.
-/

namespace ProcFS.ProcRefs

open Lib

section Values

variable {w : World} {c : Caller} {dir : Pfsnode}

/-- The processes of a world, all the time. -/
def still (w : World) : Procs := fun _ => w.procs

/-- No record is refused. -/
def noFault : Uiomove := fun _ => none

theorem returns_procFind (pid : Int32) :
    Returns (procFind (still w) pid) (w.procs.procFind pid) :=
  Returns.find w.procs.procFind pid

/-- A process that is looked for: `b` is what comes of it. -/
theorem returns_bracket {α : Type} {pid : Int32} {body : Option Proc → Refs α} {b : α}
    (h : Returns (body (w.procs.procFind pid)) b) :
    Returns (procFind (still w) pid >>= body) b :=
  Returns.bind (returns_procFind pid) h

theorem returns_rele {α : Type} {p : Proc} {m : Refs α} {a : α} (h : Returns m a) :
    Returns (procRele p >>= fun _ => m) a :=
  Returns.bind (Returns.rele p) h

theorem returns_checkCanAccessProcPid (creds : Cred) (pid : Int32) :
    Returns (procfsCheckCanAccessProcPid (still w) creds pid)
      (ProcFS.procfsCheckCanAccessProcPid w.procs creds pid) := by
  refine returns_bracket ?_
  rw [ProcFS.procfsCheckCanAccessProcPid]
  cases w.procs.procFind pid with
  | none => exact Returns.pure _
  | some p => exact returns_rele (Returns.pure _)

theorem returns_getPidsLoop (creds : Option Cred) (n pid count : ℕ) :
    Returns (getPidsLoop (still w) creds n pid count)
      (ProcFS.getPidsLoop w.procs creds n pid count) := by
  induction n generalizing pid count with
  | zero => exact Returns.pure _
  | succ n ih =>
    rw [getPidsLoop, ProcFS.getPidsLoop]
    split_ifs
    · refine returns_bracket ?_
      cases w.procs.procFind (Int32.ofNat pid) with
      | none => exact ih _ _
      | some p =>
        refine returns_rele ?_
        dsimp only
        split_ifs
        · exact Returns.bind (ih _ _) (Returns.pure _)
        · exact ih _ _
    · exact Returns.pure _

theorem returns_getPids (creds : Option Cred) :
    Returns (procfsGetPids (still w) w.mem creds)
      (ProcFS.procfsGetPids w.procs w.mem creds) := by
  rw [procfsGetPids, ProcFS.procfsGetPids]
  split_ifs
  · exact returns_getPidsLoop creds _ _ _
  · exact Returns.pure _

/-! ## Lookup -/

/-- The loop finds the match, with whatever process in `target_proc`. -/
def Finds (m : Refs (Option Proc × Match)) (found : Match) : Prop :=
  ∃ targetProc, Returns m (targetProc, found)

theorem finds_return (targetProc : Option Proc) (found : Match) :
    Finds (pure (targetProc, found)) found :=
  ⟨targetProc, Returns.pure _⟩

theorem finds_bracket {pid : Int32} {body : Option Proc → Refs (Option Proc × Match)}
    {found : Match} (h : Finds (body (w.procs.procFind pid)) found) :
    Finds (procFind (still w) pid >>= body) found := by
  obtain ⟨targetProc, h⟩ := h
  exact ⟨targetProc, returns_bracket h⟩

theorem hasFd_eq (pid id : Int32) :
    hasFd w pid id = (w.procs.procFind pid).any fun p => isOpen w p id := by
  rw [hasFd]
  cases w.procs.procFind pid with
  | none => rfl
  | some p => rfl

theorem finds_lookupFd (s : Pfssnode) (id : Int32) :
    Finds (lookupFd (still w) w dir s id) (ProcFS.lookupFd w dir s id) := by
  rw [lookupFd, ProcFS.lookupFd, hasFd_eq]
  by_cases hid : id ≠ -1
  · rw [if_pos hid]
    refine finds_bracket ?_
    by_cases hopen : ((w.procs.procFind dir.nodeId.nodeidPid).any fun p => isOpen w p id) = true
    · rw [if_pos hopen, if_pos ⟨hid, hopen⟩]
      exact finds_return _ _
    · rw [if_neg hopen, if_neg fun h => hopen h.2]
      exact finds_return _ _
  · rw [if_neg hid, if_neg fun h => hid h.1]
    exact finds_return none _

theorem finds_lookupProc (name : CString) (s : Pfssnode) (id : Int32) :
    Finds (lookupProc (still w) w c dir name s id) (ProcFS.lookupProc w c dir name s id) := by
  refine finds_bracket ?_
  rw [ProcFS.lookupProc]
  cases w.procs.procFind (procMatchId dir s id).nodeidPid with
  | none => exact finds_return none _
  | some p =>
    dsimp only
    split_ifs
    all_goals exact finds_return (some p) _

theorem finds_lookupNumber (name : CString) (s : Pfssnode) {next : Refs (Option Proc × Match)}
    {found : Match} (hnext : Finds next found) :
    Finds (lookupNumber (still w) w c dir name s next)
      (ProcFS.lookupNumber w c dir name s found) := by
  rw [lookupNumber, ProcFS.lookupNumber]
  split_ifs
  · exact hnext
  · exact finds_lookupProc name s _
  · exact hnext

theorem finds_lookupLoop (name : CString) (children : List Pfssnode) :
    Finds (lookupLoop (still w) w c dir name children)
      (ProcFS.lookupLoop w c dir name children) := by
  induction children with
  | nil => exact finds_return none _
  | cons s rest ih =>
    rw [lookupLoop, ProcFS.lookupLoop]
    split_ifs
    · exact ih
    · exact finds_return none _
    · cases s.psnNodeType with
      | fd => exact finds_lookupFd s _
      -- the rest of the loop is tried where the name is no number
      | proc | procnamedir | thread => exact finds_lookupNumber name s ih
      | _ => exact ih

theorem returns_lookupMatch (name : CString) :
    Returns (lookupMatch (still w) w c dir name) (ProcFS.lookupMatch w c dir name) := by
  have htarget : Finds (lookupTarget (still w) w c dir name) (ProcFS.lookupMatch w c dir name) := by
    unfold lookupTarget ProcFS.lookupMatch
    dsimp only
    split_ifs
    · exact finds_return none _
    · exact finds_lookupLoop name _
  obtain ⟨targetProc, htarget⟩ := htarget
  exact Returns.bind htarget (Returns.bind (Returns.rele? targetProc) (Returns.pure _))

/-- Lookup. -/
theorem returns_vnopLookup (table : List Pfsnode) (cname : CString) (env : VnodeEnv) :
    Returns (procfsVnopLookup (still w) w c dir table cname env)
      (ProcFS.procfsVnopLookup w c table dir cname env) := by
  rw [procfsVnopLookup, ProcFS.procfsVnopLookup]
  split_ifs
  · exact Returns.pure _
  · exact Returns.pure _
  · cases env.vnodeGet with
    | none => exact Returns.pure _
    | some e => exact Returns.pure _
  · refine Returns.bind (returns_lookupMatch _) ?_
    rcases ProcFS.lookupMatch w c dir (cname.take nameMax) with e | _ | ⟨s, nodeId⟩
    all_goals exact Returns.pure _
  · -- a stale oid
    exact Returns.pure _

/-! ## Readdir -/

section Readdir

variable {startpos : ℕ}

theorem copyout_noFault (e : Entry) (p : Page Direntry) :
    copyout noFault startpos e p =
      ((direntFormat.put startpos e p).1, none, (direntFormat.put startpos e p).2) := by
  unfold copyout noFault
  dsimp only
  split_ifs
  · rfl
  · rfl

theorem copyoutAll_noFault (es : List Entry) (p : Page Direntry) :
    copyoutAll noFault startpos es p =
      ((direntFormat.putAll startpos es p).1, none, (direntFormat.putAll startpos es p).2) := by
  induction es generalizing p with
  | nil => rfl
  | cons e es ih =>
    rw [copyoutAll, copyout_noFault, RecordFormat.putAll]
    rcases direntFormat.put startpos e p with ⟨p', _ | _⟩
    · rfl
    · exact ih p'

theorem returns_dirVisible : Returns (dirVisible (still w) c dir) (ProcFS.dirVisible w c dir) := by
  rw [dirVisible, ProcFS.dirVisible]
  split_ifs with h
  · rw [h]
    exact Returns.pure _
  · rw [Bool.not_eq_true] at h
    rw [h, Bool.false_or]
    exact Returns.bind (returns_checkCanAccessProcPid _ _) (Returns.pure _)

theorem returns_pidName (type : PfsType) (pid : Int32) :
    Returns (pidName (still w) type pid) (ProcFS.pidName w type pid) := by
  rw [pidName, ProcFS.pidName]
  split_ifs
  · refine returns_bracket ?_
    cases w.procs.procFind pid with
    | none => exact Returns.pure _
    | some p => exact returns_rele (Returns.pure _)
  · exact Returns.pure _

/-- The entry of a pid, if it has a name. -/
def pidEntry (w : World) (s : Pfssnode) (pid : Int32) : Option Entry :=
  (ProcFS.pidName w s.psnNodeType pid).map fun name =>
    ⟨Vtype.VDIR.toNat, procfsGetFileid pid prnodeNoObjectid s.psnBaseNodeId, name⟩

/-- The loop over the pids emits the entries of the pids that have a name. -/
theorem returns_readdirPidLoop (s : Pfssnode) (pids : List Int32) (p : Page Direntry) :
    Returns (readdirPidLoop (still w) noFault startpos s pids p)
      (copyoutAll noFault startpos (pids.filterMap (pidEntry w s)) p) := by
  induction pids generalizing p with
  | nil => exact Returns.pure _
  | cons pid pids ih =>
    refine Returns.bind (returns_pidName _ _) ?_
    rw [List.filterMap_cons, pidEntry]
    cases ProcFS.pidName w s.psnNodeType pid with
    -- a process that is gone by now is left out
    | none => exact ih p
    | some name =>
      simp only [Option.map_some, copyoutAll]
      rcases copyout noFault startpos _ p with ⟨p', error, _ | _⟩
      · exact Returns.pure _
      · exact ih p'

theorem returns_readdirPids (s : Pfssnode) (last : Bool) (p : Page Direntry) :
    Returns (readdirPids (still w) w c noFault startpos s last p)
      (ProcFS.readdirPids w c startpos s last p) := by
  refine Returns.bind (returns_getPids _) (Returns.bind (returns_readdirPidLoop s _ p) ?_)
  rw [copyoutAll_noFault]
  exact Returns.pure _

theorem returns_readdirThreads (s : Pfssnode) (p : Page Direntry) :
    Returns (readdirThreads (still w) w dir noFault startpos s p)
      (ProcFS.readdirThreads w dir startpos s p) := by
  refine returns_bracket ?_
  rw [ProcFS.readdirThreads]
  cases w.procs.procFind dir.nodeId.nodeidPid with
  | none => exact Returns.pure _
  | some proc =>
    refine returns_rele ?_
    dsimp only
    cases procfsGetThreadIdsForTask w.mem proc with
    | error e => exact Returns.pure _
    | ok ids =>
      dsimp only
      rw [copyoutAll_noFault]
      exact Returns.pure _

theorem returns_readdirFds (s : Pfssnode) (p : Page Direntry) :
    Returns (readdirFds (still w) w dir noFault startpos s p)
      (ProcFS.readdirFds w dir startpos s p) := by
  refine returns_bracket ?_
  rw [ProcFS.readdirFds]
  cases w.procs.procFind dir.nodeId.nodeidPid with
  | none => exact Returns.pure _
  | some proc =>
    refine returns_rele ?_
    rw [copyoutAll_noFault]
    exact Returns.pure _

theorem returns_readdirLoop (children : List Pfssnode) (p : Page Direntry) :
    Returns (readdirLoop (still w) w c dir noFault startpos children p)
      (ProcFS.readdirLoop w c dir startpos children p) := by
  induction children generalizing p with
  | nil => exact Returns.pure _
  | cons s rest ih =>
    rw [readdirLoop, ProcFS.readdirLoop]
    split_ifs with hfull hhidden hvisible
    · exact Returns.pure _
    · exact ih p
    · refine Returns.bind returns_dirVisible ?_
      rw [if_pos hvisible]
      cases s.psnNodeType with
      | root => exact Returns.pure _
      | proc | procnamedir => exact Returns.bind (returns_readdirPids s _ p) (Returns.pure _)
      | thread => exact Returns.bind (returns_readdirThreads s p) (Returns.pure _)
      | fd => exact Returns.bind (returns_readdirFds s p) (Returns.pure _)
      | _ =>
        dsimp only
        rw [copyout_noFault]
        rcases direntFormat.put startpos (staticEntry w dir s) p with ⟨p', _ | _⟩
        · exact Returns.pure _
        · exact ih p'
    · refine Returns.bind returns_dirVisible ?_
      rw [if_neg hvisible]
      exact ih p

/-- Readdir. -/
theorem returns_vnopReaddir (room : ℕ) :
    Returns (procfsVnopReaddir (still w) w c dir noFault startpos room)
      (ProcFS.procfsVnopReaddir w c dir startpos room) := by
  rw [procfsVnopReaddir, ProcFS.procfsVnopReaddir]
  split_ifs
  · exact Returns.pure _
  · exact Returns.pure _
  · exact Returns.bind (returns_readdirLoop _ _) (Returns.pure _)

end Readdir

/-! ## The size of a node -/

section Size

variable {pnp : Pfsnode}

/-- A size function returns what `size` is for the process of the node. -/
theorem returns_nodeSize (size : Proc → ℕ) :
    Returns (nodeSize (still w) size pnp)
      (match w.procs.procFind pnp.nodeId.nodeidPid with
        | some p => size p
        | none => 0) := by
  refine returns_bracket ?_
  cases w.procs.procFind pnp.nodeId.nodeidPid with
  | none => exact Returns.pure _
  | some p => exact returns_rele (Returns.pure _)

/-- The same types have a size function in both models, and the same one. -/
theorem psnGetsizeFn_rel (type : PfsType) (creds : Cred) :
    Option.Rel (fun traced size => Returns (traced pnp) (size w pnp creds))
      (psnGetsizeFn (still w) w type) (ProcFS.psnGetsizeFn type) := by
  cases type with
  | proc | procnamedir | thread | fd => exact .some (returns_nodeSize _)
  | _ => exact .none

/-- The size from a size function, or `n` where there is none. -/
theorem returns_size {traced : Option (Pfsnode → Refs ℕ)}
    {size : Option (World → Pfsnode → Cred → ℕ)} {creds : Cred} (n : ℕ) :
    Option.Rel (fun traced size => Returns (traced pnp) (size w pnp creds)) traced size →
      Returns
        (match traced with
          | none => pure n
          | some nodeSizeFn => nodeSizeFn pnp)
        (match size with
          | none => n
          | some nodeSizeFn => nodeSizeFn w pnp creds) := by
  intro hrel
  cases hrel with
  | none => exact Returns.pure n
  | some h => exact h

theorem returns_childSize (s : Pfssnode) (creds : Cred) :
    Returns (childSize (still w) w pnp s) (ProcFS.childSize w pnp creds s) :=
  returns_size 1 (psnGetsizeFn_rel s.psnNodeType creds)

theorem returns_childrenSize (children : List Pfssnode) (creds : Cred) :
    Returns (childrenSize (still w) w pnp children)
      (children.map (ProcFS.childSize w pnp creds)).sum := by
  induction children with
  | nil => exact Returns.pure _
  | cons s rest ih =>
    rw [List.map_cons, List.sum_cons]
    exact Returns.bind (returns_childSize s creds) (Returns.bind ih (Returns.pure _))

/-- The size of a node, where the assertion on its structure node holds. -/
theorem returns_getNodeSizeAttr {psnNodeSize : Pfssnode → ℕ} {snode : Pfssnode} {creds : Cred}
    {size : ℕ} (hsnode : sizeSnode w.tree pnp.nodeStructureNode = some snode)
    (hsize : ProcFS.procfsGetNodeSizeAttr w psnNodeSize pnp creds = some size) :
    Returns (procfsGetNodeSizeAttr (still w) w psnNodeSize pnp snode) size := by
  rw [ProcFS.procfsGetNodeSizeAttr, hsnode, Option.map_some, Option.some_inj] at hsize
  rw [← hsize]
  unfold procfsGetNodeSizeAttr
  split_ifs
  · exact returns_childrenSize _ creds
  · exact returns_size _ (psnGetsizeFn_rel snode.psnNodeType creds)

end Size

end Values

end ProcFS.ProcRefs
