import ProcFS.Listing

/-!
# ProcFS.NonInterference — what a caller cannot tell apart

On a mount with process permissions, a caller that is not root learns nothing
about the processes it may not access: two process tables that agree on the
others give the same answers to every sequence of lookups and directory reads
that starts at the root. The argument is a simulation of two sessions in lock
step. It rests on the walk invariant of `ProcFS.Lookup`: every directory the
caller can get hold of belongs to no process or to one it may access, so the
two tables agree on the process of that directory; and where a lookup asks for
another process by number, a process that is refused answers like one that is
not there.

* `procfsVnopLookup_agree`: a lookup does not depend on the processes that are refused.
* `procfsVnopReaddir_agree`: neither does a directory read.
* `observe_noninterference`: so no session does.
-/

namespace ProcFS

/-! ## Process tables that agree -/

/-- The process found under a pid, if the credential may access it. -/
def accessibleProc (procs : ProcTable) (cred : Cred) (pid : Int32) : Option Proc :=
  (procs.procFind pid).filter fun p => procfsCheckCanAccessProcess cred p == none

/-- Two process tables have the same accessible processes. -/
def AgreeOnAccessible (cred : Cred) (procs procs' : ProcTable) : Prop :=
  ∀ p, procfsCheckCanAccessProcess cred p = none →
    (procs.procFind p.pPid = some p ↔ procs'.procFind p.pPid = some p)

theorem accessibleProc_eq_some {procs : ProcTable} {cred : Cred} {pid : Int32} {p : Proc} :
    accessibleProc procs cred pid = some p ↔
      procs.procFind pid = some p ∧ procfsCheckCanAccessProcess cred p = none := by
  simp [accessibleProc, Option.filter_eq_some_iff]

namespace AgreeOnAccessible

variable {cred : Cred} {procs procs' : ProcTable}

theorem symm (h : AgreeOnAccessible cred procs procs') : AgreeOnAccessible cred procs' procs :=
  fun p hp => (h p hp).symm

theorem procFind_of (h : AgreeOnAccessible cred procs procs') {pid : Int32} {p : Proc}
    (hp : procfsCheckCanAccessProcess cred p = none) (hfind : procs.procFind pid = some p) :
    procs'.procFind pid = some p := by
  have hpid := procs.pid_eq pid p hfind
  rw [← hpid] at hfind ⊢
  exact (h p hp).mp hfind

theorem accessibleProc_eq (h : AgreeOnAccessible cred procs procs') (pid : Int32) :
    accessibleProc procs cred pid = accessibleProc procs' cred pid := by
  apply Option.ext
  intro p
  rw [accessibleProc_eq_some, accessibleProc_eq_some]
  constructor
  · rintro ⟨hfind, hp⟩
    exact ⟨h.procFind_of hp hfind, hp⟩
  · rintro ⟨hfind, hp⟩
    exact ⟨h.symm.procFind_of hp hfind, hp⟩

/-- The tables agree on the process of every directory the caller can hold. -/
theorem procFind_eq (h : AgreeOnAccessible cred procs procs') {pid : Int32}
    (hpid : PidAllowed procs cred pid) : procs.procFind pid = procs'.procFind pid := by
  rcases hpid with rfl | ⟨p, hfind, hp⟩
  · rw [ProcTable.procFind_noPid, ProcTable.procFind_noPid]
  · rw [hfind, h.procFind_of hp hfind]

end AgreeOnAccessible

/-! ## Lookup -/

section Lookup

variable {w : World} {procs' : ProcTable} {c : Caller} {dir : Pfsnode}

/-- A process that is refused answers like one that is not there. -/
theorem lookupProc_accessible (hcheck : c.checkAccess = true) {s : Pfssnode}
    (htype : s.psnNodeType ≠ .thread) (name : CString) (id : Int32) :
    lookupProc w c dir name s id =
      match accessibleProc w.procs c.cred id with
      | none => .error .ENOENT
      | some p =>
        if s.psnNodeType = .procnamedir ∧ name ≠ procfsConstructProcessDirName p then
          .error .ENOENT
        else .ok (some (s, procMatchId dir s id)) := by
  have hpid : (procMatchId dir s id).nodeidPid = id := by
    rw [procMatchId, if_neg htype]
  rw [lookupProc, hpid]
  cases hfind : w.procs.procFind id with
  | none =>
    have hnone : accessibleProc w.procs c.cred id = none := by simp [accessibleProc, hfind]
    rw [hnone]
  | some p =>
    by_cases hp : procfsCheckCanAccessProcess c.cred p = none
    · rw [accessibleProc_eq_some.mpr ⟨hfind, hp⟩]
      simp [hp, htype]
    · have hnone : accessibleProc w.procs c.cred id = none := by
        simp [accessibleProc, hfind, hp]
      rw [hnone]
      simp [hp, hcheck]

variable (hcheck : c.checkAccess = true) (hagree : AgreeOnAccessible c.cred w.procs procs')
  (hdir : PidAllowed w.procs c.cred dir.nodeId.nodeidPid)
include hagree hdir

theorem lookupFd_agree (s : Pfssnode) (id : Int32) :
    lookupFd w dir s id = lookupFd { w with procs := procs' } dir s id := by
  have hfds : hasFd w dir.nodeId.nodeidPid id =
      hasFd { w with procs := procs' } dir.nodeId.nodeidPid id := by
    simp only [hasFd, hagree.procFind_eq hdir]
  rw [lookupFd, lookupFd, hfds]

include hcheck

theorem lookupProc_agree (name : CString) (s : Pfssnode) (id : Int32) :
    lookupProc w c dir name s id = lookupProc { w with procs := procs' } c dir name s id := by
  by_cases htype : s.psnNodeType = .thread
  · -- a thread of the directory's own process
    have hpid : (procMatchId dir s id).nodeidPid = dir.nodeId.nodeidPid := by
      rw [procMatchId, if_pos htype]
    simp only [lookupProc, hpid, hagree.procFind_eq hdir]
    rfl
  · rw [lookupProc_accessible hcheck htype, lookupProc_accessible hcheck htype,
      hagree.accessibleProc_eq id]

theorem lookupLoop_agree (name : CString) (children : List Pfssnode) :
    lookupLoop w c dir name children =
      lookupLoop { w with procs := procs' } c dir name children := by
  induction children with
  | nil => rfl
  | cons s rest ih =>
    simp only [lookupLoop, lookupNumber, ih, lookupFd_agree hagree hdir,
      lookupProc_agree hcheck hagree hdir]

theorem lookupMatch_agree (name : CString) :
    lookupMatch w c dir name = lookupMatch { w with procs := procs' } c dir name := by
  simp only [lookupMatch, lookupLoop_agree hcheck hagree hdir]

/-- A lookup in a directory the caller may hold does not depend on the other
processes. -/
theorem procfsVnopLookup_agree (table : List Pfsnode) (name : CString) (env : VnodeEnv) :
    procfsVnopLookup w c table dir name env =
      procfsVnopLookup { w with procs := procs' } c table dir name env := by
  simp only [procfsVnopLookup, lookupMatch_agree hcheck hagree hdir, dotDotId, dotDotSnode]

end Lookup

/-! ## Readdir -/

section Readdir

variable {w : World} {procs' : ProcTable} {c : Caller} {dir : Pfsnode}

/-- The pid scan collects, and counts, accessible processes only. -/
theorem getPidsLoop_accessible (procs : ProcTable) (cred : Cred) (n pid count : ℕ) :
    getPidsLoop procs (some cred) (n + 1) pid count =
      if count < procfsMaxProcs then
        match accessibleProc procs cred (Int32.ofNat pid) with
        | some _ => Int32.ofNat pid :: getPidsLoop procs (some cred) n (pid + 1) (count + 1)
        | none => getPidsLoop procs (some cred) n (pid + 1) count
      else [] := by
  rw [getPidsLoop]
  split
  · cases hfind : procs.procFind (Int32.ofNat pid) with
    | none =>
      have hnone : accessibleProc procs cred (Int32.ofNat pid) = none := by
        simp [accessibleProc, hfind]
      rw [hnone]
    | some p =>
      by_cases hp : procfsCheckCanAccessProcess cred p = none
      · rw [accessibleProc_eq_some.mpr ⟨hfind, hp⟩]
        simp [pidVisible, hp]
      · have hnone : accessibleProc procs cred (Int32.ofNat pid) = none := by
          simp [accessibleProc, hfind, hp]
        rw [hnone]
        simp [pidVisible, hp]
  · rfl

theorem getPidsLoop_agree {cred : Cred} {procs procs' : ProcTable}
    (hagree : AgreeOnAccessible cred procs procs') (n pid count : ℕ) :
    getPidsLoop procs (some cred) n pid count = getPidsLoop procs' (some cred) n pid count := by
  induction n generalizing pid count with
  | zero => rfl
  | succ n ih =>
    rw [getPidsLoop_accessible, getPidsLoop_accessible, hagree.accessibleProc_eq, ih, ih]

theorem sysctlReaddirLoop_agree (w : World) (procs' : ProcTable) (dir : Pfsnode)
    (startpos n index : ℕ) (p : Page Direntry) :
    sysctlReaddirLoop w dir startpos n index p =
      sysctlReaddirLoop { w with procs := procs' } dir startpos n index p := by
  induction n generalizing index p with
  | zero => rfl
  | succ n ih => simp only [sysctlReaddirLoop, ih]

variable (hcheck : c.checkAccess = true) (hagree : AgreeOnAccessible c.cred w.procs procs')
  (hdir : PidAllowed w.procs c.cred dir.nodeId.nodeidPid)
include hagree

include hcheck in
theorem pidEntries_agree (s : Pfssnode) :
    pidEntries w c s = pidEntries { w with procs := procs' } c s := by
  have hpids : procfsGetPids w.procs w.mem (some c.cred) =
      procfsGetPids procs' w.mem (some c.cred) := by
    unfold procfsGetPids
    rw [getPidsLoop_agree hagree]
  simp only [pidEntries, hcheck, if_true]
  rw [← hpids]
  apply List.filterMap_congr
  intro pid hpid
  -- a listed pid is that of an accessible process, which both tables have
  have hallowed : PidAllowed w.procs c.cred pid := by
    unfold procfsGetPids at hpid
    split at hpid
    · obtain ⟨p, hp, hv⟩ := getPidsLoop_visible hpid
      exact Or.inr ⟨p, hp, by simpa [pidVisible] using hv⟩
    · cases hpid
  have hname : pidName w s.psnNodeType pid =
      pidName { w with procs := procs' } s.psnNodeType pid := by
    simp only [pidName, hagree.procFind_eq hallowed]
  rw [hname]

include hdir

theorem dirVisible_agree :
    dirVisible w c dir = dirVisible { w with procs := procs' } c dir := by
  simp only [dirVisible, procfsCheckCanAccessProcPid, hagree.procFind_eq hdir]

theorem readdirThreads_agree (startpos : ℕ) (s : Pfssnode) (p : Page Direntry) :
    readdirThreads w dir startpos s p =
      readdirThreads { w with procs := procs' } dir startpos s p := by
  simp only [readdirThreads, hagree.procFind_eq hdir]

theorem readdirFds_agree (startpos : ℕ) (s : Pfssnode) (p : Page Direntry) :
    readdirFds w dir startpos s p = readdirFds { w with procs := procs' } dir startpos s p := by
  simp only [readdirFds, hagree.procFind_eq hdir, listedFds]

include hcheck

theorem readdirLoop_agree (startpos : ℕ) (children : List Pfssnode) (p : Page Direntry) :
    readdirLoop w c dir startpos children p =
      readdirLoop { w with procs := procs' } c dir startpos children p := by
  induction children generalizing p with
  | nil => rfl
  | cons s rest ih =>
    have hstatic : staticEntry w dir s = staticEntry { w with procs := procs' } dir s := rfl
    simp only [readdirLoop, readdirPids, ih, hstatic, pidEntries_agree hcheck hagree,
      dirVisible_agree hagree hdir, readdirThreads_agree hagree hdir, readdirFds_agree hagree hdir]

/-- A directory read does not depend on the other processes. -/
theorem procfsVnopReaddir_agree (startpos room : ℕ) :
    procfsVnopReaddir w c dir startpos room =
      procfsVnopReaddir { w with procs := procs' } c dir startpos room := by
  simp only [procfsVnopReaddir, procfsSysctlReaddir, sysctlReaddirLoop_agree w procs',
    readdirLoop_agree hcheck hagree hdir, sysctlRounds]

end Readdir

/-! ## Sessions -/

/-- What a caller can do with the nodes it holds: look up a name in one of them,
or read one of them at any offset with any buffer. -/
inductive Op where
  | lookup (handle : ℕ) (name : CString) (env : VnodeEnv)
  | readdir (handle : ℕ) (startpos room : ℕ)

/-- What the caller sees of it: the id of the node it got, or the error; the reply
of a directory read; nothing at all if the call never returned. -/
inductive Obs where
  | node (r : Reply PfsId)
  | dir (r : Option ReaddirReply)
  | noHandle
deriving DecidableEq, Repr

/-- A session: the table of nodes, and the nodes the caller holds. -/
structure Session where
  table : List Pfsnode
  handles : List Pfsnode

/-- One operation of a session. A node that was looked up is held from then on. -/
def Session.step (w : World) (c : Caller) (st : Session) : Op → Session × Obs
  | .lookup i name env =>
    match st.handles[i]? with
    | none => (st, .noHandle)
    | some dir =>
      match procfsVnopLookup w c st.table dir name env with
      | (.ok pnp, table) => (⟨table, st.handles ++ [pnp]⟩, .node (.ok pnp.nodeId))
      | (.error e, table) => (⟨table, st.handles⟩, .node (.error e))
      | (.panic, table) => (⟨table, st.handles⟩, .node .panic)
  | .readdir i startpos room =>
    match st.handles[i]? with
    | none => (st, .noHandle)
    | some dir => (st, .dir (procfsVnopReaddir w c dir startpos room))

/-- What the caller sees of a sequence of operations. -/
def Session.observe (w : World) (c : Caller) : Session → List Op → List Obs
  | _, [] => []
  | st, op :: ops => (st.step w c op).2 :: Session.observe w c (st.step w c op).1 ops

/-- Every node the caller holds belongs to no process or to one it may access. -/
def Session.Allowed (w : World) (c : Caller) (st : Session) : Prop :=
  ∀ pnp ∈ st.handles, PidAllowed w.procs c.cred pnp.nodeId.nodeidPid

/-- An operation takes both sessions to the same state with the same observation. -/
theorem Session.step_agree {w : World} {procs' : ProcTable} {c : Caller}
    (hcheck : c.checkAccess = true) (hagree : AgreeOnAccessible c.cred w.procs procs')
    {st : Session} (hst : st.Allowed w c) (op : Op) :
    st.step w c op = st.step { w with procs := procs' } c op := by
  cases op with
  | lookup i name env =>
    cases hdir : st.handles[i]? with
    | none => simp only [Session.step, hdir]
    | some dir =>
      have hallowed := hst dir (List.mem_of_getElem? hdir)
      simp only [Session.step, hdir, procfsVnopLookup_agree hcheck hagree hallowed]
  | readdir i startpos room =>
    cases hdir : st.handles[i]? with
    | none => simp only [Session.step, hdir]
    | some dir =>
      have hallowed := hst dir (List.mem_of_getElem? hdir)
      simp only [Session.step, hdir, procfsVnopReaddir_agree hcheck hagree hallowed]

/-- The nodes held stay allowed. -/
theorem Session.Allowed.step {w : World} {c : Caller} (hcheck : c.checkAccess = true)
    {st : Session} (hst : st.Allowed w c) (op : Op) : (st.step w c op).1.Allowed w c := by
  cases op with
  | lookup i name env =>
    simp only [Session.step]
    split
    · exact hst
    · rename_i dir hdir
      split
      · rename_i pnp table hlookup
        have hpnp := procfsVnopLookup_allowed hcheck (hst dir (List.mem_of_getElem? hdir))
          (congrArg Prod.fst hlookup)
        intro pnp' hpnp'
        rcases List.mem_append.mp hpnp' with hold | hnew
        · exact hst pnp' hold
        · rw [List.mem_singleton] at hnew
          subst hnew
          exact hpnp
      · exact hst
      · exact hst
  | readdir i startpos room =>
    simp only [Session.step]
    split <;> exact hst

/-- Noninterference. A caller that is not root, on a mount with process
permissions, that starts with the root directory, sees the same under any two
process tables that agree on the processes it may access. -/
theorem observe_noninterference {w : World} {procs' : ProcTable} {c : Caller}
    (hcred : vfsContextSuser c.cred = false)
    (hflags : c.pmp.pmntFlags &&& procfsMoptNoprocperms = 0)
    (hagree : AgreeOnAccessible c.cred w.procs procs') {root : Pfsnode} (hroot : IsRoot w c root)
    (table : List Pfsnode) (ops : List Op) :
    Session.observe w c ⟨table, [root]⟩ ops =
      Session.observe { w with procs := procs' } c ⟨table, [root]⟩ ops := by
  have hcheck := Caller.checkAccess_of hcred hflags
  have hinit : (Session.mk table [root]).Allowed w c := by
    intro pnp hpnp
    rw [List.mem_singleton] at hpnp
    rw [hpnp, hroot.id_eq]
    exact Or.inl rfl
  generalize Session.mk table [root] = st at hinit
  induction ops generalizing st with
  | nil => rfl
  | cons op ops ih =>
    rw [Session.observe, Session.observe, ← Session.step_agree hcheck hagree hinit op]
    exact congrArg _ (ih _ (hinit.step hcheck op))

/-- User 502 cannot tell a shell of user 501 from a daemon of user 503. -/
theorem observe_noninterference_shell :
    Session.observe shWorld (userCaller 502)
        ⟨[], [⟨1, procfsRootNodeId, ⟨0, 0, .root, cstr "/", 1, 0, none⟩, 0, .VDIR⟩]⟩
        [.lookup 0 (cstr "7") ⟨true, none, none⟩, .lookup 0 (cstr "9") ⟨true, none, none⟩,
         .readdir 0 0 4096] =
      Session.observe { shWorld with
          procs := ProcTable.single ⟨9, cstr "d", 503, 503, 30, 30, .ok [21], .ok []⟩ (by decide) }
        (userCaller 502) ⟨[], [⟨1, procfsRootNodeId, ⟨0, 0, .root, cstr "/", 1, 0, none⟩, 0,
          .VDIR⟩]⟩
        [.lookup 0 (cstr "7") ⟨true, none, none⟩, .lookup 0 (cstr "9") ⟨true, none, none⟩,
         .readdir 0 0 4096] := by
  refine observe_noninterference rfl (by decide) ?_ ⟨rfl, rfl, by decide +kernel, rfl⟩ _ _
  intro p hp
  have hsingle : ∀ (q : Proc) (hq : 0 ≤ q.pPid),
      procfsCheckCanAccessProcess (userCaller 502).cred q ≠ none →
      (ProcTable.single q hq).procFind p.pPid ≠ some p := by
    intro q hq hrefused hfind
    have hqp : q = p := ((Option.ite_none_right_eq_some).mp hfind).2 |> Option.some.inj
    rw [hqp] at hrefused
    exact hrefused hp
  constructor
  · intro h
    exact absurd h (hsingle shProc (by decide) (by decide))
  · intro h
    exact absurd h (hsingle _ _ (by decide))

end ProcFS
