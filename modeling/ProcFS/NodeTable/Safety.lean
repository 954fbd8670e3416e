import Mathlib.Data.List.Find
import ProcFS.NodeTable.Reclaim

/-!
# ProcFS.NodeTable.Safety — what every interleaving keeps

The invariant survives every step, so it holds in every state that threads and
reclaims can reach, in whatever order they run. Two things follow that callers
depend on. The table never has two nodes for one key, and a successful call
returns the node of its key together with the vnode of that node. And no thread
sleeps for ever or wakes up to look at freed memory: a sleeper waits for a thread
that is attaching a vnode to the node, is woken when that thread is done, and
does not touch the node again unless it finds it in the table.

* `inv_runFrom`: the invariant holds in every state that is reached.
* `table_consistent`: one node for a key, and what a call returns.
* `sleepers_woken`: who sleeps, on what, and who will wake them.
-/

namespace ProcFS.NodeTable

open State

variable {N : ℕ}

/-! ## Every step keeps the invariant -/

theorem Inv.find {s : State N} {t : Fin N} {new slept : Option Addr} (h : Inv s)
    (hpc : s.pc t = .top new slept) : Inv (findSection s t new) := by
  cases hfound : s.lookup (s.keyOf t) with
  | some target =>
    rcases lookup_some hfound with ⟨htarget, hkey⟩
    simp only [findSection, hfound, useNode]
    split
    · rename_i hattaching
      exact h.wait hpc htarget hattaching
    · rename_i hattaching
      split
      · rename_i v hvnode
        exact h.tryGet hpc htarget hkey hvnode
      · -- a node of the table without a vnode is being attached
        rename_i hvnode
        rcases h.node target htarget with ⟨hp, -⟩ | ⟨v, hv⟩
        · exact absurd hp.attaching hattaching
        · rw [hv.vnode] at hvnode
          cases hvnode
  | none =>
    cases new with
    | none =>
      simp only [findSection, hfound]
      refine h.setPc (by rw [hpc]; rfl) (by rw [hpc]; rfl) ?_ (Or.inl rfl)
      exact threadOk_of_spare rfl rfl rfl rfl rfl (fun n hn => by cases hn)
    | some n =>
      rw [findSection_insert hfound]
      exact h.insert hpc hfound

/-- The callback fails: the thread still has its node to take back. -/
theorem Inv.createFail {s : State N} {t : Fin N} {n : Addr} {new : Option Addr} {e : Errno}
    (h : Inv s) (hpc : s.pc t = .creating n new) :
    Inv (s.setPc t (.created n new (.error e))) := by
  have hatt := (h.thread t).attaches
  have hspare := (h.thread t).spare
  rw [hpc] at hatt hspare
  refine h.setPc (by rw [hpc]; rfl) (by rw [hpc]; rfl) ?_ (Or.inr (by rw [hpc]; rfl))
  constructor
  case attaches => exact hatt
  case spare => exact hspare
  all_goals simp [Pc.slept, Pc.sleepsOn, Pc.answer, Pc.wants, Pc.gives]

theorem gives_returned (result : Result) (new : Option Addr) :
    (Pc.returned result).gives = (Pc.exiting result new).gives := by
  cases result <;> rfl

theorem Inv.exit {s : State N} {t : Fin N} {result : Result} {new : Option Addr} (h : Inv s)
    (hpc : s.pc t = .exiting result new) : Inv (exitSection s t result new) := by
  -- whether or not a node is freed, the thread returns what it was about to return
  have hreturn : ∀ s' : State N, SameTable s s' → s'.thread = s.thread →
      Inv (s'.setPc t (.returned result)) := by
    intro s' hst hthread
    have h' := h.of_sameTable hst hthread
    have hpc' : s'.pc t = .exiting result new := by
      rw [← hpc, State.pc, hthread, State.pc]
    refine h'.setPc (by rw [hpc']; rfl) (by rw [hpc']; rfl) ?_ (Or.inl rfl)
    constructor
    case gives =>
      intro n v hnv
      rw [gives_returned result new, ← hpc'] at hnv
      exact (h'.thread t).gives n v hnv
    all_goals simp [Pc.slept, Pc.sleepsOn, Pc.attaches, Pc.wants, Pc.spare, Pc.new]
  have hsame : SameTable s s := .of_mem_eq rfl rfl rfl rfl rfl (Nat.le_refl _)
  unfold exitSection
  -- the three ways through the section
  split
  · split
    · exact hreturn s hsame rfl
    · exact hreturn (s.osFree _) (.of_mem_eq rfl rfl rfl rfl rfl (Nat.le_refl _)) rfl
  · exact hreturn s hsame rfl

/-- A thread that has nothing in hand goes on with nothing in hand. -/
theorem Inv.setPc_empty {s : State N} {t : Fin N} {p : Pc} (h : Inv s)
    (hatt : (s.pc t).attaches = none) (hans : (s.pc t).answer = none)
    (hp : p = .idle ∨ p = .top none none ∨ p = .allocating ∨ ∃ e, p = .exiting (.error e) none) :
    Inv (s.setPc t p) := by
  have hempty : ∀ n, p.spare = some n → n < s.nextAddr ∧ ¬ s.InTable n := by
    intro n hn
    rcases hp with rfl | rfl | rfl | ⟨e, rfl⟩ <;> cases hn
  rcases hp with rfl | rfl | rfl | ⟨e, rfl⟩ <;>
    exact h.setPc hatt.symm hans.symm (threadOk_of_spare rfl rfl rfl rfl rfl hempty) (Or.inl rfl)

theorem Inv.step {s s' : State N} {a : Act N} (h : Inv s) (hstep : step s a = some s') :
    Inv s' := by
  -- each rule of the steps has its lemma
  cases step_rule hstep with
  | call r hpc => exact h.call hpc r
  | find hpc => exact h.find hpc
  | malloc hpc => exact h.allocated hpc
  | mallocFail hpc => exact h.setPc_empty (by rw [hpc]; rfl) (by rw [hpc]; rfl) (by simp)
  | get hpc hlive => exact h.got hpc hlive
  | getFail hpc => exact h.setPc_empty (by rw [hpc]; rfl) (by rw [hpc]; rfl) (by simp)
  | create hpc => exact h.create hpc
  | createFail e hpc => exact h.createFail hpc
  | @attach t target new answer hpc =>
    cases answer with
    | ok v => exact h.attachOk hpc
    | error e => exact h.attachFail hpc
  | exit hpc => exact h.exit hpc
  -- the reference that the caller keeps is a count on the vnode, which the invariant is not about
  | @leave t result hpc =>
    have hkept : Inv (s.keepIocount result) := by
      cases result with
      | ok r => exact h.of_sameTable (.of_mem_eq rfl rfl rfl rfl rfl (Nat.le_refl _)) rfl
      | error e => exact h
    have hpc' : (s.keepIocount result).pc t = .returned result := by
      cases result <;> exact hpc
    exact hkept.setPc_empty (by rw [hpc']; rfl) (by rw [hpc']; rfl) (by simp)
  | vnodeGet hlive => exact h.of_sameTable (.of_mem_eq rfl rfl rfl rfl rfl (Nat.le_refl _)) rfl
  | vnodePut hpos => exact h.of_sameTable (.of_mem_eq rfl rfl rfl rfl rfl (Nat.le_refl _)) rfl
  | reclaimStart hlive hholds => exact h.reclaimStart hlive hholds
  | reclaim hv => exact h.reclaim hv

/-- The invariant holds in every state that some interleaving reaches. -/
theorem inv_runFrom {mem : Addr → NodeRec} {request : Fin N → Request} {acts : List (Act N)}
    {s : State N} (h : runFrom mem request acts = some s) : Inv s :=
  run_invariant (inv_initial mem request) (fun _ _ _ hinv hstep => hinv.step hstep) h

/-! ## The table is a map from keys to nodes -/

/-- In every state that is reached, whatever the interleaving and whatever
fails: no two nodes of the table have the same key, each is in the bucket of its
hash, and those that no thread is attaching have a vnode. A call that has
succeeded returned the node of the table with the requested key, and the vnode
of that node. -/
theorem table_consistent {mem : Addr → NodeRec} {request : Fin N → Request}
    {acts : List (Act N)} {s : State N} (h : runFrom mem request acts = some s) :
    (∀ n n', s.InTable n → s.InTable n' → (s.mem n).key = (s.mem n').key → n = n') ∧
    (∀ b n, n ∈ s.buckets b → b = bucketOf (s.mem n).key) ∧
    (∀ n, s.InTable n → (s.mem n).nodeAttachingVnode = false → (s.mem n).nodeVnode ≠ none) ∧
    (∀ t n v, s.pc t = .returned (.ok (n, v)) →
      s.InTable n ∧ (s.mem n).key = s.keyOf t ∧ (s.mem n).nodeVnode = some v) := by
  have hinv := inv_runFrom h
  refine ⟨hinv.table.key_inj, hinv.table.bucket, ?_, ?_⟩
  · -- a node without a vnode is being attached
    intro n hn hattaching
    rcases hinv.node n hn with ⟨hp, -⟩ | ⟨v, hv⟩
    · rw [hp.attaching] at hattaching
      cases hattaching
    · rw [hv.vnode]
      exact Option.some_ne_none v
  · -- what a thread returns it may rely on
    intro t n v hpc
    rcases (hinv.thread t).gives n v (by rw [hpc]; rfl) with ⟨-, hv, hkey⟩
    exact ⟨hv.inTable, hkey, hv.vnode⟩

/-- Memory with arbitrary content. -/
def someMem : Addr → NodeRec := fun _ => ⟨⟨7, ⟨1, 1, 1⟩⟩, none, none, true, true⟩

/-- A request for the root of the first mount. -/
def rootRequest : Request := ⟨⟨0, procfsRootNodeId⟩, none⟩

/-- Two threads look for the same node. The second one finds it while the first
is creating the vnode, sleeps, and gets the same node and vnode. -/
def twoFinders : List (Act 2) :=
  [.call 0 rootRequest, .find 0, .osMalloc 0 true, .find 0,
    .call 1 rootRequest, .find 1, .createVnode 0 none, .attach 0, .exit 0,
    .find 1, .vnodeGetwithvid 1 true, .exit 1]

theorem table_consistent_twoFinders :
    ∃ s, runFrom someMem (fun _ => rootRequest) twoFinders = some s ∧
      s.pc 0 = .returned (.ok (0, 0)) ∧ s.pc 1 = .returned (.ok (0, 0)) ∧
      s.InTable 0 ∧ (s.mem 0).key = s.keyOf 1 ∧ (s.mem 0).nodeVnode = some 0 := by
  refine ⟨_, rfl, rfl, rfl, ?_⟩
  have hrun : runFrom someMem (fun _ => rootRequest) twoFinders = some _ := rfl
  exact (table_consistent hrun).2.2.2 1 0 0 rfl

/-! ## Sleeping and waking -/

/-- The walk along a bucket does not look at a node that is not in the table. -/
theorem lookup_setNode {s : State N} {n : Addr} (hn : ¬ s.InTable n) (f : NodeRec → NodeRec)
    (k : Key) : (s.setNode n f).lookup k = s.lookup k := by
  refine List.find?_congr ?_
  intro m hm
  have hne : m ≠ n := by
    rintro rfl
    exact hn ⟨_, hm⟩
  simp [State.setNode, hne]

theorem setNode_comm (s : State N) {n m : Addr} (hne : m ≠ n) (f g : NodeRec → NodeRec) :
    (s.setNode n f).setNode m g = (s.setNode m g).setNode n f := by
  simp [State.setNode, hne, hne.symm, Function.update_comm hne]

/-- Using one node neither reads nor writes another. -/
theorem useNode_setNode (s : State N) (t : Fin N) {n target : Addr} (new : Option Addr)
    (hne : target ≠ n) (f : NodeRec → NodeRec) :
    useNode (s.setNode n f) t target new = (useNode s t target new).setNode n f := by
  have hmem : (s.setNode n f).mem target = s.mem target := by
    simp [State.setNode, hne]
  unfold useNode
  rw [hmem]
  split
  · -- the three ways to use a node: sleep on it, get its vnode, attach a vnode
    rw [setNode_comm s hne]
    rfl
  · split
    · rfl
    · rw [setNode_comm s hne]
      rfl

/-- The loop body neither reads nor writes a node that is not in the table and
is not the one the thread brings along. -/
theorem findSection_setNode (s : State N) (t : Fin N) {n : Addr} {new : Option Addr}
    (hn : ¬ s.InTable n) (hnew : new ≠ some n) (f : NodeRec → NodeRec) :
    findSection (s.setNode n f) t new = (findSection s t new).setNode n f := by
  have hkey : (s.setNode n f).keyOf t = s.keyOf t := rfl
  unfold findSection
  rw [hkey, lookup_setNode hn]
  cases hfound : s.lookup (s.keyOf t) with
  -- the node that was found is in the table, so it is another one
  | some target =>
    have hne : target ≠ n := by
      rintro rfl
      exact hn (lookup_some hfound).1
    exact useNode_setNode s t new hne f
  | none =>
    cases new with
    | none => rfl
    -- the node that is entered is the one the thread brings along
    | some m =>
      have hne : m ≠ n := fun heq => hnew (congrArg some heq)
      have hinsert : (((s.setNode n f).setNode m fun _ => newNode (s.thread t).request).insertHead
            (bucketOf (s.keyOf t)) m) =
          ((s.setNode m fun _ => newNode (s.thread t).request).insertHead
            (bucketOf (s.keyOf t)) m).setNode n f := by
        rw [setNode_comm s hne]
        rfl
      exact (congrArg (useNode · t m (some m)) hinsert).trans (useNode_setNode _ t (some m) hne f)

/-- In every state that is reached, a thread asleep on a node waits for a node of
the table that is marked as being attached and as waited for, and exactly one
thread is attaching it. When that thread is done, with or without a vnode, every
sleeper is back at the top of the loop. There, if the node it slept on is not in
the table any more, its next step does the same whatever the memory of that node
holds, and leaves that memory as it is. -/
theorem sleepers_woken {mem : Addr → NodeRec} {request : Fin N → Request}
    {acts : List (Act N)} {s : State N} (h : runFrom mem request acts = some s) :
    (∀ t n new, s.pc t = .sleeping n new →
      s.InTable n ∧ (s.mem n).nodeAttachingVnode = true ∧
      (s.mem n).nodeThreadWaitingAttach = true ∧ ∃! u, (s.pc u).attaches = some n) ∧
    (∀ t n s', (s.pc t).attaches = some n → step s (.attach t) = some s' →
      ∀ u new, s.pc u = .sleeping n new → s'.pc u = .top new (some n)) ∧
    (∀ t n new, s.pc t = .top new (some n) → ¬ s.InTable n → ∀ r,
      step (s.setNode n fun _ => r) (.find t) =
        (step s (.find t)).map fun s' => s'.setNode n fun _ => r) := by
  have hinv := inv_runFrom h
  refine ⟨?_, ?_, ?_⟩
  · -- a thread that sleeps relies on a node that is being attached, by one thread
    intro t n new hpc
    rcases (hinv.thread t).sleeps n (by rw [hpc]; rfl) with ⟨hp, hwaiting⟩
    refine ⟨hp.inTable, hp.attaching, hwaiting, ?_⟩
    rcases hinv.node n hp.inTable with ⟨-, u, hu⟩ | ⟨v, hv⟩
    · exact hinv.attacher.existsUnique hu
    · exact absurd hv hp.not_attached
  · -- that thread has the node in hand when it attaches, and its `wakeup` is for this node
    intro t n s' ht hstep u new hu
    cases step_rule hstep with
    | @attach _ target new' answer hpc =>
      have htarget : target = n := by
        rw [hpc] at ht
        exact Option.some.inj ht
      have hut : u ≠ t := by
        rintro rfl
        rw [hpc] at hu
        cases hu
      rw [attachSection_pc hinv answer hut, hu, htarget]
      simp [Pc.wake]
  · -- what the thread brings along is not the node it slept on
    intro t n new hpc hn r
    have hnew : new ≠ some n := by
      have hslept := (hinv.thread t).slept n (by rw [hpc]; rfl)
      rwa [hpc] at hslept
    have hpc' : (s.setNode n fun _ => r).pc t = .top new (some n) := hpc
    simp only [step, hpc, hpc', Option.map_some]
    rw [findSection_setNode s t hn hnew]

/-- Two threads look for the same node. The first enters it into the table and
gets no vnode for it, while the second is asleep on it. -/
def sleeperOnFailure : List (Act 2) :=
  [.call 0 rootRequest, .find 0, .osMalloc 0 true, .find 0,
    .call 1 rootRequest, .find 1, .createVnode 0 (some .ENOMEM)]

theorem sleepers_woken_failure :
    ∃ s s', runFrom someMem (fun _ => rootRequest) sleeperOnFailure = some s ∧
      step s (.attach 0) = some s' ∧ s.pc 1 = .sleeping 0 none ∧
      (∃! u, (s.pc u).attaches = some 0) ∧ s'.pc 1 = .top none (some 0) ∧ s'.freed 0 = 1 ∧
      ∀ r, step (s'.setNode 0 fun _ => r) (.find 1) =
        (step s' (.find 1)).map fun s'' => s''.setNode 0 fun _ => r := by
  have hrun : runFrom someMem (fun _ => rootRequest) sleeperOnFailure = some _ := rfl
  have hrun' : runFrom someMem (fun _ => rootRequest) (sleeperOnFailure ++ [.attach 0]) =
    some _ := rfl
  refine ⟨_, _, hrun, rfl, rfl, ?_, ?_, rfl, ?_⟩
  · exact ((sleepers_woken hrun).1 1 0 none rfl).2.2.2
  · exact (sleepers_woken hrun).2.1 0 0 _ rfl rfl 1 none rfl
  · -- the node was freed, so it is in no bucket
    refine (sleepers_woken hrun').2.2 1 0 none rfl ?_
    rintro ⟨b, hb⟩
    rw [(inv_runFrom hrun').table.bucket b 0 hb] at hb
    cases hb

end ProcFS.NodeTable
