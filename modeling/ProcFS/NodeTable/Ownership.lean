import ProcFS.Lib.Ledger
import ProcFS.NodeTable.Safety

/-!
# ProcFS.NodeTable.Ownership — who answers for an allocated node

Between its allocation and its `OSFree` a node belongs to the table or to the
thread that has allocated it and not used it yet. Every step of the node table
is a move on a ledger of allocations. There is one step that drops a node: when
`vnode_getwithvid` fails, `procfsnode_find` resets `new_pfsnode` together with
`target_pfsnode`, although it may still point to a node that was allocated in an
earlier round of the loop and is in no table.

* `step_move`: every step is a move on the ledger.
* `lost_of_run`: what is lost stays lost.
* `nodes_accounted_iff`: in which runs every node is in the table or was freed.
-/

namespace ProcFS.NodeTable

open State

variable {N : ℕ}

/-! ## The ledger of a state -/

/-- The nodes that were allocated, and those that the table or a thread answers
for. -/
def ledger (s : State N) : Ledger Addr where
  allocated := {n | n < s.nextAddr}
  held := {n | s.InTable n ∨ ∃ t, (s.pc t).spare = some n}
  freed := s.freed

/-- The node that a step loses track of. -/
def dropped (s : State N) : Act N → Option Addr
  | .vnodeGetwithvid t false => (s.pc t).new
  | _ => none

theorem ledger_sound_initial (mem : Addr → NodeRec) (request : Fin N → Request) :
    (ledger (initial mem request)).Sound := by
  have hnone : ∀ n, n ∉ (ledger (initial mem request)).held := by
    rintro n (⟨b, hb⟩ | ⟨t, ht⟩)
    · cases hb
    · cases ht
  exact ⟨fun n hn => absurd hn (hnone n), fun n hn => absurd hn (hnone n), fun _ _ => rfl,
    fun _ => Nat.zero_le _⟩

theorem ledger_settled_initial (mem : Addr → NodeRec) (request : Fin N → Request) :
    (ledger (initial mem request)).Settled := by
  intro n hn
  exact absurd hn (Nat.not_lt_zero n)

/-- The table and the spare nodes of the threads are all that the ledger is
about. -/
theorem ledger_congr {s s' : State N} (hnext : s'.nextAddr = s.nextAddr)
    (hfreed : s'.freed = s.freed) (htab : ∀ n, s'.InTable n ↔ s.InTable n)
    (hspare : ∀ u, (s'.pc u).spare = (s.pc u).spare) : ledger s' = ledger s := by
  ext n
  · simp [ledger, hnext]
  · simp [ledger, htab, hspare]
  · simp [ledger, hfreed]

variable {s : State N} {t : Fin N}

/-- A thread goes on and has the same spare node as before. -/
theorem ledger_setPc {p : Pc} (h : p.spare = (s.pc t).spare) : ledger (s.setPc t p) = ledger s := by
  refine ledger_congr rfl rfl (fun _ => Iff.rfl) ?_
  intro u
  by_cases hu : u = t
  · rw [hu, setPc_pc_self, h]
  · rw [setPc_pc_of_ne s p hu]

/-- A thread goes on without the spare node it had. -/
theorem held_setPc {p : Pc} {n : Addr} (h : Inv s) (ht : (s.pc t).spare = some n)
    (hp : p.spare = none) : (ledger (s.setPc t p)).held = (ledger s).held \ {n} := by
  ext m
  constructor
  · rintro (hm | ⟨u, hu⟩)
    · -- a spare node is in no table
      refine ⟨Or.inl hm, ?_⟩
      rintro rfl
      exact ((h.thread t).spare m ht).2 hm
    · -- and no other thread has it
      have hut : u ≠ t := by
        rintro rfl
        rw [setPc_pc_self, hp] at hu
        cases hu
      rw [setPc_pc_of_ne s p hut] at hu
      refine ⟨Or.inr ⟨u, hu⟩, ?_⟩
      rintro rfl
      exact hut (h.spare u t m hu ht)
  · -- conversely, what is held and is not `n` is held by the same one
    rintro ⟨hm | ⟨u, hu⟩, hne⟩
    · exact Or.inl hm
    · have hut : u ≠ t := by
        rintro rfl
        exact hne (Option.some.inj (hu.symm.trans ht))
      refine Or.inr ⟨u, ?_⟩
      rw [setPc_pc_of_ne s p hut]
      exact hu

/-- A node leaves the table and is freed, and no thread's spare node changes. -/
theorem ledger_freeNode {s s' : State N} {n : Addr} (h : Inv s) (hn : s.InTable n)
    (hnext : s'.nextAddr = s.nextAddr)
    (hfreed : s'.freed = Function.update s.freed n (s.freed n + 1))
    (htab : ∀ m, s'.InTable m ↔ s.InTable m ∧ m ≠ n)
    (hspare : ∀ u, (s'.pc u).spare = (s.pc u).spare) : ledger s' = (ledger s).free n := by
  ext m
  · simp [ledger, Ledger.free, hnext]
  · simp only [ledger, Ledger.free, htab, hspare, Set.mem_ofPred_eq, Set.mem_sdiff,
      Set.mem_singleton_iff]
    constructor
    · -- the node was held by the table only, so it is not held any more
      rintro (⟨hm, hne⟩ | ⟨u, hu⟩)
      · exact ⟨Or.inl hm, hne⟩
      · refine ⟨Or.inr ⟨u, hu⟩, ?_⟩
        rintro rfl
        exact ((h.thread u).spare m hu).2 hn
    · rintro ⟨hm | hu, hne⟩
      · exact Or.inl ⟨hm, hne⟩
      · exact Or.inr hu
  · simp [ledger, Ledger.free, hfreed]

/-! ## Every step is a move -/

/-- The loop body frees nothing and loses nothing: a new node goes from the
thread to the table. -/
theorem ledger_findSection {new slept : Option Addr} (h : Inv s) (hpc : s.pc t = .top new slept) :
    ledger (findSection s t new) = ledger s := by
  have hspare : (s.pc t).spare = new := by
    rw [hpc]
    rfl
  cases hfound : s.lookup (s.keyOf t) with
  | some target =>
    simp only [findSection, hfound, useNode]
    split
    · exact (ledger_setPc (s := s.setNode target _) (p := .sleeping target new) hspare.symm).trans
        rfl
    · split
      · exact ledger_setPc hspare.symm
      · -- a node of the table without a vnode is being attached
        rename_i hattaching _ hvnode
        rcases h.node target (lookup_some hfound).1 with ⟨hp, -⟩ | ⟨v, hv⟩
        · exact absurd hp.attaching hattaching
        · rw [hv.vnode] at hvnode
          cases hvnode
  | none =>
    cases new with
    | none =>
      simp only [findSection, hfound]
      exact ledger_setPc hspare.symm
    | some n =>
      rw [findSection_insert hfound]
      ext m
      · rfl
      · constructor
        · rintro (hm | ⟨u, hu⟩)
          · rcases (inserted_inTable s t n m).mp hm with hold | rfl
            · exact Or.inl hold
            · exact Or.inr ⟨t, hspare⟩
          · by_cases hut : u = t
            · rw [hut] at hu
              simp [inserted, Pc.spare] at hu
            · exact Or.inr ⟨u, by rw [← hu]; exact congrArg Pc.spare (setPc_pc_of_ne _ _ hut).symm⟩
        · rintro (hm | ⟨u, hu⟩)
          · exact Or.inl ((inserted_inTable s t n m).mpr (Or.inl hm))
          · by_cases hut : u = t
            · rw [hut, hspare] at hu
              cases hu
              exact Or.inl ((inserted_inTable s t n n).mpr (Or.inr rfl))
            · refine Or.inr ⟨u, ?_⟩
              rw [← hu]
              exact congrArg Pc.spare (setPc_pc_of_ne _ _ hut)
      · rfl

theorem ledger_osMalloc (hpc : s.pc t = .allocating) :
    ledger (s.osMalloc.setPc t (.top (some s.nextAddr) none)) = (ledger s).alloc s.nextAddr := by
  ext m
  · -- the addresses below the new bound are the old ones and the new one
    exact Nat.lt_succ_iff_lt_or_eq.trans or_comm
  · constructor
    · -- the new node is held by the thread, and all others as before
      rintro (hm | ⟨u, hu⟩)
      · exact Or.inr (Or.inl hm)
      · by_cases hut : u = t
        · rw [hut, setPc_pc_self] at hu
          exact Or.inl (Option.some.inj hu).symm
        · rw [setPc_pc_of_ne _ _ hut] at hu
          exact Or.inr (Or.inr ⟨u, hu⟩)
    · rintro (rfl | hm | ⟨u, hu⟩)
      · exact Or.inr ⟨t, by rw [setPc_pc_self]; rfl⟩
      · exact Or.inl hm
      · have hut : u ≠ t := by
          rintro rfl
          rw [hpc] at hu
          cases hu
        exact Or.inr ⟨u, by rw [setPc_pc_of_ne _ _ hut]; exact hu⟩
  · rfl

/-- The end of an attach: nothing is freed when the node has got its vnode, and
the node is when it has not. -/
theorem move_attachSection {n : Addr} {new : Option Addr} {answer : Except Errno Vnode} (h : Inv s)
    (hpc : s.pc t = .created n new answer) :
    (ledger s).Move none (ledger (attachSection s t n new answer)) := by
  have ht : (s.pc t).attaches = some n := by
    rw [hpc]
    rfl
  rcases (h.thread t).attaches n ht with ⟨hpend, -, hnew⟩
  have hnew' : new = some n := by
    rw [hpc] at hnew
    exact hnew
  have hclear := clearAttaching_eq fun u hu => ((h.thread u).sleeps n hu).2
  -- the node was the thread's and the table's; the table alone decides about it from here on
  have hspare : ∀ u, ((attachSection s t n new answer).pc u).spare = (s.pc u).spare := by
    intro u
    by_cases hu : u = t
    · rw [hu, hpc, hnew']
      cases answer <;> simp [attachSection, Pc.spare, resultNode]
    · rw [attachSection_pc h answer hu, Pc.wake_spare]
  cases answer with
  | ok v =>
    -- the node stays in the table
    have hkeep : ledger (attachSection s t n new (.ok v)) = ledger s := by
      refine ledger_congr ?_ ?_ ?_ hspare
      all_goals
        rw [attachSection, hclear]
        first | rfl | exact fun _ => Iff.rfl
    rw [hkeep]
    exact .keep
  | error e =>
    have hfree : ledger (attachSection s t n new (.error e)) = (ledger s).free n := by
      -- the node is taken out of the table and freed
      have hbuckets : ∀ b, (attachSection s t n new (.error e)).buckets b =
          (s.buckets b).erase n := by
        intro b
        rw [attachSection, hclear]
        rfl
      have hkeys : ∀ m, ((attachSection s t n new (.error e)).mem m).key = (s.mem m).key := by
        intro m
        rw [attachSection, hclear]
        by_cases hm : m = n <;>
          simp [State.setPc, State.procfsnodeFreeNode, State.osFree, State.wakeup,
            State.setNode, hm]
      have hnext : (attachSection s t n new (.error e)).nextAddr = s.nextAddr := by
        rw [attachSection, hclear]
        rfl
      refine ledger_freeNode h hpend.inTable hnext ?_ (h.table.remove hbuckets hkeys hnext).2 hspare
      rw [attachSection, hclear]
      rfl
    rw [hfree]
    exact .free (Or.inl hpend.inTable)

/-- The end of a call frees the node that was allocated and not used. -/
theorem move_exitSection {result : Result} {new : Option Addr} (h : Inv s)
    (hpc : s.pc t = .exiting result new) :
    (ledger s).Move none (ledger (exitSection s t result new)) := by
  have hspare : (s.pc t).spare = if new = resultNode result then none else new := by
    rw [hpc]
    rfl
  -- without a node in `new_pfsnode` there is nothing to free
  cases new with
  | none =>
    have hkeep : ledger (exitSection s t result none) = ledger s := by
      refine ledger_setPc ?_
      rw [hspare, ite_self]
      rfl
    rw [hkeep]
    exact .keep
  | some n =>
    by_cases hused : resultNode result = some n
    · -- the node is the one that is returned
      have hkeep : ledger (exitSection s t result (some n)) = ledger s := by
        simp only [exitSection, hused, if_true]
        refine ledger_setPc ?_
        rw [hspare, hused, if_pos rfl]
        rfl
      rw [hkeep]
      exact .keep
    · -- the node was allocated and not used
      rw [if_neg fun heq => hused heq.symm] at hspare
      have hfree : ledger (exitSection s t result (some n)) = (ledger s).free n := by
        simp only [exitSection, hused, if_false]
        ext m
        · rfl
        · exact Set.ext_iff.mp (held_setPc h hspare rfl) m
        · rfl
      rw [hfree]
      exact .free (Or.inr ⟨t, hspare⟩)

/-- The reclaim of a vnode frees its node. -/
theorem move_procfsVnopReclaim {v : Vnode} (h : Inv s) (hv : s.vstate v = .reclaiming) :
    (ledger s).Move none (ledger (procfsVnopReclaim s v)) := by
  rcases h.attached_of_reclaiming hv with ⟨n, hn⟩
  have htab : ∀ m, (procfsVnopReclaim s v).InTable m ↔ s.InTable m ∧ m ≠ n := by
    have hbuckets : ∀ b, (procfsVnopReclaim s v).buckets b = (s.buckets b).erase n := by
      intro b
      rw [procfsVnopReclaim_eq hn]
      rfl
    refine (h.table.remove hbuckets ?_ ?_).2
    all_goals rw [procfsVnopReclaim_eq hn]
    · exact fun _ => rfl
    · rfl
  have hfree : ledger (procfsVnopReclaim s v) = (ledger s).free n := by
    refine ledger_freeNode h hn.inTable ?_ ?_ htab ?_
    all_goals rw [procfsVnopReclaim_eq hn]
    · rfl
    · rfl
    · exact fun _ => rfl
  rw [hfree]
  exact .free (Or.inl hn.inTable)

/-- Every step is a move on the ledger, and the only thing it can drop is the
spare node of a thread whose `vnode_getwithvid` fails. -/
theorem step_move {s s' : State N} {a : Act N} (h : Inv s) (hstep : step s a = some s') :
    (ledger s).Move (dropped s a) (ledger s') := by
  cases step_rule hstep with
  | @call t r hpc =>
    have hkeep : ledger (s.begin t r) = ledger s := by
      refine ledger_congr rfl rfl (fun _ => Iff.rfl) ?_
      intro u
      by_cases hu : u = t
      · rw [hu, hpc]
        simp [State.begin, State.pc, Pc.spare, Pc.new]
      · simp [State.begin, State.pc, hu]
    rw [hkeep]
    exact .keep
  | find hpc =>
    rw [ledger_findSection h hpc]
    exact .keep
  | malloc hpc =>
    rw [ledger_osMalloc hpc]
    exact .alloc (Nat.lt_irrefl _)
  | mallocFail hpc =>
    rw [ledger_setPc (by rw [hpc]; rfl)]
    exact .keep
  | get hpc hlive =>
    have hne := (h.getting hpc hlive).2.2
    rw [ledger_setPc (by rw [hpc]; simp [Pc.spare, Pc.new, resultNode, hne])]
    exact .keep
  | @getFail t target v new hpc =>
    have hdropped : dropped s (.vnodeGetwithvid t false) = new := by
      rw [dropped, hpc]
      rfl
    have hspare : (s.pc t).spare = new := by
      rw [hpc]
      rfl
    rw [hdropped]
    cases new with
    | none =>
      have hkeep : ledger (s.setPc t (.top none none)) = ledger s := ledger_setPc hspare.symm
      rw [hkeep]
      exact .keep
    | some n =>
      -- nothing in the table or in another thread points to the node any more
      have hdrop : ledger (s.setPc t (.top none none)) = (ledger s).drop n := by
        ext m
        · rfl
        · exact Set.ext_iff.mp (held_setPc h hspare rfl) m
        · rfl
      rw [hdrop]
      exact .drop (Or.inr ⟨t, hspare⟩)
  | @create t target new hpc =>
    have hkeep : ledger ((s.vnodeCreate target).setPc t (.created target new (.ok s.nextVnode))) =
        ledger (s.vnodeCreate target) := by
      refine ledger_setPc ?_
      show _ = (s.pc t).spare
      rw [hpc]
      rfl
    rw [hkeep]
    exact .keep
  | createFail e hpc =>
    rw [ledger_setPc (by rw [hpc]; rfl)]
    exact .keep
  | attach hpc => exact move_attachSection h hpc
  | exit hpc => exact move_exitSection h hpc
  | @leave t result hpc =>
    have hkept : ledger (s.keepIocount result) = ledger s := by
      cases result <;> rfl
    have hpc' : (s.keepIocount result).pc t = .returned result := by
      cases result <;> exact hpc
    rw [ledger_setPc (by rw [hpc']; rfl), hkept]
    exact .keep
  | vnodeGet hlive => exact .keep
  | vnodePut hpos => exact .keep
  | reclaimStart hlive hholds => exact .keep
  | reclaim hv => exact move_procfsVnopReclaim h hv

/-! ## When every node is accounted for -/

/-- No thread is inside of `procfsnode_find`. -/
def State.Quiet (s : State N) : Prop := ∀ t, s.pc t = .idle ∨ ∃ result, s.pc t = .returned result

/-- The node is in the table and was not freed, or was freed exactly once. -/
def State.Accounted (s : State N) (n : Addr) : Prop :=
  (s.InTable n ∧ s.freed n = 0) ∨ (¬ s.InTable n ∧ s.freed n = 1)

/-- When `vnode_getwithvid` fails, the thread has no node that it has allocated
and not used. -/
def FailsEmptyHanded (s : State N) (a : Act N) : Prop :=
  ∀ t, a = .vnodeGetwithvid t false → (s.pc t).new = none

theorem dropped_eq_none_iff (s : State N) (a : Act N) :
    dropped s a = none ↔ FailsEmptyHanded s a := by
  constructor
  · rintro h t rfl
    exact h
  · intro h
    unfold dropped
    split
    · rename_i t
      exact h t rfl
    · rfl

/-- The invariant, with a ledger in order. -/
theorem sound_runFrom {mem : Addr → NodeRec} {request : Fin N → Request} {acts : List (Act N)}
    (h : runFrom mem request acts = some s) : Inv s ∧ (ledger s).Sound := by
  refine run_invariant (I := fun s => Inv s ∧ (ledger s).Sound)
    ⟨inv_initial mem request, ledger_sound_initial mem request⟩ ?_ h
  rintro t a t' ⟨hinv, hsound⟩ hstep
  exact ⟨hinv.step hstep, (step_move hinv hstep).sound hsound⟩

/-- In a quiet state only the table holds nodes. -/
theorem State.Quiet.held_iff (h : s.Quiet) (n : Addr) : n ∈ (ledger s).held ↔ s.InTable n := by
  constructor
  · rintro (hn | ⟨t, ht⟩)
    · exact hn
    · rcases h t with hpc | ⟨result, hpc⟩ <;> rw [hpc] at ht <;> cases ht
  · exact Or.inl

/-- In a quiet state, everything is accounted for if the ledger is settled. -/
theorem State.Quiet.accounted_iff (h : s.Quiet) (hs : (ledger s).Sound) :
    (∀ n, n < s.nextAddr → s.Accounted n) ↔ (ledger s).Settled := by
  constructor
  · -- what is accounted for is held by the table or was freed
    intro hacc n hn
    rcases hacc n hn with ⟨htab, -⟩ | ⟨-, hfreed⟩
    · exact Or.inl ((h.held_iff n).mpr htab)
    · exact Or.inr hfreed
  · -- and nothing that is held was freed before
    intro hsettled n hn
    by_cases htab : s.InTable n
    · exact Or.inl ⟨htab, hs.held_freed n ((h.held_iff n).mpr htab)⟩
    · rcases hsettled n hn with hheld | hfreed
      · exact absurd ((h.held_iff n).mp hheld) htab
      · exact Or.inr ⟨htab, hfreed⟩

/-- What a run has lost at some point is lost at its end. -/
theorem lost_of_run {s s' : State N} {acts : List (Act N)} {n : Addr} (hinv : Inv s)
    (hlost : (ledger s).Lost n) (h : run step s acts = some s') : (ledger s').Lost n := by
  have hboth : Inv s' ∧ (ledger s').Lost n := by
    refine run_invariant (I := fun s => Inv s ∧ (ledger s).Lost n) ⟨hinv, hlost⟩ ?_ h
    rintro t a t' ⟨ht, hlost⟩ hstep
    exact ⟨ht.step hstep, (step_move ht hstep).lost hlost⟩
  exact hboth.2

/-- No node is ever freed twice. When no thread is inside of `procfsnode_find`,
every node that was ever allocated is in the table or was freed exactly once if
and only if `vnode_getwithvid` never failed in a thread that had allocated a node
in an earlier round of its loop. -/
theorem nodes_accounted_iff {mem : Addr → NodeRec} {request : Fin N → Request}
    {acts : List (Act N)} {s : State N} (h : runFrom mem request acts = some s) :
    (∀ n, s.freed n ≤ 1) ∧
    (s.Quiet → ((∀ n, n < s.nextAddr → s.Accounted n) ↔
      ∀ bs a u, bs ++ [a] <+: acts → runFrom mem request bs = some u → FailsEmptyHanded u a)) := by
  have hsound := (sound_runFrom h).2
  refine ⟨hsound.freed_le, ?_⟩
  intro hquiet
  rw [hquiet.accounted_iff hsound]
  constructor
  · -- a node that some step drops is still lost at the end
    intro hsettled bs a u hpre hu
    rw [← dropped_eq_none_iff]
    by_contra hdrop
    rcases Option.ne_none_iff_exists'.mp hdrop with ⟨n, hn⟩
    rcases hpre with ⟨cs, rfl⟩
    rcases run_append.mp h with ⟨u', hu', hrest⟩
    rcases run_concat.mp hu' with ⟨w, hw, hstep⟩
    have huw : u = w := Option.some.inj (hu.symm.trans hw)
    rw [huw] at hn
    rcases sound_runFrom hw with ⟨hinv, hwsound⟩
    have hmove := step_move hinv hstep
    rw [hn] at hmove
    exact (lost_of_run (hinv.step hstep) (hmove.lost_of_drop hwsound) hrest).not_settled hsettled
  · intro hempty
    have hall : Inv s ∧ (ledger s).Sound ∧ (ledger s).Settled := by
      refine run_invariant_of (I := fun s => Inv s ∧ (ledger s).Sound ∧ (ledger s).Settled)
        ⟨inv_initial mem request, ledger_sound_initial mem request,
          ledger_settled_initial mem request⟩ ?_ hempty h
      rintro t a t' ⟨hinv, hs, hsettled⟩ hC hstep
      have hmove := step_move hinv hstep
      have hmove' := hmove
      rw [(dropped_eq_none_iff t a).mpr hC] at hmove'
      exact ⟨hinv.step hstep, hmove.sound hs, hmove'.settled hs hsettled⟩
    exact hall.2.2

/-- The threads of the runs below. -/
abbrev first : Fin 2 := ⟨0, Nat.zero_lt_two⟩

abbrev second : Fin 2 := ⟨1, Nat.one_lt_two⟩

/-- A thread allocates a node for a key, and before it gets the mutex back
another one has entered its own. The vnode of that one is reclaimed after the
first thread has seen it and before `vnode_getwithvid`, so the first thread
starts again, and allocates once more. -/
def lostRace : List (Act 2) :=
  [.call first rootRequest, .find first, .osMalloc first true,
    .call second rootRequest, .find second, .osMalloc second true, .find second,
    .createVnode second none, .attach second, .exit second, .leave second,
    .find first, .vnodePut 0, .reclaimStart 0, .reclaim 0, .vnodeGetwithvid first false,
    .find first, .osMalloc first true, .find first, .createVnode first none, .attach first,
    .exit first]

/-- In `lostRace`, the node that the first thread allocated first is in the end in no
table and was never freed. -/
theorem nodes_not_accounted :
    ∃ s, runFrom someMem (fun _ => rootRequest) lostRace = some s ∧ s.Quiet ∧
      0 < s.nextAddr ∧ ¬ s.Accounted 0 := by
  have hrun : runFrom someMem (fun _ => rootRequest) lostRace = some _ := rfl
  refine ⟨_, hrun, ?_, by decide, ?_⟩
  · intro t
    match t with
    | 0 => exact Or.inr ⟨.ok (2, 1), rfl⟩
    | 1 => exact Or.inl rfl
  · rintro (⟨⟨b, hb⟩, -⟩ | ⟨-, hfreed⟩)
    · -- a node of the table would be in the bucket of its key
      rw [(inv_runFrom hrun).table.bucket b 0 hb] at hb
      cases hb
    · cases hfreed

/-- Without a reclaim in between, nothing is lost: the second thread finds the
node of the first, and frees its own. -/
def wonRace : List (Act 2) :=
  [.call first rootRequest, .find first, .osMalloc first true,
    .call second rootRequest, .find second, .osMalloc second true, .find second,
    .createVnode second none, .attach second, .exit second, .find first,
    .vnodeGetwithvid first true, .exit first]

theorem nodes_accounted_wonRace :
    ∃ s, runFrom someMem (fun _ => rootRequest) wonRace = some s ∧ s.Quiet ∧
      s.nextAddr = 2 ∧ ∀ n, n < s.nextAddr → s.Accounted n := by
  have hrun : runFrom someMem (fun _ => rootRequest) wonRace = some _ := rfl
  refine ⟨_, hrun, ?quiet, rfl, ((nodes_accounted_iff hrun).2 ?quiet).mpr ?_⟩
  case quiet =>
    intro t
    match t with
    | 0 => exact Or.inr ⟨.ok (1, 0), rfl⟩
    | 1 => exact Or.inr ⟨.ok (1, 0), rfl⟩
  -- no step of the run is a failing `vnode_getwithvid`
  rintro bs a u hpre - t rfl
  have hmem : Act.vnodeGetwithvid t false ∈ wonRace := hpre.subset (by simp)
  simp [wonRace] at hmem

end ProcFS.NodeTable
