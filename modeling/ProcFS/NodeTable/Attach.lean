import Mathlib.Data.List.Nodup
import ProcFS.NodeTable.Invariant

/-!
# ProcFS.NodeTable.Attach — from a new node to its vnode

A thread that finds no node for its key enters one into the table, creates a
vnode without holding the mutex, and comes back to link the two or to take the
node out again. The steps here are the only ones by which a node enters the
table, and the last of them wakes everyone who slept on the node meanwhile.

* `Inv.insert`: a node enters the table.
* `Inv.attachOk`: it gets its vnode.
* `Inv.attachFail`: or it is removed and freed.
-/

namespace ProcFS.NodeTable

open State

variable {N : ℕ}

/-! ## Steps that change the role of a node -/

/-- The state after a thread has entered its new node into the table. -/
def inserted (s : State N) (t : Fin N) (n : Addr) : State N :=
  ({ s with
    mem := Function.update s.mem n { newNode (s.thread t).request with nodeAttachingVnode := true }
    buckets := Function.update s.buckets (bucketOf (s.keyOf t))
      (n :: s.buckets (bucketOf (s.keyOf t))) } : State N).setPc t (.creating n (some n))

variable {s : State N} {t : Fin N} {n : Addr}

theorem findSection_insert (h : s.lookup (s.keyOf t) = none) :
    findSection s t (some n) = inserted s t n := by
  simp [findSection, h, useNode, State.setNode, State.insertHead, newNode, inserted, State.setPc]

theorem inserted_mem_of_ne {n m : Addr} (h : m ≠ n) : (inserted s t n).mem m = s.mem m := by
  simp [inserted, State.setPc, h]

theorem inserted_mem_self (s : State N) (t : Fin N) (n : Addr) : (inserted s t n).mem n =
    { newNode (s.thread t).request with nodeAttachingVnode := true } := by
  simp [inserted, State.setPc]

theorem inserted_buckets (s : State N) (t : Fin N) (n m : Addr) (b : ℕ) :
    m ∈ (inserted s t n).buckets b ↔ m ∈ s.buckets b ∨ b = bucketOf (s.keyOf t) ∧ m = n := by
  by_cases hb : b = bucketOf (s.keyOf t)
  · subst hb
    simp [inserted, State.setPc, or_comm]
  · simp [inserted, State.setPc, hb]

theorem inserted_inTable (s : State N) (t : Fin N) (n m : Addr) :
    (inserted s t n).InTable m ↔ s.InTable m ∨ m = n := by
  simp only [InTable, inserted_buckets, exists_or, exists_and_right, exists_eq, true_and]

theorem agree_inserted (hn : ¬ s.InTable n) : Agree s (inserted s t n) (some n) := by
  refine Agree.off ?_ (fun m hm => inserted_mem_of_ne hm) (fun _ _ _ _ => ⟨rfl, rfl⟩) ?_
    (fun _ hv => hv) (Nat.le_refl _)
  · intro m hm
    simp [inserted_inTable, hm]
  · intro v hv
    exact absurd hv.inTable hn

theorem tableOk_inserted (hs : s.TableOk) (hmiss : s.lookup (s.keyOf t) = none)
    (hlt : n < s.nextAddr) (hn : ¬ s.InTable n) : (inserted s t n).TableOk := by
  have hself : ((inserted s t n).mem n).key = s.keyOf t := by
    rw [inserted_mem_self]
    rfl
  have hkey : ∀ m, s.InTable m → ((inserted s t n).mem m).key = (s.mem m).key := by
    intro m hm
    have hne : m ≠ n := by
      rintro rfl
      exact hn hm
    rw [inserted_mem_of_ne hne]
  constructor
  case bucket =>
    intro b m hm
    rcases (inserted_buckets s t n m b).mp hm with hold | ⟨hb, hmn⟩
    · rw [hkey m ⟨b, hold⟩]
      exact hs.bucket b m hold
    · rw [hmn, hself]
      exact hb
  case nodup =>
    intro b
    by_cases hb : b = bucketOf (s.keyOf t)
    · subst hb
      have hnot : n ∉ s.buckets (bucketOf (s.keyOf t)) := fun hin => hn ⟨_, hin⟩
      simpa [inserted, State.setPc] using ⟨hnot, hs.nodup _⟩
    · simpa [inserted, State.setPc, hb] using hs.nodup b
  case key_inj =>
    -- the table had no node with the key of the new one
    intro m m' hm hm' heq
    rcases (inserted_inTable s t n m).mp hm with hold | rfl
    · rcases (inserted_inTable s t n m').mp hm' with hold' | rfl
      · rw [hkey m hold, hkey m' hold'] at heq
        exact hs.key_inj m m' hold hold' heq
      · rw [hkey m hold, hself] at heq
        exact absurd heq (lookup_none hs hmiss hold)
    · rcases (inserted_inTable s t m m').mp hm' with hold' | rfl
      · rw [hkey m' hold', hself] at heq
        exact absurd heq.symm (lookup_none hs hmiss hold')
      · rfl
  case lt_next =>
    intro m hm
    rcases (inserted_inTable s t n m).mp hm with hold | rfl
    · exact hs.lt_next m hold
    · exact hlt

/-- What the thread relies on that has just entered its node into the table. -/
theorem State.ThreadOk.creating {k : Key} (hpend : s.Pending n) (hkey : (s.mem n).key = k) :
    s.ThreadOk k (.creating n (some n)) := by
  constructor
  case attaches =>
    intro m hm
    cases hm
    exact ⟨hpend, hkey, rfl⟩
  case spare => simp [Pc.spare]
  all_goals simp [Pc.slept, Pc.sleepsOn, Pc.answer, Pc.wants, Pc.gives]

/-- A thread enters its new node into the table and goes to create a vnode. -/
theorem Inv.insert {slept : Option Addr} (h : Inv s) (hpc : s.pc t = .top (some n) slept)
    (hmiss : s.lookup (s.keyOf t) = none) : Inv (inserted s t n) := by
  have hspare : (s.pc t).spare = some n := by
    rw [hpc]
    rfl
  rcases (h.thread t).spare n hspare with ⟨hlt, hn⟩
  have ha := agree_inserted (t := t) hn
  have hself : (inserted s t n).pc t = .creating n (some n) := setPc_pc_self _ _ _
  have hrest : ∀ u, u ≠ t → (inserted s t n).pc u = s.pc u := fun u hu => setPc_pc_of_ne _ _ hu
  have hkeyOf : ∀ u, (inserted s t n).keyOf u = s.keyOf u := fun u => setPc_keyOf _ _ u _
  have hpend : (inserted s t n).Pending n := by
    refine ⟨(inserted_inTable s t n n).mpr (Or.inr rfl), ?_, ?_⟩ <;> rw [inserted_mem_self]
    rfl
  -- the thread had no vnode and no node to attach, so whoever had is another one
  have hother : ∀ u m, (s.pc u).attaches = some m → u ≠ t ∧ m ≠ n := by
    intro u m hu
    constructor
    · rintro rfl
      rw [hpc] at hu
      cases hu
    · rintro rfl
      exact hn ((h.thread u).attaches m hu).1.inTable
  constructor
  case table => exact tableOk_inserted h.table hmiss hlt hn
  case node =>
    intro m hm
    by_cases hmn : m = n
    · rw [hmn]
      exact Or.inl ⟨hpend, t, by rw [hself]; rfl⟩
    · refine ha.node h (fun heq => hmn (Option.some.inj heq)) hm ?_
      intro u hu
      rw [hrest u (hother u m hu).1]
      exact hu
  case vnode =>
    intro v hv
    rcases h.vnode v hv with ⟨m, hm⟩ | ⟨hlive, u, hu⟩
    · refine Or.inl ⟨m, ha.attached m v ?_ hm⟩
      intro heq
      cases heq
      exact hn hm.inTable
    · refine Or.inr ⟨hlive, u, ?_⟩
      have hut : u ≠ t := by
        rintro rfl
        rw [hpc] at hu
        cases hu
      rw [hrest u hut]
      exact hu
  case unused => exact h.unused
  case thread =>
    intro u
    rw [hkeyOf]
    by_cases hu : u = t
    · rw [hu, hself]
      refine .creating hpend ?_
      rw [inserted_mem_self]
      rfl
    · rw [hrest u hu]
      refine ha.threadOk (h.thread u) ?_ (fun _ _ hlive => ⟨hlive, rfl⟩)
      rintro m (hm | hm | hm) heq <;> cases heq
      · exact hn ((h.thread u).sleeps n hm).1.inTable
      · exact (hother u n hm).2 rfl
      · exact hu (h.spare u t n hm hspare)
  case attacher =>
    refine h.attacher.take t ?_ ?_
    · intro u m hu hum
      rwa [hrest u hu] at hum
    · intro u m _ hum htm
      rw [hself] at htm
      cases htm
      exact (hother u n hum).2 rfl
  case spare =>
    refine h.spare.take t ?_ ?_
    · intro u m hu hum
      rwa [hrest u hu] at hum
    · intro u m _ _ htm
      rw [hself] at htm
      simp [Pc.spare] at htm

/-! ## The end of an attach -/

namespace Pc

/-- Whoever is woken stands at the top of the loop; most does not depend on that. -/
theorem wake_apply {β : Type} (f : Pc → β)
    (hf : ∀ target new n, f (.top new (some n)) = f (.sleeping target new)) (p : Pc)
    (n : Addr) : f (p.wake n) = f p := by
  cases p with
  | sleeping target new =>
    rw [wake]
    split
    · exact hf target new n
    · rfl
  | _ => rfl

section
variable (p : Pc) (n : Addr)

@[simp] theorem wake_attaches : (p.wake n).attaches = p.attaches :=
  wake_apply attaches (fun _ _ _ => rfl) p n

@[simp] theorem wake_answer : (p.wake n).answer = p.answer :=
  wake_apply answer (fun _ _ _ => rfl) p n

@[simp] theorem wake_wants : (p.wake n).wants = p.wants :=
  wake_apply wants (fun _ _ _ => rfl) p n

@[simp] theorem wake_gives : (p.wake n).gives = p.gives :=
  wake_apply gives (fun _ _ _ => rfl) p n

@[simp] theorem wake_new : (p.wake n).new = p.new :=
  wake_apply Pc.new (fun _ _ _ => rfl) p n

@[simp] theorem wake_spare : (p.wake n).spare = p.spare :=
  wake_apply spare (fun _ _ _ => rfl) p n

end

/-- Nobody sleeps on a node after its wakeup, and other sleepers sleep on. -/
theorem wake_sleepsOn {p : Pc} {n m : Addr} (h : (p.wake n).sleepsOn = some m) :
    p.sleepsOn = some m ∧ m ≠ n := by
  cases p with
  | sleeping target new =>
    by_cases heq : target = n
    · simp [wake, heq, sleepsOn] at h
    · simp only [wake, heq, if_false, sleepsOn, Option.some.injEq] at h ⊢
      exact ⟨h, h ▸ heq⟩
  | _ => cases h

theorem wake_slept {p : Pc} {n m : Addr} (h : (p.wake n).slept = some m) :
    p.slept = some m ∨ p.sleepsOn = some m := by
  cases p with
  | sleeping target new =>
    by_cases heq : target = n
    · simp only [wake, heq, if_true, slept] at h
      exact Or.inr ((congrArg some heq).trans h)
    · simp [wake, heq, slept] at h
  | _ => exact Or.inl h

theorem wake_of_ne {p : Pc} (h : p.sleepsOn ≠ some n) : p.wake n = p := by
  cases p with
  | sleeping target new =>
    have hne : target ≠ n := fun heq => h (congrArg some heq)
    simp [wake, hne]
  | _ => rfl

end Pc

theorem State.ThreadOk.wake {k : Key} {p : Pc} (h : s.ThreadOk k p) (n : Addr) :
    s.ThreadOk k (p.wake n) where
  sleeps m hm := h.sleeps m (Pc.wake_sleepsOn hm).1
  attaches m hm := by
    rw [Pc.wake_attaches] at hm
    rw [Pc.wake_new]
    exact h.attaches m hm
  answer m v hm hv := by
    rw [Pc.wake_attaches] at hm
    rw [Pc.wake_answer] at hv
    exact h.answer m v hm hv
  wants m v hm := by
    rw [Pc.wake_wants] at hm
    exact h.wants m v hm
  gives m v hm := by
    rw [Pc.wake_gives] at hm
    exact h.gives m v hm
  spare m hm := by
    rw [Pc.wake_spare] at hm
    exact h.spare m hm
  slept m hm := by
    rw [Pc.wake_new]
    rcases Pc.wake_slept hm with hslept | hsleeps
    · exact h.slept m hslept
    · -- the node it slept on is in the table, the one it has allocated is not
      intro hnew
      have hspare : p.spare = some m := by
        cases p with
        | sleeping target new => exact hnew
        | _ => cases hsleeps
      exact (h.spare m hspare).2 (h.sleeps m hsleeps).1.inTable

/-- A thread is done with its attach: the node has its vnode or is gone, and
everyone who slept on it is awake. -/
theorem Inv.attachDone {s s₁ : State N} {p : Pc} (h : Inv s) (ht : (s.pc t).attaches = some n)
    (ha : Agree s (s₁.setPc t p) (some n)) (htable : (s₁.setPc t p).TableOk)
    (hvstate : s₁.vstate = s.vstate) (hfsnode : s₁.fsnode = s.fsnode)
    (hnextVnode : s₁.nextVnode = s.nextVnode) (hpc : ∀ u, s₁.pc u = (s.pc u).wake n)
    (hkeyOf : ∀ u, s₁.keyOf u = s.keyOf u)
    (hnode : (s₁.setPc t p).InTable n → ∃ v, (s₁.setPc t p).Attached n v)
    (hanswer : ∀ v, (s.pc t).answer = some v → (s₁.setPc t p).Attached n v)
    (hatt : p.attaches = none) (hspare : p.spare = none)
    (hok : (s₁.setPc t p).ThreadOk (s.keyOf t) p) : Inv (s₁.setPc t p) := by
  have hself : (s₁.setPc t p).pc t = p := setPc_pc_self s₁ t p
  have hrest : ∀ u, u ≠ t → (s₁.setPc t p).pc u = (s.pc u).wake n :=
    fun u hu => (setPc_pc_of_ne s₁ p hu).trans (hpc u)
  -- the node had no vnode until now
  have hpend : s.Pending n := ((h.thread t).attaches n ht).1
  constructor
  case table => exact htable
  case node =>
    intro m hm
    by_cases hmn : m = n
    · -- the node itself: it has its vnode, or is not in the table any more
      rw [hmn] at hm ⊢
      exact Or.inr (hnode hm)
    · refine ha.node h (fun heq => hmn (Option.some.inj heq)) hm ?_
      intro u hu
      have hut : u ≠ t := by
        rintro rfl
        exact hmn (Option.some.inj (hu.symm.trans ht))
      rw [hrest u hut, Pc.wake_attaches]
      exact hu
  case vnode =>
    intro v hv
    rw [show (s₁.setPc t p).vstate = s.vstate from hvstate] at hv ⊢
    rcases h.vnode v hv with ⟨m, hm⟩ | ⟨hlive, u, hu⟩
    · -- a vnode that was linked before belongs to another node
      refine Or.inl ⟨m, ha.attached m v ?_ hm⟩
      intro heq
      cases heq
      exact hpend.not_attached hm
    · -- the vnode that the thread has just created is the one that the node gets
      by_cases hut : u = t
      · rw [hut] at hu
        exact Or.inl ⟨n, hanswer v hu⟩
      · exact Or.inr ⟨hlive, u, by rw [hrest u hut, Pc.wake_answer]; exact hu⟩
  case unused =>
    intro v hv
    exact (congrFun hvstate v).trans (h.unused v (hnextVnode ▸ hv))
  case thread =>
    intro u
    rw [setPc_keyOf, hkeyOf]
    by_cases hut : u = t
    · rw [hut, hself]
      exact hok
    · rw [hrest u hut]
      refine ha.threadOk ((h.thread u).wake n) ?_ ?_
      · -- nobody sleeps on the node now, attaches it, or keeps it in reserve
        rintro m (hm | hm | hm) heq <;> cases heq
        · exact (Pc.wake_sleepsOn hm).2 rfl
        · rw [Pc.wake_attaches] at hm
          exact hut (h.attacher u t n hm ht)
        · rw [Pc.wake_spare] at hm
          exact ((h.thread u).spare n hm).2 hpend.inTable
      · intro v _ hlive
        exact ⟨(congrFun hvstate v).trans hlive, congrFun hfsnode v⟩
  -- the thread has nothing in hand any more
  case attacher =>
    refine h.attacher.of_le ?_
    intro u m hu
    by_cases hut : u = t
    · rw [hut, hself, hatt] at hu
      cases hu
    · rwa [hrest u hut, Pc.wake_attaches] at hu
  case spare =>
    refine h.spare.of_le ?_
    intro u m hu
    by_cases hut : u = t
    · rw [hut, hself, hspare] at hu
      cases hu
    · rwa [hrest u hut, Pc.wake_spare] at hu

/-- Whether or not a wakeup was asked for, the flags are cleared and nobody is
asleep on the node. -/
theorem clearAttaching_eq
    (hwait : ∀ u, (s.pc u).sleepsOn = some n → (s.mem n).nodeThreadWaitingAttach = true) :
    clearAttaching s n = (s.setNode n fun r =>
      { r with nodeAttachingVnode := false, nodeThreadWaitingAttach := false }).wakeup n := by
  by_cases hw : (s.mem n).nodeThreadWaitingAttach = true
  · simp [clearAttaching, State.setNode, hw, State.wakeup]
  · have hawake : ∀ u, (s.thread u).pc.wake n = (s.thread u).pc := by
      intro u
      exact Pc.wake_of_ne fun hu => hw (hwait u hu)
    simp only [Bool.not_eq_true] at hw
    simp [clearAttaching, State.setNode, hw, State.wakeup, hawake]

theorem wakeup_pc (s : State N) (n : Addr) (u : Fin N) :
    (s.wakeup n).pc u = (s.pc u).wake n := rfl

theorem wakeup_keyOf (s : State N) (n : Addr) (u : Fin N) :
    (s.wakeup n).keyOf u = s.keyOf u := rfl

/-- The threads after an attach: whoever slept on the node is awake. -/
theorem attachSection_pc (h : Inv s) {t u : Fin N} {new : Option Addr} (answer : Except Errno Vnode)
    (hu : u ≠ t) : (attachSection s t n new answer).pc u = (s.pc u).wake n := by
  have hclear := clearAttaching_eq fun u hu => ((h.thread u).sleeps n hu).2
  cases answer with
  | ok v =>
    rw [attachSection, setPc_pc_of_ne _ _ hu, hclear]
    exact wakeup_pc _ n u
  | error e =>
    rw [attachSection, setPc_pc_of_ne _ _ hu, hclear]
    exact wakeup_pc _ n u

/-- Removing a node keeps the table in order. -/
theorem State.TableOk.remove {s s' : State N} (hs : s.TableOk)
    (hbuckets : ∀ b, s'.buckets b = (s.buckets b).erase n)
    (hmem : ∀ m, (s'.mem m).key = (s.mem m).key) (hnext : s'.nextAddr = s.nextAddr) :
    s'.TableOk ∧ ∀ m, s'.InTable m ↔ s.InTable m ∧ m ≠ n := by
  -- a node is in its bucket once, so nothing of it is left
  have htab : ∀ m, s'.InTable m ↔ s.InTable m ∧ m ≠ n := by
    intro m
    simp only [InTable, hbuckets, (hs.nodup _).mem_erase_iff]
    constructor
    · rintro ⟨b, hne, hb⟩
      exact ⟨⟨b, hb⟩, hne⟩
    · rintro ⟨⟨b, hb⟩, hne⟩
      exact ⟨b, hne, hb⟩
  refine ⟨⟨?_, ?_, ?_, ?_⟩, htab⟩
  · intro b m hm
    rw [hbuckets] at hm
    rw [hmem]
    exact hs.bucket b m (List.mem_of_mem_erase hm)
  · intro b
    rw [hbuckets]
    exact (hs.nodup b).erase n
  · intro m m' hm hm' hkey
    rw [hmem, hmem] at hkey
    exact hs.key_inj m m' ((htab m).mp hm).1 ((htab m').mp hm').1 hkey
  · intro m hm
    rw [hnext]
    exact hs.lt_next m ((htab m).mp hm).1

/-- The vnode was created: the node gets it. -/
theorem Inv.attachOk {new : Option Addr} {v : Vnode} (h : Inv s)
    (hpc : s.pc t = .created n new (.ok v)) : Inv (attachSection s t n new (.ok v)) := by
  have ht : (s.pc t).attaches = some n := by
    rw [hpc]
    rfl
  rcases (h.thread t).attaches n ht with ⟨hpend, hkey, hnew⟩
  have hnew' : new = some n := by
    rw [hpc] at hnew
    exact hnew
  rcases (h.thread t).answer n v ht (by rw [hpc]; rfl) with ⟨hlive, hfs⟩
  rw [attachSection, clearAttaching_eq fun u hu => ((h.thread u).sleeps n hu).2]
  set s₁ := ((s.setNode n fun r =>
    { r with nodeAttachingVnode := false, nodeThreadWaitingAttach := false }).wakeup n).setNode n
      fun r => { r with nodeVnode := some v } with hs₁
  -- the record of the node afterwards, and of the other nodes
  have hself : s₁.mem n =
      ⟨(s.mem n).key, (s.mem n).nodeStructureNode, some v, false, false⟩ := by
    simp [hs₁, State.setNode, State.wakeup]
  have hoff : ∀ m, m ≠ n → s₁.mem m = s.mem m := by
    intro m hm
    simp [hs₁, State.setNode, State.wakeup, hm]
  have hkeys : ∀ m, (s₁.mem m).key = (s.mem m).key := by
    intro m
    by_cases hm : m = n
    · rw [hm, hself]
    · rw [hoff m hm]
  have hattached : s₁.Attached n v :=
    ⟨hpend.inTable, by rw [hself], by rw [hself], hfs, Or.inl hlive⟩
  -- so the node and the vnode point at each other
  have hattached' : (s₁.setPc t (.exiting (.ok (n, v)) new)).Attached n v :=
    (sameTable_setPc s₁ t _).attached hattached
  refine h.attachDone ht ?_ ?_ rfl rfl rfl (fun u => wakeup_pc _ n u) (fun u => wakeup_keyOf _ n u)
    (fun _ => ⟨v, hattached'⟩) ?_ rfl ?_ ?_
  · refine Agree.off (fun _ _ => Iff.rfl) hoff (fun _ _ _ _ => ⟨rfl, rfl⟩) ?_ (fun _ hw => hw)
      (Nat.le_refl _)
    -- no vnode was linked with the node before
    exact fun w hw => absurd hw hpend.not_attached
  · exact ⟨fun b m hm => by rw [h.table.bucket b m hm, ← hkeys m]; rfl, h.table.nodup,
      fun m m' hm hm' heq => h.table.key_inj m m' hm hm'
        (by rw [← hkeys m, ← hkeys m']; exact heq), h.table.lt_next⟩
  · intro w hw
    rw [hpc] at hw
    cases hw
    exact hattached'
  · rw [hnew']
    simp [Pc.spare, resultNode]
  · constructor
    -- the thread may return the node with its vnode
    case gives =>
      intro m w hm
      cases hm
      refine ⟨hlive, hattached', ?_⟩
      exact (hkeys n).trans hkey
    case spare =>
      rw [hnew']
      simp [Pc.spare, resultNode]
    all_goals simp [Pc.slept, Pc.sleepsOn, Pc.attaches, Pc.wants]

/-- No vnode was created: the node is removed and freed. -/
theorem Inv.attachFail {new : Option Addr} {e : Errno} (h : Inv s)
    (hpc : s.pc t = .created n new (.error e)) : Inv (attachSection s t n new (.error e)) := by
  have ht : (s.pc t).attaches = some n := by
    rw [hpc]
    rfl
  have hpend : s.Pending n := ((h.thread t).attaches n ht).1
  rw [attachSection, clearAttaching_eq fun u hu => ((h.thread u).sleeps n hu).2]
  set s₁ := ((s.setNode n fun r =>
    { r with nodeAttachingVnode := false, nodeThreadWaitingAttach := false }).wakeup
      n).procfsnodeFreeNode n with hs₁
  have hoff : ∀ m, m ≠ n → s₁.mem m = s.mem m := by
    intro m hm
    simp [hs₁, State.setNode, State.wakeup, State.procfsnodeFreeNode, State.osFree, hm]
  have hkeys : ∀ m, (s₁.mem m).key = (s.mem m).key := by
    intro m
    by_cases hm : m = n
    · simp [hs₁, State.setNode, State.wakeup, State.procfsnodeFreeNode, State.osFree, hm]
    · rw [hoff m hm]
  have hremoved : (s₁.setPc t (.exiting (.error e) none)).TableOk ∧
      ∀ m, (s₁.setPc t (.exiting (.error e) none)).InTable m ↔ s.InTable m ∧ m ≠ n :=
    h.table.remove (fun _ => rfl) hkeys rfl
  -- the node is out of the table, and all others are in it as before
  rcases hremoved with ⟨htable, htab⟩
  refine h.attachDone ht ?_ htable rfl rfl rfl (fun u => wakeup_pc _ n u)
    (fun u => wakeup_keyOf _ n u) ?_ ?_ rfl rfl ?_
  · refine Agree.off (fun m hm => ?_) hoff (fun _ _ _ _ => ⟨rfl, rfl⟩) ?_ (fun _ hw => hw)
      (Nat.le_refl _)
    · simp [htab, hm]
    · exact fun w hw => absurd hw hpend.not_attached
  · -- nothing is to be shown of a node that is gone
    intro hin
    exact absurd rfl ((htab n).mp hin).2
  · intro w hw
    rw [hpc] at hw
    cases hw
  · -- the thread has nothing in hand any more
    refine threadOk_of_spare rfl rfl rfl rfl rfl ?_
    simp [Pc.spare]

end ProcFS.NodeTable
