import ProcFS.Lib.Ledger
import ProcFS.NodeTable

/-!
# ProcFS.NodeTable.Invariant — what holds between any two steps

The invariant of the node table says of every node of the table that it is
either waiting for a vnode, which exactly one thread is about to attach, or
linked both ways with a vnode that has not been reclaimed. Of every thread it
says what its local variables may still rely on after others had their turn.

A step changes the role of at most one node. `Agree` states that all other nodes
keep theirs; what a thread relies on then survives the step unless it is about
that one node.

* `Agree.threadOk`: what a thread relies on survives a step that is not about its node.
* `Inv.advance`: the rule for a thread that goes on while no node changes its role.
-/

namespace ProcFS.NodeTable

variable {N : ℕ}

/-! ## What a thread has in hand -/

variable {p : Pc} {v : Vnode} {n : Addr} {s : State N} {t : Fin N} {target : Addr}

namespace Pc

/-- The node a thread is asleep on. -/
def sleepsOn : Pc → Option Addr
  | .sleeping target _ => some target
  | _ => none

/-- The node a thread was woken from and has not found again. -/
def slept : Pc → Option Addr
  | .top _ slept => slept
  | _ => none

/-- The node a thread is attaching a vnode to. -/
def attaches : Pc → Option Addr
  | .creating target _ => some target
  | .created target _ _ => some target
  | _ => none

/-- The vnode a thread has created and not attached yet. -/
def answer : Pc → Option Vnode
  | .created _ _ (.ok v) => some v
  | _ => none

/-- The node and the vnode a thread asks an iocount for. -/
def wants : Pc → Option (Addr × Vnode)
  | .getting target v _ => some (target, v)
  | _ => none

/-- The node and the vnode of a successful call that is about to end. -/
def gives : Pc → Option (Addr × Vnode)
  | .exiting (.ok r) _ => some r
  | .returned (.ok r) => some r
  | _ => none

/-- `new_pfsnode`, where it is live. -/
def new : Pc → Option Addr
  | .top new _ => new
  | .sleeping _ new => new
  | .getting _ _ new => new
  | .creating _ new => new
  | .created _ new _ => new
  | .exiting _ new => new
  | _ => none

/-- The node a thread has allocated and not used. -/
def spare : Pc → Option Addr
  | .creating target new => if new = some target then none else new
  | .created target new _ => if new = some target then none else new
  | .exiting result new => if new = resultNode result then none else new
  | pc => pc.new

theorem holds_of_answer (h : p.answer = some v) : p.holds v = true := by
  unfold answer at h
  split at h
  · cases h
    simp [holds]
  · cases h

theorem holds_of_gives (h : p.gives = some (n, v)) : p.holds v = true := by
  unfold gives at h
  split at h
  · cases h
    simp [holds]
  · cases h
    simp [holds]
  · cases h

end Pc

/-! ## The invariant -/

namespace State

/-- The node is in the table and waits for a vnode. -/
structure Pending (s : State N) (n : Addr) : Prop where
  inTable : s.InTable n
  attaching : (s.mem n).nodeAttachingVnode = true
  vnode : (s.mem n).nodeVnode = none

/-- The node is in the table and linked with a vnode that is not reclaimed. -/
structure Attached (s : State N) (n : Addr) (v : Vnode) : Prop where
  inTable : s.InTable n
  attaching : (s.mem n).nodeAttachingVnode = false
  vnode : (s.mem n).nodeVnode = some v
  fsnode : s.fsnode v = some n
  vstate : s.vstate v = .live ∨ s.vstate v = .reclaiming

theorem Pending.not_attached (h : s.Pending n) : ¬ s.Attached n v := by
  intro ha
  have hvnode := ha.vnode
  rw [h.vnode] at hvnode
  cases hvnode

/-- The table is a hash table with unique keys. -/
structure TableOk (s : State N) : Prop where
  bucket : ∀ b n, n ∈ s.buckets b → b = bucketOf (s.mem n).key
  nodup : ∀ b, (s.buckets b).Nodup
  key_inj : ∀ n n', s.InTable n → s.InTable n' → (s.mem n).key = (s.mem n').key → n = n'
  lt_next : ∀ n, s.InTable n → n < s.nextAddr

/-- What a thread at a point of a call for a key may rely on. -/
structure ThreadOk (s : State N) (k : Key) (p : Pc) : Prop where
  sleeps : ∀ n, p.sleepsOn = some n →
    s.Pending n ∧ (s.mem n).nodeThreadWaitingAttach = true
  attaches : ∀ n, p.attaches = some n → s.Pending n ∧ (s.mem n).key = k ∧ p.new = some n
  answer : ∀ n v, p.attaches = some n → p.answer = some v →
    s.vstate v = .live ∧ s.fsnode v = some n
  wants : ∀ n v, p.wants = some (n, v) →
    s.vstate v = .reclaimed ∨ s.Attached n v ∧ (s.mem n).key = k
  gives : ∀ n v, p.gives = some (n, v) →
    s.vstate v = .live ∧ s.Attached n v ∧ (s.mem n).key = k
  spare : ∀ n, p.spare = some n → n < s.nextAddr ∧ ¬ s.InTable n
  slept : ∀ n, p.slept = some n → p.new ≠ some n

end State

open State

structure Inv (s : State N) : Prop where
  table : s.TableOk
  node : ∀ n, s.InTable n →
    (s.Pending n ∧ ∃ t, (s.pc t).attaches = some n) ∨ ∃ v, s.Attached n v
  vnode : ∀ v, s.vstate v = .live ∨ s.vstate v = .reclaiming →
    (∃ n, s.Attached n v) ∨ s.vstate v = .live ∧ ∃ t, (s.pc t).answer = some v
  unused : ∀ v, s.nextVnode ≤ v → s.vstate v = .unused
  thread : ∀ t, s.ThreadOk (s.keyOf t) (s.pc t)
  attacher : Exclusive fun t => (s.pc t).attaches
  spare : Exclusive fun t => (s.pc t).spare

theorem inv_initial (mem : Addr → NodeRec) (request : Fin N → Request) :
    Inv (initial mem request) := by
  -- the table is empty, so all that is said of its nodes holds
  have hempty : ∀ n, ¬ (initial mem request).InTable n := by
    rintro n ⟨b, hb⟩
    cases hb
  constructor
  case table =>
    exact ⟨fun _ n hn => absurd ⟨_, hn⟩ (hempty n), fun _ => List.nodup_nil,
      fun n _ hn => absurd hn (hempty n), fun n hn => absurd hn (hempty n)⟩
  case node => exact fun n hn => absurd hn (hempty n)
  case vnode =>
    intro v hv
    rcases hv with hv | hv <;> cases hv
  case unused => exact fun _ _ => rfl
  case thread =>
    intro t
    constructor <;> intros <;> contradiction
  -- nobody is attaching, and nobody has a spare node
  case attacher =>
    intro t t' n ht
    cases ht
  case spare =>
    intro t t' n ht
    cases ht

/-! ## What a step leaves alone -/

/-- All nodes but one keep their role from one state to another. If the one was
linked with a vnode, that vnode is now reclaimed. -/
structure Agree (s s' : State N) (n₀ : Option Addr) : Prop where
  inTable : ∀ n, some n ≠ n₀ → (s'.InTable n ↔ s.InTable n)
  key : ∀ n, s.InTable n → some n ≠ n₀ → (s'.mem n).key = (s.mem n).key
  pending : ∀ n, some n ≠ n₀ → s.Pending n → s'.Pending n
  waiting : ∀ n, some n ≠ n₀ → (s.mem n).nodeThreadWaitingAttach = true →
    (s'.mem n).nodeThreadWaitingAttach = true
  attached : ∀ n v, some n ≠ n₀ → s.Attached n v → s'.Attached n v
  detached : ∀ n v, some n = n₀ → s.Attached n v → s'.vstate v = .reclaimed
  reclaimed : ∀ v, s.vstate v = .reclaimed → s'.vstate v = .reclaimed
  nextAddr : s.nextAddr ≤ s'.nextAddr

/-- A step that writes one node. -/
theorem Agree.off {s s' : State N} {n₀ : Addr}
    (htab : ∀ n, n ≠ n₀ → (s'.InTable n ↔ s.InTable n)) (hmem : ∀ n, n ≠ n₀ → s'.mem n = s.mem n)
    (hvnode : ∀ n v, n ≠ n₀ → s.Attached n v →
      s'.fsnode v = s.fsnode v ∧ s'.vstate v = s.vstate v)
    (hdet : ∀ v, s.Attached n₀ v → s'.vstate v = .reclaimed)
    (hrec : ∀ v, s.vstate v = .reclaimed → s'.vstate v = .reclaimed)
    (hnext : s.nextAddr ≤ s'.nextAddr) : Agree s s' (some n₀) := by
  -- all but `detached` is about other nodes than `n₀`
  have hne : ∀ n : Addr, some n ≠ some n₀ → n ≠ n₀ := fun n hn heq => hn (congrArg some heq)
  constructor
  case inTable => exact fun n hn => htab n (hne n hn)
  case key => exact fun n _ hn => congrArg NodeRec.key (hmem n (hne n hn))
  case pending =>
    intro n hn hp
    exact ⟨(htab n (hne n hn)).mpr hp.inTable, by rw [hmem n (hne n hn)]; exact hp.attaching,
      by rw [hmem n (hne n hn)]; exact hp.vnode⟩
  case waiting =>
    intro n hn hw
    rw [hmem n (hne n hn)]
    exact hw
  case attached =>
    intro n v hn hv
    rcases hvnode n v (hne n hn) hv with ⟨hfs, hvs⟩
    exact ⟨(htab n (hne n hn)).mpr hv.inTable, by rw [hmem n (hne n hn)]; exact hv.attaching,
      by rw [hmem n (hne n hn)]; exact hv.vnode, hfs.trans hv.fsnode, by rw [hvs]; exact hv.vstate⟩
  case detached =>
    intro n v hn hv
    cases hn
    exact hdet v hv
  case reclaimed => exact hrec
  case nextAddr => exact hnext

/-- What a thread relies on survives a step that is not about its node. -/
theorem Agree.threadOk {s s' : State N} {n₀ : Option Addr} {k : Key} (ha : Agree s s' n₀)
    (h : s.ThreadOk k p)
    (hn : ∀ n, p.sleepsOn = some n ∨ p.attaches = some n ∨ p.spare = some n → some n ≠ n₀)
    (hv : ∀ v, p.holds v = true → s.vstate v = .live →
      s'.vstate v = .live ∧ s'.fsnode v = s.fsnode v) : s'.ThreadOk k p where
  sleeps n hp := by
    have hne := hn n (Or.inl hp)
    exact ⟨ha.pending n hne (h.sleeps n hp).1, ha.waiting n hne (h.sleeps n hp).2⟩
  attaches n hp := by
    have hne := hn n (Or.inr (Or.inl hp))
    rcases h.attaches n hp with ⟨hpend, hkey, hnew⟩
    exact ⟨ha.pending n hne hpend, (ha.key n hpend.inTable hne).trans hkey, hnew⟩
  answer n v hp hans := by
    rcases h.answer n v hp hans with ⟨hlive, hfs⟩
    rcases hv v (Pc.holds_of_answer hans) hlive with ⟨hlive', hfs'⟩
    exact ⟨hlive', hfs'.trans hfs⟩
  wants n v hp := by
    rcases h.wants n v hp with hrec | ⟨hatt, hkey⟩
    · exact Or.inl (ha.reclaimed v hrec)
    · -- the wanted node is the one that changed: then its vnode was reclaimed
      by_cases hne : some n = n₀
      · exact Or.inl (ha.detached n v hne hatt)
      · exact Or.inr ⟨ha.attached n v hne hatt, (ha.key n hatt.inTable hne).trans hkey⟩
  gives n v hp := by
    rcases h.gives n v hp with ⟨hlive, hatt, hkey⟩
    have hlive' := (hv v (Pc.holds_of_gives hp) hlive).1
    -- the vnode is held, so it was not reclaimed and the node is another one
    have hne : some n ≠ n₀ := by
      intro heq
      have hrec := ha.detached n v heq hatt
      rw [hlive'] at hrec
      cases hrec
    exact ⟨hlive', ha.attached n v hne hatt, (ha.key n hatt.inTable hne).trans hkey⟩
  spare n hp := by
    have hne := hn n (Or.inr (Or.inr hp))
    rcases h.spare n hp with ⟨hlt, htab⟩
    exact ⟨Nat.lt_of_lt_of_le hlt ha.nextAddr, fun hin => htab ((ha.inTable n hne).mp hin)⟩
  slept := h.slept

/-- The nodes a step is not about stay in order. -/
theorem Agree.node {s s' : State N} {n₀ : Option Addr} (ha : Agree s s' n₀) (h : Inv s)
    (hne : some n ≠ n₀) (hn : s'.InTable n)
    (hatt : ∀ t, (s.pc t).attaches = some n → (s'.pc t).attaches = some n) :
    (s'.Pending n ∧ ∃ t, (s'.pc t).attaches = some n) ∨ ∃ v, s'.Attached n v := by
  rcases h.node n ((ha.inTable n hne).mp hn) with ⟨hp, t, ht⟩ | ⟨v, hv⟩
  · exact Or.inl ⟨ha.pending n hne hp, t, hatt t ht⟩
  · exact Or.inr ⟨v, ha.attached n v hne hv⟩

/-- Two states with the same table, the same vnodes and the same nodes, but for
flags that ask for a wakeup. -/
structure SameTable (s s' : State N) : Prop where
  buckets : s'.buckets = s.buckets
  key : ∀ n, (s'.mem n).key = (s.mem n).key
  vnode : ∀ n, (s'.mem n).nodeVnode = (s.mem n).nodeVnode
  attaching : ∀ n, (s'.mem n).nodeAttachingVnode = (s.mem n).nodeAttachingVnode
  waiting : ∀ n, (s.mem n).nodeThreadWaitingAttach = true →
    (s'.mem n).nodeThreadWaitingAttach = true
  vstate : s'.vstate = s.vstate
  fsnode : s'.fsnode = s.fsnode
  nextVnode : s'.nextVnode = s.nextVnode
  nextAddr : s.nextAddr ≤ s'.nextAddr

namespace SameTable

theorem of_mem_eq {s s' : State N} (hbuckets : s'.buckets = s.buckets) (hmem : s'.mem = s.mem)
    (hvstate : s'.vstate = s.vstate) (hfsnode : s'.fsnode = s.fsnode)
    (hnextVnode : s'.nextVnode = s.nextVnode) (hnextAddr : s.nextAddr ≤ s'.nextAddr) :
    SameTable s s' := by
  refine ⟨hbuckets, ?_, ?_, ?_, ?_, hvstate, hfsnode, hnextVnode, hnextAddr⟩ <;>
    simp [hmem]

variable {s s' : State N} (h : SameTable s s')
include h

theorem inTable_iff : s'.InTable n ↔ s.InTable n := by
  simp only [InTable, h.buckets]

theorem pending_iff : s'.Pending n ↔ s.Pending n := by
  constructor
  · intro hp
    exact ⟨h.inTable_iff.mp hp.inTable, (h.attaching n).symm.trans hp.attaching,
      (h.vnode n).symm.trans hp.vnode⟩
  · intro hp
    exact ⟨h.inTable_iff.mpr hp.inTable, (h.attaching n).trans hp.attaching,
      (h.vnode n).trans hp.vnode⟩

theorem attached (ha : s.Attached n v) : s'.Attached n v where
  inTable := h.inTable_iff.mpr ha.inTable
  attaching := (h.attaching n).trans ha.attaching
  vnode := (h.vnode n).trans ha.vnode
  fsnode := by rw [h.fsnode]; exact ha.fsnode
  vstate := by rw [h.vstate]; exact ha.vstate

theorem agree : Agree s s' none where
  inTable _ _ := h.inTable_iff
  key n _ _ := h.key n
  pending _ _ hp := h.pending_iff.mpr hp
  waiting n _ hw := h.waiting n hw
  attached _ _ _ ha := h.attached ha
  detached _ _ heq := by cases heq
  reclaimed v hv := by rw [h.vstate]; exact hv
  nextAddr := h.nextAddr

theorem tableOk (hs : s.TableOk) : s'.TableOk where
  bucket b n hn := by
    rw [h.buckets] at hn
    rw [h.key]
    exact hs.bucket b n hn
  nodup b := by
    rw [h.buckets]
    exact hs.nodup b
  key_inj n n' hn hn' hk := by
    rw [h.key, h.key] at hk
    exact hs.key_inj n n' (h.inTable_iff.mp hn) (h.inTable_iff.mp hn') hk
  lt_next n hn := Nat.lt_of_lt_of_le (hs.lt_next n (h.inTable_iff.mp hn)) h.nextAddr

theorem threadOk {k : Key} (hs : s.ThreadOk k p) : s'.ThreadOk k p := by
  refine h.agree.threadOk hs (fun n _ => Option.some_ne_none n) ?_
  intro v _ hlive
  rw [h.vstate, h.fsnode]
  exact ⟨hlive, rfl⟩

theorem trans {s'' : State N} (h' : SameTable s' s'') : SameTable s s'' where
  buckets := h'.buckets.trans h.buckets
  key n := (h'.key n).trans (h.key n)
  vnode n := (h'.vnode n).trans (h.vnode n)
  attaching n := (h'.attaching n).trans (h.attaching n)
  waiting n hw := h'.waiting n (h.waiting n hw)
  vstate := h'.vstate.trans h.vstate
  fsnode := h'.fsnode.trans h.fsnode
  nextVnode := h'.nextVnode.trans h.nextVnode
  nextAddr := Nat.le_trans h.nextAddr h'.nextAddr

end SameTable

/-- No node changes its role: the invariant is kept if every thread attaches and answers what it did
before, may rely on what it has in hand, and no spare node has two owners. -/
theorem Inv.keep {s s' : State N} (h : Inv s) (hst : SameTable s s')
    (hatt : ∀ u, (s'.pc u).attaches = (s.pc u).attaches)
    (hans : ∀ u, (s'.pc u).answer = (s.pc u).answer)
    (hthread : ∀ u, s'.ThreadOk (s'.keyOf u) (s'.pc u))
    (hspare : Exclusive fun u => (s'.pc u).spare) : Inv s' := by
  constructor
  case table => exact hst.tableOk h.table
  case node =>
    intro n hn
    exact hst.agree.node h (Option.some_ne_none n) hn fun u hu => (hatt u).trans hu
  case vnode =>
    intro v hv
    rw [hst.vstate] at hv ⊢
    -- a vnode is linked with its node, or a thread has just created it
    rcases h.vnode v hv with ⟨n, hn⟩ | ⟨hlive, u, hu⟩
    · exact Or.inl ⟨n, hst.attached hn⟩
    · exact Or.inr ⟨hlive, u, (hans u).trans hu⟩
  case unused =>
    intro v hv
    rw [hst.nextVnode] at hv
    rw [hst.vstate]
    exact h.unused v hv
  case thread => exact hthread
  case attacher => exact h.attacher.of_le fun u n hu => (hatt u).symm.trans hu
  case spare => exact hspare

/-- Nothing that the invariant is about changes. -/
theorem Inv.of_sameTable {s s' : State N} (h : Inv s) (hst : SameTable s s')
    (hthread : s'.thread = s.thread) : Inv s' := by
  -- the threads are at the points where they were
  have hpc : ∀ u, s'.pc u = s.pc u := fun u => congrArg (fun th => (th u).pc) hthread
  have hkeyOf : ∀ u, s'.keyOf u = s.keyOf u :=
    fun u => congrArg (fun th => (th u).request.key) hthread
  refine h.keep hst (fun u => by rw [hpc]) (fun u => by rw [hpc]) ?_ ?_
  · intro u
    rw [hpc, hkeyOf]
    exact hst.threadOk (h.thread u)
  · simp only [hpc]
    exact h.spare

/-- A thread goes on, and no node changes its role: the invariant is kept if the
thread may rely on what it now has in hand, and has taken no other thread's
node. -/
theorem Inv.advance {s s' : State N} (h : Inv s) (hst : SameTable s s')
    (hrest : ∀ u, u ≠ t → s'.thread u = s.thread u) (hatt : (s'.pc t).attaches = (s.pc t).attaches)
    (hans : (s'.pc t).answer = (s.pc t).answer) (hok : s'.ThreadOk (s'.keyOf t) (s'.pc t))
    (hspare : ∀ u n, u ≠ t → (s.pc u).spare = some n → (s'.pc t).spare ≠ some n) : Inv s' := by
  have hpc : ∀ u, u ≠ t → s'.pc u = s.pc u := fun u hu => congrArg Thread.pc (hrest u hu)
  -- no other node is attached, and none is answered, than before
  have hsame : ∀ u, (s'.pc u).attaches = (s.pc u).attaches ∧
      (s'.pc u).answer = (s.pc u).answer := by
    intro u
    by_cases hu : u = t
    · rw [hu]
      exact ⟨hatt, hans⟩
    · rw [hpc u hu]
      exact ⟨rfl, rfl⟩
  refine h.keep hst (fun u => (hsame u).1) (fun u => (hsame u).2) ?_ ?_
  · intro u
    -- the thread itself, and the others
    by_cases hu : u = t
    · rw [hu]
      exact hok
    · have hkey : s'.keyOf u = s.keyOf u := congrArg (fun th => th.request.key) (hrest u hu)
      rw [hpc u hu, hkey]
      exact hst.threadOk (h.thread u)
  · refine h.spare.take t ?_ hspare
    intro u n hu hun
    rwa [hpc u hu] at hun

/-! ## The fields of a state after an update -/

section Fields

variable (s : State N) (t u : Fin N) (p : Pc)

@[simp] theorem setPc_pc_self : (s.setPc t p).pc t = p := by
  simp [State.setPc, State.pc]

theorem setPc_thread_of_ne {t u : Fin N} (h : u ≠ t) :
    (s.setPc t p).thread u = s.thread u := by
  simp [State.setPc, h]

@[simp] theorem setPc_keyOf : (s.setPc t p).keyOf u = s.keyOf u := by
  by_cases h : u = t
  · subst h
    simp [State.setPc, State.keyOf]
  · simp [State.keyOf, setPc_thread_of_ne s p h]

theorem setPc_pc_of_ne {t u : Fin N} (h : u ≠ t) : (s.setPc t p).pc u = s.pc u :=
  congrArg Thread.pc (setPc_thread_of_ne s p h)

end Fields

theorem sameTable_setPc (s : State N) (t : Fin N) (p : Pc) : SameTable s (s.setPc t p) :=
  .of_mem_eq rfl rfl rfl rfl rfl (Nat.le_refl _)

/-- A node with the key is found if there is one, and its key is right. -/
theorem lookup_some {k : Key} (h : s.lookup k = some n) : s.InTable n ∧ (s.mem n).key = k := by
  have hkey := List.find?_some h
  simp only [decide_eq_true_eq] at hkey
  exact ⟨⟨_, List.mem_of_find?_eq_some h⟩, hkey⟩

theorem lookup_none {k : Key} (hs : s.TableOk) (h : s.lookup k = none) (hn : s.InTable n) :
    (s.mem n).key ≠ k := by
  intro hkey
  rcases hn with ⟨b, hb⟩
  have hbucket := hs.bucket b n hb
  rw [hkey] at hbucket
  rw [hbucket] at hb
  have hmiss := List.find?_eq_none.mp h n hb
  simp [hkey] at hmiss

/-! ## Steps that change no node's role -/

/-- A thread with nothing in hand but a spare node relies on nothing else. -/
theorem threadOk_of_spare {k : Key} (hsleep : p.sleepsOn = none) (hslept : p.slept = none)
    (hatt : p.attaches = none) (hwants : p.wants = none) (hgives : p.gives = none)
    (hspare : ∀ n, p.spare = some n → n < s.nextAddr ∧ ¬ s.InTable n) : s.ThreadOk k p := by
  constructor
  case spare => exact hspare
  all_goals simp [hsleep, hslept, hatt, hwants, hgives]

/-- A thread comes to another point, after something that changes no node's role. -/
theorem Inv.moveTo {s₁ : State N} (h : Inv s) (hst : SameTable s s₁)
    (hthread : s₁.thread = s.thread) (hatt : p.attaches = (s.pc t).attaches)
    (hans : p.answer = (s.pc t).answer) (hok : s₁.ThreadOk (s₁.keyOf t) p)
    (hspare : ∀ u n, u ≠ t → (s.pc u).spare = some n → p.spare ≠ some n) : Inv (s₁.setPc t p) := by
  have hset := sameTable_setPc s₁ t p
  refine h.advance (t := t) (hst.trans hset) ?_ ?_ ?_ ?_ ?_
  · intro u hu
    rw [setPc_thread_of_ne s₁ p hu, hthread]
  · rw [setPc_pc_self, hatt]
  · rw [setPc_pc_self, hans]
  · rw [setPc_pc_self, setPc_keyOf]
    exact hset.threadOk hok
  · rwa [setPc_pc_self]

/-- Only the point a thread is at changes. -/
theorem Inv.setPc (h : Inv s) (hatt : p.attaches = (s.pc t).attaches)
    (hans : p.answer = (s.pc t).answer) (hok : s.ThreadOk (s.keyOf t) p)
    (hspare : p.spare = none ∨ p.spare = (s.pc t).spare) : Inv (s.setPc t p) := by
  refine h.moveTo (.of_mem_eq rfl rfl rfl rfl rfl (Nat.le_refl _)) rfl hatt hans hok ?_
  -- its spare node is the one it had, which no other thread has
  intro u n hu hun htn
  rcases hspare with hnone | hsame
  · rw [hnone] at htn
    cases htn
  · rw [hsame] at htn
    exact hu (h.spare u t n hun htn)

theorem Inv.call {s : State N} {t : Fin N} (h : Inv s) (hpc : s.pc t = .idle) (r : Request) :
    Inv (s.begin t r) := by
  have hself : (s.begin t r).pc t = .top none none := by
    simp [State.begin, State.pc]
  refine h.advance (t := t) (.of_mem_eq rfl rfl rfl rfl rfl (Nat.le_refl _))
    (fun u hu => by simp [State.begin, hu]) ?_ ?_ ?_ ?_
  · rw [hself, hpc]
    rfl
  · rw [hself, hpc]
    rfl
  · rw [hself]
    exact threadOk_of_spare rfl rfl rfl rfl rfl fun n hn => by cases hn
  · intro u n _ _ hn
    rw [hself] at hn
    cases hn

/-- The found node is being attached by another thread: this one goes to sleep. -/
theorem Inv.wait {new slept : Option Addr} (h : Inv s) (hpc : s.pc t = .top new slept)
    (htarget : s.InTable target) (hattaching : (s.mem target).nodeAttachingVnode = true) :
    Inv ((s.setNode target fun r => { r with nodeThreadWaitingAttach := true }).setPc t
      (.sleeping target new)) := by
  set s₁ := s.setNode target fun r => { r with nodeThreadWaitingAttach := true } with hs₁
  have hmem : ∀ n, s₁.mem n =
      if n = target then { s.mem target with nodeThreadWaitingAttach := true } else s.mem n := by
    intro n
    simp [hs₁, State.setNode, Function.update_apply]
  -- the mark says that someone waits; nothing that the invariant is about depends on it
  have hst : SameTable s s₁ := by
    refine ⟨rfl, ?_, ?_, ?_, ?_, rfl, rfl, rfl, Nat.le_refl _⟩ <;> intro n <;> rw [hmem] <;>
      split <;> simp_all
  -- the node is being attached, so it has no vnode yet
  have hpend : s.Pending target := by
    rcases h.node target htarget with ⟨hp, -⟩ | ⟨v, hv⟩
    · exact hp
    · rw [hv.attaching] at hattaching
      cases hattaching
  have hnew : (s.pc t).spare = new := by
    rw [hpc]
    rfl
  refine h.moveTo hst rfl (by rw [hpc]; rfl) (by rw [hpc]; rfl) ?_ ?_
  · -- of what a thread may rely on, a sleeper has the node and its own spare
    constructor
    case sleeps =>
      intro n hn
      cases hn
      exact ⟨hst.pending_iff.mpr hpend, by simp [hmem]⟩
    case spare =>
      intro n hn
      have hspare := (h.thread t).spare n (hnew.trans hn)
      exact ⟨hspare.1, fun hin => hspare.2 (hst.inTable_iff.mp hin)⟩
    all_goals simp [Pc.slept, Pc.attaches, Pc.wants, Pc.gives]
  · intro u n hu hun htn
    exact hu (h.spare u t n hun (hnew.trans htn))

/-- The found node has a vnode, on which the thread tries to get an iocount. -/
theorem Inv.tryGet {new slept : Option Addr} (h : Inv s) (hpc : s.pc t = .top new slept)
    (htarget : s.InTable target) (hkey : (s.mem target).key = s.keyOf t)
    (hvnode : (s.mem target).nodeVnode = some v) : Inv (s.setPc t (.getting target v new)) := by
  -- a node with a vnode is not waiting for one, so the two are linked
  have hattached : s.Attached target v := by
    rcases h.node target htarget with ⟨hp, -⟩ | ⟨w, hw⟩
    · rw [hp.vnode] at hvnode
      cases hvnode
    · have heq := hw.vnode
      rw [hvnode] at heq
      cases heq
      exact hw
  have hnew : (s.pc t).spare = new := by
    rw [hpc]
    rfl
  refine h.setPc (by rw [hpc]; rfl) (by rw [hpc]; rfl) ?_ (Or.inr hnew.symm)
  constructor
  case wants =>
    intro n w hw
    cases hw
    exact Or.inr ⟨hattached, hkey⟩
  case spare => exact fun n hn => (h.thread t).spare n (hnew.trans hn)
  all_goals simp [Pc.slept, Pc.sleepsOn, Pc.attaches, Pc.gives]

/-- `OSMalloc` returns memory that no one else has. -/
theorem Inv.allocated (h : Inv s) (hpc : s.pc t = .allocating) :
    Inv (s.osMalloc.setPc t (.top (some s.nextAddr) none)) := by
  have hst : SameTable s s.osMalloc := .of_mem_eq rfl rfl rfl rfl rfl (Nat.le_succ _)
  refine h.moveTo hst rfl (by rw [hpc]; rfl) (by rw [hpc]; rfl)
    (threadOk_of_spare rfl rfl rfl rfl rfl ?_) ?_
  · -- the address is fresh, so the node is not in the table
    intro n hn
    cases hn
    exact ⟨Nat.lt_succ_self _, fun hin => Nat.lt_irrefl _ (h.table.lt_next _ hin)⟩
  · -- and nobody else has it
    intro u n hu hun htn
    cases htn
    exact Nat.lt_irrefl _ ((h.thread u).spare _ hun).1

/-- A thread that wants an iocount on a live vnode has the node of its key, and
its spare node is another one. -/
theorem Inv.getting {new : Option Addr} (h : Inv s) (hpc : s.pc t = .getting target v new)
    (hlive : s.vstate v = .live) :
    s.Attached target v ∧ (s.mem target).key = s.keyOf t ∧ new ≠ some target := by
  have hwants := (h.thread t).wants target v (by rw [hpc]; rfl)
  rw [hlive] at hwants
  -- a live vnode was not reclaimed since it was found
  rcases hwants with hrec | ⟨hattached, hkey⟩
  · cases hrec
  · refine ⟨hattached, hkey, ?_⟩
    -- a spare node is in no table
    intro heq
    have hspare : (s.pc t).spare = some target := by
      rw [hpc]
      exact heq
    exact ((h.thread t).spare target hspare).2 hattached.inTable

/-- `vnode_getwithvid` succeeds: the vnode is live, so the node is still the one
that was found. -/
theorem Inv.got {new : Option Addr} (h : Inv s) (hpc : s.pc t = .getting target v new)
    (hlive : s.vstate v = .live) : Inv (s.setPc t (.exiting (.ok (target, v)) new)) := by
  rcases h.getting hpc hlive with ⟨hattached, hkey, hne⟩
  have hnew : (s.pc t).spare = new := by
    rw [hpc]
    rfl
  refine h.setPc (by rw [hpc]; rfl) (by rw [hpc]; rfl) ?_ (Or.inr ?_)
  · constructor
    case gives =>
      intro n w hw
      cases hw
      exact ⟨hlive, hattached, hkey⟩
    -- the node of the answer is not the spare one, so the spare stays one
    case spare =>
      intro n hn
      simp only [Pc.spare, resultNode, hne, if_false] at hn
      exact (h.thread t).spare n (hnew.trans hn)
    all_goals simp [Pc.slept, Pc.sleepsOn, Pc.attaches, Pc.wants]
  · rw [hnew]
    simp [Pc.spare, resultNode, hne]

end ProcFS.NodeTable
