import Mathlib.Data.List.Nodup
import Mathlib.Logic.Function.Basic

/-!
# ProcFS.Lib.Tailq — tail queues in memory

The tail queues of `<sys/queue.h>`, without link checks. A node of the heap has
a queue entry and the head of a queue of its own, so that nodes can form trees.
An entry points back at the pointer that points at it, which is the `tqh_first`
of the head or the `tqe_next` of the entry before. The heap keeps one function
for each field. A field of a node that is not allocated can be neither read nor
written: the operation then has no result.

`IsQueue h q xs` says that the queue of node `q` has the elements `xs`.

* `alloc_init_spec`: a new node has the empty queue.
* `insertTail_spec`: a node becomes the last element.
* `remove_first`: the first element is removed; its links are stale then, and to remove it once more
  changes nothing.
-/

namespace ProcFS.Lib.Tailq

/-- A pointer to a pointer: the `tqh_first` or the `tqe_next` of a node. -/
inductive Loc (A : Type) where
  | first (a : A)
  | next (a : A)
deriving DecidableEq, Repr

/-- The node that a pointer is a field of. -/
def Loc.node {A : Type} : Loc A → A
  | .first a => a
  | .next a => a

/-- The nodes that are allocated, with the fields that are no links, and the link fields. Also the
addresses that were given back, in this order. -/
structure Heap (A D : Type) where
  node : A → Option D
  tqeNext : A → Option A
  tqePrev : A → Option (Loc A)
  tqhFirst : A → Option A
  tqhLast : A → Option (Loc A)
  freed : List A

variable {A D : Type}

namespace Heap

/-- Nothing is allocated. -/
def empty : Heap A D where
  node := fun _ => none
  tqeNext := fun _ => none
  tqePrev := fun _ => none
  tqhFirst := fun _ => none
  tqhLast := fun _ => none
  freed := []

def Live (h : Heap A D) (a : A) : Prop := (h.node a).isSome = true

instance (h : Heap A D) (a : A) : Decidable (h.Live a) :=
  inferInstanceAs (Decidable ((h.node a).isSome = true))

theorem Live.of_node {h h' : Heap A D} {a : A} (hlive : h.Live a) (heq : h'.node a = h.node a) :
    h'.Live a := by
  rwa [Live, heq]

/-- The head of `a` is the same in both heaps. -/
def SameHead (h h' : Heap A D) (a : A) : Prop :=
  h'.tqhFirst a = h.tqhFirst a ∧ h'.tqhLast a = h.tqhLast a

/-- The entry of `a` is the same in both heaps. -/
def SameEntry (h h' : Heap A D) (a : A) : Prop :=
  h'.tqeNext a = h.tqeNext a ∧ h'.tqePrev a = h.tqePrev a

theorem SameHead.trans {h₁ h₂ h₃ : Heap A D} {a : A} (h12 : h₁.SameHead h₂ a)
    (h23 : h₂.SameHead h₃ a) : h₁.SameHead h₃ a :=
  ⟨h23.1.trans h12.1, h23.2.trans h12.2⟩

theorem SameEntry.trans {h₁ h₂ h₃ : Heap A D} {a : A} (h12 : h₁.SameEntry h₂ a)
    (h23 : h₂.SameEntry h₃ a) : h₁.SameEntry h₃ a :=
  ⟨h23.1.trans h12.1, h23.2.trans h12.2⟩

/-- What a pointer points at. -/
def deref (h : Heap A D) : Loc A → Option A
  | .first a => h.tqhFirst a
  | .next a => h.tqeNext a

theorem deref_withLast (h : Heap A D) (tails : A → Option (Loc A)) (loc : Loc A) :
    deref { h with tqhLast := tails } loc = h.deref loc := by
  cases loc with
  | first a => rfl
  | next a => rfl

variable [DecidableEq A]

def setNext (h : Heap A D) (a : A) (v : Option A) : Option (Heap A D) :=
  if h.Live a then some { h with tqeNext := Function.update h.tqeNext a v } else none

def setPrev (h : Heap A D) (a : A) (v : Option (Loc A)) : Option (Heap A D) :=
  if h.Live a then some { h with tqePrev := Function.update h.tqePrev a v } else none

def setFirst (h : Heap A D) (a : A) (v : Option A) : Option (Heap A D) :=
  if h.Live a then some { h with tqhFirst := Function.update h.tqhFirst a v } else none

def setLast (h : Heap A D) (a : A) (v : Option (Loc A)) : Option (Heap A D) :=
  if h.Live a then some { h with tqhLast := Function.update h.tqhLast a v } else none

/-- Writes through a pointer. -/
def store (h : Heap A D) (loc : Option (Loc A)) (v : Option A) : Option (Heap A D) :=
  match loc with
  | none => none
  | some (.first a) => h.setFirst a v
  | some (.next a) => h.setNext a v

/-- Writes the fields that are no links. -/
def modify (h : Heap A D) (a : A) (f : D → D) : Option (Heap A D) :=
  (h.node a).map fun d => { h with node := Function.update h.node a (some (f d)) }

/-- Memory at `a` which is not in use, with links that are zero. -/
def alloc (h : Heap A D) (a : A) (d : D) : Option (Heap A D) :=
  if h.Live a then none
  else some
    { h with
      node := Function.update h.node a (some d)
      tqeNext := Function.update h.tqeNext a none
      tqePrev := Function.update h.tqePrev a none
      tqhFirst := Function.update h.tqhFirst a none
      tqhLast := Function.update h.tqhLast a none }

def free (h : Heap A D) (a : A) : Option (Heap A D) :=
  if h.Live a then some { h with node := Function.update h.node a none, freed := h.freed ++ [a] }
  else none

/-! ## The macros -/

/-- `TAILQ_INIT`. -/
def init (h : Heap A D) (q : A) : Option (Heap A D) := do
  let h ← h.setFirst q none
  h.setLast q (some (.first q))

/-- `TAILQ_FIRST`. -/
def first (h : Heap A D) (q : A) : Option (Option A) :=
  if h.Live q then some (h.tqhFirst q) else none

/-- Reads `tqh_last`. -/
def last (h : Heap A D) (q : A) : Option (Option (Loc A)) :=
  if h.Live q then some (h.tqhLast q) else none

/-- `TAILQ_INSERT_TAIL`. -/
def insertTail (h : Heap A D) (q elm : A) : Option (Heap A D) := do
  let h ← h.setNext elm none
  let h ← h.setPrev elm (← h.last q)
  let h ← h.store (← h.last q) (some elm)
  h.setLast q (some (.next elm))

/-- `TAILQ_REMOVE`. -/
def remove (h : Heap A D) (q elm : A) : Option (Heap A D) :=
  if h.Live elm then do
    let h ←
      match h.tqeNext elm with
      | some next => h.setPrev next (h.tqePrev elm)
      | none => h.setLast q (h.tqePrev elm)
    h.store (h.tqePrev elm) (h.tqeNext elm)
  else none

end Heap

/-! ## Queues -/

/-- From the pointer `loc` on the elements `xs` are linked, up to the pointer `last`, which is the
null pointer. -/
def Linked (h : Heap A D) (last : Loc A) : Loc A → List A → Prop
  | loc, [] => h.deref loc = none ∧ last = loc
  | loc, x :: xs => h.deref loc = some x ∧ h.Live x ∧ h.tqePrev x = some loc ∧
      Linked h last (.next x) xs

/-- The queue of `q` has the elements `xs`. -/
structure IsQueue (h : Heap A D) (q : A) (xs : List A) : Prop where
  live : h.Live q
  links : ∃ last, h.tqhLast q = some last ∧ Linked h last (.first q) xs

namespace Linked

variable {h h' : Heap A D} {loc last : Loc A} {xs : List A}

theorem congr (hl : Linked h last loc xs) (hloc : h'.deref loc = h.deref loc)
    (hxs : ∀ x ∈ xs, (h.Live x → h'.Live x) ∧ h.SameEntry h' x) : Linked h' last loc xs := by
  induction xs generalizing loc with
  | nil => exact ⟨hloc.trans hl.1, hl.2⟩
  | cons x xs ih =>
    obtain ⟨hderef, hlive, hprev, hrest⟩ := hl
    obtain ⟨hlive', hnext', hprev'⟩ := hxs x List.mem_cons_self
    refine ⟨hloc.trans hderef, hlive' hlive, hprev'.trans hprev, ih hrest hnext' ?_⟩
    exact fun y hy => hxs y (List.mem_cons_of_mem x hy)

theorem unique {last' : Loc A} {ys : List A} (hx : Linked h last loc xs)
    (hy : Linked h last' loc ys) : xs = ys := by
  induction xs generalizing loc ys with
  | nil =>
    cases ys with
    | nil => rfl
    | cons y ys => cases hx.1.symm.trans hy.1
  | cons x xs ih =>
    cases ys with
    | nil => cases hx.1.symm.trans hy.1
    | cons y ys =>
      obtain rfl := Option.some.inj (hx.1.symm.trans hy.1)
      rw [ih hx.2.2.2 hy.2.2.2]

theorem deref_last (hl : Linked h last loc xs) : h.deref last = none := by
  induction xs generalizing loc with
  | nil => exact hl.2 ▸ hl.1
  | cons x xs ih => exact ih hl.2.2.2

theorem live (hl : Linked h last loc xs) : ∀ x ∈ xs, h.Live x := by
  induction xs generalizing loc with
  | nil => exact fun _ hx => nomatch hx
  | cons x xs ih =>
    rintro y (_ | ⟨_, hy⟩)
    · exact hl.2.1
    · exact ih hl.2.2.2 y hy

/-- The last pointer is that of the head, or that of an element. -/
theorem last_eq (hl : Linked h last loc xs) : last = loc ∨ ∃ x ∈ xs, last = .next x := by
  induction xs generalizing loc with
  | nil => exact Or.inl hl.2
  | cons x xs ih =>
    rcases ih hl.2.2.2 with hlast | ⟨y, hy, hlast⟩
    · exact Or.inr ⟨x, List.mem_cons_self, hlast⟩
    · exact Or.inr ⟨y, List.mem_cons_of_mem x hy, hlast⟩

theorem live_last {q : A} (hl : Linked h last (.first q) xs) (hq : h.Live q) :
    h.Live last.node := by
  rcases hl.last_eq with rfl | ⟨x, hx, rfl⟩
  · exact hq
  · exact hl.live x hx

theorem last_ne {q a : A} (hl : Linked h last (.first q) xs) (ha : a ∉ xs) : .next a ≠ last := by
  rcases hl.last_eq with rfl | ⟨x, hx, rfl⟩
  · rintro ⟨⟩
  · rintro ⟨⟩
    exact ha hx

/-- One more element behind the last pointer. -/
theorem snoc {a : A} (hl : Linked h last loc xs) (hlast : h'.deref last = some a)
    (hnext : h'.tqeNext a = none) (hprev : h'.tqePrev a = some last) (hlive : h'.Live a)
    (hloc : loc ≠ last → h'.deref loc = h.deref loc)
    (hxs : ∀ x ∈ xs, (h.Live x → h'.Live x) ∧ h'.tqePrev x = h.tqePrev x ∧
      (.next x ≠ last → h'.tqeNext x = h.tqeNext x)) :
    Linked h' (.next a) loc (xs ++ [a]) := by
  induction xs generalizing loc with
  | nil =>
    obtain ⟨-, rfl⟩ := hl
    exact ⟨hlast, hlive, hprev, hnext, rfl⟩
  | cons x xs ih =>
    have hnone := deref_last hl
    obtain ⟨hderef, hx, hxprev, hrest⟩ := hl
    obtain ⟨hx', hprev', hnext'⟩ := hxs x List.mem_cons_self
    -- `loc` points at an element, `last` at none
    have hne : loc ≠ last := by
      rintro rfl
      rw [hnone] at hderef
      cases hderef
    refine ⟨(hloc hne).trans hderef, hx' hx, hprev'.trans hxprev, ih hrest hnext' ?_⟩
    exact fun y hy => hxs y (List.mem_cons_of_mem x hy)

end Linked

namespace IsQueue

variable {h h' : Heap A D} {q : A} {xs : List A}

theorem congr (hq : IsQueue h q xs) (hlive : h.Live q → h'.Live q) (hhead : h.SameHead h' q)
    (hxs : ∀ x ∈ xs, (h.Live x → h'.Live x) ∧ h.SameEntry h' x) : IsQueue h' q xs := by
  obtain ⟨last, hlast, hlinks⟩ := hq.links
  exact ⟨hlive hq.live, last, hhead.2.trans hlast, hlinks.congr hhead.1 hxs⟩

theorem unique {ys : List A} (hx : IsQueue h q xs) (hy : IsQueue h q ys) : xs = ys := by
  obtain ⟨last, -, hx⟩ := hx.links
  obtain ⟨last', -, hy⟩ := hy.links
  exact hx.unique hy

theorem first_eq (hq : IsQueue h q xs) : h.first q = some xs.head? := by
  obtain ⟨last, -, hlinks⟩ := hq.links
  rw [Heap.first, if_pos hq.live]
  cases xs with
  | nil => exact congrArg some hlinks.1
  | cons x xs => exact congrArg some hlinks.1

end IsQueue

section Operations

variable [DecidableEq A] {h : Heap A D} {q : A} {xs : List A}

theorem init_of_live (hlive : h.Live q) :
    h.init q = some
      { h with
        tqhFirst := Function.update h.tqhFirst q none
        tqhLast := Function.update h.tqhLast q (some (.first q)) } := by
  rw [Heap.init, Heap.setFirst, if_pos hlive]
  show Heap.setLast _ q _ = _
  exact if_pos hlive

/-- A new node has the empty queue. -/
theorem alloc_init_spec {a : A} (ha : ¬ h.Live a) (d : D) :
    ∃ h₁ h', h.alloc a d = some h₁ ∧ h₁.init a = some h' ∧ IsQueue h' a [] ∧
      h'.node = Function.update h.node a (some d) ∧ h'.freed = h.freed ∧
      (∀ x, x ≠ a → h.SameHead h' x) ∧ ∀ x, x ≠ a → h.SameEntry h' x := by
  have hlive : (Function.update h.node a (some d) a).isSome = true := by
    rw [Function.update_self, Option.isSome_some]
  refine ⟨_, _, if_neg ha, init_of_live hlive, ⟨hlive, .first a, ?_, ?_, rfl⟩, rfl, rfl,
    fun x hx => ⟨?_, ?_⟩, fun x hx => ⟨?_, ?_⟩⟩
  · exact Function.update_self a _ _
  · exact Function.update_self a none (Function.update h.tqhFirst a none)
  · exact (Function.update_of_ne hx _ _).trans (Function.update_of_ne hx _ h.tqhFirst)
  · exact (Function.update_of_ne hx _ _).trans (Function.update_of_ne hx _ h.tqhLast)
  · exact Function.update_of_ne hx _ h.tqeNext
  · exact Function.update_of_ne hx _ h.tqePrev

theorem modify_spec {a : A} {d : D} (ha : h.node a = some d) (f : D → D) :
    ∃ h', h.modify a f = some h' ∧ h'.node = Function.update h.node a (some (f d)) ∧
      h'.freed = h.freed ∧ ∀ x, (h.Live x → h'.Live x) ∧ h.SameHead h' x ∧ h.SameEntry h' x := by
  refine ⟨{ h with node := Function.update h.node a (some (f d)) }, ?_, rfl, rfl,
    fun x => ⟨fun hx => ?_, ⟨rfl, rfl⟩, rfl, rfl⟩⟩
  · rw [Heap.modify, ha, Option.map_some]
  · by_cases hxa : x = a
    · subst hxa
      show (Function.update h.node x (some (f d)) x).isSome = true
      rw [Function.update_self, Option.isSome_some]
    · show (Function.update h.node a (some (f d)) x).isSome = true
      rwa [Function.update_of_ne hxa]

/-- A write through a pointer changes what this pointer points at, and nothing else. -/
theorem store_spec {loc : Loc A} (hlive : h.Live loc.node) (v : Option A) :
    ∃ h', h.store (some loc) v = some h' ∧ h'.deref loc = v ∧
      (∀ l, l ≠ loc → h'.deref l = h.deref l) ∧ h'.node = h.node ∧ h'.freed = h.freed ∧
      h'.tqePrev = h.tqePrev ∧ h'.tqhLast = h.tqhLast := by
  cases loc with
  | first a =>
    refine ⟨_, if_pos hlive, ?_, fun l hl => ?_, rfl, rfl, rfl, rfl⟩
    · exact Function.update_self a v h.tqhFirst
    cases l with
    | first b => exact Function.update_of_ne (fun hb => hl (congrArg Loc.first hb)) v h.tqhFirst
    | next b => rfl
  | next a =>
    refine ⟨_, if_pos hlive, ?_, fun l hl => ?_, rfl, rfl, rfl, rfl⟩
    · exact Function.update_self a v h.tqeNext
    cases l with
    | first b => rfl
    | next b => exact Function.update_of_ne (fun hb => hl (congrArg Loc.next hb)) v h.tqeNext

theorem insertTail_of_last {a : A} {last : Loc A} (ha : h.Live a) (hq : h.Live q)
    (hlast : h.tqhLast q = some last) :
    h.insertTail q a =
      (Heap.store
        { h with
          tqeNext := Function.update h.tqeNext a none
          tqePrev := Function.update h.tqePrev a (some last) } (some last) (some a)).bind
        fun h' => h'.setLast q (some (.next a)) := by
  have hread : ∀ nexts prevs,
      Heap.last { h with tqeNext := nexts, tqePrev := prevs } q = some (some last) :=
    fun _ _ => (if_pos hq).trans (congrArg some hlast)
  rw [Heap.insertTail, Heap.setNext, if_pos ha]
  simp only [Option.bind_eq_bind, Option.bind_some]
  rw [hread, Option.bind_some, Heap.setPrev]
  show Option.bind (if h.Live a then _ else _) _ = _
  rw [if_pos ha, Option.bind_some, hread, Option.bind_some]

/-- An allocated node that is no element becomes the last one. -/
theorem insertTail_spec {a : A} (hq : IsQueue h q xs) (ha : h.Live a) (hmem : a ∉ xs) :
    ∃ h', h.insertTail q a = some h' ∧ IsQueue h' q (xs ++ [a]) ∧ h'.node = h.node ∧
      h'.freed = h.freed ∧ (∀ x, x ≠ q → h.SameHead h' x) ∧
      ∀ x, x ≠ a → x ∉ xs → h.SameEntry h' x := by
  obtain ⟨last, hlast, hlinks⟩ := hq.links
  have hlive := hq.live
  -- the links of the new element are set first, then the pointer that ends the queue
  let linked : Heap A D :=
    { h with
      tqeNext := Function.update h.tqeNext a none
      tqePrev := Function.update h.tqePrev a (some last) }
  obtain ⟨h', hstore, hderef, hothers, hnode, hfreed, hprev, htail⟩ :=
    store_spec (h := linked) (hlinks.live_last hlive) (some a)
  have hlive' : ∀ x, h.Live x → h'.Live x := fun x hx => hx.of_node (congrFun hnode x)
  have hnext : ∀ x, .next x ≠ last → h'.tqeNext x = Function.update h.tqeNext a none x :=
    fun x hx => hothers (.next x) hx
  have hfirst : ∀ x, .first x ≠ last → h'.tqhFirst x = h.tqhFirst x :=
    fun x hx => hothers (.first x) hx
  refine ⟨{ h' with tqhLast := Function.update h'.tqhLast q (some (.next a)) }, ?_,
    ⟨hlive' q hlive, .next a, Function.update_self q _ h'.tqhLast, ?_⟩, hnode, hfreed,
    fun x hx => ⟨?_, ?_⟩, fun x hxa hxs => ⟨?_, ?_⟩⟩
  · rw [insertTail_of_last ha hlive hlast, hstore]
    exact if_pos (hlive' q hlive)
  · refine hlinks.snoc ?_ ?_ ?_ ?_ ?_ ?_
    · rw [Heap.deref_withLast, hderef]
    · exact (hnext a (hlinks.last_ne hmem)).trans (Function.update_self a _ h.tqeNext)
    · exact (congrFun hprev a).trans (Function.update_self a _ h.tqePrev)
    · exact hlive' a ha
    · exact fun hne => hfirst q hne
    · intro x hx
      have hxa : x ≠ a := fun hxa => hmem (hxa ▸ hx)
      refine ⟨hlive' x, ?_, fun hne => ?_⟩
      · exact (congrFun hprev x).trans (Function.update_of_ne hxa _ h.tqePrev)
      · exact (hnext x hne).trans (Function.update_of_ne hxa _ h.tqeNext)
  · -- a head that changes is that of `q`, when the queue was empty
    refine hfirst x ?_
    rcases hlinks.last_eq with rfl | ⟨y, -, rfl⟩
    · rintro ⟨⟩
      exact hx rfl
    · rintro ⟨⟩
  · exact (Function.update_of_ne hx _ h'.tqhLast).trans (congrFun htail x)
  · exact (hnext x (hlinks.last_ne hxs)).trans (Function.update_of_ne hxa _ h.tqeNext)
  · exact (congrFun hprev x).trans (Function.update_of_ne hxa _ h.tqePrev)

theorem remove_only {x : A} (hx : h.Live x) (hq : h.Live q) (hnext : h.tqeNext x = none)
    (hprev : h.tqePrev x = some (.first q)) :
    h.remove q x = some
      { h with
        tqhFirst := Function.update h.tqhFirst q none
        tqhLast := Function.update h.tqhLast q (some (.first q)) } := by
  rw [Heap.remove, if_pos hx, hnext, hprev, Heap.setLast, if_pos hq]
  show Heap.store _ (h.tqePrev x) (h.tqeNext x) = _
  rw [hprev, hnext]
  exact if_pos hq

theorem remove_before {x y : A} (hxy : x ≠ y) (hx : h.Live x) (hy : h.Live y) (hq : h.Live q)
    (hnext : h.tqeNext x = some y) (hprev : h.tqePrev x = some (.first q)) :
    h.remove q x = some
      { h with
        tqhFirst := Function.update h.tqhFirst q (some y)
        tqePrev := Function.update h.tqePrev y (some (.first q)) } := by
  rw [Heap.remove, if_pos hx, hnext, hprev]
  show (Heap.setPrev h y _).bind _ = _
  rw [Heap.setPrev, if_pos hy]
  show Heap.store _ (Function.update h.tqePrev y _ x) (h.tqeNext x) = _
  rw [Function.update_of_ne hxy, hprev, hnext]
  exact if_pos hq

/-- The first element is removed from the queue. Its own links stay, and with them it can be removed
again: this changes nothing. -/
theorem remove_first {x : A} (hq : IsQueue h q (x :: xs)) (hnd : (x :: xs).Nodup) :
    ∃ h', h.remove q x = some h' ∧ h'.remove q x = some h' ∧ IsQueue h' q xs ∧
      h'.node = h.node ∧ h'.freed = h.freed ∧ (∀ y, y ≠ q → h.SameHead h' y) ∧
      ∀ y, y ∉ xs → h.SameEntry h' y := by
  obtain ⟨last, hlast, -, hx, hprev, hrest⟩ := hq.links
  have hlive := hq.live
  cases xs with
  | nil =>
    refine ⟨_, remove_only hx hlive hrest.1 hprev, ?_, ⟨hlive, .first q, ?_, ?_, rfl⟩, rfl, rfl,
      fun y hy => ⟨?_, ?_⟩, fun y _ => ⟨rfl, rfl⟩⟩
    · -- the second removal reads the links of `x`, which are still there
      refine Eq.trans (remove_only ?_ ?_ ?_ ?_) ?_
      · exact hx
      · exact hlive
      · exact hrest.1
      · exact hprev
      · simp only [Function.update_idem]
    · exact Function.update_self q _ h.tqhLast
    · exact Function.update_self q _ h.tqhFirst
    · exact Function.update_of_ne hy _ h.tqhFirst
    · exact Function.update_of_ne hy _ h.tqhLast
  | cons y ys =>
    obtain ⟨hnext, hy, -, hrest⟩ := hrest
    obtain ⟨hxmem, hnd⟩ := List.nodup_cons.mp hnd
    have hxy : x ≠ y := List.ne_of_not_mem_cons hxmem
    refine ⟨_, remove_before hxy hx hy hlive hnext hprev, ?_, ⟨hlive, last, hlast, ?_, hy, ?_, ?_⟩,
      rfl, rfl, fun z hz => ⟨?_, rfl⟩, fun z hz => ⟨rfl, ?_⟩⟩
    · refine Eq.trans (remove_before hxy ?_ ?_ ?_ ?_ ?_) ?_
      · exact hx
      · exact hy
      · exact hlive
      · exact hnext
      · exact (Function.update_of_ne hxy _ _).trans hprev
      · simp only [Function.update_idem]
    · exact Function.update_self q _ h.tqhFirst
    · exact Function.update_self y _ h.tqePrev
    · -- behind `y` nothing has changed
      refine hrest.congr rfl fun z hz => ⟨id, rfl, Function.update_of_ne ?_ _ _⟩
      rintro rfl
      exact (List.nodup_cons.mp hnd).1 hz
    · exact Function.update_of_ne hz _ h.tqhFirst
    · exact Function.update_of_ne (List.ne_of_not_mem_cons hz) _ h.tqePrev

end Operations

end ProcFS.Lib.Tailq
