import Mathlib.Data.Multiset.AddSub

/-!
# ProcFS.Lib.Refs — references that are taken and released

A program looks things up by a key, and what it finds comes with a reference
that has to be released. What is found may depend on everything that happened
before. The program leaves a trace of these events, and `Uses pre m post` says
which references it owns: started with those of `pre` it ends with those of
`post`, and each release on the way is of a reference that it owns. The rules
follow the program.

* `Uses.bind`: the rule for a sequence of programs.
* `Uses.inside`: a program may run while other references are owned.
* `Uses.balanced`: a program that owns nothing before and after releases what it took, once.
-/

namespace ProcFS.Lib

/-- A search, with what it found, or a release. -/
inductive RefEvent (K P : Type) where
  | find (key : K) (found : Option P)
  | rele (p : P)

/-- A program that leaves a trace. -/
abbrev Traced (K P : Type) := StateM (List (RefEvent K P))

variable {K P α β : Type}

namespace Traced

/-- A search at a point where `find` is what there is to be found. -/
def find (find : List (RefEvent K P) → K → Option P) (key : K) : Traced K P (Option P) := fun es =>
  (find es key, es ++ [.find key (find es key)])

def rele (p : P) : Traced K P Unit := fun es => ((), es ++ [.rele p])

/-- Releases what was found, if anything. -/
def rele? : Option P → Traced K P Unit
  | none => pure ()
  | some p => rele p

end Traced

/-! ## Traces -/

def taken (es : List (RefEvent K P)) : List P :=
  es.filterMap fun
    | .find _ found => found
    | .rele _ => none

def released (es : List (RefEvent K P)) : List P :=
  es.filterMap fun
    | .find _ _ => none
    | .rele p => some p

/-- What was taken was released, each reference once, and never more than was taken by then. -/
structure Balanced (es : List (RefEvent K P)) : Prop where
  all : (released es).Perm (taken es)
  after : ∀ pre, pre <+: es → (released pre).Subperm (taken pre)

/-- With the references `R` the events can happen, and `R'` are left. -/
inductive Held : Multiset P → List (RefEvent K P) → Multiset P → Prop
  | nil (R : Multiset P) : Held R [] R
  | missed {R R' : Multiset P} {es : List (RefEvent K P)} (key : K) (h : Held R es R') :
      Held R (.find key none :: es) R'
  | found {R R' : Multiset P} {es : List (RefEvent K P)} (key : K) (p : P)
      (h : Held (p ::ₘ R) es R') : Held R (.find key (some p) :: es) R'
  | rele {R R' : Multiset P} {es : List (RefEvent K P)} (p : P) (h : Held R es R') :
      Held (p ::ₘ R) (.rele p :: es) R'

namespace Held

variable {R R' R'' : Multiset P} {es es' : List (RefEvent K P)}

theorem append (h : Held R es R') (h' : Held R' es' R'') : Held R (es ++ es') R'' := by
  induction h with
  | nil R => exact h'
  | missed key _ ih => exact Held.missed key (ih h')
  | found key p _ ih => exact Held.found key p (ih h')
  | rele p _ ih => exact Held.rele p (ih h')

/-- References that are not touched stay. -/
theorem frame (h : Held R es R') (F : Multiset P) : Held (F + R) es (F + R') := by
  induction h with
  | nil R => exact Held.nil (F + R)
  | missed key _ ih => exact Held.missed key ih
  | found key p _ ih =>
    rw [Multiset.add_cons] at ih
    exact Held.found key p ih
  | rele p _ ih =>
    rw [Multiset.add_cons]
    exact Held.rele p ih

/-- The references before and those taken are those released and those left. -/
theorem account (h : Held R es R') :
    R + (taken es : Multiset P) = R' + (released es : Multiset P) := by
  induction h with
  | nil R => rfl
  | missed key _ ih => exact ih
  | @found R R' es key p _ ih =>
    have htaken : taken (RefEvent.find key (some p) :: es) = p :: taken es := rfl
    rw [htaken, ← Multiset.cons_coe, Multiset.add_cons, ← Multiset.cons_add]
    exact ih
  | @rele R R' es p _ ih =>
    have hreleased : released (RefEvent.rele (K := K) p :: es) = p :: released es := rfl
    rw [hreleased, ← Multiset.cons_coe, Multiset.add_cons, Multiset.cons_add]
    exact congrArg (p ::ₘ ·) ih

theorem of_append (h : Held R (es ++ es') R') : ∃ R'', Held R es R'' := by
  induction es generalizing R with
  | nil => exact ⟨R, Held.nil R⟩
  | cons e es ih =>
    cases h with
    | missed key h =>
      obtain ⟨R'', h⟩ := ih h
      exact ⟨R'', Held.missed key h⟩
    | found key p h =>
      obtain ⟨R'', h⟩ := ih h
      exact ⟨R'', Held.found key p h⟩
    | rele p h =>
      obtain ⟨R'', h⟩ := ih h
      exact ⟨R'', Held.rele p h⟩

theorem balanced (h : Held 0 es 0) : Balanced es where
  all := by
    have haccount := h.account
    rw [Multiset.zero_add, Multiset.zero_add] at haccount
    exact (Multiset.coe_eq_coe.mp haccount).symm
  after := by
    rintro pre ⟨rest, rfl⟩
    obtain ⟨R, hR⟩ := h.of_append
    have haccount := hR.account
    rw [Multiset.zero_add] at haccount
    rw [← Multiset.coe_le, haccount]
    exact Multiset.le_add_left _ R

end Held

/-! ## Programs -/

/-- Started with the references `pre`, the program ends with those of its result. -/
def Uses (pre : Multiset P) (m : Traced K P α) (post : α → Multiset P) : Prop :=
  ∀ es, ∃ new, (m.run es).2 = es ++ new ∧ Held pre new (post (m.run es).1)

/-- The reference to what was found. -/
def found : Option P → Multiset P
  | none => 0
  | some p => {p}

namespace Uses

variable {pre : Multiset P} {m : Traced K P α} {post : α → Multiset P}

theorem pure (a : α) (post : α → Multiset P) : Uses (post a) (Pure.pure a : Traced K P α) post :=
  fun es => ⟨[], (List.append_nil es).symm, Held.nil _⟩

/-- A return, without references. -/
theorem done (a : α) : Uses 0 (Pure.pure a : Traced K P α) fun _ => 0 := Uses.pure a fun _ => 0

theorem bind {f : α → Traced K P β} {post' : β → Multiset P} (hm : Uses pre m post)
    (hf : ∀ a, Uses (post a) (f a) post') : Uses pre (m >>= f) post' := by
  intro es
  obtain ⟨new, heq, hheld⟩ := hm es
  obtain ⟨new', heq', hheld'⟩ := hf (m.run es).1 (m.run es).2
  refine ⟨new ++ new', ?_, hheld.append hheld'⟩
  rw [← List.append_assoc, ← heq]
  exact heq'

theorem find (find : List (RefEvent K P) → K → Option P) (key : K) :
    Uses 0 (Traced.find find key) found := by
  intro es
  refine ⟨[.find key (find es key)], rfl, ?_⟩
  show Held 0 [.find key (find es key)] (Lib.found (find es key))
  cases find es key with
  | none => exact Held.missed key (Held.nil 0)
  | some p => exact Held.found key p (Held.nil _)

theorem rele (p : P) : Uses {p} (Traced.rele p : Traced K P Unit) fun _ => 0 :=
  fun _ => ⟨[.rele p], rfl, Held.rele p (Held.nil 0)⟩

theorem rele? (p : Option P) :
    Uses (Lib.found p) (Traced.rele? p : Traced K P Unit) fun _ => 0 := by
  cases p with
  | none => exact Uses.done ()
  | some p => exact Uses.rele p

theorem frame (hm : Uses pre m post) (F : Multiset P) :
    Uses (F + pre) m fun a => F + post a := by
  intro es
  obtain ⟨new, heq, hheld⟩ := hm es
  exact ⟨new, heq, hheld.frame F⟩

/-- A program without references of its own can run while others are owned. -/
theorem inside (hm : Uses 0 m fun _ => 0) (F : Multiset P) : Uses F m fun _ => F := by
  have hframe := hm.frame F
  rwa [Multiset.add_zero] at hframe

theorem balanced (hm : Uses 0 m fun _ => 0) (es : List (RefEvent K P)) :
    ∃ new, (m.run es).2 = es ++ new ∧ Balanced new := by
  obtain ⟨new, heq, hheld⟩ := hm es
  exact ⟨new, heq, hheld.balanced⟩

end Uses

/-! ## Results -/

/-- The program returns `a`, whatever happened before. -/
def Returns (m : Traced K P α) (a : α) : Prop := ∀ es, (m.run es).1 = a

namespace Returns

theorem pure (a : α) : Returns (Pure.pure a : Traced K P α) a := fun _ => rfl

theorem bind {m : Traced K P α} {f : α → Traced K P β} {a : α} {b : β} (hm : Returns m a)
    (hf : Returns (f a) b) : Returns (m >>= f) b := by
  intro es
  have hrun : ((m >>= f).run es).1 = ((f (m.run es).1).run (m.run es).2).1 := rfl
  rw [hrun, hm es, hf]

/-- A search where the same things are there all the time. -/
theorem find (find : K → Option P) (key : K) :
    Returns (Traced.find (fun _ => find) key) (find key) :=
  fun _ => rfl

theorem rele (p : P) : Returns (Traced.rele p : Traced K P Unit) () := fun _ => rfl

theorem rele? (p : Option P) : Returns (Traced.rele? p : Traced K P Unit) () := by
  cases p with
  | none => exact Returns.pure ()
  | some p => exact Returns.rele p

end Returns

end ProcFS.Lib
