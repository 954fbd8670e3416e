import Mathlib.Data.Fintype.Basic
import Mathlib.Logic.Function.Basic

/-!
# ProcFS.Lib.Depends — resources that rest on others

A program acquires resources and releases them. Some are of no use without others: a lock without
its group, a callback without the lock that it takes. The program keeps the order if it acquires
what is not there, after all that it needs, and releases what is there, after all that needs it.

* `InOrder.supported`: what is there has all it needs, at every moment.
-/

namespace ProcFS.Lib

/-- What a program does with a resource. -/
inductive UseEvent (κ : Type) where
  | acquire (k : κ)
  | release (k : κ)
deriving DecidableEq, Repr

variable {κ : Type} [DecidableEq κ]

/-- What is there after an event. -/
def UseEvent.apply (live : κ → Bool) : UseEvent κ → κ → Bool
  | .acquire k => Function.update live k true
  | .release k => Function.update live k false

/-- What is there after some events. -/
def liveAfter (live : κ → Bool) (es : List (UseEvent κ)) : κ → Bool := es.foldl UseEvent.apply live

@[simp] theorem liveAfter_nil (live : κ → Bool) : liveAfter live [] = live := rfl

theorem liveAfter_append (live : κ → Bool) (es es' : List (UseEvent κ)) :
    liveAfter live (es ++ es') = liveAfter (liveAfter live es) es' := List.foldl_append

variable (needs : κ → List κ)

/-- The event keeps the order. -/
def UseEvent.Allowed (live : κ → Bool) : UseEvent κ → Prop
  | .acquire k => live k = false ∧ ∀ j ∈ needs k, live j = true
  | .release k => live k = true ∧ ∀ j, k ∈ needs j → live j = false

/-- All of the events do. -/
def InOrder : (κ → Bool) → List (UseEvent κ) → Prop
  | _, [] => True
  | live, e :: es => e.Allowed needs live ∧ InOrder (e.apply live) es

section Decidable

variable [Fintype κ]

instance UseEvent.decidableAllowed (live : κ → Bool) : (e : UseEvent κ) →
    Decidable (e.Allowed needs live)
  | .acquire k => inferInstanceAs (Decidable (live k = false ∧ ∀ j ∈ needs k, live j = true))
  | .release k => inferInstanceAs (Decidable (live k = true ∧ ∀ j, k ∈ needs j → live j = false))

instance decidableInOrder : (live : κ → Bool) → (es : List (UseEvent κ)) →
    Decidable (InOrder needs live es)
  | _, [] => isTrue trivial
  | live, e :: es =>
    have := decidableInOrder (e.apply live) es
    inferInstanceAs (Decidable (e.Allowed needs live ∧ InOrder needs (e.apply live) es))

end Decidable

variable {needs} {live : κ → Bool} {es es' : List (UseEvent κ)}

theorem inOrder_append :
    InOrder needs live (es ++ es') ↔ InOrder needs live es ∧
      InOrder needs (liveAfter live es) es' := by
  induction es generalizing live with
  | nil => simp [InOrder]
  | cons e es ih =>
    have hlive : liveAfter live (e :: es) = liveAfter (e.apply live) es := rfl
    rw [List.cons_append, InOrder, InOrder, ih, hlive, and_assoc]

/-- Whatever is there has all it needs. -/
def Supported (needs : κ → List κ) (live : κ → Bool) : Prop :=
  ∀ k, live k = true → ∀ j ∈ needs k, live j = true

theorem UseEvent.Allowed.supported {e : UseEvent κ} (he : e.Allowed needs live)
    (h : Supported needs live) : Supported needs (e.apply live) := by
  intro k hk j hj
  cases e with
  | acquire r =>
    have hlive : live j = true := by
      by_cases hkr : k = r
      · exact he.2 j (hkr ▸ hj)
      · have hold : live k = true := by simpa [UseEvent.apply, hkr] using hk
        exact h k hold j hj
    by_cases hjr : j = r
    · simp [UseEvent.apply, hjr]
    · simpa [UseEvent.apply, hjr] using hlive
  | release r =>
    by_cases hkr : k = r
    · simp [UseEvent.apply, hkr] at hk
    · have hold : live k = true := by simpa [UseEvent.apply, hkr] using hk
      -- what is released is not needed by `k`
      have hjr : j ≠ r := by
        intro hjr
        have hfalse := he.2 k (hjr ▸ hj)
        rw [hold] at hfalse
        cases hfalse
      simpa [UseEvent.apply, hjr] using h k hold j hj

/-- At every moment. -/
theorem InOrder.supported (hes : InOrder needs live es) (h : Supported needs live)
    {pre : List (UseEvent κ)} (hpre : pre <+: es) : Supported needs (liveAfter live pre) := by
  rcases hpre with ⟨rest, rfl⟩
  have hpre := (inOrder_append.mp hes).1
  clear hes
  induction pre generalizing live with
  | nil => exact h
  | cons e pre ih => exact ih (hpre.1.supported h) hpre.2

end ProcFS.Lib
