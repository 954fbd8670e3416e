import Mathlib.Data.Set.Insert
import Mathlib.Logic.ExistsUnique
import Mathlib.Logic.Function.Basic

/-!
# ProcFS.Lib.Ledger — who answers for what was allocated

A ledger records which resources were allocated, which of them someone still
holds, and how often each was freed. A program that allocates and frees makes
moves on it: it allocates something new, frees something held, or drops something
held without freeing it.

Where each agent holds at most one resource, `Exclusive` says that no two agents hold
the same one. Its rules say which changes keep it so: agents that let go of what they
hold, and one agent that takes something nobody else holds.

* `Exclusive.take`: an agent may take what no other one holds.
* `Move.sound`: no move frees something twice.
* `Move.settled`: a move that drops nothing leaves everything accounted for.
* `Move.lost`: what is lost stays lost.
-/

namespace ProcFS

/-! ## Resources with at most one holder -/

section Exclusive

variable {ι α : Type}

/-- No two agents hold the same resource. -/
def Exclusive (holds : ι → Option α) : Prop :=
  ∀ i j a, holds i = some a → holds j = some a → i = j

namespace Exclusive

variable {f g : ι → Option α}

/-- Agents may let go. -/
theorem of_le (h : Exclusive f) (hle : ∀ i a, g i = some a → f i = some a) : Exclusive g := by
  intro i j a hi hj
  exact h i j a (hle i a hi) (hle j a hj)

/-- One agent may take what no other agent holds, while the others may let go. -/
theorem take (h : Exclusive f) (i : ι) (hle : ∀ j a, j ≠ i → g j = some a → f j = some a)
    (hfree : ∀ j a, j ≠ i → f j = some a → g i ≠ some a) : Exclusive g := by
  intro j k a hj hk
  by_cases hji : j = i
  · by_cases hki : k = i
    · rw [hji, hki]
    · rw [hji] at hj
      exact absurd hj (hfree k a hki (hle k a hki hk))
  · by_cases hki : k = i
    · rw [hki] at hk
      exact absurd hk (hfree j a hji (hle j a hji hj))
    · exact h j k a (hle j a hji hj) (hle k a hki hk)

/-- The only holder of a resource that has one. -/
theorem existsUnique (h : Exclusive f) {i : ι} {a : α} (hi : f i = some a) :
    ∃! j, f j = some a :=
  ⟨i, hi, fun j hj => h j i a hj hi⟩

end Exclusive

end Exclusive

/-! ## The ledger -/

variable {α : Type}

/-- What was allocated, what is held, and how often each resource was freed. -/
@[ext] structure Ledger (α : Type) where
  allocated : Set α
  held : Set α
  freed : α → ℕ

namespace Ledger

/-- What is held was allocated and not freed, and nothing was freed twice. -/
structure Sound (L : Ledger α) : Prop where
  held_allocated : ∀ a ∈ L.held, a ∈ L.allocated
  held_freed : ∀ a ∈ L.held, L.freed a = 0
  fresh_freed : ∀ a, a ∉ L.allocated → L.freed a = 0
  freed_le : ∀ a, L.freed a ≤ 1

/-- Whatever was allocated is held or was freed. -/
def Settled (L : Ledger α) : Prop := ∀ a ∈ L.allocated, a ∈ L.held ∨ L.freed a = 1

/-- A resource was allocated, nobody holds it and it was not freed. -/
structure Lost (L : Ledger α) (a : α) : Prop where
  allocated : a ∈ L.allocated
  not_held : a ∉ L.held
  freed : L.freed a = 0

theorem Lost.not_settled {L : Ledger α} {a : α} (h : L.Lost a) : ¬ L.Settled := by
  intro hs
  rcases hs a h.allocated with hheld | hfreed
  · exact h.not_held hheld
  · rw [h.freed] at hfreed
    cases hfreed

/-! ## Moves -/

variable [DecidableEq α]

/-- A new resource is allocated and held. -/
def alloc (L : Ledger α) (a : α) : Ledger α :=
  { L with allocated := insert a L.allocated, held := insert a L.held }

/-- A resource is freed and not held any more. -/
def free (L : Ledger α) (a : α) : Ledger α :=
  { L with held := L.held \ {a}, freed := Function.update L.freed a (L.freed a + 1) }

/-- A resource is not held any more, but was not freed. -/
def drop (L : Ledger α) (a : α) : Ledger α := { L with held := L.held \ {a} }

/-- One move, with the resource that it drops. -/
inductive Move (L : Ledger α) : Option α → Ledger α → Prop where
  | keep : Move L none L
  | alloc {a : α} (ha : a ∉ L.allocated) : Move L none (L.alloc a)
  | free {a : α} (ha : a ∈ L.held) : Move L none (L.free a)
  | drop {a : α} (ha : a ∈ L.held) : Move L (some a) (L.drop a)

variable {L L' : Ledger α} {d : Option α}

/-- No move frees something twice. -/
theorem Move.sound (hm : L.Move d L') (h : L.Sound) : L'.Sound := by
  cases hm with
  | keep => exact h
  | @alloc a ha =>
    constructor
    case held_allocated => exact fun b hb => hb.imp id (h.held_allocated b)
    case held_freed =>
      rintro b (rfl | hb)
      · exact h.fresh_freed b ha
      · exact h.held_freed b hb
    case fresh_freed => exact fun b hb => h.fresh_freed b fun hin => hb (Or.inr hin)
    case freed_le => exact h.freed_le
  | @free a ha =>
    have hother : ∀ b, b ≠ a → (L.free a).freed b = L.freed b := by
      intro b hb
      simp [Ledger.free, hb]
    constructor
    case held_allocated => exact fun b hb => h.held_allocated b hb.1
    case held_freed =>
      intro b hb
      rw [hother b hb.2]
      exact h.held_freed b hb.1
    case fresh_freed =>
      intro b hb
      have hne : b ≠ a := by
        rintro rfl
        exact hb (h.held_allocated b ha)
      rw [hother b hne]
      exact h.fresh_freed b hb
    case freed_le =>
      intro b
      by_cases hb : b = a
      · simp [hb, Ledger.free, h.held_freed a ha]
      · rw [hother b hb]
        exact h.freed_le b
  | drop ha =>
    exact ⟨fun b hb => h.held_allocated b hb.1, fun b hb => h.held_freed b hb.1, h.fresh_freed,
      h.freed_le⟩

/-- A move that drops nothing leaves everything accounted for. -/
theorem Move.settled (hm : L.Move none L') (h : L.Sound) (hs : L.Settled) : L'.Settled := by
  cases hm with
  | keep => exact hs
  | alloc ha =>
    rintro b (rfl | hb)
    · exact Or.inl (Or.inl rfl)
    · exact (hs b hb).imp Or.inr id
  | @free a ha =>
    intro b hb
    by_cases hba : b = a
    · right
      simp [hba, Ledger.free, h.held_freed a ha]
    · rcases hs b hb with hheld | hfreed
      · exact Or.inl ⟨hheld, hba⟩
      · right
        simpa [Ledger.free, hba] using hfreed

/-- What a move drops is lost. -/
theorem Move.lost_of_drop {a : α} (hm : L.Move (some a) L') (h : L.Sound) : L'.Lost a := by
  cases hm with
  | drop ha => exact ⟨h.held_allocated a ha, fun hin => hin.2 rfl, h.held_freed a ha⟩

/-- What is lost stays lost. -/
theorem Move.lost {a : α} (hm : L.Move d L') (h : L.Lost a) : L'.Lost a := by
  cases hm with
  | keep => exact h
  | alloc hb =>
    refine ⟨Or.inr h.allocated, ?_, h.freed⟩
    rintro (rfl | hin)
    · exact hb h.allocated
    · exact h.not_held hin
  | @free b hb =>
    have hne : a ≠ b := by
      rintro rfl
      exact h.not_held hb
    refine ⟨h.allocated, fun hin => h.not_held hin.1, ?_⟩
    simpa [Ledger.free, hne] using h.freed
  | drop hb => exact ⟨h.allocated, fun hin => h.not_held hin.1, h.freed⟩

end Ledger

end ProcFS
