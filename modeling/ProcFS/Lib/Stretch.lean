import Mathlib.Order.Basic

/-!
# ProcFS.Lib.Stretch — the longest run of good positions

From a position on, some positions are good and then comes one that is not. A reader
that works piece by piece computes the length of that run whatever the pieces are.

* `stretch_add`: a part that is good to its end is passed over.
* `stretch_of_short`: a part that ends early ends the run.
-/

namespace ProcFS.Lib

variable {p : ℕ → Bool}

/-- How many of the next `n` positions satisfy `p`, up to the first that does not. -/
def stretch (p : ℕ → Bool) : ℕ → ℕ → ℕ
  | _, 0 => 0
  | start, n + 1 => if p start then stretch p (start + 1) n + 1 else 0

/-- The run from `start` on is `n` positions long, or longer and cut at `len`. -/
structure LongestRun (p : ℕ → Bool) (start len n : ℕ) : Prop where
  le : n ≤ len
  good : ∀ i < n, p (start + i) = true
  stops : n < len → p (start + n) = false

theorem LongestRun.unique {start len m n : ℕ} (hm : LongestRun p start len m)
    (hn : LongestRun p start len n) : m = n := by
  rcases Nat.lt_trichotomy m n with h | h | h
  · have hstop := hm.stops (Nat.lt_of_lt_of_le h hn.le)
    rw [hn.good m h] at hstop
    cases hstop
  · exact h
  · have hstop := hn.stops (Nat.lt_of_lt_of_le h hm.le)
    rw [hm.good n h] at hstop
    cases hstop

theorem stretch_longestRun (p : ℕ → Bool) (start len : ℕ) :
    LongestRun p start len (stretch p start len) := by
  induction len generalizing start with
  | zero =>
    refine ⟨Nat.le_refl _, ?_, ?_⟩
    · intro i hi
      exact absurd hi (Nat.not_lt_zero i)
    · intro h
      exact absurd h (Nat.lt_irrefl _)
  | succ len ih =>
    rw [stretch]
    split
    · rename_i hstart
      have hrest := ih (start + 1)
      refine ⟨Nat.succ_le_succ hrest.le, ?_, ?_⟩
      · intro i hi
        cases i with
        | zero => exact hstart
        | succ i =>
          have hgood := hrest.good i (Nat.lt_of_succ_lt_succ hi)
          rwa [Nat.add_assoc, Nat.add_comm 1 i] at hgood
      · intro hlt
        have hstop := hrest.stops (Nat.lt_of_succ_lt_succ hlt)
        rwa [Nat.add_assoc, Nat.add_comm 1] at hstop
    · rename_i hstart
      refine ⟨Nat.zero_le _, fun i hi => absurd hi (Nat.not_lt_zero i), ?_⟩
      intro _
      exact Bool.not_eq_true _ ▸ hstart

/-- Two good parts in a row. -/
theorem good_add {start m n : ℕ} (hm : ∀ i < m, p (start + i) = true)
    (hn : ∀ i < n, p (start + m + i) = true) : ∀ i < m + n, p (start + i) = true := by
  intro i hi
  by_cases him : i < m
  · exact hm i him
  · have hgood := hn (i - m) (by omega)
    rwa [Nat.add_assoc, Nat.add_sub_cancel' (Nat.le_of_not_lt him)] at hgood

/-- A first part that is good to its end is passed over. -/
theorem stretch_add {start m : ℕ} (h : ∀ i < m, p (start + i) = true) (n : ℕ) :
    stretch p start (m + n) = m + stretch p (start + m) n := by
  have hrest := stretch_longestRun p (start + m) n
  refine (stretch_longestRun p start (m + n)).unique ⟨?_, ?_, ?_⟩
  · exact Nat.add_le_add_left hrest.le m
  · exact good_add h hrest.good
  · intro hlt
    have hstop := hrest.stops (by omega)
    rwa [Nat.add_assoc] at hstop

/-- Where a part of the run ends early, the run ends. -/
theorem stretch_of_short {start m : ℕ} (h : stretch p start m < m) (n : ℕ) :
    stretch p start n = min (stretch p start m) n := by
  have hm := stretch_longestRun p start m
  refine (stretch_longestRun p start n).unique ⟨Nat.min_le_right _ _, ?_, ?_⟩
  · intro i hi
    exact hm.good i (by omega)
  · intro hlt
    have heq : min (stretch p start m) n = stretch p start m := by omega
    rw [heq]
    exact hm.stops h

theorem stretch_of_good {start n : ℕ} (h : ∀ i < n, p (start + i) = true) :
    stretch p start n = n :=
  (stretch_longestRun p start n).unique ⟨Nat.le_refl _, h, fun hlt => absurd hlt (Nat.lt_irrefl _)⟩

theorem stretch_of_bad {start : ℕ} (h : p start = false) (n : ℕ) : stretch p start n = 0 :=
  (stretch_longestRun p start n).unique
    ⟨Nat.zero_le _, fun i hi => absurd hi (Nat.not_lt_zero i), fun _ => h⟩

end ProcFS.Lib
