import Mathlib.Data.List.Basic

/-!
# ProcFS.Lib.Visit — callbacks that collect up to a limit

An iterator calls back for each element of a list and stops when a callback says that it is done.
A callback collects if each call adds what its element has to a list, of which no more than a limit
is kept, and it says done only when the list is full. Then it makes no difference that the iterator
stops, and an iterator over iterators collects too.

* `Collects.visit_eq`: an iteration collects what the elements have.
* `Collects.nested`: so does one inside a callback.
* `take_flatMap_take_eq_iff`: when the limits lose nothing.
-/

namespace ProcFS.Lib

section

variable {σ α β : Type*}

/-- Calls back for one element after the other, until a callback is done. -/
def visit (cb : α → σ → σ × Bool) : List α → σ → σ
  | [], s => s
  | a :: as, s => if (cb a s).2 then (cb a s).1 else visit cb as (cb a s).1

/-- No callback is ever done. -/
theorem visit_eq_foldl {cb : α → σ → σ × Bool} (hgo : ∀ a s, (cb a s).2 = false) (as : List α)
    (s : σ) : visit cb as s = as.foldl (fun s a => (cb a s).1) s := by
  induction as generalizing s with
  | nil => rfl
  | cons a as ih =>
    rw [visit, hgo a s, List.foldl_cons]
    exact ih _

/-- Callbacks that append to a text. -/
theorem foldl_append_eq (f : α → List β) (xs : List α) (sb : List β) :
    xs.foldl (fun sb x => sb ++ f x) sb = sb ++ xs.flatMap f := by
  induction xs generalizing sb with
  | nil => rw [List.foldl_nil, List.flatMap_nil, List.append_nil]
  | cons x xs ih => rw [List.foldl_cons, ih, List.flatMap_cons, List.append_assoc]

/-- Callbacks that append for some elements only. -/
theorem flatMap_filter (p : α → Bool) (f : α → List β) (xs : List α) :
    (xs.filter p).flatMap f = xs.flatMap fun x => if p x then f x else [] := by
  induction xs with
  | nil => rfl
  | cons x xs ih =>
    rw [List.filter_cons, List.flatMap_cons]
    split
    · rw [List.flatMap_cons, ih]
    · exact ih

/-- What a callback does to a state that stands for a list of at most `cap` elements. -/
structure Collects (state : List β → σ) (cap : ℕ) (has : α → List β) (cb : α → σ → σ × Bool) :
    Prop where
  adds : ∀ a xs, xs.length ≤ cap → (cb a (state xs)).1 = state ((xs ++ has a).take cap)
  full : ∀ a xs, xs.length ≤ cap → (cb a (state xs)).2 = true → cap ≤ (xs ++ has a).length

variable {state : List β → σ} {cap : ℕ} {has : α → List β} {cb : α → σ → σ × Bool}

/-- What does not fit in the end need not be looked at. -/
theorem take_append_take (cap : ℕ) (xs ys : List β) :
    (xs.take cap ++ ys).take cap = (xs ++ ys).take cap := by
  rw [List.take_append, List.take_append, List.take_take, Nat.min_self, List.length_take]
  congr 2
  omega

/-- The whole iteration collects what the elements have, in their order. -/
theorem Collects.visit_eq (h : Collects state cap has cb) (as : List α) {xs : List β}
    (hxs : xs.length ≤ cap) : visit cb as (state xs) = state ((xs ++ as.flatMap has).take cap) := by
  induction as generalizing xs with
  | nil => rw [visit, List.flatMap_nil, List.append_nil, List.take_of_length_le hxs]
  | cons a as ih =>
    rw [visit, List.flatMap_cons, ← List.append_assoc]
    split
    · -- the iterator stops: nothing of the other elements would be kept
      rename_i hdone
      have hfull := h.full a xs hxs hdone
      rw [h.adds a xs hxs, List.take_append_of_le_length hfull]
    · have hle : ((xs ++ has a).take cap).length ≤ cap := List.length_take_le cap _
      rw [h.adds a xs hxs, ih hle, take_append_take]

/-- An iteration inside a callback, which is done when the list is full. -/
theorem Collects.nested (h : Collects state cap has cb) {γ : Type*} (items : γ → List α)
    (isFull : σ → Bool) (hfull : ∀ xs, isFull (state xs) = true → cap ≤ xs.length) :
    Collects state cap (fun c => (items c).flatMap has)
      (fun c s => (visit cb (items c) s, isFull (visit cb (items c) s))) where
  adds c xs hxs := h.visit_eq (items c) hxs
  full c xs hxs hdone := by
    rw [h.visit_eq (items c) hxs] at hdone
    have hle := hfull _ hdone
    rw [List.length_take] at hle
    exact Nat.le_trans hle (Nat.min_le_right _ _)

end

/-! ## Pieces that are cut -/

section

variable {α β : Type*} (f : α → List β) (k : ℕ)

theorem length_flatMap_take_le (xs : List α) :
    (xs.flatMap fun x => (f x).take k).length ≤ (xs.flatMap f).length := by
  induction xs with
  | nil => exact Nat.le_refl 0
  | cons x xs ih =>
    rw [List.flatMap_cons, List.flatMap_cons, List.length_append, List.length_append,
      List.length_take]
    omega

/-- Nothing is lost by cutting the pieces if and only if each of them fits. -/
theorem flatMap_take_eq_iff (xs : List α) :
    (xs.flatMap fun x => (f x).take k) = xs.flatMap f ↔ ∀ x ∈ xs, (f x).length ≤ k := by
  constructor
  · -- no piece gets longer, so all of them together keep their length only if each does
    intro heq x hx
    rcases List.append_of_mem hx with ⟨before, after, rfl⟩
    have hlen := congrArg List.length heq
    have hbefore := length_flatMap_take_le f k before
    have hafter := length_flatMap_take_le f k after
    rw [List.flatMap_append, List.flatMap_append, List.flatMap_cons, List.flatMap_cons,
      List.length_append, List.length_append, List.length_append, List.length_append,
      List.length_take] at hlen
    omega
  · intro hfits
    exact List.flatMap_congr fun x hx => List.take_of_length_le (hfits x hx)

/-- The same with a limit for all pieces together. -/
theorem take_flatMap_take_eq_iff (cap : ℕ) (xs : List α) :
    (xs.flatMap fun x => (f x).take k).take cap = xs.flatMap f ↔
      (∀ x ∈ xs, (f x).length ≤ k) ∧ (xs.flatMap f).length ≤ cap := by
  rw [← flatMap_take_eq_iff]
  constructor
  · intro heq
    have hlen := congrArg List.length heq
    have hle := length_flatMap_take_le f k xs
    rw [List.length_take] at hlen
    rw [List.take_of_length_le (by omega)] at heq
    exact ⟨heq, by omega⟩
  · rintro ⟨heq, hlen⟩
    rw [heq, List.take_of_length_le hlen]

end

end ProcFS.Lib
