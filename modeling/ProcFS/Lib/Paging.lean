import Mathlib.Algebra.BigOperators.Group.List.Basic
import Mathlib.Algebra.GroupWithZero.Nat
import Mathlib.Data.List.Induction

/-!
# ProcFS.Lib.Paging — listings read page by page

A listing is a list of entries, each of which becomes a record of some positive
size. A call walks over the listing from its first entry on, adding up sizes,
passes over what lies before its start position and copies out what follows as
long as it fits. A reader makes such calls one after the other, each at the
position that the one before ended at.

* `putAll_emit`: what one call copies out.
* `page_at_boundary`: a call that starts where an entry begins.
* `Synced.add`: it keeps the reader in step, with no record lost and none repeated.
-/

namespace ProcFS

/-- How entries become records: their size, and the position after them that is
stored in the record. -/
structure RecordFormat (α β : Type) where
  size : α → ℕ
  size_pos : ∀ x, 0 < size x
  record : α → ℕ → β
  seekoff : β → ℕ
  seekoff_record : ∀ x pos, seekoff (record x pos) = pos

/-- A call in progress: the position reached, the room left in the buffer and the
records copied out. -/
structure Page (β : Type) where
  pos : ℕ
  room : ℕ
  out : List β
deriving DecidableEq, Repr

namespace RecordFormat

variable {α β : Type} (F : RecordFormat α β)

/-- Pass over an entry before `start`, or copy its record out. The flag is false
when the record does not fit, and then nothing has changed. -/
def put (start : ℕ) (x : α) (p : Page β) : Page β × Bool :=
  if start ≤ p.pos then
    if F.size x ≤ p.room then
      (⟨p.pos + F.size x, p.room - F.size x, p.out ++ [F.record x (p.pos + F.size x)]⟩, true)
    else (p, false)
  else (⟨p.pos + F.size x, p.room, p.out⟩, true)

/-- The same for a list of entries, up to the first that does not fit. -/
def putAll (start : ℕ) : List α → Page β → Page β × Bool
  | [], p => (p, true)
  | x :: xs, p =>
    match F.put start x p with
    | (p', true) => putAll start xs p'
    | (p', false) => (p', false)

def total (xs : List α) : ℕ := (xs.map F.size).sum

/-- The records of consecutive entries, the first at position `pos`. -/
def records (pos : ℕ) : List α → List β
  | [] => []
  | x :: xs => F.record x (pos + F.size x) :: records (pos + F.size x) xs

@[simp] theorem total_nil : F.total [] = 0 := rfl

@[simp] theorem total_cons (x : α) (xs : List α) :
    F.total (x :: xs) = F.size x + F.total xs := by
  simp [total]

@[simp] theorem total_append (xs ys : List α) :
    F.total (xs ++ ys) = F.total xs + F.total ys := by
  simp [total]

theorem records_append (pos : ℕ) (xs ys : List α) :
    F.records pos (xs ++ ys) = F.records pos xs ++ F.records (pos + F.total xs) ys := by
  induction xs generalizing pos with
  | nil => rfl
  | cons x xs ih => simp [records, ih, Nat.add_assoc]

@[simp] theorem length_records (pos : ℕ) (xs : List α) :
    (F.records pos xs).length = xs.length := by
  induction xs generalizing pos with
  | nil => rfl
  | cons x xs ih => simp [records, ih]

theorem take_records (pos : ℕ) (xs : List α) (k : ℕ) :
    (F.records pos xs).take k = F.records pos (xs.take k) := by
  induction xs generalizing pos k with
  | nil => simp [records]
  | cons x xs ih =>
    cases k with
    | zero => rfl
    | succ k => simp [records, ih]

/-- The position stored in a record is the size of the listing up to it. -/
theorem seekoff_getElem?_records (pos : ℕ) (xs : List α) (i : ℕ) :
    (F.records pos xs)[i]?.map F.seekoff =
      (xs[i]?).map fun _ => pos + F.total (xs.take (i + 1)) := by
  induction xs generalizing pos i with
  | nil => rfl
  | cons x xs ih =>
    cases i with
    | zero => simp [records, F.seekoff_record]
    | succ i => simp [records, ih, Nat.add_assoc]

theorem seekoff_getLast?_records (pos : ℕ) {xs : List α} (hne : xs ≠ []) :
    (F.records pos xs).getLast?.map F.seekoff = some (pos + F.total xs) := by
  have hlen : 0 < xs.length := List.length_pos_iff.mpr hne
  rw [List.getLast?_eq_getElem?, seekoff_getElem?_records, length_records,
    Nat.sub_add_cancel hlen, List.take_length, List.getElem?_eq_getElem (by omega)]
  rfl

/-! ## One call -/

theorem putAll_append (start : ℕ) (xs ys : List α) (p : Page β) :
    F.putAll start (xs ++ ys) p =
      if (F.putAll start xs p).2 then F.putAll start ys (F.putAll start xs p).1
      else F.putAll start xs p := by
  induction xs generalizing p with
  | nil => rfl
  | cons x xs ih =>
    rw [List.cons_append, putAll, putAll]
    cases hput : F.put start x p with
    | mk p' ok =>
      cases ok with
      | true => exact ih p'
      | false => rfl

/-- With no room left nothing changes any more. -/
theorem putAll_full {start : ℕ} {p : Page β} (hstart : start ≤ p.pos) (hroom : p.room = 0)
    (xs : List α) : (F.putAll start xs p).1 = p := by
  cases xs with
  | nil => rfl
  | cons x xs =>
    have hsize := F.size_pos x
    have hput : F.put start x p = (p, false) := by
      rw [put, if_pos hstart, if_neg (by omega)]
    rw [putAll, hput]

/-- Entries before the start position are passed over. -/
theorem putAll_skip {start : ℕ} {xs : List α} {p : Page β} (h : p.pos + F.total xs ≤ start)
    (ys : List α) :
    F.putAll start (xs ++ ys) p = F.putAll start ys ⟨p.pos + F.total xs, p.room, p.out⟩ := by
  induction xs generalizing p with
  | nil => rfl
  | cons x xs ih =>
    have hsize := F.size_pos x
    rw [total_cons] at h
    have hput : F.put start x p = (⟨p.pos + F.size x, p.room, p.out⟩, true) := by
      rw [put, if_neg (by omega)]
    rw [List.cons_append, putAll, hput]
    have hle : p.pos + F.size x + F.total xs ≤ start := by omega
    have ih' := ih (p := ⟨p.pos + F.size x, p.room, p.out⟩) hle
    simpa [Nat.add_assoc] using ih'

/-- From the start position on, a call copies out the longest run of records that
fits. -/
theorem putAll_emit {start : ℕ} (xs : List α) {p : Page β} (hstart : start ≤ p.pos) :
    ∃ k ≤ xs.length, (F.putAll start xs p).1 =
        ⟨p.pos + F.total (xs.take k), p.room - F.total (xs.take k),
          p.out ++ F.records p.pos (xs.take k)⟩ ∧
      (0 < k ∨ ∀ x, xs[0]? = some x → p.room < F.size x) := by
  induction xs generalizing p with
  | nil => exact ⟨0, Nat.zero_le _, by simp [putAll, records], by simp⟩
  | cons x xs ih =>
    by_cases hfits : F.size x ≤ p.room
    · have hput : F.put start x p = (⟨p.pos + F.size x, p.room - F.size x,
          p.out ++ [F.record x (p.pos + F.size x)]⟩, true) := by
        rw [put, if_pos hstart, if_pos hfits]
      have hstart' : start ≤ p.pos + F.size x := by omega
      obtain ⟨k, hk, heq, -⟩ := ih (p := ⟨p.pos + F.size x, p.room - F.size x,
        p.out ++ [F.record x (p.pos + F.size x)]⟩) hstart'
      refine ⟨k + 1, by simpa using hk, ?_, Or.inl (Nat.succ_pos k)⟩
      rw [putAll, hput]
      simp only [heq, List.take_succ_cons, total_cons, records]
      simp [Nat.add_assoc, Nat.sub_sub]
    · have hput : F.put start x p = (p, false) := by
        rw [put, if_pos hstart, if_neg hfits]
      refine ⟨0, Nat.zero_le _, ?_, Or.inr ?_⟩
      · rw [putAll, hput]
        simp [records]
      · simpa using hfits

/-- With room for all of them, every record is copied out. -/
theorem putAll_all {start : ℕ} {xs : List α} {p : Page β} (hstart : start ≤ p.pos)
    (hroom : F.total xs ≤ p.room) :
    F.putAll start xs p =
      (⟨p.pos + F.total xs, p.room - F.total xs, p.out ++ F.records p.pos xs⟩, true) := by
  induction xs generalizing p with
  | nil => simp [putAll, records]
  | cons x xs ih =>
    rw [total_cons] at hroom
    have hput : F.put start x p = (⟨p.pos + F.size x, p.room - F.size x,
        p.out ++ [F.record x (p.pos + F.size x)]⟩, true) := by
      rw [put, if_pos hstart, if_pos (by omega)]
    rw [putAll, hput]
    simp only
    rw [ih (Nat.le_add_right_of_le hstart) (by simp only; omega), records, List.append_assoc,
      List.singleton_append, total_cons, Nat.add_assoc, Nat.sub_sub]

/-- A call ends where an entry begins, or at the end of the listing if it is done. -/
theorem putAll_pos (start : ℕ) (xs : List α) (p : Page β) :
    ∃ k ≤ xs.length, (F.putAll start xs p).1.pos = p.pos + F.total (xs.take k) ∧
      ((F.putAll start xs p).2 = true ↔ k = xs.length) := by
  induction xs generalizing p with
  | nil => exact ⟨0, Nat.le_refl _, by simp [putAll], by simp [putAll]⟩
  | cons x xs ih =>
    rw [putAll]
    cases hput : F.put start x p with
    | mk p' ok =>
      cases ok with
      | true =>
        have hpos : p'.pos = p.pos + F.size x := by
          unfold put at hput
          split_ifs at hput <;> cases hput <;> rfl
        rcases ih p' with ⟨k, hk, heq, hdone⟩
        refine ⟨k + 1, Nat.succ_le_succ hk, ?_, by simpa using hdone⟩
        simp only [heq, hpos, List.take_succ_cons, total_cons, Nat.add_assoc]
      | false =>
        have hsame : p' = p := by
          unfold put at hput
          split_ifs at hput <;> cases hput
          rfl
        exact ⟨0, Nat.zero_le _, by simp [hsame], by simp⟩

/-- What is copied out is taken from the room. -/
theorem putAll_room (used : β → ℕ) {xs : List α}
    (hused : ∀ x ∈ xs, ∀ pos, used (F.record x pos) = F.size x) (start : ℕ) (p : Page β) :
    (F.putAll start xs p).1.room + ((F.putAll start xs p).1.out.map used).sum =
      p.room + (p.out.map used).sum := by
  induction xs generalizing p with
  | nil => rfl
  | cons x xs ih =>
    have hput : (F.put start x p).1.room + ((F.put start x p).1.out.map used).sum =
        p.room + (p.out.map used).sum := by
      have hsize := hused x List.mem_cons_self (p.pos + F.size x)
      unfold put
      split_ifs
      · simp only [List.map_append, List.map_cons, List.map_nil, List.sum_append,
          List.sum_singleton, hsize]
        omega
      · rfl
      · rfl
    have ih' := ih fun y hy => hused y (List.mem_cons_of_mem x hy)
    rw [putAll]
    split
    · rename_i p' heq
      rw [heq] at hput
      rw [ih', hput]
    · rename_i p' heq
      rw [heq] at hput
      exact hput

/-- Every entry of a listing begins before the place where a call ended, if and only if the call
was done. -/
theorem total_take_lt_iff {xs : List α} {k : ℕ} (hk : k ≤ xs.length) :
    (∀ i < xs.length, F.total (xs.take i) < F.total (xs.take k)) ↔ k = xs.length := by
  constructor
  · intro h
    by_contra hne
    exact absurd (h k (by omega)) (Nat.lt_irrefl _)
  · rintro rfl i hi
    have hsize := F.size_pos xs[i]
    have hsplit : F.total xs = F.total (xs.take i) + F.total (xs.drop i) := by
      rw [← total_append, List.take_append_drop]
    rw [List.take_length, hsplit, List.drop_eq_getElem_cons hi, total_cons]
    omega

/-- Whatever a call copies out is the record of an entry that does not begin before the start
position. -/
theorem mem_out_putAll {start : ℕ} {xs : List α} {p : Page β} {r : β}
    (h : r ∈ (F.putAll start xs p).1.out) :
    r ∈ p.out ∨ ∃ x ∈ xs, ∃ pos, start ≤ pos ∧ r = F.record x (pos + F.size x) := by
  induction xs generalizing p with
  | nil => exact Or.inl h
  | cons x xs ih =>
    have hput : ∀ r ∈ (F.put start x p).1.out,
        r ∈ p.out ∨ ∃ pos, start ≤ pos ∧ r = F.record x (pos + F.size x) := by
      intro r hr
      unfold put at hr
      split_ifs at hr with hstart hfits
      · rcases List.mem_append.mp hr with hr | hr
        · exact Or.inl hr
        · exact Or.inr ⟨p.pos, hstart, List.mem_singleton.mp hr⟩
      · exact Or.inl hr
      · exact Or.inl hr
    have hhead : ∀ r ∈ (F.put start x p).1.out,
        r ∈ p.out ∨ ∃ y ∈ x :: xs, ∃ pos, start ≤ pos ∧ r = F.record y (pos + F.size y) := by
      intro r hr
      rcases hput r hr with hr | ⟨pos, hr⟩
      · exact Or.inl hr
      · exact Or.inr ⟨x, List.mem_cons_self, pos, hr⟩
    rw [putAll] at h
    split at h
    · rename_i p' heq
      rcases ih h with h | ⟨y, hy, hr⟩
      · exact hhead r (by rw [heq]; exact h)
      · exact Or.inr ⟨y, List.mem_cons_of_mem x hy, hr⟩
    · rename_i p' heq
      exact hhead r (by rw [heq]; exact h)

/-- The page that a call at `start` with a buffer of `room` bytes returns. -/
def page (xs : List α) (start room : ℕ) : Page β := (F.putAll start xs ⟨0, room, []⟩).1

/-- A call that starts where an entry begins returns the records from there on,
and ends where an entry begins. It makes progress if the next record fits. -/
theorem page_at_boundary (xs : List α) {n : ℕ} (hn : n ≤ xs.length) (room : ℕ) :
    ∃ k, n + k ≤ xs.length ∧
      (F.page xs (F.total (xs.take n)) room).pos = F.total (xs.take (n + k)) ∧
      F.records 0 (xs.take n) ++ (F.page xs (F.total (xs.take n)) room).out =
        F.records 0 (xs.take (n + k)) ∧
      ((∀ x, xs[n]? = some x → F.size x ≤ room) → n < xs.length → 0 < k) := by
  have hpage : F.page xs (F.total (xs.take n)) room =
      (F.putAll (F.total (xs.take n)) (xs.drop n) ⟨F.total (xs.take n), room, []⟩).1 := by
    have hle : (⟨0, room, []⟩ : Page β).pos + F.total (xs.take n) ≤ F.total (xs.take n) := by simp
    have hskip := F.putAll_skip hle (xs.drop n)
    rw [List.take_append_drop] at hskip
    simp [page, hskip]
  obtain ⟨k, hk, heq, hfirst⟩ :=
    F.putAll_emit (xs.drop n) (p := ⟨F.total (xs.take n), room, []⟩) (Nat.le_refl _)
  rw [List.length_drop] at hk
  refine ⟨k, by omega, ?_, ?_, ?_⟩
  · rw [hpage, heq, List.take_add, total_append]
  · rw [hpage, heq, List.take_add, records_append]
    simp
  · intro hfits hlt
    rcases hfirst with hpos | hroom
    · exact hpos
    · -- the first entry not passed over would not fit
      have hx : xs[n]? = some xs[n] := List.getElem?_eq_getElem hlt
      have hhead : (xs.drop n)[0]? = some xs[n] := by simp
      exact absurd (hfits _ hx) (Nat.not_le.mpr (hroom _ hhead))

/-! ## A reader -/

/-- Where a call starts: at the position the call before ended at, or at the
position stored in the last record the reader got. -/
inductive Resume where
  | offset
  | lastRecord
deriving DecidableEq, Repr

/-- A reader: the position its last call ended at and the records it got. -/
structure Cursor (β : Type) where
  offset : ℕ
  got : List β

/-- The start position of the next call. -/
def start (c : Cursor β) : Resume → ℕ
  | .offset => c.offset
  | .lastRecord => (c.got.getLast?.map F.seekoff).getD 0

/-- The reader after a call that returned a page. -/
def Cursor.add (c : Cursor β) (p : Page β) : Cursor β := ⟨p.pos, c.got ++ p.out⟩

/-- The reader got the records of the first `n` entries, and stands after them. -/
structure Synced (xs : List α) (n : ℕ) (c : Cursor β) : Prop where
  le : n ≤ xs.length
  offset_eq : c.offset = F.total (xs.take n)
  got_eq : c.got = F.records 0 (xs.take n)

theorem synced_init (xs : List α) : F.Synced xs 0 ⟨0, []⟩ :=
  ⟨Nat.zero_le _, by simp, by simp [records]⟩

/-- Either way, the next call starts where the reader stands. -/
theorem Synced.start_eq {F : RecordFormat α β} {xs : List α} {n : ℕ} {c : Cursor β}
    (h : F.Synced xs n c) (r : Resume) : F.start c r = F.total (xs.take n) := by
  cases r with
  | offset => exact h.offset_eq
  | lastRecord =>
    unfold start
    rw [h.got_eq]
    by_cases hnil : xs.take n = []
    · simp [hnil, records]
    · rw [seekoff_getLast?_records F 0 hnil]
      simp

/-- A call from there keeps the reader in step, and one with room for the next
record moves it on. -/
theorem Synced.add {F : RecordFormat α β} {xs : List α} {n : ℕ} {c : Cursor β}
    (h : F.Synced xs n c) (r : Resume) (room : ℕ) :
    ∃ m, n ≤ m ∧ F.Synced xs m (c.add (F.page xs (F.start c r) room)) ∧
      ((∀ x, xs[n]? = some x → F.size x ≤ room) → n < xs.length → n < m) := by
  obtain ⟨k, hle, hpos, hout, hprogress⟩ := F.page_at_boundary xs h.le room
  rw [h.start_eq r]
  refine ⟨n + k, Nat.le_add_right n k, ⟨hle, hpos, ?_⟩, ?_⟩
  · simp only [Cursor.add, h.got_eq]
    exact hout
  · intro hfits hlt
    have hk := hprogress hfits hlt
    omega

end RecordFormat

end ProcFS
