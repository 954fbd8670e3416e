import Mathlib.Data.List.Perm.Basic
import Mathlib.Data.List.Sort

/-!
# ProcFS.Lib.Keyed — rows that are merged by a key

Entries arrive one after the other. Each has a key, and there is one row for each key: the
first entry of a key makes the row, and the later ones change it. What a row is in the end
depends only on the entries of its key, in their order, so two orders of the entries give the
same rows if and only if they give the same row for each key. The rows are sorted when all
entries have been seen; the sort is one that promises nothing about rows that compare equal.

* `mem_collect_iff`: the rows after all entries.
* `collect_perm`: when two orders of the entries give the same rows.
* `sort_eq_of_perm`: when a sort hides the order before it.
* `partitionPoint_spec`: where a binary search ends.
-/

namespace ProcFS.Lib

/-! ## Searching by key -/

/-- In a list whose members have different keys, a search by key finds the member
that has it. -/
theorem find?_eq_some_iff_of_nodup {α β : Type*} [BEq β] [LawfulBEq β] {f : α → β} {xs : List α}
    (h : (xs.map f).Nodup) {a : α} {b : β} :
    xs.find? (fun x => f x == b) = some a ↔ a ∈ xs ∧ f a = b := by
  constructor
  · intro hfind
    exact ⟨List.mem_of_find?_eq_some hfind, by simpa using List.find?_some hfind⟩
  · rintro ⟨hmem, rfl⟩
    cases hfind : xs.find? fun x => f x == f a with
    | none => simpa using List.find?_eq_none.mp hfind a hmem
    | some a' =>
      have heq : f a' = f a := by simpa using List.find?_some hfind
      rw [List.inj_on_of_nodup_map h (List.mem_of_find?_eq_some hfind) hmem heq]

/-- Where two texts differ only in the part of one key, they are equal if and only if those
parts are. -/
theorem flatMap_eq_iff_of_eq_off {κ β : Type*} {f g : κ → List β} {ks : List κ} {k : κ}
    (hk : k ∈ ks) (hnodup : ks.Nodup) (hoff : ∀ k', k' ≠ k → f k' = g k') :
    ks.flatMap f = ks.flatMap g ↔ f k = g k := by
  obtain ⟨s, t, rfl⟩ := List.append_of_mem hk
  have hnot : k ∉ s ++ t := (List.nodup_cons.mp (List.nodup_middle.mp hnodup)).1
  rw [List.mem_append, not_or] at hnot
  have hs : s.flatMap f = s.flatMap g :=
    List.flatMap_congr fun k' hk' => hoff k' fun heq => hnot.1 (heq ▸ hk')
  have ht : t.flatMap f = t.flatMap g :=
    List.flatMap_congr fun k' hk' => hoff k' fun heq => hnot.2 (heq ▸ hk')
  rw [List.flatMap_append, List.flatMap_append, List.flatMap_cons, List.flatMap_cons, hs, ht,
    List.append_cancel_left_eq, List.append_cancel_right_eq]

/-- The least of some numbers does not depend on their order. -/
theorem min?_eq_of_perm {l l' : List ℕ} (h : l.Perm l') : l.min? = l'.min? := by
  refine Option.ext fun n => ?_
  rw [List.min?_eq_some_iff, List.min?_eq_some_iff]
  simp only [h.mem_iff]

theorem max?_eq_of_perm {l l' : List ℕ} (h : l.Perm l') : l.max? = l'.max? := by
  refine Option.ext fun n => ?_
  rw [List.max?_eq_some_iff, List.max?_eq_some_iff]
  simp only [h.mem_iff]

/-! ## Merging -/

/-- How entries are merged into rows. -/
structure Merge (ε κ ρ : Type*) where
  entryKey : ε → κ
  rowKey : ρ → κ
  /-- The row of the first entry of a key. -/
  first : ε → ρ
  /-- What a later entry makes of the row. -/
  again : ρ → ε → ρ
  rowKey_first : ∀ x, rowKey (first x) = entryKey x
  rowKey_again : ∀ r x, rowKey (again r x) = rowKey r

namespace Merge

variable {ε κ ρ : Type*} [DecidableEq κ] (M : Merge ε κ ρ)

/-- An entry changes the row of its key, or makes one at the end. -/
def insert : List ρ → ε → List ρ
  | [], x => [M.first x]
  | r :: rs, x => if M.rowKey r = M.entryKey x then M.again r x :: rs else r :: insert rs x

def collect (xs : List ε) : List ρ := xs.foldl M.insert []

/-- What an entry of a key does to the row of the key. -/
def note (o : Option ρ) (x : ε) : Option ρ := some (o.elim (M.first x) fun r => M.again r x)

/-- The row of a key, from the entries of the key alone. -/
def rowOf (xs : List ε) (k : κ) : Option ρ :=
  (xs.filter fun x => M.entryKey x = k).foldl M.note none

/-! ### One step -/

theorem keys_insert (rows : List ρ) (x : ε) :
    (M.insert rows x).map M.rowKey =
      if M.entryKey x ∈ rows.map M.rowKey then rows.map M.rowKey
      else rows.map M.rowKey ++ [M.entryKey x] := by
  induction rows with
  | nil => simp [insert, M.rowKey_first]
  | cons r rows ih =>
    rw [insert]
    by_cases hkey : M.rowKey r = M.entryKey x
    · simp [hkey, M.rowKey_again]
    · rw [if_neg hkey, List.map_cons, ih]
      have hkey : M.entryKey x ≠ M.rowKey r := fun h => hkey h.symm
      simp only [List.map_cons, List.mem_cons, hkey, false_or]
      split_ifs <;> rfl

theorem nodup_insert {rows : List ρ} (h : (rows.map M.rowKey).Nodup) (x : ε) :
    ((M.insert rows x).map M.rowKey).Nodup := by
  rw [keys_insert]
  split_ifs with hmem
  · exact h
  · refine List.nodup_append.mpr ⟨h, List.nodup_singleton _, fun k hk k' hk' => ?_⟩
    rw [List.mem_singleton.mp hk']
    exact fun heq => hmem (heq ▸ hk)

theorem find?_insert (rows : List ρ) (x : ε) (k : κ) :
    (M.insert rows x).find? (fun r => M.rowKey r == k) =
      if M.entryKey x = k then M.note (rows.find? fun r => M.rowKey r == k) x
      else rows.find? fun r => M.rowKey r == k := by
  induction rows with
  | nil =>
    by_cases hk : M.entryKey x = k
    · simp [insert, M.rowKey_first, hk, note]
    · simp [insert, M.rowKey_first, hk]
  | cons r rows ih =>
    rw [insert]
    by_cases hkey : M.rowKey r = M.entryKey x
    · rw [if_pos hkey]
      by_cases hk : M.entryKey x = k
      · simp [M.rowKey_again, hkey, hk, note]
      · simp [M.rowKey_again, hkey, hk]
    · rw [if_neg hkey]
      by_cases hr : M.rowKey r = k
      · have hk : M.entryKey x ≠ k := fun hk => hkey (hr.trans hk.symm)
        simp [hr, hk]
      · have hcons : ∀ rs : List ρ, (r :: rs).find? (fun r => M.rowKey r == k) =
            rs.find? fun r => M.rowKey r == k :=
          fun rs => List.find?_cons_of_neg (by simpa using hr)
        rw [hcons, hcons, ih]

/-! ### All entries -/

theorem nodup_collect (xs : List ε) : ((M.collect xs).map M.rowKey).Nodup := by
  have hrun : ∀ rows : List ρ, (rows.map M.rowKey).Nodup →
      ((xs.foldl M.insert rows).map M.rowKey).Nodup := by
    induction xs with
    | nil => exact fun rows h => h
    | cons x xs ih => exact fun rows h => ih _ (M.nodup_insert h x)
  exact hrun [] List.nodup_nil

theorem find?_collect (xs : List ε) (k : κ) :
    (M.collect xs).find? (fun r => M.rowKey r == k) = M.rowOf xs k := by
  have hrun : ∀ rows : List ρ, (xs.foldl M.insert rows).find? (fun r => M.rowKey r == k) =
      (xs.filter fun x => M.entryKey x = k).foldl M.note
        (rows.find? fun r => M.rowKey r == k) := by
    induction xs with
    | nil => exact fun rows => rfl
    | cons x xs ih =>
      intro rows
      rw [List.foldl_cons, ih, find?_insert, List.filter_cons]
      by_cases hk : M.entryKey x = k
      · simp [hk]
      · simp [hk]
  exact hrun []

/-- The rows are those of the keys. -/
theorem mem_collect_iff {xs : List ε} {r : ρ} :
    r ∈ M.collect xs ↔ M.rowOf xs (M.rowKey r) = some r := by
  rw [← find?_collect, find?_eq_some_iff_of_nodup (M.nodup_collect xs), and_iff_left rfl]

omit [DecidableEq κ] in
theorem note_ne_none (o : Option ρ) (x : ε) : M.note o x ≠ none := nofun

omit [DecidableEq κ] in
theorem foldl_note_eq_none_iff {xs : List ε} {o : Option ρ} :
    xs.foldl M.note o = none ↔ o = none ∧ xs = [] := by
  induction xs generalizing o with
  | nil => simp
  | cons x xs ih => simp [ih, M.note_ne_none]

theorem rowOf_eq_none_iff {xs : List ε} {k : κ} :
    M.rowOf xs k = none ↔ ∀ x ∈ xs, M.entryKey x ≠ k := by
  rw [rowOf, foldl_note_eq_none_iff, List.filter_eq_nil_iff]
  simp

/-- The keys that have a row are those of the entries. -/
theorem mem_keys_collect_iff {xs : List ε} {k : κ} :
    k ∈ (M.collect xs).map M.rowKey ↔ ∃ x ∈ xs, M.entryKey x = k := by
  have hnone : M.rowOf xs k = none ↔ k ∉ (M.collect xs).map M.rowKey := by
    rw [← find?_collect, List.find?_eq_none]
    simp
  rw [← not_iff_not, ← hnone, rowOf_eq_none_iff]
  simp

/-- A row has the key it is looked up by. -/
theorem rowKey_of_rowOf {xs : List ε} {k : κ} {r : ρ} (h : M.rowOf xs k = some r) :
    M.rowKey r = k := by
  rw [← find?_collect] at h
  simpa using List.find?_some h

/-- Two sequences of entries that give the same row for each key give the same rows. -/
theorem collect_perm {xs ys : List ε} (h : ∀ k, M.rowOf xs k = M.rowOf ys k) :
    (M.collect xs).Perm (M.collect ys) := by
  refine (List.perm_ext_iff_of_nodup (M.nodup_collect xs).of_map (M.nodup_collect ys).of_map).mpr ?_
  intro r
  rw [mem_collect_iff, mem_collect_iff, h]

omit [DecidableEq κ] in
theorem foldl_note_some (xs : List ε) (r : ρ) :
    xs.foldl M.note (some r) = some (xs.foldl M.again r) := by
  induction xs generalizing r with
  | nil => rfl
  | cons x xs ih => exact ih (M.again r x)

/-- The first entry of a key makes the row. -/
theorem rowOf_cons_self (x : ε) (xs : List ε) :
    M.rowOf (x :: xs) (M.entryKey x) =
      some ((xs.filter fun y => M.entryKey y = M.entryKey x).foldl M.again (M.first x)) := by
  rw [rowOf, List.filter_cons_of_pos (by simp), List.foldl_cons]
  exact M.foldl_note_some _ (M.first x)

theorem exists_of_rowOf {xs : List ε} {k : κ} {r : ρ} (h : M.rowOf xs k = some r) :
    ∃ x rest, xs.filter (fun x => M.entryKey x = k) = x :: rest ∧
      r = rest.foldl M.again (M.first x) := by
  rw [rowOf] at h
  cases hl : xs.filter fun x => M.entryKey x = k with
  | nil =>
    rw [hl] at h
    cases h
  | cons x rest =>
    rw [hl, List.foldl_cons] at h
    exact ⟨x, rest, rfl, (Option.some.inj ((M.foldl_note_some rest (M.first x)).symm.trans h)).symm⟩

/-- Two orders of the entries show the same for a key if their rows do. -/
theorem elim_rowOf_eq_of_perm {β : Type*} {xs ys : List ε} (hperm : xs.Perm ys) {k : κ}
    {view : ρ → β} (d : β)
    (h : ∀ r r', M.rowOf xs k = some r → M.rowOf ys k = some r' → view r = view r') :
    (M.rowOf xs k).elim d view = (M.rowOf ys k).elim d view := by
  have hnone : M.rowOf xs k = none ↔ M.rowOf ys k = none := by
    rw [rowOf_eq_none_iff, rowOf_eq_none_iff]
    simp only [hperm.mem_iff]
  cases hx : M.rowOf xs k with
  | none => rw [hnone.mp hx]
  | some r =>
    cases hy : M.rowOf ys k with
    | none =>
      rw [hnone.mpr hy] at hx
      cases hx
    | some r' => exact h r r' hx hy

/-- A text made of rows, from what the rows are numbered by. -/
theorem flatMap_rows {β ι : Type*} {xs : List ε} {rows : List ρ} {number : ρ → ι} (key : ι → κ)
    (h : ∀ r ∈ rows, r ∈ M.collect xs ∧ key (number r) = M.rowKey r) (line : ρ → List β) :
    rows.flatMap line = (rows.map number).flatMap fun i => (M.rowOf xs (key i)).elim [] line := by
  rw [List.flatMap_map]
  refine List.flatMap_congr fun r hr => ?_
  rw [(h r hr).2, M.mem_collect_iff.mp (h r hr).1]
  rfl

/-! ### Entries that may be skipped -/

section Skipping

variable {α : Type*} (f : α → Option ε)

theorem foldl_insert_eq (es : List α) :
    es.foldl (fun rows e => (f e).elim rows (M.insert rows)) [] = M.collect (es.filterMap f) := by
  rw [collect, List.foldl_filterMap]
  congr
  funext rows e
  cases f e <;> rfl

variable {f}

/-- An entry can come first, and then the rows of the other keys stay as they are. -/
theorem exists_front {es : List α} {x : ε} (h : x ∈ es.filterMap f) :
    ∃ (es' : List α) (rest : List ε), es'.Perm es ∧ es'.filterMap f = x :: rest ∧
      ∀ k, M.entryKey x ≠ k → M.rowOf (es'.filterMap f) k = M.rowOf (es.filterMap f) k := by
  obtain ⟨e, he, hfe⟩ := List.mem_filterMap.mp h
  obtain ⟨s, t, rfl⟩ := List.append_of_mem he
  have hfront : (e :: (s ++ t)).filterMap f = x :: (s ++ t).filterMap f :=
    List.filterMap_cons_some hfe
  refine ⟨e :: (s ++ t), (s ++ t).filterMap f, List.perm_middle.symm, hfront, fun k hk => ?_⟩
  have hskip : ∀ ys : List ε, (x :: ys).filter (fun y => M.entryKey y = k) =
      ys.filter fun y => M.entryKey y = k := fun ys => List.filter_cons_of_neg (by simpa using hk)
  rw [hfront, rowOf, rowOf, hskip, List.filterMap_append, List.filterMap_append,
    List.filterMap_cons_some hfe, List.filter_append, List.filter_append, hskip]

end Skipping

end Merge

/-! ## Sorting -/

/-- `qsort` with a comparison: rows that compare equal come in any order. -/
structure Qsort {ρ : Type*} (cmp : ρ → ρ → Ordering) where
  sort : List ρ → List ρ
  perm : ∀ rows, (sort rows).Perm rows
  sorted : ∀ rows, (sort rows).Pairwise fun r r' => (cmp r r').isLE

namespace Qsort

variable {ρ : Type*} {cmp : ρ → ρ → Ordering}

/-- Where the comparison tells all rows apart, the order before the sort does not matter. -/
theorem sort_eq_of_perm [Std.LawfulEqCmp cmp] [Std.OrientedCmp cmp] (q : Qsort cmp)
    {rows rows' : List ρ} (h : rows.Perm rows') : q.sort rows = q.sort rows' := by
  refine List.Perm.eq_of_pairwise ?_ (q.sorted rows) (q.sorted rows')
    ((q.perm rows).trans (h.trans (q.perm rows').symm))
  intro r r' _ _ hle hge
  exact Std.LawfulEqCmp.eq_of_compare (Std.OrientedCmp.isLE_antisymm hle hge)

theorem insertion_sorted [Std.TransCmp cmp] (rows : List ρ) :
    (rows.insertionSort fun r r' => (cmp r r').isLE).Pairwise fun r r' => (cmp r r').isLE := by
  have htotal : Std.Total fun r r' => ((cmp r r').isLE : Prop) := by
    constructor
    intro r r'
    have hswap : cmp r' r = (cmp r r').swap := Std.OrientedCmp.eq_swap
    rw [hswap]
    cases cmp r r' <;> simp
  have htrans : IsTrans ρ fun r r' => ((cmp r r').isLE : Prop) :=
    ⟨fun r r' r'' h h' => Std.TransCmp.isLE_trans h h'⟩
  exact List.pairwise_insertionSort _ rows

/-- One such sort. -/
def insertion (cmp : ρ → ρ → Ordering) [Std.TransCmp cmp] : Qsort cmp where
  sort rows := rows.insertionSort fun r r' => (cmp r r').isLE
  perm rows := List.perm_insertionSort _ rows
  sorted rows := insertion_sorted rows

end Qsort

/-! ## Searching a sorted table -/

/-- The loop of a binary search: the first index from `lo` on that is not `below`, if there is
one before `hi`. -/
def partitionPoint (below : ℕ → Bool) (lo hi : ℕ) : ℕ :=
  if lo < hi then
    let mid := lo + (hi - lo) / 2
    if below mid then partitionPoint below (mid + 1) hi else partitionPoint below lo mid
  else lo
termination_by hi - lo
decreasing_by
  · show hi - (mid + 1) < hi - lo
    omega
  · show mid - lo < hi - lo
    omega

/-- If the indexes that are below come first, the search ends where they end. -/
theorem partitionPoint_spec {below : ℕ → Bool} {n lo hi : ℕ}
    (hmono : ∀ i j, i ≤ j → j < n → below j → below i) (hle : lo ≤ hi) (hhi : hi ≤ n)
    (hlow : ∀ i < lo, below i) (hhigh : ∀ i, hi ≤ i → i < n → below i = false) :
    partitionPoint below lo hi ≤ n ∧ (∀ i < partitionPoint below lo hi, below i) ∧
      ∀ i, partitionPoint below lo hi ≤ i → i < n → below i = false := by
  fun_induction partitionPoint below lo hi with
  | case1 lo hi hlt mid hmid ih =>
    have hmidhi : mid < hi := by
      show lo + (hi - lo) / 2 < hi
      omega
    exact ih hmidhi hhi (fun i hi' => hmono i mid (by omega) (by omega) hmid) hhigh
  | case2 lo hi hlt mid hmid ih =>
    have hmidhi : lo ≤ mid ∧ mid < hi := by
      show lo ≤ lo + (hi - lo) / 2 ∧ lo + (hi - lo) / 2 < hi
      omega
    refine ih hmidhi.1 (by omega) hlow fun i hi' hin => ?_
    cases hbelow : below i with
    | false => rfl
    | true => exact absurd (hmono mid i hi' hin hbelow) hmid
  | case3 lo hi hge => exact ⟨by omega, hlow, fun i hi' => hhigh i (by omega)⟩

end ProcFS.Lib
