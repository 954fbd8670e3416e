import Mathlib.Algebra.Group.Nat.Defs
import Mathlib.Data.List.Basic
import Mathlib.Data.List.TakeWhile

/-!
# ProcFS.Lib.Bytes — numbers and strings as bytes

Little-endian numbers of any width, the fields of a record in memory, and strings that end
in a NUL.

* `leNat_leBytes`: a number is read back from its bytes.
* `fieldAt_append`: a field does not depend on what lies behind its record.
* `untilNul_terminated`: a string is read back, whatever follows its NUL.
-/

namespace ProcFS.Lib

/-! ## Numbers -/

/-- The number that some bytes stand for, the lowest one first. -/
def leNat : List UInt8 → ℕ
  | [] => 0
  | b :: bs => b.toNat + 256 * leNat bs

/-- The lowest `w` bytes of a number. -/
def leBytes : ℕ → ℕ → List UInt8
  | 0, _ => []
  | w + 1, v => UInt8.ofNat v :: leBytes w (v / 256)

@[simp] theorem length_leBytes (w v : ℕ) : (leBytes w v).length = w := by
  induction w generalizing v with
  | zero => rfl
  | succ w ih => rw [leBytes, List.length_cons, ih]

/-- A number that fits is read back. -/
theorem leNat_leBytes {w v : ℕ} (h : v < 256 ^ w) : leNat (leBytes w v) = v := by
  induction w generalizing v with
  | zero =>
    rw [Nat.pow_zero] at h
    show 0 = v
    omega
  | succ w ih =>
    rw [Nat.pow_succ] at h
    have hrest : v / 256 < 256 ^ w := by omega
    rw [leBytes, leNat, ih hrest, UInt8.toNat_ofNat']
    omega

theorem leNat_eq_zero_iff {bs : List UInt8} : leNat bs = 0 ↔ ∀ b ∈ bs, b = 0 := by
  induction bs with
  | nil => simp [leNat]
  | cons b bs ih =>
    rw [leNat, Nat.add_eq_zero_iff, List.forall_mem_cons, ← ih, ← UInt8.toNat_inj, UInt8.toNat_zero]
    omega

theorem leNat_lt (bs : List UInt8) : leNat bs < 256 ^ bs.length := by
  induction bs with
  | nil => exact Nat.one_pos
  | cons b bs ih =>
    have hb := b.toNat_lt
    rw [leNat, List.length_cons, Nat.pow_succ]
    omega

/-! ## Fields -/

/-- The field of `w` bytes at an offset of what a pointer points to. -/
def fieldAt (w off : ℕ) (p : List UInt8) : ℕ := leNat ((p.drop off).take w)

theorem fieldAt_lt (w off : ℕ) (bs : List UInt8) : fieldAt w off bs < 256 ^ w := by
  refine (leNat_lt _).trans_le (Nat.pow_le_pow_right (by decide) ?_)
  rw [List.length_take]
  exact Nat.min_le_left _ _

/-- A field of a record does not depend on what lies behind the record. -/
theorem fieldAt_append {w off : ℕ} {a : List UInt8} (h : off + w ≤ a.length) (b : List UInt8) :
    fieldAt w off (a ++ b) = fieldAt w off a := by
  rw [fieldAt, fieldAt, List.drop_append_of_le_length (by omega),
    List.take_append_of_le_length (by rw [List.length_drop]; omega)]

/-- A field that begins where a part ends. -/
theorem fieldAt_skip (a : List UInt8) (w off : ℕ) (b : List UInt8) :
    fieldAt w (a.length + off) (a ++ b) = fieldAt w off b := by
  rw [fieldAt, fieldAt, List.drop_append, List.drop_eq_nil_of_le (Nat.le_add_right _ _),
    List.nil_append, Nat.add_sub_cancel_left]

/-- A field behind a number. -/
theorem fieldAt_leBytes_skip (k v w off : ℕ) (b : List UInt8) :
    fieldAt w (k + off) (leBytes k v ++ b) = fieldAt w off b := by
  have hskip := fieldAt_skip (leBytes k v) w off b
  rwa [length_leBytes] at hskip

/-- A number that was written is read back. -/
theorem fieldAt_leBytes {w v : ℕ} (h : v < 256 ^ w) (rest : List UInt8) :
    fieldAt w 0 (leBytes w v ++ rest) = v := by
  rw [fieldAt, List.drop_zero, List.take_left' (length_leBytes w v), leNat_leBytes h]

def u8At (off : ℕ) (p : List UInt8) : UInt8 := UInt8.ofNat (fieldAt 1 off p)

def u16At (off : ℕ) (p : List UInt8) : UInt16 := UInt16.ofNat (fieldAt 2 off p)

def u32At (off : ℕ) (p : List UInt8) : UInt32 := UInt32.ofNat (fieldAt 4 off p)

def u64At (off : ℕ) (p : List UInt8) : UInt64 := UInt64.ofNat (fieldAt 8 off p)

/-! ## Records -/

/-- The position in a sequence of records of `w` elements each. -/
theorem getElem?_flatMap {α β : Type*} {f : α → List β} {w : ℕ} (hw : ∀ x, (f x).length = w)
    (hpos : 0 < w) (xs : List α) (i : ℕ) :
    (xs.flatMap f)[i]? = xs[i / w]?.bind fun x => (f x)[i % w]? := by
  induction xs generalizing i with
  | nil => rfl
  | cons x xs ih =>
    rw [List.flatMap_cons]
    by_cases hi : i < w
    · rw [List.getElem?_append_left (by rw [hw]; exact hi), Nat.div_eq_of_lt hi,
        Nat.mod_eq_of_lt hi]
      rfl
    · obtain ⟨j, rfl⟩ : ∃ j, i = j + w := ⟨i - w, by omega⟩
      rw [List.getElem?_append_right (by rw [hw]; omega), hw, Nat.add_sub_cancel, ih,
        Nat.add_div_right j hpos, Nat.add_mod_right, List.getElem?_cons_succ]

theorem length_flatMap_of_length {α β : Type*} {f : α → List β} {w : ℕ}
    (hw : ∀ x, (f x).length = w) (xs : List α) : (xs.flatMap f).length = xs.length * w := by
  induction xs with
  | nil => simp
  | cons x xs ih =>
    rw [List.flatMap_cons, List.length_append, hw, ih, List.length_cons, Nat.succ_mul,
      Nat.add_comm]

/-- Two texts made of parts of the same lengths are equal part by part. -/
theorem flatMap_eq_flatMap_iff {α β : Type*} {f g : α → List β} {xs : List α}
    (hlen : ∀ x ∈ xs, (f x).length = (g x).length) :
    xs.flatMap f = xs.flatMap g ↔ ∀ x ∈ xs, f x = g x := by
  induction xs with
  | nil => simp
  | cons x xs ih =>
    rw [List.forall_mem_cons] at hlen
    rw [List.flatMap_cons, List.flatMap_cons, List.forall_mem_cons, ← ih hlen.2]
    constructor
    · intro h
      exact List.append_inj h hlen.1
    · rintro ⟨hx, hxs⟩
      rw [hx, hxs]

/-- Two texts that have their last separator where the last parts begin have the same parts. -/
theorem append_cons_inj_of_notMem_right {α : Type*} {a : α} {p p' t t' : List α} (ht : a ∉ t)
    (ht' : a ∉ t') (h : p ++ a :: t = p' ++ a :: t') : p = p' ∧ t = t' := by
  have hempty : ∀ {c u u' : List α}, a ∉ u → a :: u = c ++ a :: u' → c = [] := by
    intro c u u' hu heq
    cases c with
    | nil => rfl
    | cons b c =>
      rw [List.cons_append, List.cons.injEq] at heq
      exact absurd (heq.2 ▸ List.mem_append_right c List.mem_cons_self) hu
  rcases List.append_eq_append_iff.mp h with ⟨c, rfl, hc⟩ | ⟨c, rfl, hc⟩
  · obtain rfl := hempty ht hc
    exact ⟨(List.append_nil p).symm, (List.cons.inj hc).2⟩
  · obtain rfl := hempty ht' hc
    exact ⟨List.append_nil p', (List.cons.inj hc).2.symm⟩

/-! ## Strings -/

/-- A string and its NUL. -/
def terminated (s : List UInt8) : List UInt8 := s ++ [0]

@[simp] theorem length_terminated (s : List UInt8) : (terminated s).length = s.length + 1 := by
  rw [terminated, List.length_append, List.length_singleton]

/-- The part before the first NUL. -/
def untilNul (bs : List UInt8) : List UInt8 := bs.takeWhile fun b => b != 0

/-- A string without a NUL is read back, whatever follows it. -/
theorem untilNul_terminated {s : List UInt8} (h : 0 ∉ s) (rest : List UInt8) :
    untilNul (terminated s ++ rest) = s := by
  rw [untilNul, terminated, List.append_assoc, List.takeWhile_append_of_pos]
  · simp
  · intro b hb
    rw [bne_iff_ne]
    exact fun heq => h (heq ▸ hb)

/-- A string ends at a NUL at the latest. -/
theorem untilNul_append_zero (bs rest : List UInt8) : untilNul (bs ++ 0 :: rest) = untilNul bs := by
  induction bs with
  | nil => rfl
  | cons b bs ih =>
    rw [untilNul, untilNul, List.cons_append, List.takeWhile_cons, List.takeWhile_cons]
    rw [untilNul, untilNul] at ih
    rw [ih]

theorem zero_notMem_untilNul (bs : List UInt8) : 0 ∉ untilNul bs := by
  intro h
  have hb := List.mem_takeWhile_imp h
  rw [bne_self_eq_false] at hb
  cases hb

theorem untilNul_of_notMem {bs : List UInt8} (h : 0 ∉ bs) : untilNul bs = bs := by
  rw [untilNul, List.takeWhile_eq_self_iff]
  intro b hb
  rw [bne_iff_ne]
  exact fun heq => h (heq ▸ hb)

/-- Bytes either have no NUL or begin with a string and its NUL. -/
theorem untilNul_cases (bs : List UInt8) :
    (0 ∉ bs ∧ untilNul bs = bs) ∨ ∃ rest, bs = terminated (untilNul bs) ++ rest := by
  have hsplit : untilNul bs ++ bs.dropWhile (fun b => b != 0) = bs :=
    List.takeWhile_append_dropWhile
  cases hrest : bs.dropWhile fun b => b != 0 with
  | nil =>
    rw [hrest, List.append_nil] at hsplit
    exact Or.inl ⟨hsplit ▸ zero_notMem_untilNul bs, hsplit⟩
  | cons b rest =>
    -- what ends the string is a NUL
    have hb : (b != 0) = false := by
      have hhead := List.head?_dropWhile_not (fun b : UInt8 => b != 0) bs
      rw [hrest] at hhead
      simpa using hhead
    rw [bne_eq_false_iff_eq] at hb
    rw [hrest, hb] at hsplit
    refine Or.inr ⟨rest, ?_⟩
    rw [terminated, List.append_assoc, List.singleton_append, hsplit]

/-- Whether a string begins with some letters shows in the bytes. -/
theorem prefix_untilNul_iff {p : List UInt8} (hp : 0 ∉ p) (bs : List UInt8) :
    p <+: untilNul bs ↔ p <+: bs := by
  constructor
  · intro h
    exact h.trans (List.takeWhile_prefix _)
  · rintro ⟨rest, rfl⟩
    rw [untilNul, List.takeWhile_append_of_pos]
    · exact List.prefix_append p _
    · intro b hb
      rw [bne_iff_ne]
      exact fun heq => hp (heq ▸ hb)

end ProcFS.Lib
