import Mathlib.Algebra.Group.Nat.Defs
import Mathlib.Data.List.Basic

/-!
# ProcFS.Lib.Printf — conversions of `printf`

Numbers in decimal and hexadecimal, in fields of a minimal width. A number that fits into
its field has exactly the width of the field, none of its digits is a blank, and it can be
read back: two numbers that are printed alike are equal.

* `length_padLeft`: how wide a field is.
* `hexField_append_inj`: a hexadecimal number ends where the next blank is.
-/

namespace ProcFS.Lib

/-! ## Fields -/

/-- A digit as a byte; `upper` chooses between `%X` and `%x`. -/
def digitByte (upper : Bool) (c : Char) : UInt8 :=
  (if upper then c.toUpper else c).toNat.toUInt8

def digits (base : ℕ) (upper : Bool) (n : ℕ) : List UInt8 :=
  (Nat.toDigits base n).map (digitByte upper)

/-- A field of at least `w` characters, filled up from the left. -/
def padLeft (fill : UInt8) (w : ℕ) (s : List UInt8) : List UInt8 :=
  List.replicate (w - s.length) fill ++ s

/-- `%-ws`. -/
def padRight (fill : UInt8) (w : ℕ) (s : List UInt8) : List UInt8 :=
  s ++ List.replicate (w - s.length) fill

/-- `%0wx` (or `%0wX`). -/
def hexField (upper : Bool) (w n : ℕ) : List UInt8 := padLeft 48 w (digits 16 upper n)

/-- `%wu`. -/
def decField (w n : ℕ) : List UInt8 := padLeft 32 w (digits 10 false n)

/-- A field is as wide as it has to be, and `w` at least. -/
theorem length_padLeft (fill : UInt8) (w : ℕ) (s : List UInt8) :
    (padLeft fill w s).length = max w s.length := by
  rw [padLeft, List.length_append, List.length_replicate]
  omega

theorem length_padRight (fill : UInt8) (w : ℕ) (s : List UInt8) :
    (padRight fill w s).length = max w s.length := by
  rw [padRight, List.length_append, List.length_replicate]
  omega

/-- Filling up a part of a field first makes no difference. -/
theorem padRight_append_padRight {fill : UInt8} {w w' : ℕ} {pre : List UInt8}
    (h : pre.length + w' ≤ w) (s : List UInt8) :
    padRight fill w (pre ++ padRight fill w' s) = padRight fill w (pre ++ s) := by
  have hsum : w' - s.length + (w - (pre.length + max w' s.length)) =
      w - (pre.length + s.length) := by
    omega
  rw [padRight, List.length_append, length_padRight, padRight, padRight, List.append_assoc,
    List.append_assoc, List.append_assoc, List.replicate_append_replicate, hsum,
    List.length_append]

/-- A field of fewer characters, of a string that fits into it. -/
theorem take_padRight {fill : UInt8} {w w' : ℕ} {s : List UInt8} (hs : s.length ≤ w')
    (hw : w' ≤ w) :
    (padRight fill w s).take w' = padRight fill w' s := by
  have hmin : min (w' - s.length) (w - s.length) = w' - s.length := by omega
  rw [padRight, List.take_append, List.take_of_length_le hs, List.take_replicate, hmin, padRight]

theorem length_digits_le {upper : Bool} {w n : ℕ} (hw : 0 < w) (hn : n < 16 ^ w) :
    (digits 16 upper n).length ≤ w := by
  rw [digits, List.length_map]
  exact (Nat.length_toDigits_le_iff (by decide) hw).mpr hn

theorem length_hexField {upper : Bool} {w n : ℕ} (hw : 0 < w) (hn : n < 16 ^ w) :
    (hexField upper w n).length = w := by
  rw [hexField, length_padLeft, Nat.max_eq_left (length_digits_le hw hn)]

/-! ## Digits -/

/-- The digits of a number are digits. -/
theorem mem_toDigits {base n : ℕ} (hbase : 1 < base) {c : Char} (h : c ∈ Nat.toDigits base n) :
    ∃ d < base, c = Nat.digitChar d := by
  induction n using Nat.strongRecOn with
  | ind n ih =>
    rw [Nat.toDigits_eq_if hbase] at h
    split at h
    · rename_i hn
      exact ⟨n, hn, List.mem_singleton.mp h⟩
    · rename_i hn
      rcases List.mem_append.mp h with h | h
      · exact ih (n / base) (Nat.div_lt_self (by omega) hbase) h
      · exact ⟨n % base, Nat.mod_lt _ (by omega), List.mem_singleton.mp h⟩

/-- Digits are bytes from `0` to `f`. -/
theorem digit_bounds {base : ℕ} (hbase : 1 < base) (hle : base ≤ 16) {upper : Bool} {n : ℕ}
    {b : UInt8} (h : b ∈ digits base upper n) : 48 ≤ b ∧ b ≤ 102 := by
  rcases List.mem_map.mp h with ⟨c, hc, rfl⟩
  rcases mem_toDigits hbase hc with ⟨d, hd, rfl⟩
  have hall : ∀ d < 16, ∀ upper : Bool,
      48 ≤ digitByte upper d.digitChar ∧ digitByte upper d.digitChar ≤ 102 := by decide
  exact hall d (by omega) upper

/-- Every byte of a hexadecimal number is above the blank. -/
theorem lt_of_mem_hexField {upper : Bool} {w n : ℕ} {b : UInt8} (h : b ∈ hexField upper w n) :
    32 < b := by
  rcases List.mem_append.mp h with h | h
  · rw [List.eq_of_mem_replicate h]
    decide
  · exact UInt8.lt_of_lt_of_le (by decide) (digit_bounds (by decide) (by decide) h).1

/-- A hexadecimal number ends where the next blank is. -/
theorem hexField_append_inj {upper : Bool} {w m n : ℕ} {s t : List UInt8}
    (h : hexField upper w m ++ 32 :: s = hexField upper w n ++ 32 :: t) :
    hexField upper w m = hexField upper w n ∧ s = t := by
  have htake : ∀ k (u : List UInt8), (hexField upper w k ++ 32 :: u).takeWhile (fun b => b != 32) =
      hexField upper w k := by
    intro k u
    rw [List.takeWhile_append_of_pos, List.takeWhile_cons_of_neg (by decide), List.append_nil]
    intro b hb
    exact bne_iff_ne.mpr fun heq => absurd (heq ▸ lt_of_mem_hexField hb) (by decide)
  have hfield : hexField upper w m = hexField upper w n := by
    rw [← htake m s, h, htake]
  rw [hfield] at h
  exact ⟨hfield, (List.cons.inj (List.append_cancel_left h)).2⟩

/-! ## Reading back -/

/-- The value of a digit. Everything else counts as 0, the blanks of a field included. -/
def digitVal (b : UInt8) : ℕ :=
  if 48 ≤ b ∧ b ≤ 57 then b.toNat - 48
  else if 65 ≤ b ∧ b ≤ 70 then b.toNat - 55
  else if 97 ≤ b ∧ b ≤ 102 then b.toNat - 87
  else 0

/-- The number that some digits stand for. -/
def value (base : ℕ) (s : List UInt8) : ℕ := s.foldl (fun n b => base * n + digitVal b) 0

theorem value_digits {base : ℕ} (hbase : 1 < base) (hle : base ≤ 16) (upper : Bool) (n : ℕ) :
    value base (digits base upper n) = n := by
  have hdigit : ∀ d < 16, ∀ upper : Bool, digitVal (digitByte upper d.digitChar) = d := by decide
  induction n using Nat.strongRecOn with
  | ind n ih =>
    rw [digits, Nat.toDigits_eq_if hbase]
    by_cases hn : n < base
    · rw [if_pos hn, List.map_singleton, value, List.foldl_cons, List.foldl_nil,
        hdigit n (by omega), Nat.mul_zero, Nat.zero_add]
    · have hrest := ih (n / base) (Nat.div_lt_self (by omega) hbase)
      have hmod : n % base < base := Nat.mod_lt _ (by omega)
      rw [digits, value] at hrest
      rw [if_neg hn, List.map_append, value, List.foldl_append, hrest, List.map_singleton,
        List.foldl_cons, List.foldl_nil, hdigit (n % base) (by omega)]
      exact Nat.div_add_mod n base

theorem value_padLeft {fill : UInt8} (hfill : digitVal fill = 0) (base w : ℕ) (s : List UInt8) :
    value base (padLeft fill w s) = value base s := by
  have hzeros : ∀ k, (List.replicate k fill).foldl (fun n b => base * n + digitVal b) 0 = 0 := by
    intro k
    induction k with
    | zero => rfl
    | succ k ih => rw [List.replicate_succ, List.foldl_cons, hfill, Nat.mul_zero, ih]
  rw [value, padLeft, List.foldl_append, hzeros, value]

theorem hexField_inj {upper : Bool} {w m n : ℕ} (h : hexField upper w m = hexField upper w n) :
    m = n := by
  have hvalue := congrArg (value 16) h
  simp only [hexField] at hvalue
  rwa [value_padLeft (by decide), value_padLeft (by decide), value_digits (by decide) (by decide),
    value_digits (by decide) (by decide)] at hvalue

theorem decField_inj {w m n : ℕ} (h : decField w m = decField w n) : m = n := by
  have hvalue := congrArg (value 10) h
  simp only [decField] at hvalue
  rwa [value_padLeft (by decide), value_padLeft (by decide), value_digits (by decide) (by decide),
    value_digits (by decide) (by decide)] at hvalue

end ProcFS.Lib
