import Mathlib.Data.List.Lex
import Mathlib.Data.List.TakeWhile
import ProcFS.Process
import ProcFS.Version

/-!
# ProcFS.VersionOrder — the order of the releases

`procfs_vercmp` goes through two releases at once, component by component, and takes a component
that is not there for 0. So it compares the lists of the components, padded with zeros: `2.5`
and `2.5.0` are the same to it.

* `vercmpLoop_dotted`: the loop compares the components.
* `procfsVercmp_compares`: the comparison is a total preorder of the releases.
* `procfsNodeVersionHidden_iff`: which of the two symbol nodes is hidden.
-/

namespace ProcFS

/-! ## Releases -/

/-- A decimal component that fits an `int`. -/
structure Component where
  digits : CString
  digits_ne : digits ≠ []
  isDigit_of_mem : ∀ b ∈ digits, isDigit b = true
  value_lt : decimalValue digits < 2 ^ 31

def Component.value (c : Component) : ℕ := decimalValue c.digits

/-- Components separated by single dots. -/
def dotted : List Component → CString
  | [] => []
  | [c] => c.digits
  | c :: cs => c.digits ++ 46 :: dotted cs

/-- A release: at least one component. -/
structure Release where
  components : List Component
  components_ne : components ≠ []

namespace Release

def text (v : Release) : CString := dotted v.components

def values (v : Release) : List ℕ := v.components.map Component.value

/-- The values with zeros behind them, `n` in all. -/
def padded (v : Release) (n : ℕ) : List ℕ := v.values.rightpad n 0

/-- How many values two releases have when the shorter one is padded. -/
def width (a b : Release) : ℕ := max a.values.length b.values.length

/-- `procfs_vercmp` finds that the release is not after the other. -/
def NotAfter (a b : Release) : Prop := ∃ r, procfsVercmp a.text b.text = some r ∧ r ≤ 0

end Release

/-! ## One round -/

/-- A round reads the first component and leaves the others. -/
theorem scanDigits_dotted (cs : List Component) :
    ∃ rest, scanDigits 0 (dotted cs) = (Int32.ofNat ((cs.map Component.value).headD 0), rest) ∧
      skipDot rest = dotted cs.tail := by
  cases cs with
  | nil => exact ⟨[], rfl, rfl⟩
  | cons c cs =>
    have hdot : isDigit 46 = false := rfl
    have htake := List.takeWhile_eq_self_iff.mpr c.isDigit_of_mem
    have hdrop := List.dropWhile_eq_nil_iff.mpr c.isDigit_of_mem
    have hscan := scanDigits_eq (dotted (c :: cs)) 0
    cases cs with
    | nil =>
      rw [dotted, htake, hdrop] at hscan
      exact ⟨[], hscan, rfl⟩
    | cons c' cs =>
      rw [dotted, List.takeWhile_append_of_pos c.isDigit_of_mem,
        List.dropWhile_append_of_pos c.isDigit_of_mem, List.takeWhile_cons_of_neg (by simp [hdot]),
        List.dropWhile_cons_of_neg (by simp [hdot]), List.append_nil] at hscan
      · exact ⟨46 :: dotted (c' :: cs), hscan, rfl⟩
      · simp

theorem dotted_eq_nil_iff {cs : List Component} : dotted cs = [] ↔ cs = [] := by
  match cs with
  | [] => simp [dotted]
  | [c] => simp [dotted, c.digits_ne]
  | c :: c' :: cs => simp [dotted]

/-- There is a character for every component. -/
theorem length_le_length_dotted (cs : List Component) : cs.length ≤ (dotted cs).length := by
  induction cs with
  | nil => exact Nat.le_refl 0
  | cons c cs ih =>
    have hpos := List.length_pos_iff.mpr c.digits_ne
    cases cs with
    | nil => exact hpos
    | cons c' cs =>
      have hlen : (dotted (c :: c' :: cs)).length =
          c.digits.length + ((dotted (c' :: cs)).length + 1) := List.length_append
      rw [List.length_cons, hlen]
      omega

/-- The difference of two values that fit has the sign that it should have. -/
theorem ofNat_sub_sign {x y : ℕ} (hx : x < 2 ^ 31) (hy : y < 2 ^ 31) :
    (Int32.ofNat x - Int32.ofNat y < 0 ↔ x < y) ∧ (Int32.ofNat x - Int32.ofNat y = 0 ↔ x = y) ∧
      (0 < Int32.ofNat x - Int32.ofNat y ↔ y < x) := by
  have hzero : (0 : Int32).toInt = 0 := rfl
  have hsub : (Int32.ofNat x - Int32.ofNat y).toInt = (x : ℤ) - y := by
    rw [Int32.toInt_sub, Int32.toInt_ofNat_of_lt hx, Int32.toInt_ofNat_of_lt hy]
    exact Int.bmod_eq_of_le (by omega) (by omega)
  rw [Int32.lt_iff_toInt_lt, Int32.lt_iff_toInt_lt, ← Int32.toInt_inj, hsub, hzero]
  omega

theorem ofNat_ne_of_lt {x y : ℕ} (hx : x < 2 ^ 31) (hy : y < 2 ^ 31) (hne : x ≠ y) :
    Int32.ofNat x ≠ Int32.ofNat y := by
  intro h
  rw [← Int32.toInt_inj, Int32.toInt_ofNat_of_lt hx, Int32.toInt_ofNat_of_lt hy] at h
  exact hne (Int.ofNat_inj.mp h)

/-! ## The loop -/

/-- What the sign of a result says about two lists. -/
def Signs (r : Int32) (xs ys : List ℕ) : Prop :=
  (r < 0 ↔ xs < ys) ∧ (r = 0 ↔ xs = ys) ∧ (0 < r ↔ ys < xs)

theorem Signs.self (xs : List ℕ) : Signs 0 xs xs := by
  refine ⟨iff_of_false ?_ (lt_irrefl xs), iff_of_true rfl rfl, iff_of_false ?_ (lt_irrefl xs)⟩
  · decide
  · decide

/-- Different first elements decide. -/
theorem Signs.of_ne {x y : ℕ} (hx : x < 2 ^ 31) (hy : y < 2 ^ 31) (hne : x ≠ y) (xs ys : List ℕ) :
    Signs (Int32.ofNat x - Int32.ofNat y) (x :: xs) (y :: ys) := by
  obtain ⟨hneg, hzero, hpos⟩ := ofNat_sub_sign hx hy
  refine ⟨?_, ?_, ?_⟩
  · simp [hneg, List.cons_lt_cons_iff, hne]
  · simp [hzero, hne]
  · simp [hpos, List.cons_lt_cons_iff, hne.symm]

/-- Equal first elements leave it to the others. -/
theorem Signs.cons {r : Int32} {xs ys : List ℕ} (h : Signs r xs ys) (x : ℕ) :
    Signs r (x :: xs) (x :: ys) := by
  obtain ⟨hneg, hzero, hpos⟩ := h
  refine ⟨?_, ?_, ?_⟩
  · simp [hneg]
  · simp [hzero]
  · simp [hpos]

/-- A padded list is its first element and its padded tail. -/
theorem rightpad_succ {n : ℕ} {xs : List ℕ} (h : xs.length ≤ n + 1) :
    xs.rightpad (n + 1) 0 = xs.headD 0 :: xs.tail.rightpad n 0 := by
  cases xs with
  | nil => rfl
  | cons x xs =>
    rw [List.rightpad, List.rightpad, List.length_cons, Nat.add_sub_add_right]
    rfl

theorem headD_values_lt (cs : List Component) : (cs.map Component.value).headD 0 < 2 ^ 31 := by
  cases cs with
  | nil => decide
  | cons c cs => exact c.value_lt

/-- With a round for every component the loop ends, and the result compares the components. -/
theorem vercmpLoop_dotted {n fuel : ℕ} {as bs : List Component} (ha : as.length ≤ n)
    (hb : bs.length ≤ n) (hfuel : max as.length bs.length < fuel) :
    ∃ r, vercmpLoop fuel (dotted as) (dotted bs) = some r ∧
      Signs r ((as.map Component.value).rightpad n 0) ((bs.map Component.value).rightpad n 0) := by
  obtain ⟨fuel, rfl⟩ : ∃ k, fuel = k + 1 := ⟨fuel - 1, by omega⟩
  induction n generalizing fuel as bs with
  | zero =>
    obtain rfl := List.eq_nil_of_length_eq_zero (Nat.le_zero.mp ha)
    obtain rfl := List.eq_nil_of_length_eq_zero (Nat.le_zero.mp hb)
    exact ⟨0, rfl, .self _⟩
  | succ n ih =>
    by_cases hempty : as = [] ∧ bs = []
    · obtain ⟨rfl, rfl⟩ := hempty
      exact ⟨0, rfl, .self _⟩
    -- one round reads the first components, and leaves the texts of the others
    obtain ⟨rest, hscan, hskip⟩ := scanDigits_dotted as
    obtain ⟨rest', hscan', hskip'⟩ := scanDigits_dotted bs
    have hx := headD_values_lt as
    have hy := headD_values_lt bs
    rw [rightpad_succ (by rwa [List.length_map]), rightpad_succ (by rwa [List.length_map]),
      ← List.map_tail, ← List.map_tail]
    simp only [vercmpLoop, dotted_eq_nil_iff, hempty, if_false, hscan, hscan', hskip, hskip']
    generalize (as.map Component.value).headD 0 = x at hx ⊢
    generalize (bs.map Component.value).headD 0 = y at hy ⊢
    by_cases hne : x = y
    · subst hne
      -- some list was not empty, so there is a round left for the tails
      have htail : as.tail.length = as.length - 1 ∧ bs.tail.length = bs.length - 1 :=
        ⟨List.length_tail, List.length_tail⟩
      have hsome : ¬ (as.length = 0 ∧ bs.length = 0) := by
        rwa [List.length_eq_zero_iff, List.length_eq_zero_iff]
      obtain ⟨k, rfl⟩ : ∃ k, fuel = k + 1 := ⟨fuel - 1, by omega⟩
      obtain ⟨r, hr, hsigns⟩ := @ih as.tail bs.tail (by omega) (by omega) k (by omega)
      rw [if_neg (not_not.mpr rfl)]
      exact ⟨r, hr, hsigns.cons x⟩
    · rw [if_pos (ofNat_ne_of_lt hx hy hne)]
      exact ⟨_, rfl, .of_ne hx hy hne _ _⟩

namespace Release

/-- The comparison ends, and its result compares the values padded to any length that is enough
for both. -/
theorem procfsVercmp_signs (a b : Release) {n : ℕ} (h : a.width b ≤ n) :
    ∃ r, procfsVercmp a.text b.text = some r ∧ Signs r (a.padded n) (b.padded n) := by
  have ha := length_le_length_dotted a.components
  have hb := length_le_length_dotted b.components
  rw [width, values, values, List.length_map, List.length_map] at h
  refine vercmpLoop_dotted (by omega) (by omega) ?_
  rw [text, text]
  omega

/-- So one release is not after another if it is not after it when both are padded. -/
theorem notAfter_iff (a b : Release) {n : ℕ} (h : a.width b ≤ n) :
    a.NotAfter b ↔ a.padded n ≤ b.padded n := by
  obtain ⟨r, hr, hneg, hzero, -⟩ := procfsVercmp_signs a b h
  have hle : r ≤ 0 ↔ r < 0 ∨ r = 0 := by
    rw [← Int32.le_iff_lt_or_eq]
  rw [NotAfter, hr, le_iff_lt_or_eq, ← hneg, ← hzero, ← hle]
  simp

/-- `procfs_vercmp` of any two releases ends with a result, which is negative, zero or positive as
the components, padded with zeros to one length, compare lexicographically. So it is a total
preorder of the releases, and `2.5` and `2.5.0` are equal in it. -/
theorem procfsVercmp_compares (a b c : Release) :
    (∃ r, procfsVercmp a.text b.text = some r ∧
      Signs r (a.padded (a.width b)) (b.padded (a.width b))) ∧
    (a.NotAfter b ∨ b.NotAfter a) ∧
    (a.NotAfter b → b.NotAfter c → a.NotAfter c) ∧
    procfsVercmp (cstr "2.5") (cstr "2.5.0") = some 0 := by
  refine ⟨procfsVercmp_signs a b (Nat.le_refl _), ?_, fun hab hbc => ?_, by decide⟩
  · have hcomm : b.width a ≤ a.width b := Nat.le_of_eq (Nat.max_comm _ _)
    rw [notAfter_iff a b (Nat.le_refl _), notAfter_iff b a hcomm]
    exact le_total _ _
  · -- all three are padded to the length of the longest
    have hn : a.width b ≤ max (a.width b) (b.width c) ∧ b.width c ≤ max (a.width b) (b.width c) ∧
        a.width c ≤ max (a.width b) (b.width c) := by
      simp only [width]
      omega
    rw [notAfter_iff a b hn.1] at hab
    rw [notAfter_iff b c hn.2.1] at hbc
    rw [notAfter_iff a c hn.2.2]
    exact le_trans hab hbc

end Release

/-! ## The two symbol nodes -/

def Component.ofDigits (digits : CString)
    (h : digits ≠ [] ∧ (digits.all isDigit = true) ∧ decimalValue digits < 2 ^ 31) : Component :=
  ⟨digits, h.1, List.all_eq_true.mp h.2.1, h.2.2⟩

/-- 2.5.47, the last release with `ksyms`. -/
def lastKsyms : Release :=
  ⟨[.ofDigits (cstr "2") (by decide), .ofDigits (cstr "5") (by decide),
    .ofDigits (cstr "47") (by decide)], by simp⟩

theorem text_lastKsyms : lastKsyms.text = cstr "2.5.47" := by decide

/-- While a release is spoofed, `kallsyms` is hidden up to 2.5.47 and `ksyms` after it. -/
theorem procfsNodeVersionHidden_iff {v : Release} {linuxVersion : Int32}
    (h : procfsSpoofedRelease linuxVersion = some v.text) :
    (procfsNodeVersionHidden linuxVersion (cstr "kallsyms") = true ↔ v.NotAfter lastKsyms) ∧
      (procfsNodeVersionHidden linuxVersion (cstr "ksyms") = true ↔ ¬ v.NotAfter lastKsyms) := by
  have hnames : (cstr "kallsyms" == cstr "ksyms") = false ∧
      (cstr "ksyms" == cstr "kallsyms") = false := by decide
  obtain ⟨r, hr, -⟩ := v.procfsVercmp_signs lastKsyms (Nat.le_refl _)
  simp only [procfsNodeVersionHidden, h, Release.NotAfter, ← text_lastKsyms, hr, hnames]
  by_cases hle : r ≤ 0
  · simp [hle]
  · simp [hle]

end ProcFS
