import ProcFS.Lib.Fields
import ProcFS.Types

/-!
# ProcFS.Text — printing into a buffer

Most text nodes are printed with one `snprintf` into a buffer on the stack, and the length it
returned goes to `procfs_copy_data`. That length is the one the text would have, so the node is
only right if the text always fits.

* `snprintf_line_whole_iff`: when a line fits into its buffer.
* `readInt_fmtInt`: a number is read back.
* `length_fmtInt_int`: how long an `int` is at most.
-/

namespace ProcFS

open Lib

/-- A buffer after `snprintf`: the text in it, up to the NUL, and the length that was returned. -/
structure Printed where
  held : CString
  len : ℕ
deriving DecidableEq, Repr

/-- `snprintf(buf, size, ...)`. -/
def snprintf (size : ℕ) (text : CString) : Printed := ⟨text.take (size - 1), text.length⟩

/-- The buffer holds all of the text. -/
def Printed.Holds (b : Printed) (text : CString) : Prop := b = ⟨text, text.length⟩

theorem snprintf_holds {size : ℕ} {text : CString} (h : text.length < size) :
    (snprintf size text).Holds text := by
  rw [Printed.Holds, snprintf, List.take_of_length_le (Nat.le_sub_one_of_lt h)]

/-- The length that was returned is the one of the text in the buffer. -/
def Printed.Whole (b : Printed) : Prop := b.len = b.held.length

theorem snprintf_whole_iff {size : ℕ} (hsize : 0 < size) (text : CString) :
    (snprintf size text).Whole ↔ text.length < size := by
  show text.length = (text.take (size - 1)).length ↔ text.length < size
  rw [List.length_take]
  omega

/-- A line that fits with its newline and a NUL. -/
theorem snprintf_line_whole_iff {size : ℕ} (hsize : 0 < size) (line : CString) :
    (snprintf size (line ++ [10])).Whole ↔ line.length + 1 < size := by
  rw [snprintf_whole_iff hsize, List.length_append, List.length_singleton]

/-! ## Numbers -/

theorem fmtNat_eq (n : ℕ) : fmtNat n = digits 10 false n := rfl

theorem fmtInt_eq : fmtInt = decInt := by
  funext z
  rw [fmtInt, decInt]
  rfl

/-- What `%d` printed is read back. -/
theorem readInt_fmtInt (z : ℤ) : readInt (fmtInt z) = some z := by
  rw [fmtInt_eq, readInt_decInt]

theorem readNat_fmtNat (n : ℕ) : readNat (fmtNat n) = some n := readNat_digits n

theorem notMem_fmtNat {sep : UInt8} (hdec : isDec sep = false) (n : ℕ) : sep ∉ fmtNat n := by
  rw [fmtNat_eq]
  exact notMem_digits hdec n

theorem notMem_fmtInt {sep : UInt8} (hsep : sep ≠ 45) (hdec : isDec sep = false) (z : ℤ) :
    sep ∉ fmtInt z := by
  rw [fmtInt_eq]
  exact notMem_decInt hsep hdec z

theorem length_fmtNat_le_of_lt {w n : ℕ} (hw : 0 < w) (h : n < 10 ^ w) : (fmtNat n).length ≤ w := by
  rw [fmtNat, List.length_map]
  exact (Nat.length_toDigits_le_iff (by decide) hw).mpr h

theorem length_fmtInt_of_natAbs {w : ℕ} {z : ℤ} (hw : 0 < w) (h : z.natAbs < 10 ^ w) :
    (fmtInt z).length ≤ w + 1 := by
  have hlen := length_fmtNat_le_of_lt hw h
  rw [fmtInt]
  split
  · rw [List.length_append]
    have hsign : (cstr "-").length = 1 := rfl
    omega
  · omega

/-- An `int` takes 11 characters at most. -/
theorem length_fmtInt_int (i : Int32) : (fmtInt i.toInt).length ≤ 11 := by
  have hlt := i.toInt_lt
  have hge := i.le_toInt
  exact length_fmtInt_of_natAbs (by decide) (by omega)

end ProcFS
