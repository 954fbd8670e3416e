import Mathlib.Algebra.Ring.Int.Defs
import Mathlib.Data.Int.Order.Basic

/-!
# ProcFS.Lib.CInt — arithmetic that notices an overflow

A C integer type is the range of its values. An operation has no result if the exact result
is not a value of its type, so a computation that has a result had no overflow in it.

* `conv_eq`: an exact result that is a value of the type is the result.
* `int64_bind`: so the computation goes on with it.
-/

namespace ProcFS.Lib

/-- The least and the greatest value of an integer type. -/
structure IntType where
  min : ℤ
  max : ℤ
deriving DecidableEq, Repr

namespace IntType

/-- `int`, `int64_t` and `uint64_t`. -/
def int32 : IntType := ⟨-2 ^ 31, 2 ^ 31 - 1⟩
def int64 : IntType := ⟨-2 ^ 63, 2 ^ 63 - 1⟩
def uint64 : IntType := ⟨0, 2 ^ 64 - 1⟩

variable (τ : IntType)

/-- A conversion to the type that keeps the value. -/
def conv (x : ℤ) : Option ℤ := if τ.min ≤ x ∧ x ≤ τ.max then some x else none

def add (x y : ℤ) : Option ℤ := τ.conv (x + y)
def sub (x y : ℤ) : Option ℤ := τ.conv (x - y)
def mul (x y : ℤ) : Option ℤ := τ.conv (x * y)

variable {τ}

theorem conv_eq {x : ℤ} (hmin : τ.min ≤ x) (hmax : x ≤ τ.max) : τ.conv x = some x :=
  if_pos ⟨hmin, hmax⟩

section Bind

variable {β : Type*} {x : ℤ}

/-! A value that is not negative and not too large goes on to the next operation. -/

theorem int32_bind {f : ℤ → Option β} (hmin : 0 ≤ x) (hmax : x < 2 ^ 31) :
    (int32.conv x).bind f = f x := by
  rw [conv_eq (by simp only [int32]; omega) (by simp only [int32]; omega), Option.bind_some]

theorem int64_bind {f : ℤ → Option β} (hmin : 0 ≤ x) (hmax : x < 2 ^ 63) :
    (int64.conv x).bind f = f x := by
  rw [conv_eq (by simp only [int64]; omega) (by simp only [int64]; omega), Option.bind_some]

theorem uint64_bind {f : ℤ → Option β} (hmin : 0 ≤ x) (hmax : x < 2 ^ 64) :
    (uint64.conv x).bind f = f x := by
  rw [conv_eq (by simp only [uint64]; omega) (by simp only [uint64]; omega), Option.bind_some]

end Bind

end IntType

end ProcFS.Lib
