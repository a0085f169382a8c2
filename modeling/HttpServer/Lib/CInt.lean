import Mathlib.Algebra.Ring.Int.Defs
import Mathlib.Algebra.Ring.Nat

/-!
# Integer conversions of C

The machine is that of the program: an `int` has 32 bits, a `size_t` 64, and a value that does not
fit is taken modulo the size of the type.
-/

namespace HttpServer.Lib

def toInt (z : ℤ) : ℤ := z.bmod (2 ^ 32)

def toSize (z : ℤ) : ℕ := (z % 2 ^ 64).toNat

theorem toInt_of_fits {n : ℕ} (h : n < 2 ^ 31) : toInt n = n := by
  unfold toInt
  rw [Int.bmod_def]
  omega

theorem toSize_of_fits {n : ℕ} (h : n < 2 ^ 64) : toSize n = n := by
  unfold toSize
  omega

end HttpServer.Lib
