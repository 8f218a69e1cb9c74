import Mathlib.Algebra.Group.Int.Defs
import Mathlib.Algebra.Group.Nat.Defs
import Mathlib.Data.Int.Basic

namespace LibFiber.Data

/-- Two's complement truncation to a C `int`. -/
def int32 (value : Int) : Int :=
  value.bmod (2 ^ 32)

theorem int32_of_range (lower : -2 ^ 31 ≤ value) (upper : value < 2 ^ 31) :
    int32 value = value := by
  unfold int32
  exact Int.bmod_eq_of_le (by omega) (by omega)

theorem int32_le (nonnegative : 0 ≤ value) : int32 value ≤ value := by
  unfold int32 Int.bmod
  simp only
  split <;> omega

end LibFiber.Data
