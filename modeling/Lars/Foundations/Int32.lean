import Mathlib.Algebra.Order.Ring.Int

/-!
# Counting with `Int32`

A counter of type `Int32` counts up by one below the largest value (`toInt_add_one`), and down by
one above the smallest (`toInt_sub_one`).
-/

namespace Lars

theorem toInt_add_one {x : Int32} (h : x.toInt < 2 ^ 31 - 1) : (x + 1).toInt = x.toInt + 1 := by
  have hlo := x.le_toInt
  rw [Int32.toInt_add, show (1 : Int32).toInt = 1 from rfl, Int.bmod_def]
  omega

theorem toInt_sub_one {x : Int32} (h : -2 ^ 31 < x.toInt) : (x - 1).toInt = x.toInt - 1 := by
  have hhi := x.toInt_lt
  rw [Int32.toInt_sub, show (1 : Int32).toInt = 1 from rfl, Int.bmod_def]
  omega

end Lars
