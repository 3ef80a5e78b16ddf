import Mathlib.Algebra.GroupWithZero.Nat
import Mathlib.Data.Nat.Cast.Defs

/-! What makes the numbers that definitions are written with numerals, under names of their own: a
    definition that reads them by name is the same one, whichever others stand before it. -/

namespace Lib

theorem atLeastTwo_two : Nat.AtLeastTwo 2 := inferInstance

theorem atLeastTwo_three : Nat.AtLeastTwo 3 := inferInstance

theorem atLeastTwo_four : Nat.AtLeastTwo 4 := inferInstance

theorem neZero_three : NeZero 3 := inferInstance

theorem neZero_four : NeZero 4 := inferInstance

end Lib
