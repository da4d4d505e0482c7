import Mathlib.Analysis.SpecialFunctions.Sqrt
import Mathlib.Data.Rat.Sqrt

/-!
# Floating point numbers

Numbers with the operations that a program applies to them, and nothing said of their rounding.
-/

/-- The numbers of a program, none of which is a NaN. -/
class Floats (F : Type) extends LinearOrder F, Add F, Sub F, Mul F, Div F where
  /-- The number of an integer. -/
  ofNat : Nat → F
  /-- The number that `digits / 10 ^ places` reads as. -/
  decimal : Nat → Nat → F
  sqrt : F → F
  ceil : F → Int

namespace Floats

def ratio {F : Type} [Floats F] (a b : Nat) : F := ofNat a / ofNat b

/-- Without rounding. -/
noncomputable instance : Floats ℝ where
  ofNat n := n
  decimal digits places := digits / 10 ^ places
  sqrt := Real.sqrt
  ceil := Int.ceil

/-- Without rounding, where a square root is a fraction. -/
instance : Floats ℚ where
  ofNat n := n
  decimal digits places := digits / 10 ^ places
  sqrt := Rat.sqrt
  ceil := Int.ceil

end Floats
