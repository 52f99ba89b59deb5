import Mathlib.Data.Rat.Defs

/-!
# Floating-point arithmetic

A program that calculates with floating-point numbers is a program over any type with their
operations. Nothing is assumed of them: results are rounded, and what is not a number compares with
nothing, so that `¬ x ≤ y` does not mean `y < x`. What does not depend on the arithmetic holds of
the floating-point numbers of the machine; what is to hold in exact arithmetic is stated over the
rational numbers.

## Main definitions

* `Floating` — a type with the operations of floating-point numbers
-/

namespace SignalSim

/-- The operations of floating-point numbers. -/
class Floating (F : Type) extends LE F, LT F, Zero F, NatCast F, Add F, Sub F, Mul F, Div F where
  decidableLE : DecidableLE F
  decidableLT : DecidableLT F

instance Floating.instDecidableLE {F : Type} [Floating F] : DecidableLE F := Floating.decidableLE

instance Floating.instDecidableLT {F : Type} [Floating F] : DecidableLT F := Floating.decidableLT

/-- Exact arithmetic. -/
instance : Floating ℚ where
  zero := 0
  decidableLE := inferInstance
  decidableLT := inferInstance

/-- The floating-point numbers of 64 bits. -/
instance : Floating Float where
  zero := 0
  natCast := Float.ofNat
  decidableLE := inferInstance
  decidableLT := inferInstance

end SignalSim
