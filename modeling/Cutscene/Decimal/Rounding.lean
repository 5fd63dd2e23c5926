import Cutscene.Decimal.Scaled
/-!
# Decimal — whole numbers beside a double

The least whole number that is not below a double and the greatest that is
not above it. A double without a fraction is its own, zeros with their signs,
and so is one that is not finite.
-/

namespace Cutscene

namespace Decimal

/-- The double of a whole number below `2 ^ 53`, with a sign. -/
def ofWhole (negative : Bool) (n : Nat) : Float :=
  if negative then -n.toUInt64.toFloat else n.toUInt64.toFloat

/-- The least whole number that is not below. -/
def ceiling (x : Float) : Float :=
  match Scaled.ofFloat? x with
  | none => x
  | some s =>
    if s.mantissa % s.below = 0 then x
    else
      let whole := s.mantissa / s.below
      ofWhole s.negative (if s.negative then whole else whole + 1)

/-- The greatest whole number that is not above. -/
def floor (x : Float) : Float :=
  match Scaled.ofFloat? x with
  | none => x
  | some s =>
    if s.mantissa % s.below = 0 then x
    else
      let whole := s.mantissa / s.below
      ofWhole s.negative (if s.negative then whole + 1 else whole)

end Decimal

end Cutscene
