import Cutscene.Decimal.Scaled
/-!
# Decimal — the fewest digits that read back

The reals that round to a double `m * 2 ^ q` form an interval, closed at both
ends when `m` is even. The fewest digits are found grid by grid: on the grid
of one digit, of two, up to seventeen, the value has a neighbour below and a
neighbour above, and the first grid with a neighbour inside the interval
wins. Of two neighbours inside the nearer is taken; `Tie` says what happens
when neither is nearer.
-/

namespace Cutscene

namespace Decimal

/-- Which of two equally near decimals is taken. -/
inductive Tie where
  /-- The one whose last digit is even. -/
  | even
  /-- The one further from zero. -/
  | away
  deriving DecidableEq, Repr

/-- The decimal `coefficient * 10 ^ exponent`. -/
structure Digits where
  coefficient : Nat
  exponent : Int
  deriving DecidableEq, Repr, Inhabited

/-- Moves zeros at the end of the coefficient into the exponent, at most
`fuel` of them. -/
def Digits.dropZeros : Nat → Digits → Digits
  | 0, d => d
  | fuel + 1, d =>
    if d.coefficient % 10 = 0 then dropZeros fuel ⟨d.coefficient / 10, d.exponent + 1⟩ else d

/-- The reals that round to a double, in quarters of its last place:
`low` and `high` around `centre`, all times `2 ^ exponent`. -/
structure Interval where
  low : Nat
  centre : Nat
  high : Nat
  exponent : Int
  closed : Bool

/-- The interval of a positive finite double. Below a power of two the
spacing halves, so the lower end is nearer there. -/
def Scaled.interval (s : Scaled) : Interval :=
  let centre := 4 * s.mantissa
  let low := if s.mantissa = Scaled.leading ∧ s.exponent ≠ -1074 then centre - 1 else centre - 2
  ⟨low, centre, centre + 2, s.exponent - 2, s.mantissa % 2 = 0⟩

/-- The power of ten at or below a positive number `above / below`, found by
correcting an estimate from the number of bits. -/
def magnitude (above below : Nat) : Int :=
  let bits : Int := (Nat.log2 above : Int) - Nat.log2 below
  let guess := Int.fdiv (bits * 1233) 4096
  let atLeast (e : Int) : Bool :=
    decide (Nat.pow 10 e.toNat * below ≤ above * Nat.pow 10 (-e).toNat)
  if atLeast (guess + 1) then guess + 1
  else if atLeast guess then guess
  else guess - 1

/-- The neighbour on the grid of multiples of `10 ^ exponent` that lies in the
interval, the nearer of two. -/
def Interval.onGrid (tie : Tie) (i : Interval) (exponent : Int) : Option Nat :=
  -- one grid step is `step / unit` of the interval's own unit
  let step := Nat.pow 10 exponent.toNat <<< (-i.exponent).toNat
  let unit := Nat.pow 10 (-exponent).toNat <<< i.exponent.toNat
  let centre := i.centre * unit
  let down := centre / step
  let inside (d : Nat) : Bool :=
    if i.closed then decide (i.low * unit ≤ d * step) && decide (d * step ≤ i.high * unit)
    else decide (i.low * unit < d * step) && decide (d * step < i.high * unit)
  let gapDown := centre - down * step
  let gapUp := (down + 1) * step - centre
  match inside down, inside (down + 1) with
  | false, false => none
  | true, false => some down
  | false, true => some (down + 1)
  | true, true =>
    if gapDown < gapUp then some down
    else if gapUp < gapDown then some (down + 1)
    else match tie with
      | .even => some (if down % 2 = 0 then down else down + 1)
      | .away => some (down + 1)

/-- The fewest digits that read back as a positive double. -/
def shortest (tie : Tie) (s : Scaled) : Digits :=
  let i := s.interval
  let top := magnitude s.above s.below
  let found := (List.range 17).findSome? fun (more : Nat) =>
    let exponent := top - more
    (i.onGrid tie exponent).map (Digits.mk · exponent)
  (found.getD ⟨s.above, 0⟩).dropZeros 18

end Decimal

end Cutscene
