/-!
# Decimal — a double taken apart

A finite double is a sign, a whole number below `2 ^ 53` and a power of two.
`Scaled.ofFloat?` reads the three from the bits, so that printing and the
exact remainder work on whole numbers.
-/

namespace Cutscene

namespace Decimal

/-- The number `± mantissa * 2 ^ exponent`. -/
structure Scaled where
  negative : Bool
  mantissa : Nat
  exponent : Int
  deriving DecidableEq, Repr, Inhabited

/-- The sign bit, which zeros and values that are not numbers have too. -/
def signBit (x : Float) : Bool := x.toBits >>> 63 == 1

/-- The leading bit of a mantissa, left out of a double's bits: `2 ^ 52`. -/
def Scaled.leading : Nat := 4503599627370496

/-- Sign, mantissa and exponent of a finite double; nothing for an infinity
or a value that is not a number. -/
def Scaled.ofFloat? (x : Float) : Option Scaled :=
  let bits := x.toBits.toNat
  let biased : Nat := bits / leading % 2048
  let fraction : Nat := bits % leading
  if biased = 2047 then none
  else if biased = 0 then some ⟨signBit x, fraction, -1074⟩
  else some ⟨signBit x, fraction + leading, (biased : Int) - 1075⟩

/-- The double of a sign, a mantissa below `2 ^ 53` and an exponent in range. -/
def Scaled.toFloat (s : Scaled) : Float :=
  let magnitude := (Float.ofNat s.mantissa).scaleB s.exponent
  if s.negative then -magnitude else magnitude

/-- The larger of an exponent and zero: the power of two above the line. -/
def Scaled.above (s : Scaled) : Nat := s.mantissa <<< s.exponent.toNat

/-- The power of two below the line, so that the magnitude is `above / below`. -/
def Scaled.below (s : Scaled) : Nat := 1 <<< (-s.exponent).toNat

/-- The truncated remainder: what is left of `x` after taking away as many
whole `y` as fit, with the sign of `x`. It is exact. -/
def remainder (x y : Float) : Float :=
  match Scaled.ofFloat? x, Scaled.ofFloat? y with
  | some a, some b =>
    if b.mantissa = 0 then 0.0 / 0.0
    else
      let unit := min a.exponent b.exponent
      let left := a.mantissa <<< (a.exponent - unit).toNat
      let right := b.mantissa <<< (b.exponent - unit).toNat
      Scaled.toFloat ⟨a.negative, left % right, unit⟩
  | some _, none => if y.isNaN then y else x
  | none, _ => 0.0 / 0.0

end Decimal

end Cutscene
