import Cutscene.Decimal.Shortest
/-!
# Decimal — layouts

How the digits of a double are laid out. A `Layout` is the record of one
format's decisions: which magnitudes are written positionally, whether a
whole number keeps its point, whether an exponent carries a plus sign, and
where ties go. `Float` values that are not finite have names instead of
digits. `fixed` writes a fixed number of places from the exact value.
-/

namespace Cutscene

namespace Decimal

/-- One format's decisions. -/
structure Layout where
  /-- The least and the greatest power of ten written positionally; nothing
  when all are. -/
  positional : Option (Int × Int)
  /-- Is a whole number written with `.0`? -/
  keepPoint : Bool
  /-- Is a positive exponent written with `+`? -/
  plusExponent : Bool
  tie : Tie

/-- `count` zeros. -/
def zeros (count : Nat) : List Char := List.replicate count '0'

/-- The decimal digits of a whole number. -/
def wholeDigits (n : Nat) : List Char := Nat.toDigits 10 n

/-- Digits with the point where the exponent says. -/
def Digits.positional (keepPoint : Bool) (d : Digits) : List Char :=
  let digits := wholeDigits d.coefficient
  if 0 ≤ d.exponent then
    digits ++ zeros d.exponent.toNat ++ (if keepPoint then ['.', '0'] else [])
  else
    let places := (-d.exponent).toNat
    if places < digits.length then
      digits.take (digits.length - places) ++ '.' :: digits.drop (digits.length - places)
    else
      '0' :: '.' :: zeros (places - digits.length) ++ digits

/-- One digit before the point, the rest after it, and the exponent. -/
def Digits.scientific (plusExponent : Bool) (d : Digits) : List Char :=
  let digits := wholeDigits d.coefficient
  let power := d.exponent + digits.length - 1
  let sign := if power < 0 then ['-'] else if plusExponent then ['+'] else []
  let fraction := digits.drop 1
  digits.take 1 ++ (if fraction.isEmpty then [] else '.' :: fraction) ++
    'e' :: sign ++ wholeDigits power.natAbs

/-- A double in a layout. -/
def Layout.render (l : Layout) (x : Float) : String :=
  match Scaled.ofFloat? x with
  | none => if x.isNaN then "NaN" else if signBit x then "-inf" else "inf"
  | some s =>
    let sign := if s.negative then ['-'] else []
    let body :=
      if s.mantissa = 0 then (if l.keepPoint then ['0', '.', '0'] else ['0'])
      else
        let d := shortest l.tie s
        let power := d.exponent + (wholeDigits d.coefficient).length - 1
        match l.positional with
        | none => d.positional l.keepPoint
        | some (least, greatest) =>
          if least ≤ power ∧ power ≤ greatest then d.positional l.keepPoint
          else d.scientific l.plusExponent
    String.ofList (sign ++ body)

/-- `above / below` rounded to a whole number, a tie going to the even one. -/
def roundToEven (above below : Nat) : Nat :=
  let down := above / below
  let twice := 2 * (above % below)
  if twice < below then down
  else if below < twice then down + 1
  else if down % 2 = 0 then down else down + 1

/-- A double with a fixed number of places, rounded from its exact value. -/
def fixed (places : Nat) (x : Float) : String :=
  match Scaled.ofFloat? x with
  | none => if x.isNaN then "NaN" else if signBit x then "-inf" else "inf"
  | some s =>
    let sign := if s.negative then ['-'] else []
    let units := roundToEven (s.above * Nat.pow 10 places) s.below
    let digits := wholeDigits units
    let padded := zeros (places + 1 - digits.length) ++ digits
    let whole := padded.take (padded.length - places)
    let fraction := padded.drop (padded.length - places)
    String.ofList (sign ++ whole ++ (if places = 0 then [] else '.' :: fraction))

end Decimal

end Cutscene
