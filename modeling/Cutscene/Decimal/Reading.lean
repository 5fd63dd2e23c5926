/-!
# Decimal — reading

The double a decimal text names, rounded correctly: an optional sign, then
digits with an optional point among, before or after them and an optional
exponent, or one of the names `inf`, `infinity` and `nan` in any case.
Nothing else reads; in particular no blanks.
-/

namespace Cutscene

namespace Decimal

/-- The value of a digit. -/
def digit? (c : Char) : Option Nat :=
  if '0' ≤ c ∧ c ≤ '9' then some (c.toNat - '0'.toNat) else none

/-- Is it one of the ten digits? -/
def isDigit (c : Char) : Bool := (digit? c).isSome

/-- The value of a hexadecimal digit. -/
def hexDigit? (c : Char) : Option Nat :=
  if '0' ≤ c ∧ c ≤ '9' then some (c.toNat - '0'.toNat)
  else if 'a' ≤ c ∧ c ≤ 'f' then some (c.toNat - 'a'.toNat + 10)
  else if 'A' ≤ c ∧ c ≤ 'F' then some (c.toNat - 'A'.toNat + 10)
  else none

/-- The number that digits write. -/
def wholeOf (digits : List Char) : Nat :=
  digits.foldl (fun n c => 10 * n + (digit? c).getD 0) 0

/-- The digits at the front, and what follows them. -/
def spanDigits (cs : List Char) : List Char × List Char :=
  (cs.takeWhile isDigit, cs.dropWhile isDigit)

/-- `± coefficient * 10 ^ exponent`, rounded to the nearest double. Far
outside the range the answer is settled by the magnitude alone. -/
def nearest (negative : Bool) (coefficient : Nat) (exponent : Int) : Float :=
  let size : Int := (Nat.toDigits 10 coefficient).length + exponent
  let magnitude : Float :=
    if coefficient = 0 ∨ size < -400 then 0.0
    else if 400 < size then 1.0 / 0.0
    else Float.ofScientific coefficient (exponent < 0) exponent.natAbs
  if negative then -magnitude else magnitude

/-- The exponent a text ends in: nothing at all, or a mark, an optional sign
and digits. -/
def exponent? : List Char → Option Int
  | [] => some 0
  | mark :: rest =>
    if mark = 'e' ∨ mark = 'E' then
      let (negative, digits) : Bool × List Char := match rest with
        | '-' :: ds => (true, ds)
        | '+' :: ds => (false, ds)
        | ds => (false, ds)
      if digits.isEmpty ∨ !digits.all isDigit then none
      else some (if negative then -(wholeOf digits : Int) else wholeOf digits)
    else none

/-- The double an unsigned decimal text names. -/
def unsigned? (negative : Bool) (cs : List Char) : Option Float :=
  let (whole, afterWhole) := spanDigits cs
  let (fraction, rest) : List Char × List Char := match afterWhole with
    | '.' :: more => spanDigits more
    | more => ([], more)
  if whole.isEmpty ∧ fraction.isEmpty then none
  else (exponent? rest).map fun e =>
    nearest negative (wholeOf (whole ++ fraction)) (e - fraction.length)

/-- The double a text names. -/
def float? (cs : List Char) : Option Float :=
  let (negative, body) : Bool × List Char := match cs with
    | '-' :: rest => (true, rest)
    | '+' :: rest => (false, rest)
    | rest => (false, rest)
  let name := String.ofList (body.map Char.toLower)
  if name = "inf" ∨ name = "infinity" then some (if negative then -(1.0 / 0.0) else 1.0 / 0.0)
  else if name = "nan" then some (0.0 / 0.0)
  else unsigned? negative body

end Decimal

end Cutscene
