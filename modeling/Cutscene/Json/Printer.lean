import Cutscene.Decimal.Layout
import Cutscene.Json.Basic
/-!
# Json — printing

A value as text, on one line (`compact`) or laid out with two spaces a level
(`pretty`). Fields stand in the order they have; a value is normalized first
where sorted fields are wanted. Only what must be escaped is escaped.
-/

namespace Cutscene

namespace Json

/-- Doubles in JSON: powers of ten from -5 to 15 are written positionally and
keep their point, an exponent carries its sign, ties go to the even digit. -/
def numbers : Decimal.Layout := ⟨some (-5, 15), true, true, .even⟩

/-- A digit of a lower-case hexadecimal number. -/
def hexDigit (n : Nat) : Char := (Nat.toDigits 16 n).headD '0'

/-- A character as it stands between quotes. -/
def escaped (c : Char) : List Char :=
  match c with
  | '"' => ['\\', '"']
  | '\\' => ['\\', '\\']
  | '\n' => ['\\', 'n']
  | '\r' => ['\\', 'r']
  | '\t' => ['\\', 't']
  | '\x08' => ['\\', 'b']
  | '\x0c' => ['\\', 'f']
  | c =>
    if c.toNat < 0x20 then
      ['\\', 'u', '0', '0', hexDigit (c.toNat / 16), hexDigit (c.toNat % 16)]
    else [c]

/-- A text between quotes. -/
def quote (s : String) : String := String.ofList ('"' :: s.toList.flatMap escaped ++ ['"'])

/-- A value without parts; a double that is not finite is `null`. -/
def scalar : Json → String
  | .bool true => "true"
  | .bool false => "false"
  | .int n => toString n
  | .float x => if x.isFinite then numbers.render x else "null"
  | .string s => quote s
  | _ => "null"

mutual

/-- Appends a value on one line. -/
def writeCompact (out : String) : Json → String
  | .array items => (writeItems (out ++ "[") true items) ++ "]"
  | .object fields => (writeFields (out ++ "\x7b") true fields) ++ "\x7d"
  | j => out ++ j.scalar

/-- Appends the items of an array. -/
def writeItems (out : String) (first : Bool) : List Json → String
  | [] => out
  | j :: rest => writeItems (writeCompact (if first then out else out ++ ",") j) false rest

/-- Appends the fields of an object. -/
def writeFields (out : String) (first : Bool) : List (String × Json) → String
  | [] => out
  | (name, j) :: rest =>
    writeFields (writeCompact ((if first then out else out ++ ",") ++ quote name ++ ":") j)
      false rest

end

/-- The value on one line. -/
def compact (j : Json) : String := writeCompact "" j

/-- The start of a line at a level. -/
def newLine (level : Nat) : String := String.ofList ('\n' :: List.replicate (2 * level) ' ')

mutual

/-- Appends a value laid out at a level. -/
def writePretty (level : Nat) (out : String) : Json → String
  | .array [] => out ++ "[]"
  | .array items => (prettyItems (level + 1) (out ++ "[") true items) ++ newLine level ++ "]"
  | .object [] => out ++ "\x7b\x7d"
  | .object fields =>
    (prettyFields (level + 1) (out ++ "\x7b") true fields) ++ newLine level ++ "\x7d"
  | j => out ++ j.scalar

/-- Appends the items of an array, each on lines of its own. -/
def prettyItems (level : Nat) (out : String) (first : Bool) : List Json → String
  | [] => out
  | j :: rest =>
    prettyItems level
      (writePretty level ((if first then out else out ++ ",") ++ newLine level) j) false rest

/-- Appends the fields of an object, each on lines of its own. -/
def prettyFields (level : Nat) (out : String) (first : Bool) : List (String × Json) → String
  | [] => out
  | (name, j) :: rest =>
    prettyFields level
      (writePretty level
        ((if first then out else out ++ ",") ++ newLine level ++ quote name ++ ": ") j)
      false rest

end

/-- The value laid out with two spaces a level. -/
def pretty (j : Json) : String := writePretty 0 "" j

end Json

end Cutscene
