import Cutscene.Decimal.Reading
import Cutscene.Json.Basic
/-!
# Json — reading a text

The strict grammar: no comments, no trailing commas, no byte order mark, no
leading zeros, no raw control characters in strings, nothing after the
value. `parse?` reads any text of that grammar into a tree, marking places
that stand for no value; `read?` wants a tree without such places and
normalizes it.

A number is read from its digits as far as they fit an unsigned 64-bit word,
multiplied or divided by a power of ten in double arithmetic.
-/

namespace Cutscene

namespace Json

/-- How deeply arrays and objects may nest. -/
def maxDepth : Nat := 127

/-- The largest unsigned 64-bit word. -/
def maxWord : Nat := UInt64.size - 1

/-- Space as the grammar knows it. -/
def isSpace (c : Char) : Bool := c = ' ' || c = '\n' || c = '\t' || c = '\r'

/-- What follows the space at the front. -/
def skipSpace (cs : List Char) : List Char := cs.dropWhile isSpace

/-! ## Numbers -/

/-- Digits gathered into a word: the word, and how many digits at the end no
longer fitted. -/
def gather (word : Nat) : List Char → Nat × Nat
  | [] => (word, 0)
  | c :: cs =>
    let next := 10 * word + (Decimal.digit? c).getD 0
    if maxWord < next then (word, cs.length + 1) else gather next cs

/-- `word * 10 ^ exponent` in double arithmetic; nothing beyond the greatest
double. Powers of ten past `10 ^ 308` are taken in steps. -/
def scale (word : Nat) (exponent : Int) : Option Float :=
  let start := (UInt64.ofNat word).toFloat
  if 0 ≤ exponent then
    if 308 < exponent then (if word = 0 then some start else none)
    else
      let x := start * Float.ofScientific 1 false exponent.toNat
      if x.isInf then none else some x
  else
    let rec down (fuel : Nat) (x : Float) (places : Nat) : Float :=
      match fuel with
      | 0 => 0.0
      | fuel + 1 =>
        if places ≤ 308 then x / Float.ofScientific 1 false places
        else if x == 0.0 then x
        else down fuel (x / Float.ofScientific 1 false 308) (places - 308)
    some (down 8 start exponent.natAbs)

/-- The parts of a number: digits before the point, after it, and the
exponent's sign and digits. -/
structure NumberText where
  negative : Bool
  whole : List Char
  fraction : Option (List Char)
  exponent : Option (Bool × List Char)

/-- A number at the front of a text, by the grammar alone. -/
def numberText? (cs : List Char) : Option (NumberText × List Char) :=
  let (negative, body) : Bool × List Char := match cs with
    | '-' :: rest => (true, rest)
    | rest => (false, rest)
  let (whole, afterWhole) := Decimal.spanDigits body
  if whole.isEmpty ∨ (1 < whole.length ∧ whole.head? = some '0') then none
  else
    let fraction : Option (Option (List Char) × List Char) := match afterWhole with
      | '.' :: more =>
        let (digits, rest) := Decimal.spanDigits more
        if digits.isEmpty then none else some (some digits, rest)
      | rest => some (none, rest)
    fraction.bind fun (fraction, afterFraction) =>
      match afterFraction with
      | mark :: more =>
        if mark = 'e' ∨ mark = 'E' then
          let (down, body) : Bool × List Char := match more with
            | '-' :: rest => (true, rest)
            | '+' :: rest => (false, rest)
            | rest => (false, rest)
          let (digits, rest) := Decimal.spanDigits body
          if digits.isEmpty then none
          else some (⟨negative, whole, fraction, some (down, digits)⟩, rest)
        else some (⟨negative, whole, fraction, none⟩, mark :: more)
      | [] => some (⟨negative, whole, fraction, none⟩, [])

/-- The double with a sign put on it. -/
def signed (negative : Bool) (x : Float) : Float := if negative then -x else x

/-- The value a number's text stands for. -/
def NumberText.value (t : NumberText) : Json :=
  let (word, dropped) := gather 0 t.whole
  let ofScale (word : Nat) (exponent : Int) : Json :=
    match scale word exponent with
    | some x => .float (signed t.negative x)
    | none => .unreadable
  match t.fraction, t.exponent with
  | none, none =>
    if dropped ≠ 0 then ofScale word dropped
    else if !t.negative then .int word
    else if word = 0 ∨ UInt64.size / 2 < word then .float (-(UInt64.ofNat word).toFloat)
    else .int (-(word : Int))
  | fraction, exponent =>
    let digits := fraction.getD []
    let (word, droppedAfter) := gather word digits
    let places : Int := (dropped : Int) - (digits.length - droppedAfter : Nat)
    match exponent with
    | none => ofScale word places
    | some (down, digits) =>
      let power := Decimal.wholeOf digits
      if UInt32.size / 2 ≤ power then
        if word ≠ 0 ∧ !down then .unreadable else .float (signed t.negative 0.0)
      else ofScale word (if down then places - power else places + power)

/-! ## Strings -/

/-- The value of four hexadecimal digits. -/
def hexWord? (a b c d : Char) : Option Nat := do
  let a ← Decimal.hexDigit? a
  let b ← Decimal.hexDigit? b
  let c ← Decimal.hexDigit? c
  let d ← Decimal.hexDigit? d
  pure (((a * 16 + b) * 16 + c) * 16 + d)

/-- The character a one-letter escape stands for. -/
def escape? : Char → Option Char
  | '"' => some '"'
  | '\\' => some '\\'
  | '/' => some '/'
  | 'b' => some '\x08'
  | 'f' => some '\x0c'
  | 'n' => some '\n'
  | 'r' => some '\r'
  | 't' => some '\t'
  | _ => none

/-- The first half of a surrogate pair. -/
def isHighHalf (n : Nat) : Bool := 0xD800 ≤ n && n < 0xDC00

/-- The second half of a surrogate pair. -/
def isLowHalf (n : Nat) : Bool := 0xDC00 ≤ n && n < 0xE000

/-- The rest of a string after its opening quote: its characters, nothing if
half a surrogate pair stands in it, and what follows the closing quote.
`written` holds the characters so far, the last one first. -/
def stringRest? (written : List Char) (whole : Bool) :
    List Char → Option (Option String × List Char)
  | [] => none
  | '"' :: rest =>
    some (if whole then some (String.ofList written.reverse) else none, rest)
  | '\\' :: 'u' :: a :: b :: c :: d :: rest =>
    match hexWord? a b c d with
    | none => none
    | some n =>
      if isHighHalf n then
        match rest with
        | '\\' :: 'u' :: e :: f :: g :: h :: rest' =>
          match hexWord? e f g h with
          | none => none
          | some low =>
            if isLowHalf low then
              stringRest? (Char.ofNat (0x10000 + (n - 0xD800) * 1024 + (low - 0xDC00)) :: written)
                whole rest'
            else stringRest? written false ('\\' :: 'u' :: e :: f :: g :: h :: rest')
        | rest => stringRest? written false rest
      else if isLowHalf n then stringRest? written false rest
      else stringRest? (Char.ofNat n :: written) whole rest
  | '\\' :: c :: rest =>
    match escape? c with
    | none => none
    | some c => stringRest? (c :: written) whole rest
  | c :: rest => if c.toNat < 0x20 then none else stringRest? (c :: written) whole rest
termination_by cs => cs.length

/-! ## Values -/

mutual

/-- A value at the front of a text. `depth` is how many more arrays and
objects may open around what is read next. -/
def value? : Nat → Nat → List Char → Option (Json × List Char)
  | 0, _, _ => none
  | fuel + 1, depth, cs =>
    match skipSpace cs with
    | 'n' :: 'u' :: 'l' :: 'l' :: rest => some (.null, rest)
    | 't' :: 'r' :: 'u' :: 'e' :: rest => some (.bool true, rest)
    | 'f' :: 'a' :: 'l' :: 's' :: 'e' :: rest => some (.bool false, rest)
    | '"' :: rest => (stringRest? [] true rest).map fun (s, rest) =>
      ((match s with | some s => .string s | none => .unreadable), rest)
    | '[' :: rest =>
      let shut (items : List Json) : Json := if depth = 0 then .unreadable else .array items
      match skipSpace rest with
      | ']' :: rest => some (shut [], rest)
      | rest => (items? fuel (depth - 1) rest).map fun (items, rest) => (shut items, rest)
    | '\x7b' :: rest =>
      let shut (fields : Option (List (String × Json))) : Json :=
        match fields with
        | some fields => if depth = 0 then .unreadable else .object fields
        | none => .unreadable
      match skipSpace rest with
      | '\x7d' :: rest => some (shut (some []), rest)
      | rest => (fields? fuel (depth - 1) rest).map fun (fields, rest) => (shut fields, rest)
    | cs => (numberText? cs).map fun (t, rest) => (t.value, rest)

/-- The items of an array, up to and with its closing bracket. -/
def items? : Nat → Nat → List Char → Option (List Json × List Char)
  | 0, _, _ => none
  | fuel + 1, depth, cs =>
    (value? fuel depth cs).bind fun (item, rest) =>
      match skipSpace rest with
      | ']' :: rest => some ([item], rest)
      | ',' :: rest => (items? fuel depth rest).map fun (items, rest) => (item :: items, rest)
      | _ => none

/-- The fields of an object, up to and with its closing brace; no fields if a
name cannot be read. -/
def fields? : Nat → Nat → List Char → Option (Option (List (String × Json)) × List Char)
  | 0, _, _ => none
  | fuel + 1, depth, cs =>
    match skipSpace cs with
    | '"' :: rest =>
      (stringRest? [] true rest).bind fun (name, rest) =>
        match skipSpace rest with
        | ':' :: rest =>
          (value? fuel depth rest).bind fun (item, rest) =>
            let field := name.map fun name => (name, item)
            match skipSpace rest with
            | '\x7d' :: rest => some (field.map ([·]), rest)
            | ',' :: rest => (fields? fuel depth rest).map fun (fields, rest) =>
              (field.bind fun f => fields.map (f :: ·), rest)
            | _ => none
        | _ => none
    | _ => none

end

/-- The tree of a text that holds one value and space. -/
def parse? (text : String) : Option Json :=
  let cs := text.toList
  match value? (2 * cs.length + 2) maxDepth cs with
  | some (j, rest) => if (skipSpace rest).isEmpty then some j else none
  | none => none

/-- The value of a text, every part of which must be readable. -/
def read? (text : String) : Option Json :=
  (parse? text).bind fun j => if j.readable then some j.normalize else none

end Json

end Cutscene
