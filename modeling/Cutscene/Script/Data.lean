import Cutscene.Decimal.Layout
import Cutscene.Script.Basic
import Cutscene.Script.Token
import Cutscene.Text.Quoted
import Cutscene.Text.Search
import Cutscene.Value
/-!
# Scripts — data

What a script computes with: values and, beside them, whole numbers of 64
bits, characters, the unit and maps. `Data.ofValue` and `Data.toValue?` carry
values in and out; a handle is a map with one field.
-/

namespace Cutscene

namespace Script

/-- What an expression yields. -/
inductive Data where
  | unit
  | bool (b : Bool)
  | int (n : Int)
  | float (x : Float)
  | char (c : Char)
  | string (s : String)
  | array (items : List Data)
  | map (fields : List (String × Data))
  deriving Inhabited

namespace Data

/-- A handle's number in 64 bits, the highest for the sign. -/
def ofId (id : Nat) : Data :=
  .int (if (id : Int) ≤ greatestInt then id else id - UInt64.size)

mutual

/-- A value as data. -/
def ofValue : Value → Data
  | .bool b => .bool b
  | .number x => .float x
  | .string s => .string s
  | .list items => .array (ofValues items)
  | .object id => .map [("object", ofId id.val)]
  | .event id => .map [("event", ofId id.val)]

/-- Every value as data. -/
def ofValues : List Value → List Data
  | [] => []
  | v :: rest => ofValue v :: ofValues rest

end

/-- A handle's number, under a key. -/
def handle? (key : String) (fields : List (String × Data)) : Option Nat :=
  match fields.lookup key with
  | some (.int n) => if 0 ≤ n then some n.toNat else none
  | _ => none

mutual

/-- The value that data stands for. -/
def toValue? : Data → Option Value
  | .unit => none
  | .bool b => some (.bool b)
  | .int n => some (.number (Json.floatOfInt n))
  | .float x => some (.number x)
  | .char _ => none
  | .string s => some (.string s)
  | .array items => (toValues? items).map .list
  | .map fields =>
    if fields.length = 1 then
      match handle? "object" fields with
      | some id => some (.object ⟨id⟩)
      | none => (handle? "event" fields).map fun id => .event ⟨id⟩
    else none

/-- The values that a list of data stands for. -/
def toValues? : List Data → Option (List Value)
  | [] => some []
  | d :: rest =>
    match toValue? d, toValues? rest with
    | some v, some vs => some (v :: vs)
    | _, _ => none

end

mutual

/-- Equality of data. Numbers of both sorts compare as numbers, characters and
texts as texts; otherwise data of different types are unequal. -/
def equal : Data → Data → Bool
  | .unit, .unit => true
  | .bool a, .bool b => a == b
  | .int a, .int b => a == b
  | .int a, .float b => Json.floatOfInt a == b
  | .float a, .int b => a == Json.floatOfInt b
  | .float a, .float b => a == b
  | .char a, .char b => a == b
  | .char a, .string b => String.singleton a == b
  | .string a, .char b => a == String.singleton b
  | .string a, .string b => a == b
  | .array a, .array b => equalItems a b
  | .map a, .map b => equalFields a b
  | _, _ => false

/-- Equality of arrays, item by item. -/
def equalItems : List Data → List Data → Bool
  | [], [] => true
  | a :: as, b :: bs => equal a b && equalItems as bs
  | _, _ => false

/-- Equality of maps, whose fields are sorted. -/
def equalFields : List (String × Data) → List (String × Data) → Bool
  | [], [] => true
  | (k, a) :: as, (k', b) :: bs => k == k' && equal a b && equalFields as bs
  | _, _ => false

end

/-! ## Texts -/

/-- Floats in texts: without an exponent, or with one if they are very large
or very small. -/
def floatText (x : Float) : String :=
  if x == 0.0 then "0.0"
  else if 9999999827968.0 < x.abs ∨ x.abs < 9.9999998245167e-14 then
    Decimal.Layout.render ⟨some (1, 0), true, false, .away⟩ x
  else Decimal.Layout.render ⟨none, true, false, .away⟩ x

/-- Floats inside the texts of arrays and maps: without an exponent from
`10 ^ -4` to below `10 ^ 16`. -/
def innerFloats : Decimal.Layout := ⟨some (-4, 15), true, false, .away⟩

mutual

/-- Data inside the text of an array or a map. -/
def innerText : Data → String
  | .unit => "()"
  | .bool b => if b then "true" else "false"
  | .int n => toString n
  | .float x => innerFloats.render x
  | .char c => String.ofList (Text.quoted '\'' [c])
  | .string s => String.ofList (Text.quoted '"' s.toList)
  | .array items => "[" ++ ", ".intercalate (innerTexts items) ++ "]"
  | .map fields => "#\x7b" ++ ", ".intercalate (fieldTexts fields) ++ "\x7d"

/-- The items of an array in its text. -/
def innerTexts : List Data → List String
  | [] => []
  | d :: rest => innerText d :: innerTexts rest

/-- The fields of a map in its text. -/
def fieldTexts : List (String × Data) → List String
  | [] => []
  | (name, d) :: rest =>
    (String.ofList (Text.quoted '"' name.toList) ++ ": " ++ innerText d) :: fieldTexts rest

end

/-- Data joined to a text. -/
def text : Data → String
  | .unit => ""
  | .float x => floatText x
  | .char c => String.singleton c
  | .string s => s
  | d => innerText d

/-! ## Operators -/

/-- A whole number, if it fits 64 bits. -/
def int64? (n : Int) : Option Data := if fitsInt n then some (.int n) else none

/-- Arithmetic on whole numbers: division towards zero, nothing on overflow
and on division by zero. -/
def intArithmetic? (operator : Operator) (a b : Int) : Option Data :=
  match operator with
  | .add => int64? (a + b)
  | .sub => int64? (a - b)
  | .mul => int64? (a * b)
  | .div => if b = 0 then none else int64? (a.tdiv b)
  | .mod => if b = 0 ∨ (a = leastInt ∧ b = -1) then none else int64? (a.tmod b)
  | _ => none

/-- Arithmetic on floats. -/
def floatArithmetic? (operator : Operator) (a b : Float) : Option Data :=
  match operator with
  | .add => some (.float (a + b))
  | .sub => some (.float (a - b))
  | .mul => some (.float (a * b))
  | .div => some (.float (a / b))
  | .mod => some (.float (Decimal.remainder a b))
  | _ => none

/-- What `+` makes of data other than numbers: arrays and maps put together, of
two fields of one name the second's, and texts with anything. -/
def join? : Data → Data → Option Data
  | .array a, .array b => some (.array (a ++ b))
  | .map a, .map b => some (.map (Entries.ofList (a ++ b)))
  | .char a, .char b => some (.string (String.ofList [a, b]))
  | .string a, b => some (.string (a ++ b.text))
  | a, .string b => some (.string (a.text ++ b))
  | _, _ => none

/-- What `-` makes of data other than numbers: a text without another. Of the
empty text the other is left. -/
def takeOut? : Data → Data → Option Data
  | .string a, .string b => some (.string (if a.isEmpty then b else Text.without a b))
  | .string a, .char b => some (.string (Text.without a (String.singleton b)))
  | _, _ => none

/-- Arithmetic: on numbers, floats if one is a float. -/
def arithmetic? (operator : Operator) : Data → Data → Option Data
  | .int a, .int b => intArithmetic? operator a b
  | .int a, .float b => floatArithmetic? operator (Json.floatOfInt a) b
  | .float a, .int b => floatArithmetic? operator a (Json.floatOfInt b)
  | .float a, .float b => floatArithmetic? operator a b
  | a, b =>
    match operator with
    | .add => join? a b
    | .sub => takeOut? a b
    | _ => none

/-- Is the first below the second? That is asked of numbers and of texts. -/
def less : Data → Data → Bool
  | .int a, .int b => a < b
  | .int a, .float b => Json.floatOfInt a < b
  | .float a, .int b => a < Json.floatOfInt b
  | .float a, .float b => a < b
  | .char a, .char b => a < b
  | .char a, .string b => String.singleton a < b
  | .string a, .char b => a < String.singleton b
  | .string a, .string b => a < b
  | _, _ => false

/-- Is the first below or like the second? That is asked of numbers and of
texts. -/
def lessOrEqual : Data → Data → Bool
  | .int a, .int b => a ≤ b
  | .int a, .float b => Json.floatOfInt a ≤ b
  | .float a, .int b => a ≤ Json.floatOfInt b
  | .float a, .float b => a ≤ b
  | .char a, .char b => a ≤ b
  | .char a, .string b => String.singleton a ≤ b
  | .string a, .char b => a ≤ String.singleton b
  | .string a, .string b => a ≤ b
  | _, _ => false

/-- Can two data be put in order at all? Two arrays and two maps cannot. -/
def isOrdered : Data → Data → Bool
  | .array _, .array _ => false
  | .map _, .map _ => false
  | _, _ => true

/-- What a binary operator yields; nothing where the types do not fit. -/
def operate? (operator : Operator) (a b : Data) : Option Data :=
  match operator with
  | .equal => some (.bool (equal a b))
  | .unequal => some (.bool !(equal a b))
  | .less => if isOrdered a b then some (.bool (less a b)) else none
  | .lessOrEqual => if isOrdered a b then some (.bool (lessOrEqual a b)) else none
  | .greater => if isOrdered a b then some (.bool (less b a)) else none
  | .greaterOrEqual => if isOrdered a b then some (.bool (lessOrEqual b a)) else none
  | operator => arithmetic? operator a b

/-- What a combined assignment leaves in a place. An array takes in an item. -/
def update? (operator : Operator) (old new : Data) : Option Data :=
  match operator, old, new with
  | .add, .array a, .array b => some (.array (a ++ b))
  | .add, .array a, b => some (.array (a ++ [b]))
  | operator, old, new => arithmetic? operator old new

/-- The opposite of a number. -/
def negate? : Data → Option Data
  | .int n => int64? (-n)
  | .float x => some (.float (-x))
  | _ => none

/-- A number. -/
def number? : Data → Option Data
  | .int n => some (.int n)
  | .float x => some (.float x)
  | _ => none

/-- The opposite of a boolean. -/
def not? : Data → Option Data
  | .bool b => some (.bool !b)
  | _ => none

/-! ## Parts -/

/-- The place of an index in a list, counted from the end if negative. -/
def position? (length : Nat) (offset : Int) : Option Nat :=
  if 0 ≤ offset then (if offset < length then some offset.toNat else none)
  else if -offset ≤ length then some (length - offset.natAbs) else none

/-- Is the bit at a position of a whole number of 64 bits set? -/
def isSet (n : Int) (position : Nat) : Bool := (n / (1 <<< position : Nat)) % 2 = 1

/-- A whole number of 64 bits with one of them set or cleared; the highest
counts negatively. -/
def setBit (n : Int) (position : Nat) (b : Bool) : Int :=
  let weight : Int := if position = 63 then leastInt else (1 <<< position : Nat)
  if isSet n position = b then n else if b then n + weight else n - weight

/-- A property: a map's field, the unit if it has none, and the length of a
list or a text. -/
def property? (name : String) : Data → Option Data
  | .map fields => some ((fields.lookup name).getD .unit)
  | .array items => if name = "len" then some (.int items.length) else none
  | .string s => if name = "len" then some (.int s.length) else none
  | _ => none

/-- What stands at an index: an item, a field, a character, or a bit of a
whole number. -/
def index? : Data → Data → Option Data
  | .int offset, .array items => (position? items.length offset).bind fun i => items[i]?
  | .string name, .map fields => some ((fields.lookup name).getD .unit)
  | .int offset, .string s =>
    (position? s.length offset).bind fun i => s.toList[i]?.map .char
  | .int offset, .int n => (position? 64 offset).map fun i => .bool (isSet n i)
  | _, _ => none

/-- The data with what stands at an index replaced; a text takes characters
and a whole number bits. -/
def setIndex? (new : Data) : Data → Data → Option Data
  | .int offset, .array items =>
    (position? items.length offset).map fun i => .array (items.set i new)
  | .string name, .map fields => some (.map (Entries.insert name new fields))
  | .int offset, .string s =>
    match new with
    | .char c =>
      (position? s.length offset).map fun i => .string (String.ofList (s.toList.set i c))
    | _ => none
  | .int offset, .int n =>
    match new with
    | .bool b => (position? 64 offset).map fun i => .int (setBit n i b)
    | _ => none
  | _, _ => none

/-- How many items, characters or fields there are. -/
def length? : Data → Option Data
  | .array items => some (.int items.length)
  | .string s => some (.int s.length)
  | .map fields => some (.int fields.length)
  | _ => none

end Data

end Script

end Cutscene
