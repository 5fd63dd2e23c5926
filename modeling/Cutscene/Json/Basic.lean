import Cutscene.Table
/-!
# Json — values

The tree of a JSON text. Whole numbers that fit a signed or an unsigned
64-bit word keep apart from all other numbers, which are doubles. The fields
of an object keep their order and their repetitions, since a record is read
from a text in which no field may stand twice; `normalize` sorts the fields
and lets the last of a repeated name win, as everywhere else.

`unreadable` stands where a text has the shape of a value but no value: a
number beyond every double, a string with half a surrogate pair, an array or
object nested too deeply. Such a place may be skipped but not read.
-/

namespace Cutscene

/-- A JSON value. -/
inductive Json where
  | null
  | bool (b : Bool)
  | int (n : Int)
  | float (x : Float)
  | string (s : String)
  | array (items : List Json)
  | object (fields : List (String × Json))
  | unreadable
  deriving Inhabited, Repr

namespace Json

mutual

/-- Can every part of the value be read? -/
def readable : Json → Bool
  | .unreadable => false
  | .array items => readableItems items
  | .object fields => readableFields fields
  | _ => true

/-- Can every item be read? -/
def readableItems : List Json → Bool
  | [] => true
  | j :: rest => j.readable && readableItems rest

/-- Can every field be read? -/
def readableFields : List (String × Json) → Bool
  | [] => true
  | (_, j) :: rest => j.readable && readableFields rest

end

mutual

/-- The value with the fields of every object sorted by name, the last of
each name kept. -/
def normalize : Json → Json
  | .array items => .array (normalizeItems items)
  | .object fields => .object (Entries.ofList (normalizeFields fields))
  | j => j

/-- Every item normalized. -/
def normalizeItems : List Json → List Json
  | [] => []
  | j :: rest => j.normalize :: normalizeItems rest

/-- Every field's value normalized. -/
def normalizeFields : List (String × Json) → List (String × Json)
  | [] => []
  | (name, j) :: rest => (name, j.normalize) :: normalizeFields rest

end

/-- The value of the first field of a name. -/
def field? (name : String) : Json → Option Json
  | .object fields => fields.lookup name
  | _ => none

/-- The value of an optional part, `null` when it is absent. -/
def ofOption {α : Type} (encode : α → Json) : Option α → Json
  | none => .null
  | some a => encode a

/-- A list of values. -/
def ofList {α : Type} (encode : α → Json) (items : List α) : Json := .array (items.map encode)

/-- A number; one that is not finite has no form and becomes `null`. -/
def ofFloat (x : Float) : Json := if x.isFinite then .float x else .null

/-- A natural number. -/
def ofNat (n : Nat) : Json := .int n

/-- A table whose keys are field names. -/
def ofTable {α : Type} (encode : α → Json) (t : Table String α) : Json :=
  .object (t.entries.map fun (k, v) => (k, encode v))

end Json

end Cutscene
