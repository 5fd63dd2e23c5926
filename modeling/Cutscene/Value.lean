import Cutscene.Decimal.Layout
import Cutscene.Decimal.Rounding
import Cutscene.Json.Record
/-!
# Values

What a variable holds: a boolean, a number, a text, a list, or a handle to an
object or to a running event. Equality is that of numbers, so a value that is
not a number differs from itself and the two zeros are equal.
`Value.decode?` reads what `Value.encode` writes.
-/

namespace Cutscene

/-- A scene object, by number. -/
structure ObjectId where
  val : Nat
  deriving DecidableEq, Repr, Inhabited

/-- A running event, by number. -/
structure EventId where
  val : Nat
  deriving DecidableEq, Repr, Inhabited

/-- The number handed out after this one. Numbers have 64 bits, and the least
follows the greatest. -/
def EventId.next (id : EventId) : EventId := ⟨(id.val + 1) % UInt64.size⟩

/-- The name of an event in messages. -/
def EventId.text (id : EventId) : String := "event#" ++ toString id.val

/-- The number of the object created as the `n`-th. Numbers have 64 bits, and
zero follows the greatest. -/
def ObjectId.ofCount (n : Nat) : ObjectId := ⟨n % UInt64.size⟩

/-- The name of an object in texts. -/
def ObjectId.text (id : ObjectId) : String := "object#" ++ toString id.val

/-- A value. -/
inductive Value where
  | bool (b : Bool)
  | number (x : Float)
  | string (s : String)
  | list (items : List Value)
  | object (id : ObjectId)
  | event (id : EventId)
  deriving Inhabited, Repr

/-- Values by name. -/
abbrev Attributes := Table String Value

/-! ## Numbers as text -/

/-- The whole part, towards zero. -/
def wholePart (x : Float) : Float := if x < 0.0 then Decimal.ceiling x else Decimal.floor x

/-- Numbers in texts: digits only, never an exponent, no point on a whole
number, ties away from zero. -/
def plainNumbers : Decimal.Layout := ⟨none, false, false, .away⟩

/-- A number in a text. One that is whole up to the spacing at one, and not
too large, is written as a whole number. -/
def numberText (x : Float) : String :=
  if (x - wholePart x).abs < 2.220446049250313e-16 && x.abs < 1.0e15 then
    let whole := (wholePart x).abs.toUInt64.toNat
    if x < 0.0 ∧ whole ≠ 0 then "-" ++ toString whole else toString whole
  else plainNumbers.render x

namespace Value

mutual

/-- Equality of values, numbers compared as numbers. -/
def equal : Value → Value → Bool
  | .bool a, .bool b => a == b
  | .number a, .number b => a == b
  | .string a, .string b => a == b
  | .list a, .list b => equalItems a b
  | .object a, .object b => a == b
  | .event a, .event b => a == b
  | _, _ => false

/-- Equality of lists, item by item. -/
def equalItems : List Value → List Value → Bool
  | [], [] => true
  | a :: as, b :: bs => a.equal b && equalItems as bs
  | _, _ => false

end

instance : BEq Value := ⟨equal⟩

/-! ## Views -/

/-- The boolean it is. -/
def bool? : Value → Option Bool
  | .bool b => some b
  | _ => none

/-- The number it is. -/
def number? : Value → Option Float
  | .number x => some x
  | _ => none

/-- The text it is. -/
def string? : Value → Option String
  | .string s => some s
  | _ => none

/-- The list it is. -/
def list? : Value → Option (List Value)
  | .list items => some items
  | _ => none

/-- The object it is a handle to. -/
def object? : Value → Option ObjectId
  | .object id => some id
  | _ => none

/-- The event it is a handle to. -/
def event? : Value → Option EventId
  | .event id => some id
  | _ => none

/-- The name of its type. -/
def typeName : Value → String
  | .bool _ => "boolean"
  | .number _ => "number"
  | .string _ => "string"
  | .list _ => "list"
  | .object _ => "object"
  | .event _ => "event"

mutual

/-- The value in a text; the items of a list stand between commas. -/
def text : Value → String
  | .bool b => if b then "true" else "false"
  | .number x => numberText x
  | .string s => s
  | .list items => String.intercalate "," (texts items)
  | .object id => id.text
  | .event id => id.text

/-- Every value in a text. -/
def texts : List Value → List String
  | [] => []
  | v :: rest => v.text :: texts rest

end

/-! ## As JSON -/

mutual

/-- The value as JSON; a handle is an object with one field. -/
def encode : Value → Json
  | .bool b => .bool b
  | .number x => .ofFloat x
  | .string s => .string s
  | .list items => .array (encodeItems items)
  | .object id => .object [("object", .ofNat id.val)]
  | .event id => .object [("event", .ofNat id.val)]

/-- Every value as JSON. -/
def encodeItems : List Value → List Json
  | [] => []
  | v :: rest => v.encode :: encodeItems rest

end

/-- A handle; an object's is tried first. -/
def handle? (j : Json) : Option Value :=
  match (Json.plainRecord? ["object"] j).bind (·.required "object" Json.word64?) with
  | some id => some (.object ⟨id⟩)
  | none =>
    ((Json.plainRecord? ["event"] j).bind (·.required "event" Json.word64?)).map (.event ⟨·⟩)

mutual

/-- The value a JSON value stands for. -/
def decode? : Json → Option Value
  | .bool b => some (.bool b)
  | .int n => some (.number (Json.floatOfInt n))
  | .float x => some (.number x)
  | .string s => some (.string s)
  | .array items => (decodeItems? items).map .list
  | .object fields => handle? (.object fields)
  | _ => none

/-- The values a list of JSON values stands for. -/
def decodeItems? : List Json → Option (List Value)
  | [] => some []
  | j :: rest =>
    match decode? j, decodeItems? rest with
    | some v, some vs => some (v :: vs)
    | _, _ => none

end

end Value

/-- Values by name, as JSON. -/
def Attributes.encode (a : Attributes) : Json := .ofTable Value.encode a

/-- The values by name that a JSON value stands for. -/
def Attributes.decode? : Json → Option Attributes := Json.table? (Json.whole? Value.decode?)

/-- An object's number. -/
def ObjectId.decode? (j : Json) : Option ObjectId := (Json.word64? j).map (⟨·⟩)

/-- A running event's number. -/
def EventId.decode? (j : Json) : Option EventId := (Json.word64? j).map (⟨·⟩)

/-- An object's number, as JSON. -/
def ObjectId.encode (id : ObjectId) : Json := .ofNat id.val

/-- A running event's number, as JSON. -/
def EventId.encode (id : EventId) : Json := .ofNat id.val

end Cutscene
