import Cutscene.Descriptor.Reference
/-!
# Descriptors — operands

What an instruction computes with: numbers, texts and booleans, each either
written out or described, and operands of any type. A described operand is a
union by `type`.
-/

namespace Cutscene

/-! ## Numbers -/

/-- A function of one number, or a draw. -/
inductive MathMethod where
  | round
  | floor
  | ceil
  | sqrt
  | abs
  | random
  | randomInt
  deriving DecidableEq, Repr, Inhabited

/-- What is measured of a text. -/
inductive TextMeasure where
  | length
  | parse
  | search
  deriving DecidableEq, Repr, Inhabited

/-- What is counted of an object. -/
inductive ObjectMeasure where
  | childCount
  | exists
  deriving DecidableEq, Repr, Inhabited

/-- What is read off the clock. -/
inductive ClockMeasure where
  | elapsedTime
  | frameCount
  deriving DecidableEq, Repr, Inhabited

/-- A described number. -/
inductive NumberOperand where
  | constant (value : Float)
  | variable (ref : VariableRef)
  | math (method : MathMethod) (ref : Option VariableRef) (min max : Option Float)
      (decimals : Option Nat)
  | text (measure : TextMeasure) (ref : VariableRef) (search : Option String)
  | object (desc : ObjectDesc) (kind : ObjectKind) (measure : ObjectMeasure)
  | listLength (ref : VariableRef)
  | parameter (key : String)
  | clock (measure : ClockMeasure)
  deriving Inhabited

/-- A number, written out or described. -/
inductive NumberInput where
  | literal (value : Float)
  | operand (described : NumberOperand)
  deriving Inhabited

/-! ## Texts -/

/-- Which text of an object. -/
inductive ObjectText where
  | dataId
  | key
  | slot
  deriving DecidableEq, Repr, Inhabited

/-- A described text. -/
inductive StringOperand where
  | constant (value : String)
  | variable (ref : VariableRef)
  | template (value : String)
  | number (input : NumberInput) (decimals : Option Nat)
  | object (desc : ObjectDesc) (kind : ObjectKind) (property : ObjectText)
  | join (ref : VariableRef) (separator : Option String)
  | parameter (key : String)
  | eventName
  deriving Inhabited

/-- A text, written out or described. -/
inductive StringInput where
  | literal (value : String)
  | operand (described : StringOperand)
  deriving Inhabited

/-! ## Booleans and operands of any type -/

/-- A described boolean. -/
inductive BooleanOperand where
  | constant (value : Bool)
  | variable (ref : VariableRef)
  deriving Inhabited

/-- A boolean, written out or described. -/
inductive BooleanInput where
  | literal (value : Bool)
  | operand (described : BooleanOperand)
  deriving Inhabited

/-- An operand whose type is not fixed. -/
inductive ValueOperand where
  | nothing
  | boolean (value : BooleanInput)
  | number (value : NumberInput)
  | string (value : StringInput)
  | object (desc : ObjectDesc) (kind : ObjectKind)
  | variable (ref : VariableRef)
  deriving Inhabited

/-! ## As JSON -/

namespace MathMethod

/-- The methods by name. -/
def names : List (String × MathMethod) :=
  [("round", .round), ("floor", .floor), ("ceil", .ceil), ("sqrt", .sqrt), ("abs", .abs),
   ("random", .random), ("random-int", .randomInt)]

/-- The method's name. -/
def name : MathMethod → String
  | .round => "round"
  | .floor => "floor"
  | .ceil => "ceil"
  | .sqrt => "sqrt"
  | .abs => "abs"
  | .random => "random"
  | .randomInt => "random-int"

end MathMethod

namespace TextMeasure

/-- The measures by name. -/
def names : List (String × TextMeasure) :=
  [("length", .length), ("parse", .parse), ("search", .search)]

/-- The measure's name. -/
def name : TextMeasure → String
  | .length => "length"
  | .parse => "parse"
  | .search => "search"

end TextMeasure

namespace ObjectMeasure

/-- The measures by name. -/
def names : List (String × ObjectMeasure) := [("child-count", .childCount), ("exists", .exists)]

/-- The measure's name. -/
def name : ObjectMeasure → String
  | .childCount => "child-count"
  | .exists => "exists"

end ObjectMeasure

namespace ClockMeasure

/-- The measures by name. -/
def names : List (String × ClockMeasure) :=
  [("elapsed-time", .elapsedTime), ("frame-count", .frameCount)]

/-- The measure's name. -/
def name : ClockMeasure → String
  | .elapsedTime => "elapsed-time"
  | .frameCount => "frame-count"

end ClockMeasure

namespace ObjectText

/-- The texts by name. -/
def names : List (String × ObjectText) := [("data-id", .dataId), ("key", .key), ("slot", .slot)]

/-- The text's name. -/
def name : ObjectText → String
  | .dataId => "data-id"
  | .key => "key"
  | .slot => "slot"

end ObjectText

/-- The only method of a union variant that has one. -/
def onlyMethod? (method : String) : Json → Option Unit := Json.innerOneOf? [(method, ())]

/-- The described number as JSON. -/
def NumberOperand.encode : NumberOperand → Json
  | .constant value => .tagged "type" "constant" [("value", .ofFloat value)]
  | .variable ref => .tagged "type" "variable" [("variable", ref.encode)]
  | .math method ref min max decimals =>
    .tagged "type" "math"
      [("method", .string method.name), ("variable", .ofOption VariableRef.encode ref),
       ("min", .ofOption .ofFloat min), ("max", .ofOption .ofFloat max),
       ("decimals", .ofOption .ofNat decimals)]
  | .text measure ref search =>
    .tagged "type" "string"
      [("method", .string measure.name), ("variable", ref.encode),
       ("search", .ofOption .string search)]
  | .object desc kind measure =>
    .tagged "type" "object"
      [("object", desc.encode), ("kind", kind.encode), ("property", .string measure.name)]
  | .listLength ref =>
    .tagged "type" "list" [("method", .string "length"), ("variable", ref.encode)]
  | .parameter key => .tagged "type" "parameter" [("key", .string key)]
  | .clock measure => .tagged "type" "other" [("data", .string measure.name)]

/-- The variants of a described number, in order. -/
def NumberOperand.tags : List String :=
  ["constant", "variable", "math", "string", "object", "list", "parameter", "other"]

/-- The described number of a JSON value inside the union of numbers. -/
def NumberOperand.decode? (j : Json) : Option NumberOperand := do
  let (tag, content) ← j.variant? "type" NumberOperand.tags
  match tag with
  | "constant" =>
    let r ← content.plainRecord? ["value"]
    let value ← r.required "value" Json.float?
    pure (.constant value)
  | "variable" =>
    let r ← content.plainRecord? ["variable"]
    let ref ← r.required "variable" VariableRef.decodeInner?
    pure (.variable ref)
  | "math" =>
    let r ← content.plainRecord? ["method", "variable", "min", "max", "decimals"]
    let method ← r.required "method" (Json.innerOneOf? MathMethod.names)
    let ref ← r.nullable "variable" VariableRef.decodeInner?
    let min ← r.nullable "min" Json.float?
    let max ← r.nullable "max" Json.float?
    let decimals ← r.nullable "decimals" Json.word32?
    pure (.math method ref min max decimals)
  | "string" =>
    let r ← content.plainRecord? ["method", "variable", "search"]
    let measure ← r.required "method" (Json.innerOneOf? TextMeasure.names)
    let ref ← r.required "variable" VariableRef.decodeInner?
    let search ← r.nullable "search" Json.string?
    pure (.text measure ref search)
  | "object" =>
    let r ← content.plainRecord? ["object", "kind", "property"]
    let desc ← r.required "object" ObjectDesc.decodeInner?
    let kind ← r.required "kind" ObjectKind.decodeInner?
    let measure ← r.required "property" (Json.innerOneOf? ObjectMeasure.names)
    pure (.object desc kind measure)
  | "list" =>
    let r ← content.plainRecord? ["method", "variable"]
    let _ ← r.required "method" (onlyMethod? "length")
    let ref ← r.required "variable" VariableRef.decodeInner?
    pure (.listLength ref)
  | "parameter" =>
    let r ← content.plainRecord? ["key"]
    let key ← r.required "key" Json.string?
    pure (.parameter key)
  | "other" =>
    let r ← content.plainRecord? ["data"]
    let measure ← r.required "data" (Json.innerOneOf? ClockMeasure.names)
    pure (.clock measure)
  | _ => none

/-- The number as JSON. -/
def NumberInput.encode : NumberInput → Json
  | .literal value => .ofFloat value
  | .operand described => described.encode

/-- The number of a JSON value: any number, or a description. -/
def NumberInput.decode? (j : Json) : Option NumberInput :=
  match Json.float? j with
  | some value => some (.literal value)
  | none => (NumberOperand.decode? j).map .operand

/-- The described text as JSON. -/
def StringOperand.encode : StringOperand → Json
  | .constant value => .tagged "type" "constant" [("value", .string value)]
  | .variable ref => .tagged "type" "variable" [("variable", ref.encode)]
  | .template value => .tagged "type" "template" [("value", .string value)]
  | .number input decimals =>
    .tagged "type" "number"
      [("operand", input.encode), ("decimals", .ofOption .ofNat decimals)]
  | .object desc kind property =>
    .tagged "type" "object"
      [("object", desc.encode), ("kind", kind.encode), ("property", .string property.name)]
  | .join ref separator =>
    .tagged "type" "list"
      [("method", .string "join"), ("variable", ref.encode),
       ("separator", .ofOption .string separator)]
  | .parameter key => .tagged "type" "parameter" [("key", .string key)]
  | .eventName => .tagged "type" "other" [("data", .string "event-name")]

/-- The variants of a described text, in order. -/
def StringOperand.tags : List String :=
  ["constant", "variable", "template", "number", "object", "list", "parameter", "other"]

/-- The described text of a JSON value inside the union of texts. -/
def StringOperand.decode? (j : Json) : Option StringOperand := do
  let (tag, content) ← j.variant? "type" StringOperand.tags
  match tag with
  | "constant" =>
    let r ← content.plainRecord? ["value"]
    let value ← r.required "value" Json.string?
    pure (.constant value)
  | "variable" =>
    let r ← content.plainRecord? ["variable"]
    let ref ← r.required "variable" VariableRef.decodeInner?
    pure (.variable ref)
  | "template" =>
    let r ← content.plainRecord? ["value"]
    let value ← r.required "value" Json.string?
    pure (.template value)
  | "number" =>
    let r ← content.plainRecord? ["operand", "decimals"]
    let input ← r.required "operand" NumberInput.decode?
    let decimals ← r.nullable "decimals" Json.word32?
    pure (.number input decimals)
  | "object" =>
    let r ← content.plainRecord? ["object", "kind", "property"]
    let desc ← r.required "object" ObjectDesc.decodeInner?
    let kind ← r.required "kind" ObjectKind.decodeInner?
    let property ← r.required "property" (Json.innerOneOf? ObjectText.names)
    pure (.object desc kind property)
  | "list" =>
    let r ← content.plainRecord? ["method", "variable", "separator"]
    let _ ← r.required "method" (onlyMethod? "join")
    let ref ← r.required "variable" VariableRef.decodeInner?
    let separator ← r.nullable "separator" Json.string?
    pure (.join ref separator)
  | "parameter" =>
    let r ← content.plainRecord? ["key"]
    let key ← r.required "key" Json.string?
    pure (.parameter key)
  | "other" =>
    let r ← content.plainRecord? ["data"]
    let _ ← r.required "data" (onlyMethod? "event-name")
    pure .eventName
  | _ => none

/-- The text as JSON. -/
def StringInput.encode : StringInput → Json
  | .literal value => .string value
  | .operand described => described.encode

/-- The text of a JSON value: any text, or a description. -/
def StringInput.decode? (j : Json) : Option StringInput :=
  match Json.string? j with
  | some value => some (.literal value)
  | none => (StringOperand.decode? j).map .operand

/-- The described boolean as JSON. -/
def BooleanOperand.encode : BooleanOperand → Json
  | .constant value => .tagged "type" "constant" [("value", .bool value)]
  | .variable ref => .tagged "type" "variable" [("variable", ref.encode)]

/-- The variants of a described boolean, in order. -/
def BooleanOperand.tags : List String := ["constant", "variable"]

/-- The described boolean of a JSON value inside the union of booleans. -/
def BooleanOperand.decode? (j : Json) : Option BooleanOperand := do
  let (tag, content) ← j.variant? "type" BooleanOperand.tags
  match tag with
  | "constant" =>
    let r ← content.plainRecord? ["value"]
    let value ← r.required "value" Json.bool?
    pure (.constant value)
  | "variable" =>
    let r ← content.plainRecord? ["variable"]
    let ref ← r.required "variable" VariableRef.decodeInner?
    pure (.variable ref)
  | _ => none

/-- The boolean as JSON. -/
def BooleanInput.encode : BooleanInput → Json
  | .literal value => .bool value
  | .operand described => described.encode

/-- The boolean of a JSON value: any boolean, or a description. -/
def BooleanInput.decode? (j : Json) : Option BooleanInput :=
  match Json.bool? j with
  | some value => some (.literal value)
  | none => (BooleanOperand.decode? j).map .operand

/-- The operand as JSON. -/
def ValueOperand.encode : ValueOperand → Json
  | .nothing => .tagged "type" "none" []
  | .boolean value => .tagged "type" "boolean" [("value", value.encode)]
  | .number value => .tagged "type" "number" [("value", value.encode)]
  | .string value => .tagged "type" "string" [("value", value.encode)]
  | .object desc kind =>
    .tagged "type" "object" [("object", desc.encode), ("kind", kind.encode)]
  | .variable ref => .tagged "type" "variable" [("variable", ref.encode)]

/-- The variants of an operand, in order. -/
def ValueOperand.tags : List String :=
  ["none", "boolean", "number", "string", "object", "variable"]

/-- The operand of a JSON value, by itself or inside a union. -/
def ValueOperand.read? (inner : Bool) (j : Json) : Option ValueOperand := do
  let (tag, content) ← j.variant? "type" (if inner then ValueOperand.tags else [])
  match tag with
  | "none" => if content.isBare then pure .nothing else none
  | "boolean" =>
    let r ← content.plainRecord? ["value"]
    let value ← r.required "value" BooleanInput.decode?
    pure (.boolean value)
  | "number" =>
    let r ← content.plainRecord? ["value"]
    let value ← r.required "value" NumberInput.decode?
    pure (.number value)
  | "string" =>
    let r ← content.plainRecord? ["value"]
    let value ← r.required "value" StringInput.decode?
    pure (.string value)
  | "object" =>
    let r ← content.plainRecord? ["object", "kind"]
    let desc ← r.required "object" ObjectDesc.decodeInner?
    let kind ← r.required "kind" ObjectKind.decodeInner?
    pure (.object desc kind)
  | "variable" =>
    let r ← content.plainRecord? ["variable"]
    let ref ← r.required "variable" VariableRef.decodeInner?
    pure (.variable ref)
  | _ => none

/-- The operand of a JSON value. -/
def ValueOperand.decode? : Json → Option ValueOperand := ValueOperand.read? false

/-- The operand of a JSON value inside a union. -/
def ValueOperand.decodeInner? : Json → Option ValueOperand := ValueOperand.read? true

end Cutscene
