import Cutscene.Action.Arithmetic
import Cutscene.Decimal.Rounding
import Cutscene.Run.Variable
import Cutscene.Text.Search
/-!
# Running — operands

What an operand comes to at a moment. Nothing comes of an operand whose
variable or object is missing or of another type, nor of a number that is not
finite. Computing an operand changes nothing but the random generator.
-/

namespace Cutscene

/-- A computation that may draw random numbers. -/
abbrev Draw (α : Type) := StateM Random α

/-- Draws a number from zero up to one, exclusive. -/
def drawUnit : Draw Float := fun r => r.unit

/-- Draws a number below a bound. -/
def drawBelow (bound : Nat) : Draw Nat := fun r => r.below bound

/-- How many places are computed with at most. -/
def maxPlaces : Nat := 15

/-- A number rounded to so many places, a half away from zero. -/
def roundPlaces (places : Nat) (x : Float) : Float :=
  if places = 0 then x.round
  else
    let factor := Float.ofScientific 1 false (min places maxPlaces)
    (x * factor).round / factor

/-- The whole numbers from a lower to an upper bound: the least one and how
many there are, at most `2 ^ 32 - 1`. -/
def wholeRange? (min max : Option Float) : Option (Float × UInt32) :=
  let low := Decimal.ceiling (min.getD 0.0)
  let high := Decimal.floor (max.getD 1.0)
  if !low.isFinite || !high.isFinite || high < low || 4294967295.0 ≤ high - low then none
  else some (low, (high - low).toUInt32 + 1)

namespace Machine

/-- The number of a reference. -/
def readNumber (m : Machine) (ref : VariableRef) : Option Float := (m.read ref).bind Value.number?

/-- The text of a reference. -/
def readText (m : Machine) (ref : VariableRef) : Option String := (m.read ref).bind Value.string?

/-- The list of a reference. -/
def readList (m : Machine) (ref : VariableRef) : Option (List Value) :=
  (m.read ref).bind Value.list?

/-- The boolean of a reference. -/
def readBool (m : Machine) (ref : VariableRef) : Option Bool := (m.read ref).bind Value.bool?

/-- The object of a reference. -/
def readObject (m : Machine) (ref : VariableRef) : Option ObjectId :=
  (m.read ref).bind Value.object?

/-- What a method yields. -/
def math (m : Machine) (method : MathMethod) (ref : Option VariableRef) (min max : Option Float)
    (decimals : Option Nat) : Draw (Option Float) :=
  let apply (f : Float → Float) : Draw (Option Float) :=
    pure ((ref.bind m.readNumber).bind fun x => finite? (f x))
  match method with
  | .round => apply (roundPlaces (decimals.getD 0))
  | .floor => apply Decimal.floor
  | .ceil => apply Decimal.ceiling
  | .sqrt => apply Float.sqrt
  | .abs => apply Float.abs
  | .random => do
    let low := min.getD 0.0
    let high := max.getD 1.0
    let x ← drawUnit
    pure (finite? (low + x * (high - low)))
  | .randomInt =>
    match wholeRange? min max with
    | none => pure none
    | some (low, span) => do
      let n ← drawBelow span.toNat
      pure (some (low + n.toUInt32.toFloat))

/-- What is measured of a text: its length, the number it writes, or where
another text first stands in it. -/
def measure (measure : TextMeasure) (search : Option String) (s : String) : Option Float :=
  match measure with
  | .length => some (Float.ofNat s.length)
  | .parse => (Decimal.float? (Text.trim s.toList)).bind finite?
  | .search =>
    match Text.indexOf? (search.getD "") s with
    | some index => some (Float.ofNat index)
    | none => some (-1.0)

end Machine

/-- The number of a described operand. -/
def NumberOperand.compute (m : Machine) : NumberOperand → Draw (Option Float)
  | .constant value => pure (finite? value)
  | .variable ref => pure (m.readNumber ref)
  | .math method ref min max decimals => m.math method ref min max decimals
  | .text measure ref search => pure ((m.readText ref).bind (Machine.measure measure search))
  | .object desc kind .childCount =>
    pure (((m.resolve (some kind) desc).bind m.world.objects.get?).map fun o =>
      Float.ofNat o.children.length)
  | .object desc kind .exists =>
    pure (some (if (m.resolve (some kind) desc).isSome then 1.0 else 0.0))
  | .listLength ref => pure ((m.readList ref).map fun items => Float.ofNat items.length)
  | .parameter key => pure ((m.context.ambient.parameters.get? key).bind Value.number?)
  | .clock .elapsedTime => pure (some m.world.elapsedMs)
  | .clock .frameCount => pure (some (Float.ofNat m.world.frame))

/-- The number of an operand. -/
def NumberInput.compute (m : Machine) : NumberInput → Draw (Option Float)
  | .literal value => pure (finite? value)
  | .operand described => described.compute m

/-- The text of an object. -/
def ObjectText.of (o : GameObject) : ObjectText → Option String
  | .dataId => some o.dataId
  | .key => o.key
  | .slot => o.slot

/-- The text of a described operand. -/
def StringOperand.compute (m : Machine) : StringOperand → Draw (Option String)
  | .constant value => pure (some value)
  | .variable ref => pure (m.readText ref)
  | .template value =>
    let template := Template.parse value
    -- a text without placeholders is not rendered each time
    pure (some (template.static?.getD (template.render m)))
  | .number input decimals => do
    let x ← input.compute m
    pure (x.map fun x => match decimals with
      | some places => Decimal.fixed (min places maxPlaces) x
      | none => numberText x)
  | .object desc kind property =>
    pure (((m.resolve (some kind) desc).bind m.world.objects.get?).bind fun o => property.of o)
  | .join ref separator =>
    pure ((m.readList ref).map fun items =>
      String.intercalate (separator.getD ",") (items.map Value.text))
  | .parameter key => pure ((m.context.ambient.parameters.get? key).map Value.text)
  | .eventName => pure (some m.context.name)

theorem StringOperand.compute_template (m : Machine) (value : String) :
    StringOperand.compute m (.template value) =
      pure (some ((Template.parse value).render m)) := by
  rw [compute]
  cases h : (Template.parse value).static? with
  | none => rw [Option.getD_none]
  | some text => rw [Option.getD_some, Template.render_of_static? h m]

/-- The text of an operand. -/
def StringInput.compute (m : Machine) : StringInput → Draw (Option String)
  | .literal value => pure (some value)
  | .operand described => described.compute m

/-- The boolean of an operand. -/
def BooleanInput.compute (m : Machine) : BooleanInput → Option Bool
  | .literal value => some value
  | .operand (.constant value) => some value
  | .operand (.variable ref) => m.readBool ref

/-- The value of an operand of any type. -/
def ValueOperand.compute (m : Machine) : ValueOperand → Draw (Option Value)
  | .nothing => pure none
  | .boolean value => pure ((value.compute m).map .bool)
  | .number value => do pure ((← value.compute m).map .number)
  | .string value => do pure ((← value.compute m).map .string)
  | .object desc kind => pure ((m.resolve (some kind) desc).map .object)
  | .variable ref => pure (m.read ref)

/-- The values of operands by name, in the order of the names, put over others. -/
def supply (m : Machine) (params : Table String ValueOperand) (base : Attributes) :
    Draw Attributes :=
  params.entries.foldlM
    (fun supplied (key, operand) => do
      match ← operand.compute m with
      | some v => pure (supplied.insert key v)
      | none => pure supplied)
    base

/-- The longest list that a range makes. -/
def maxRange : Nat := 100000

/-- The whole numbers from one to another, up or down, at most `maxRange`. -/
def rangeItems (first last : Float) : List Value :=
  let first := first.round
  let last := last.round
  let step := if first ≤ last then 1.0 else -1.0
  let count := min ((last - first).abs.toUInt64.toNat + 1) maxRange
  (List.range count).map fun offset => .number (first + step * Float.ofNat offset)

/-- The items of a list to go through. -/
def ListSource.items (m : Machine) : ListSource → Draw (List Value)
  | .variable ref => pure ((m.readList ref).getD [])
  | .party => pure (m.world.objects.party.map .object)
  | .children desc kind childKind =>
    pure (match m.resolve (some kind) desc with
      | none => []
      | some id =>
        ((m.world.objects.childrenOf id).filter fun o => childKind.all (o.kind == ·)).map fun o =>
          .object o.id)
  | .range first last => do
    match ← first.compute m, ← last.compute m with
    | some first, some last => pure (rangeItems first last)
    | _, _ => pure []

end Cutscene
