import Cutscene.Proofs.Run.Effect
/-!
# Running — what operands depend on

An operand is timeless when it does not look at the clock: at the time passed
or at the number of frames. Reading a variable, resolving an object and
computing a timeless operand come to the same on machines that are alike, and
draw the same numbers on the way.
-/

namespace Cutscene

/-! ## Operands that do not look at the clock -/

/-- Does the operand not look at the clock? -/
def NumberOperand.isTimeless : NumberOperand → Bool
  | .clock _ => false
  | _ => true

/-- A literal number does not look at the clock. -/
def NumberInput.isTimeless : NumberInput → Bool
  | .literal _ => true
  | .operand described => described.isTimeless

/-- A text looks at the clock only where it is written from a number. -/
def StringOperand.isTimeless : StringOperand → Bool
  | .number input _ => input.isTimeless
  | _ => true

/-- A literal text does not look at the clock. -/
def StringInput.isTimeless : StringInput → Bool
  | .literal _ => true
  | .operand described => described.isTimeless

/-- A value looks at the clock as its number or its text does. -/
def ValueOperand.isTimeless : ValueOperand → Bool
  | .number value => value.isTimeless
  | .string value => value.isTimeless
  | _ => true

/-- Does no operand of the tree look at the clock? -/
def NumberTree.isTimeless : NumberTree → Bool
  | .leaf operand => operand.isTimeless
  | .node _ left right => left.isTimeless && right.isTimeless

/-- A list looks at the clock only through the bounds of a range. -/
def ListSource.isTimeless : ListSource → Bool
  | .range first last => first.isTimeless && last.isTimeless
  | _ => true

/-- Operands by name of which none looks at the clock. -/
def areTimeless (params : Table String ValueOperand) : Bool :=
  params.entries.all (·.2.isTimeless)

/-! ## Reading on machines that are alike -/

namespace Machine.Alike

variable {m m' : Machine}

theorem owner? (h : m.Alike m') : m.owner? = m'.owner? := by
  rw [Machine.owner?, Machine.owner?, h.ambient, h.objects]

theorem ownerVars? (h : m.Alike m') : m.ownerVars? = m'.ownerVars? := by
  rw [Machine.ownerVars?, Machine.ownerVars?, h.owner?, h.selfVars]

theorem homeValue? (h : m.Alike m') (key : String) (home : Home) :
    m.homeValue? key home = m'.homeValue? key home := by
  cases home with
  | context => rw [Machine.homeValue?, Machine.homeValue?, h.attributes]
  | world => rw [Machine.homeValue?, Machine.homeValue?, h.globals]
  | owner => rw [Machine.homeValue?, Machine.homeValue?, h.ownerVars?]

theorem live? (h : m.Alike m') (kind : Option ObjectKind) (id : Option ObjectId) :
    m.live? kind id = m'.live? kind id := by
  rw [Machine.live?, Machine.live?, h.objects]

theorem readWith (h : m.Alike m') (find : Option ObjectKind → ObjectDesc → Option ObjectId)
    (ref : VariableRef) : m.readWith find ref = m'.readWith find ref := by
  cases ref with
  | ofContext key => exact h.homeValue? key .context
  | ofWorld key => exact h.homeValue? key .world
  | ofOwner key => exact h.homeValue? key .owner
  | ofObject scope object key => rw [Machine.readWith, Machine.readWith, h.objects]

theorem resolveWithin (h : m.Alike m') (nesting : Nat) :
    m.resolveWithin nesting = m'.resolveWithin nesting := by
  -- a description may name an object by a variable of another, so many times
  induction nesting with
  | zero => rfl
  | succ nesting ih =>
    funext kind desc
    cases desc with
    | nothing => rfl
    | role role => rw [Machine.resolveWithin, Machine.resolveWithin, h.ambient, h.live?]
    | latest => rw [Machine.resolveWithin, Machine.resolveWithin, h.objects]
    | anywhere trait text => rw [Machine.resolveWithin, Machine.resolveWithin, h.objects]
    | among trait text owner => rw [Machine.resolveWithin, Machine.resolveWithin, ih, h.objects]
    | partyMember index => rw [Machine.resolveWithin, Machine.resolveWithin, h.objects, h.live?]
    | «variable» ref => rw [Machine.resolveWithin, Machine.resolveWithin, ih, h.readWith, h.live?]

theorem resolve (h : m.Alike m') (kind : Option ObjectKind) (desc : ObjectDesc) :
    m.resolve kind desc = m'.resolve kind desc := by
  rw [Machine.resolve, Machine.resolve, h.resolveWithin]

theorem read (h : m.Alike m') (ref : VariableRef) : m.read ref = m'.read ref := by
  have hresolve : m.resolve = m'.resolve :=
    funext fun kind => funext fun desc => h.resolve kind desc
  rw [Machine.read, Machine.read, h.readWith, hresolve]

theorem readNumber (h : m.Alike m') (ref : VariableRef) : m.readNumber ref = m'.readNumber ref := by
  rw [Machine.readNumber, Machine.readNumber, h.read]

theorem readText (h : m.Alike m') (ref : VariableRef) : m.readText ref = m'.readText ref := by
  rw [Machine.readText, Machine.readText, h.read]

theorem readList (h : m.Alike m') (ref : VariableRef) : m.readList ref = m'.readList ref := by
  rw [Machine.readList, Machine.readList, h.read]

theorem readBool (h : m.Alike m') (ref : VariableRef) : m.readBool ref = m'.readBool ref := by
  rw [Machine.readBool, Machine.readBool, h.read]

theorem readObject (h : m.Alike m') (ref : VariableRef) : m.readObject ref = m'.readObject ref := by
  rw [Machine.readObject, Machine.readObject, h.read]

theorem render (h : m.Alike m') (t : Template) : t.render m = t.render m' := by
  have htext : m.textOf = m'.textOf := by
    funext piece
    cases piece with
    | literal text => rfl
    | placeholder home key => rw [Machine.textOf, Machine.textOf, h.homeValue?]
  rw [Template.render, Template.render, htext]

/-! ## Computing on machines that are alike -/

theorem math (h : m.Alike m') (method : MathMethod) (ref : Option VariableRef)
    (min max : Option Float) (decimals : Option Nat) :
    m.math method ref min max decimals = m'.math method ref min max decimals := by
  have hread : m.readNumber = m'.readNumber := funext h.readNumber
  cases method <;> simp only [Machine.math, hread]

theorem numberOperand (h : m.Alike m') {operand : NumberOperand} (ht : operand.isTimeless) :
    operand.compute m = operand.compute m' := by
  cases operand with
  | constant value => rfl
  | «variable» ref => rw [NumberOperand.compute, NumberOperand.compute, h.readNumber]
  | math method ref min max decimals =>
    rw [NumberOperand.compute, NumberOperand.compute, h.math]
  | text measure ref search => rw [NumberOperand.compute, NumberOperand.compute, h.readText]
  | object desc kind measure =>
    cases measure with
    | childCount => rw [NumberOperand.compute, NumberOperand.compute, h.resolve, h.objects]
    | «exists» => rw [NumberOperand.compute, NumberOperand.compute, h.resolve]
  | listLength ref => rw [NumberOperand.compute, NumberOperand.compute, h.readList]
  | parameter key => rw [NumberOperand.compute, NumberOperand.compute, h.ambient]
  | clock measure => simp [NumberOperand.isTimeless] at ht

theorem numberInput (h : m.Alike m') {input : NumberInput} (ht : input.isTimeless) :
    input.compute m = input.compute m' := by
  cases input with
  | literal value => rfl
  | operand described => exact h.numberOperand ht

theorem numberTree (h : m.Alike m') : {tree : NumberTree} → tree.isTimeless →
    tree.compute (m := Draw) (NumberInput.compute m) = tree.compute (NumberInput.compute m')
  | .leaf operand, ht => by
    rw [NumberTree.compute, NumberTree.compute, h.numberInput ht]
  | .node operator left right, ht => by
    rw [NumberTree.isTimeless, Bool.and_eq_true] at ht
    rw [NumberTree.compute, NumberTree.compute, h.numberTree ht.1, h.numberTree ht.2]

theorem stringOperand (h : m.Alike m') {operand : StringOperand} (ht : operand.isTimeless) :
    operand.compute m = operand.compute m' := by
  cases operand with
  | constant value => rfl
  | «variable» ref => rw [StringOperand.compute, StringOperand.compute, h.readText]
  | template value =>
    rw [StringOperand.compute_template, StringOperand.compute_template, h.render]
  | number input decimals => rw [StringOperand.compute, StringOperand.compute, h.numberInput ht]
  | object desc kind property =>
    rw [StringOperand.compute, StringOperand.compute, h.resolve, h.objects]
  | join ref separator => rw [StringOperand.compute, StringOperand.compute, h.readList]
  | parameter key => rw [StringOperand.compute, StringOperand.compute, h.ambient]
  | eventName => rw [StringOperand.compute, StringOperand.compute, h.name]

theorem stringInput (h : m.Alike m') {input : StringInput} (ht : input.isTimeless) :
    input.compute m = input.compute m' := by
  cases input with
  | literal value => rfl
  | operand described => exact h.stringOperand ht

theorem booleanInput (h : m.Alike m') (input : BooleanInput) :
    input.compute m = input.compute m' := by
  cases input with
  | literal value => rfl
  | operand described =>
    cases described with
    | constant value => rfl
    | «variable» ref => rw [BooleanInput.compute, BooleanInput.compute, h.readBool]

theorem valueOperand (h : m.Alike m') {operand : ValueOperand} (ht : operand.isTimeless) :
    operand.compute m = operand.compute m' := by
  cases operand with
  | nothing => rfl
  | boolean value => rw [ValueOperand.compute, ValueOperand.compute, h.booleanInput]
  | number value => rw [ValueOperand.compute, ValueOperand.compute, h.numberInput ht]
  | string value => rw [ValueOperand.compute, ValueOperand.compute, h.stringInput ht]
  | object desc kind => rw [ValueOperand.compute, ValueOperand.compute, h.resolve]
  | «variable» ref => rw [ValueOperand.compute, ValueOperand.compute, h.read]

theorem supply (h : m.Alike m') {params : Table String ValueOperand} (ht : areTimeless params)
    (base : Attributes) : supply m params base = supply m' params base := by
  unfold Cutscene.supply
  unfold areTimeless at ht
  generalize params.entries = entries at ht
  induction entries generalizing base with
  | nil => rfl
  | cons entry entries ih =>
    rw [List.all_cons, Bool.and_eq_true] at ht
    have ih := fun base => ih base ht.2
    simp only [List.foldlM_cons, h.valueOperand ht.1, ih]

theorem listSource (h : m.Alike m') {source : ListSource} (ht : source.isTimeless) :
    source.items m = source.items m' := by
  cases source with
  | «variable» ref => rw [ListSource.items, ListSource.items, h.readList]
  | party => rw [ListSource.items, ListSource.items, h.objects]
  | children desc kind childKind =>
    rw [ListSource.items, ListSource.items, h.resolve, h.objects]
  | range first last =>
    rw [ListSource.isTimeless, Bool.and_eq_true] at ht
    rw [ListSource.items, ListSource.items, h.numberInput ht.1, h.numberInput ht.2]

end Machine.Alike

end Cutscene
