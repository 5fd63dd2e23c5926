import Cutscene.Run.Operand
import Cutscene.Script.Language
/-!
# Running — scripts and conditions

A script sees the context's variables whose names it can write, and all the
world's variables as the map `globals`. What it leaves in them is written
back, also when it fails, as far as it is a value. Conditions may run scripts,
so testing one may change the machine.
-/

namespace Cutscene

/-- A computation on a machine. -/
abbrev Act (α : Type) := StateM Machine α

/-- Computes an operand, keeping nothing of it but its draws. -/
def Act.draw {α : Type} (operand : Machine → Draw α) : Act α := fun m =>
  let (a, random) := operand m m.world.random
  (a, { m with world.random := random })

/-- Looks at the machine. -/
def Act.look {α : Type} (f : Machine → α) : Act α := fun m => (f m, m)

/-- Changes the machine. -/
def Act.change (f : Machine → Machine) : Act Unit := fun m => ((), f m)

/-! ## Scripts -/

namespace Script

/-- The name under which a script finds the world's variables. -/
def globalsName : String := "globals"

/-- Can a script write the name? -/
def isName (name : String) : Bool :=
  match name.toList with
  | [] => false
  | c :: cs => (c.isAlpha || c = '_') && cs.all fun c => c.isAlphanum || c = '_'

/-- The context's variables that a script sees. -/
def visible (a : Attributes) : List (String × Value) :=
  a.entries.filter fun (name, _) => isName name && name != globalsName

/-- The variables in scope when a script starts, the last bound first. -/
def scopeOf (m : Machine) : List (String × Data) :=
  let locals := (visible m.context.attributes).map fun (name, v) => (name, Data.ofValue v)
  let globals := m.world.globals.entries.map fun (name, v) => (name, Data.ofValue v)
  (globalsName, .map globals) :: locals.reverse

/-- The values among data by name, put over others. -/
def keep (base : Attributes) (data : List (String × Data)) : Attributes :=
  data.foldl
    (fun kept (name, d) =>
      match d.toValue? with
      | some v => kept.insert name v
      | none => kept)
    base

/-- The context's variables after a script. -/
def localsAfter (a : Attributes) (scope : List (String × Data)) : Attributes :=
  keep a ((visible a).filterMap fun (name, _) => (scope.lookup name).map fun d => (name, d))

/-- The world's variables after a script. -/
def globalsAfter (a : Attributes) (scope : List (String × Data)) : Attributes :=
  match scope.lookup globalsName with
  | some (.map fields) => keep a fields
  | _ => a

end Script

/-- Runs a script on a machine: its value, unless it fails. -/
def Machine.runScript (code : Script) : Act (Option Script.Data) := fun m =>
  let (result, s) := code.run ⟨Script.scopeOf m, m.world.random⟩
  (result,
    { m with
      context.attributes := Script.localsAfter m.context.attributes s.scope
      world.globals := Script.globalsAfter m.world.globals s.scope
      world.random := s.random })

/-! ## Conditions -/

/-- Does the comparison hold? -/
def NumberComparison.holds : NumberComparison → Float → Float → Bool
  | .equal, a, b => a == b
  | .unequal, a, b => a != b
  | .greater, a, b => b < a
  | .greaterOrEqual, a, b => b ≤ a
  | .less, a, b => a < b
  | .lessOrEqual, a, b => a ≤ b

/-- Does the comparison hold? -/
def TextComparison.holds : TextComparison → String → String → Bool
  | .equal, a, b => a == b
  | .unequal, a, b => a != b
  | .includes, a, b => Text.contains a b
  | .excludes, a, b => !Text.contains a b
  | .startsWith, a, b => Text.startsWith a b
  | .endsWith, a, b => Text.endsWith a b

/-- Are both there and equal? -/
def bothEqual {α : Type} [BEq α] : Option α → Option α → Bool
  | some a, some b => a == b
  | _, _ => false

/-- Does the condition hold? A comparison of numbers or texts does not where
one is missing; two booleans or objects are equal only if both are there. -/
def Condition.holds : Condition → Act Bool
  | .boolean ref wanted value =>
    Act.look fun m => wanted == bothEqual (m.readBool ref) (value.compute m)
  | .number ref comparison value => do
    let a ← Act.look (·.readNumber ref)
    let b ← Act.draw value.compute
    pure (match a, b with
      | some a, some b => comparison.holds a b
      | _, _ => false)
  | .string ref comparison value => do
    let a ← Act.look (·.readText ref)
    let b ← Act.draw value.compute
    pure (match a, b with
      | some a, some b => comparison.holds a b
      | _, _ => false)
  | .object ref wanted desc kind =>
    Act.look fun m => wanted == bothEqual (m.readObject ref) (m.resolve (some kind) desc)
  | .list ref wanted value => do
    match ← Act.look (·.readList ref) with
    | none => pure false
    | some items => do
      let v ← Act.draw value.compute
      pure (wanted == v.any items.contains)
  | .exists desc kind => Act.look fun m => (m.resolve (some kind) desc).isSome
  | .script none => pure false
  | .script (some code) => do
    match ← Machine.runScript code with
    | some (.bool b) => pure b
    | _ => pure false

/-- Do all conditions hold? Those after one that does not are not tested. -/
def allHold : List Condition → Act Bool
  | [] => pure true
  | c :: rest => do if ← c.holds then allHold rest else pure false

/-- Does any condition hold? Those after one that does are not tested. -/
def anyHolds : List Condition → Act Bool
  | [] => pure false
  | c :: rest => do if ← c.holds then pure true else anyHolds rest

/-- Does the tester hold? Without conditions it always does. -/
def Tester.holds (t : Tester) : Act Bool :=
  match t.conditions, t.mode with
  | [], _ => pure true
  | cs, .all => allHold cs
  | cs, .any => anyHolds cs

end Cutscene
