import Cutscene.Descriptor.Operand
import Cutscene.Script.Language
/-!
# Descriptors — conditions

A condition compares a variable with an operand, asks whether an object
exists, or runs a script. A tester combines conditions: all of them or any of
them must hold, and a tester without conditions always does.
-/

namespace Cutscene

/-- How two numbers are compared. -/
inductive NumberComparison where
  | equal
  | unequal
  | greater
  | greaterOrEqual
  | less
  | lessOrEqual
  deriving DecidableEq, Repr, Inhabited

/-- The comparisons of numbers by name. -/
def NumberComparison.names : List (String × NumberComparison) :=
  [("equal", .equal), ("unequal", .unequal), ("greater", .greater),
   ("greater-or-equal", .greaterOrEqual), ("less", .less), ("less-or-equal", .lessOrEqual)]

/-- How two texts are compared. -/
inductive TextComparison where
  | equal
  | unequal
  | includes
  | excludes
  | startsWith
  | endsWith
  deriving DecidableEq, Repr, Inhabited

/-- The comparisons of texts by name. -/
def TextComparison.names : List (String × TextComparison) :=
  [("equal", .equal), ("unequal", .unequal), ("include", .includes), ("exclude", .excludes),
   ("starts-with", .startsWith), ("ends-with", .endsWith)]

/-- The two comparisons for equality, by whether they want it. -/
def equalityNames : List (String × Bool) := [("equal", true), ("unequal", false)]

/-- The two comparisons for membership, by whether they want it. -/
def membershipNames : List (String × Bool) := [("include", true), ("exclude", false)]

/-- A condition. A script that cannot be read never holds. -/
inductive Condition where
  | boolean (ref : VariableRef) (wanted : Bool) (value : BooleanInput)
  | number (ref : VariableRef) (comparison : NumberComparison) (value : NumberInput)
  | string (ref : VariableRef) (comparison : TextComparison) (value : StringInput)
  | object (ref : VariableRef) (wanted : Bool) (desc : ObjectDesc) (kind : ObjectKind)
  | list (ref : VariableRef) (wanted : Bool) (value : ValueOperand)
  | exists (desc : ObjectDesc) (kind : ObjectKind)
  | script (code : Option Script)
  deriving Inhabited

/-- The condition of a JSON value, in which scripts are of a language. -/
def Condition.decode? (scripts : Script.Language) (j : Json) : Option Condition := do
  let (tag, content) ← j.variant? "type" []
  match tag with
  | "boolean" =>
    let r ← content.plainRecord? ["variable", "operation", "value"]
    let ref ← r.required "variable" VariableRef.decodeInner?
    let wanted ← r.orElse "operation" (Json.innerOneOf? equalityNames) true
    let value ← r.required "value" BooleanInput.decode?
    pure (.boolean ref wanted value)
  | "number" =>
    let r ← content.plainRecord? ["variable", "operation", "value"]
    let ref ← r.required "variable" VariableRef.decodeInner?
    let comparison ← r.required "operation" (Json.innerOneOf? NumberComparison.names)
    let value ← r.required "value" NumberInput.decode?
    pure (.number ref comparison value)
  | "string" =>
    let r ← content.plainRecord? ["variable", "operation", "value"]
    let ref ← r.required "variable" VariableRef.decodeInner?
    let comparison ← r.required "operation" (Json.innerOneOf? TextComparison.names)
    let value ← r.required "value" StringInput.decode?
    pure (.string ref comparison value)
  | "object" =>
    let r ← content.plainRecord? ["variable", "operation", "object", "kind"]
    let ref ← r.required "variable" VariableRef.decodeInner?
    let wanted ← r.orElse "operation" (Json.innerOneOf? equalityNames) true
    let desc ← r.required "object" ObjectDesc.decodeInner?
    let kind ← r.required "kind" ObjectKind.decodeInner?
    pure (.object ref wanted desc kind)
  | "list" =>
    let r ← content.plainRecord? ["variable", "operation", "value"]
    let ref ← r.required "variable" VariableRef.decodeInner?
    let wanted ← r.required "operation" (Json.innerOneOf? membershipNames)
    let value ← r.required "value" ValueOperand.decodeInner?
    pure (.list ref wanted value)
  | "exists" =>
    let r ← content.plainRecord? ["object", "kind"]
    let desc ← r.required "object" ObjectDesc.decodeInner?
    let kind ← r.required "kind" ObjectKind.decodeInner?
    pure (.exists desc kind)
  | "script" =>
    let r ← content.plainRecord? ["code"]
    let code ← r.required "code" Json.string?
    pure (.script (scripts code))
  | _ => none

/-- How conditions are combined. -/
inductive ConditionMode where
  | all
  | any
  deriving DecidableEq, Repr, Inhabited

/-- The modes by name. -/
def ConditionMode.names : List (String × ConditionMode) := [("all", .all), ("any", .any)]

/-- Conditions and how they are combined. -/
structure Tester where
  mode : ConditionMode
  conditions : List Condition
  deriving Inhabited

/-- The tester of a record's fields. -/
def Tester.ofRecord? (scripts : Script.Language) (r : Json.Record) : Option Tester := do
  let mode ← r.orElse "mode" (Json.oneOf? ConditionMode.names) .all
  let conditions ← r.orElse "conditions" (Json.list? (Condition.decode? scripts)) []
  pure ⟨mode, conditions⟩

end Cutscene
