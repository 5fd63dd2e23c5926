import Cutscene.Action.Arithmetic
import Cutscene.Custom.Arguments
import Cutscene.Descriptor.Condition
import Cutscene.Event.Basic
import Cutscene.Template
/-!
# Actions

The instructions that do one thing and then go on, pause or finish; those
that steer belong to `Program.Block`. `Action.ofParams?` reads an action from
the name of its instruction and the parameters. Parameters of another shape
make no action, and neither does an update without an operand.
-/

namespace Cutscene

/-- How a boolean variable is updated. -/
inductive BooleanUpdate where
  | set
  | not
  | and
  | or
  | xor
  deriving DecidableEq, Repr, Inhabited

/-- The updates of booleans by name. -/
def BooleanUpdate.names : List (String × BooleanUpdate) :=
  [("set", .set), ("not", .not), ("and", .and), ("or", .or), ("xor", .xor)]

/-- What the update leaves. -/
def BooleanUpdate.apply : BooleanUpdate → Bool → Bool → Bool
  | .set, _, operand => operand
  | .not, _, operand => !operand
  | .and, current, operand => current && operand
  | .or, current, operand => current || operand
  | .xor, current, operand => current != operand

/-- How a number variable is updated: set, or computed with. -/
inductive NumberUpdate where
  | set
  | combine (operator : Arithmetic)
  deriving DecidableEq, Repr, Inhabited

/-- The updates of numbers by name. -/
def NumberUpdate.names : List (String × NumberUpdate) :=
  ("set", .set) :: Arithmetic.names.map fun (name, operator) => (name, .combine operator)

/-- What the update leaves. -/
def NumberUpdate.apply : NumberUpdate → Float → Float → Float
  | .set, _, operand => operand
  | .combine operator, current, operand => operator.apply current operand

/-- How a text variable is updated. -/
inductive TextUpdate where
  | set
  | append
  deriving DecidableEq, Repr, Inhabited

/-- The updates of texts by name. -/
def TextUpdate.names : List (String × TextUpdate) := [("set", .set), ("append", .append)]

/-- What the update leaves. -/
def TextUpdate.apply : TextUpdate → String → String → String
  | .set, _, operand => operand
  | .append, current, operand => current ++ operand

/-- How a list variable is updated. -/
inductive ListUpdate where
  | set
  | push
  | remove
  | clear
  deriving DecidableEq, Repr, Inhabited

/-- The updates of lists by name. -/
def ListUpdate.names : List (String × ListUpdate) :=
  [("set", .set), ("push", .push), ("remove", .remove), ("clear", .clear)]

/-- What an instruction does. -/
inductive Action where
  | setBoolean (ref : VariableRef) (update : BooleanUpdate) (operand : BooleanInput)
  | setNumber (ref : VariableRef) (update : NumberUpdate) (operand : NumberTree)
  | setText (ref : VariableRef) (update : TextUpdate) (operand : StringInput)
  | setObject (ref : VariableRef) (desc : ObjectDesc) (kind : ObjectKind)
  | setList (ref : VariableRef) (items : List ValueOperand)
  | pushItem (ref : VariableRef) (item : ValueOperand)
  | removeItem (ref : VariableRef) (item : ValueOperand)
  | deleteVariable (ref : VariableRef)
  | showText (text : Template) (wait : Bool)
  | playAudio (channel : Option StringInput) (track : StringInput) (volume : Option NumberInput)
  | stopAudio (track : Option StringInput)
  | playAnimation (target : Option ObjectDesc) (kind : ObjectKind) (animation : StringInput)
      (wait : Bool)
  | moveActor (actor : ObjectDesc) (x y : NumberInput) (wait : Bool)
  | castSkill (caster skill : ObjectDesc) (target : Option ObjectDesc) (wait : Bool)
  | createObject (kind : ObjectKind) (dataId : String) (parent : Option ObjectDesc)
      (key slot : Option String) (ref : Option VariableRef)
  | deleteObject (desc : ObjectDesc) (kind : ObjectKind)
  | addState (actor : ObjectDesc) (state : String)
  | removeState (actor : ObjectDesc) (state : String)
  | log (message : Template)
  | script (code : Script)
  | wait (duration : NumberInput)
  | pauseEvent (handle : Option VariableRef)
  | continueEvent (handle : VariableRef)
  | stopEvent
  deriving Inhabited

namespace Action

/-- The record of an instruction's parameters; without any, it is empty. -/
def params? (names : List String) : Json → Option Json.Record
  | .null => some ⟨true, []⟩
  | j => j.plainRecord? names

/-- Reads the update of a boolean. -/
def setBoolean? (params : Json) : Option Action := do
  let r ← params? ["variable", "operation", "operand"] params
  let ref ← r.required "variable" VariableRef.decode?
  let update ← r.orElse "operation" (Json.oneOf? BooleanUpdate.names) .set
  match ← r.nullable "operand" BooleanInput.decode?, update with
  | some operand, update => pure (.setBoolean ref update operand)
  | none, .not => pure (.setBoolean ref .not (.operand (.variable ref)))
  | none, _ => none

/-- Reads the update of a number; a row of terms goes before an operand. -/
def setNumber? (params : Json) : Option Action := do
  let r ← params? ["variable", "operation", "operand", "operands"] params
  let ref ← r.required "variable" VariableRef.decode?
  let update ← r.orElse "operation" (Json.oneOf? NumberUpdate.names) .set
  let operand ← r.nullable "operand" NumberInput.decode?
  let terms ← r.orElse "operands" (Json.list? Term.decode?) []
  let tree ← (NumberTree.ofTerms? terms).or (operand.map .leaf)
  pure (.setNumber ref update tree)

/-- Reads the update of a text. -/
def setText? (params : Json) : Option Action := do
  let r ← params? ["variable", "operation", "operand"] params
  let ref ← r.required "variable" VariableRef.decode?
  let update ← r.orElse "operation" (Json.oneOf? TextUpdate.names) .set
  let operand ← r.required "operand" StringInput.decode?
  pure (.setText ref update operand)

/-- Reads the update of an object handle. -/
def setObject? (params : Json) : Option Action := do
  let r ← params? ["variable", "object", "kind"] params
  let ref ← r.required "variable" VariableRef.decode?
  let desc ← r.required "object" ObjectDesc.decode?
  let kind ← r.required "kind" ObjectKind.decode?
  pure (.setObject ref desc kind)

/-- Reads the update of a list; one item may stand for itself or as the first
of several. -/
def setList? (params : Json) : Option Action := do
  let r ← params? ["variable", "operation", "values", "value"] params
  let ref ← r.required "variable" VariableRef.decode?
  let update ← r.orElse "operation" (Json.oneOf? ListUpdate.names) .set
  let items ← r.orElse "values" (Json.list? ValueOperand.decode?) []
  let item ← r.nullable "value" ValueOperand.decode?
  match update with
  | .set => pure (.setList ref items)
  | .push => (item.or items.head?).map (.pushItem ref)
  | .remove => (item.or items.head?).map (.removeItem ref)
  | .clear => pure (.setList ref [])

/-- Reads the deletion of a variable. -/
def deleteVariable? (params : Json) : Option Action := do
  let r ← params? ["variable"] params
  let ref ← r.required "variable" VariableRef.decode?
  pure (.deleteVariable ref)

/-- Reads a text box, which waits unless told not to. -/
def showText? (params : Json) : Option Action := do
  let r ← params? ["text", "wait"] params
  let text ← r.required "text" Json.string?
  let wait ← r.orElse "wait" Json.bool? true
  pure (.showText (Template.parse text) wait)

/-- Reads a sound. -/
def playAudio? (params : Json) : Option Action := do
  let r ← params? ["channel", "track", "volume"] params
  let channel ← r.nullable "channel" StringInput.decode?
  let track ← r.required "track" StringInput.decode?
  let volume ← r.nullable "volume" NumberInput.decode?
  pure (.playAudio channel track volume)

/-- Reads the end of a sound. -/
def stopAudio? (params : Json) : Option Action := do
  let r ← params? ["track"] params
  let track ← r.nullable "track" StringInput.decode?
  pure (.stopAudio track)

/-- Reads an animation. -/
def playAnimation? (params : Json) : Option Action := do
  let r ← params? ["target", "kind", "animation", "wait"] params
  let target ← r.nullable "target" ObjectDesc.decode?
  let kind ← r.orElse "kind" ObjectKind.decode? .actor
  let animation ← r.required "animation" StringInput.decode?
  let wait ← r.orElse "wait" Json.bool? false
  pure (.playAnimation target kind animation wait)

/-- Reads a movement. -/
def moveActor? (params : Json) : Option Action := do
  let r ← params? ["actor", "x", "y", "wait"] params
  let actor ← r.required "actor" ObjectDesc.decode?
  let x ← r.required "x" NumberInput.decode?
  let y ← r.required "y" NumberInput.decode?
  let wait ← r.orElse "wait" Json.bool? false
  pure (.moveActor actor x y wait)

/-- Reads the use of a skill. -/
def castSkill? (params : Json) : Option Action := do
  let r ← params? ["caster", "skill", "target", "wait"] params
  let caster ← r.required "caster" ObjectDesc.decode?
  let skill ← r.required "skill" ObjectDesc.decode?
  let target ← r.nullable "target" ObjectDesc.decode?
  let wait ← r.orElse "wait" Json.bool? false
  pure (.castSkill caster skill target wait)

/-- Reads the creation of an object. -/
def createObject? (params : Json) : Option Action := do
  let r ← params? ["kind", "dataId", "parent", "key", "slot", "variable"] params
  let kind ← r.required "kind" ObjectKind.decode?
  let dataId ← r.required "dataId" Json.string?
  let parent ← r.nullable "parent" ObjectDesc.decode?
  let key ← r.nullable "key" Json.string?
  let slot ← r.nullable "slot" Json.string?
  let ref ← r.nullable "variable" VariableRef.decode?
  pure (.createObject kind dataId parent key slot ref)

/-- Reads the deletion of an object. -/
def deleteObject? (params : Json) : Option Action := do
  let r ← params? ["object", "kind"] params
  let desc ← r.required "object" ObjectDesc.decode?
  let kind ← r.required "kind" ObjectKind.decode?
  pure (.deleteObject desc kind)

/-- Reads what is done with a state of an actor. -/
def state? (make : ObjectDesc → String → Action) (params : Json) : Option Action := do
  let r ← params? ["actor", "state"] params
  let actor ← r.required "actor" ObjectDesc.decode?
  let state ← r.required "state" Json.string?
  pure (make actor state)

/-- Reads a message. -/
def log? (params : Json) : Option Action := do
  let r ← params? ["message"] params
  let message ← r.required "message" Json.string?
  pure (.log (Template.parse message))

/-- Reads a script of a language. -/
def script? (scripts : Script.Language) (params : Json) : Option Action := do
  let r ← params? ["code"] params
  let code ← r.required "code" Json.string?
  let code ← scripts code
  pure (.script code)

/-- Reads a wait. -/
def wait? (params : Json) : Option Action := do
  let r ← params? ["duration"] params
  let duration ← r.required "duration" NumberInput.decode?
  pure (.wait duration)

/-- Reads a pause. -/
def pauseEvent? (params : Json) : Option Action := do
  let r ← params? ["variable"] params
  let handle ← r.nullable "variable" VariableRef.decode?
  pure (.pauseEvent handle)

/-- Reads a request to resume. -/
def continueEvent? (params : Json) : Option Action := do
  let r ← params? ["variable"] params
  let handle ← r.required "variable" VariableRef.decode?
  pure (.continueEvent handle)

/-- The actions by the names of their instructions, each with what reads its
parameters. Scripts are of a language. -/
def readers (scripts : Script.Language) : List (String × (Json → Option Action)) :=
  [("setBoolean", setBoolean?), ("setNumber", setNumber?), ("setString", setText?),
   ("setObject", setObject?), ("setList", setList?), ("deleteVariable", deleteVariable?),
   ("showText", showText?), ("playAudio", playAudio?), ("stopAudio", stopAudio?),
   ("playAnimation", playAnimation?), ("moveActor", moveActor?), ("castSkill", castSkill?),
   ("createObject", createObject?), ("deleteObject", deleteObject?),
   ("addState", state? .addState), ("removeState", state? .removeState), ("log", log?),
   ("script", script? scripts), ("wait", wait?), ("pauseEvent", pauseEvent?),
   ("continueEvent", continueEvent?), ("stopEvent", fun _ => some .stopEvent)]

end Action

end Cutscene
