import Cutscene.Descriptor.Operand
/-!
# Events — definitions and circumstances

An event is a named list of instructions with defaults for its parameters.
`Ambient` is what a running event has from whatever started it, and a
`Boundary` says why one is paused.
-/

namespace Cutscene

/-- An instruction: what it is, and its raw parameters. -/
structure Instruction where
  id : String
  params : Json
  deriving Inhabited

/-- An instruction whose name starts with `!` is switched off. -/
def Instruction.isDisabled (i : Instruction) : Bool := i.id.toList.head? == some '!'

/-- An event. -/
structure EventDef where
  name : String
  commands : List Instruction
  parameters : Attributes
  deriving Inhabited

/-- The identities and parameters a running event has from its starter. -/
structure Ambient where
  trigger : Option ObjectId
  caster : Option ObjectId
  target : Option ObjectId
  owner : Option ObjectId
  parameters : Attributes
  deriving Inhabited

/-- No identities and no parameters. -/
def Ambient.none : Ambient := ⟨.none, .none, .none, .none, .empty⟩

/-- The identity in a role. -/
def Ambient.inRole (a : Ambient) : Role → Option ObjectId
  | .trigger => a.trigger
  | .caster => a.caster
  | .target => a.target
  | .owner => a.owner

/-- Why a running event is paused: a text box is open, a choice is open, or it
waits to be resumed. -/
inductive Boundary where
  | text (shown : String)
  | choice (options : List String)
  | signal
  deriving DecidableEq, Repr, Inhabited

/-! ## As JSON -/

/-- The instruction as JSON. -/
def Instruction.encode (i : Instruction) : Json :=
  .object [("id", .string i.id), ("params", i.params)]

/-- The instruction of a JSON value; parameters that are absent are `null`. -/
def Instruction.decode? (j : Json) : Option Instruction := do
  let r ← j.plainRecord? ["id", "params"]
  let id ← r.required "id" Json.string?
  let params ← r.orElse "params" Json.raw? .null
  pure ⟨id, params⟩

/-- The instructions of a JSON array. -/
def Instruction.decodeList? : Json → Option (List Instruction) := Json.list? Instruction.decode?

/-- The event as JSON. -/
def EventDef.encode (e : EventDef) : Json :=
  .object
    [("name", .string e.name), ("commands", .ofList Instruction.encode e.commands),
     ("parameters", e.parameters.encode)]

/-- The event of a JSON value. -/
def EventDef.decode? (j : Json) : Option EventDef := do
  let r ← j.plainRecord? ["name", "commands", "parameters"]
  let name ← r.required "name" Json.string?
  let commands ← r.orElse "commands" Instruction.decodeList? []
  let parameters ← r.orElse "parameters" Attributes.decode? .empty
  pure ⟨name, commands, parameters⟩

/-- The circumstances as JSON. -/
def Ambient.encode (a : Ambient) : Json :=
  .object
    [("trigger", .ofOption ObjectId.encode a.trigger),
     ("caster", .ofOption ObjectId.encode a.caster),
     ("target", .ofOption ObjectId.encode a.target),
     ("owner", .ofOption ObjectId.encode a.owner),
     ("parameters", a.parameters.encode)]

/-- The circumstances of a JSON value. -/
def Ambient.decode? (j : Json) : Option Ambient := do
  let r ← j.plainRecord? ["trigger", "caster", "target", "owner", "parameters"]
  let trigger ← r.nullable "trigger" ObjectId.decode?
  let caster ← r.nullable "caster" ObjectId.decode?
  let target ← r.nullable "target" ObjectId.decode?
  let owner ← r.nullable "owner" ObjectId.decode?
  let parameters ← r.orElse "parameters" Attributes.decode? .empty
  pure ⟨trigger, caster, target, owner, parameters⟩

/-- The boundary as JSON. -/
def Boundary.encode : Boundary → Json
  | .text shown => .tagged "kind" "text" [("text", .string shown)]
  | .choice options => .tagged "kind" "choice" [("options", .ofList .string options)]
  | .signal => .tagged "kind" "signal" []

/-- The boundary of a JSON value. -/
def Boundary.decode? (j : Json) : Option Boundary := do
  let (tag, content) ← j.variant? "kind" []
  match tag with
  | "text" =>
    let r ← content.plainRecord? ["text"]
    let shown ← r.required "text" Json.string?
    pure (.text shown)
  | "choice" =>
    let r ← content.plainRecord? ["options"]
    let options ← r.required "options" (Json.list? Json.string?)
    pure (.choice options)
  | "signal" => if content.isBare then pure .signal else none
  | _ => none

end Cutscene
