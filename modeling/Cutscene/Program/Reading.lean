import Cutscene.Event.Library
import Cutscene.Program.Block
/-!
# Programs — blocks from instructions

`Block.ofInstructions` reads a list of instructions. An instruction makes no
command when it is switched off, when its parameters have another shape than
its name wants, when it leaves or repeats a loop outside of any, when it calls
an event that the library does not have, or when it offers no choices.

Bodies are instructions nested in parameters, and each of their parameters is
smaller than the parameters it is nested in (`Nested`), by which the reading
ends.
-/

namespace Cutscene

namespace Program

/-- A part of a value. -/
abbrev Part (whole : Json) := { j : Json // sizeOf j < sizeOf whole }

/-- The fields of a value. -/
structure Fields (whole : Json) where
  record : Json.Record
  small : ∀ {name : String} {j : Json}, record.get? name = some j → sizeOf j < sizeOf whole

/-- A list of instructions nested in a value. -/
abbrev Nested (whole : Json) :=
  { is : List Instruction // ∀ i ∈ is, sizeOf i.params < sizeOf whole }

/-- The parameters of an instruction are smaller than what it is read from. -/
theorem sizeOf_params_lt {j : Json} {i : Instruction} (h : Instruction.decode? j = some i) :
    sizeOf i.params < sizeOf j := by
  simp only [Instruction.decode?, bind, Option.bind_eq_some_iff, pure, Option.some.injEq] at h
  obtain ⟨r, hr, id, hid, params, hp, rfl⟩ := h
  simp only [Json.Record.orElse] at hp
  split at hp
  · obtain rfl := Option.some.inj hp
    simp only [Json.Record.required, Option.bind_eq_some_iff] at hid
    obtain ⟨v, hv, _⟩ := hid
    have hlt := Json.sizeOf_get?_lt hr hv
    have hpos : 1 ≤ sizeOf v := by cases v <;> simp
    simp only [Json.null.sizeOf_spec]
    omega
  · rename_i v hv
    simp only [Json.raw?, Json.whole?] at hp
    split at hp
    · obtain rfl := Option.some.inj hp
      exact Json.sizeOf_get?_lt hr hv
    · simp at hp

/-- The instructions of a JSON array. -/
def Nested.ofJson? (j : Json) : Option (Nested j) :=
  match h : Instruction.decodeList? j with
  | none => none
  | some is => some ⟨is, fun i hi => by
      cases j with
      | array items =>
        obtain ⟨item, hitem, hdec⟩ := Json.mem_of_mapM h hi
        exact Nat.lt_trans (sizeOf_params_lt hdec) (Json.sizeOf_lt_of_mem_items hitem)
      | _ => simp [Instruction.decodeList?, Json.list?] at h⟩

/-- Nested in a part, nested in the whole. -/
def Nested.widen {whole : Json} (part : Part whole) (n : Nested part.1) : Nested whole :=
  ⟨n.1, fun i hi => Nat.lt_trans (n.2 i hi) part.2⟩

/-- The fields of a JSON value. -/
def Fields.ofJson? (shape : List Json.Field) (j : Json) : Option (Fields j) :=
  match h : j.record? shape with
  | none => none
  | some record => some ⟨record, fun hv => Json.sizeOf_get?_lt h hv⟩

/-- The fields of an instruction's parameters; without any, there are none. -/
def Fields.ofParams? (shape : List Json.Field) (params : Json) :
    Option (Fields params) :=
  match params with
  | .null => some ⟨⟨true, []⟩, fun hv => by simp [Json.Record.get?] at hv⟩
  | params => Fields.ofJson? shape params

namespace Fields

variable {whole : Json}

/-- The value of a field, smaller than the whole. -/
def part? (f : Fields whole) (name : String) : Option (Part whole) :=
  match h : f.record.get? name with
  | none => none
  | some j => some ⟨j, f.small h⟩

/-- The body under `commands`, empty unless it is given. -/
def body? (f : Fields whole) : Option (Nested whole) :=
  match f.part? "commands" with
  | none => some ⟨[], by simp⟩
  | some part => (Nested.ofJson? part.1).map (Nested.widen part)

/-- The body under `default`, which may be absent. -/
def otherwise? (f : Fields whole) : Option (Option (Nested whole)) :=
  match f.part? "default" with
  | none => some none
  | some ⟨.null, _⟩ => some none
  | some part => (Nested.ofJson? part.1).map fun n => some (n.widen part)

/-- The items of a field that holds an array, each smaller than the whole. -/
def items? (f : Fields whole) (name : String) : Option (List (Part whole)) :=
  match f.part? name with
  | some ⟨.array items, hj⟩ =>
    some (items.attach.map fun ⟨item, h⟩ =>
      ⟨item, Nat.lt_trans (Json.sizeOf_lt_of_mem_items h) hj⟩)
  | _ => none

/-- Guarded bodies: the items of a field, each with a guard and commands. -/
def arms? {sort : ArmSort} (f : Fields whole) (name : String) (shape : List String)
    (guard? : Json.Record → Option (Guard sort)) : Option (List (Guard sort × Nested whole)) := do
  (← f.items? name).mapM fun part => do
    let g ← Fields.ofJson? (shape.map .plain) part.1
    let guard ← guard? g.record
    let body ← g.body?
    pure (guard, body.widen part)

/-- Guarded bodies that may be absent as a whole. -/
def armsOrNone? {sort : ArmSort} (f : Fields whole) (name : String) (shape : List String)
    (guard? : Json.Record → Option (Guard sort)) : Option (List (Guard sort × Nested whole)) :=
  if (f.record.get? name).isSome then f.arms? name shape guard? else some []

end Fields

/-- The branches of a conditional and its other body. -/
def branches? (scripts : Script.Language) (params : Json) :
    Option (List (Guard .branch × Nested params) × Option (Nested params)) := do
  let f ← Fields.ofParams? [.plain "branches", ⟨"default", ["else"]⟩] params
  let arms ← f.armsOrNone? "branches" ["mode", "conditions", "commands"] fun r =>
    (Tester.ofRecord? scripts r).map .test
  let otherwise ← f.otherwise?
  pure (arms, otherwise)

/-- The subject of a switch, its cases and its other body. -/
def cases? (params : Json) :
    Option (ValueOperand × List (Guard .case × Nested params) ×
      Option (Nested params)) := do
  let f ← Fields.ofParams? [.plain "value", .plain "cases", .plain "default"] params
  let subject ← f.record.required "value" ValueOperand.decode?
  let arms ← f.armsOrNone? "cases" ["values", "commands"] fun r =>
    (r.orElse "values" (Json.list? ValueOperand.decode?) []).map .values
  let otherwise ← f.otherwise?
  pure (subject, arms, otherwise)

/-- The options of a choice, of which there must be some. -/
def options? (params : Json) : Option (List (Guard .choice × Nested params)) := do
  let f ← Fields.ofParams? [.plain "options"] params
  let arms ← f.arms? "options" ["label", "commands"] fun r =>
    (r.required "label" Json.string?).map fun text => .label (Template.parse text)
  if arms.isEmpty then none else pure arms

/-- The tester of a loop and its body. -/
def loop? (scripts : Script.Language) (params : Json) : Option (Tester × Nested params) := do
  let f ← Fields.ofParams? [.plain "mode", .plain "conditions", .plain "commands"] params
  let tester ← Tester.ofRecord? scripts f.record
  let body ← f.body?
  pure (tester, body)

/-- The source of a list. -/
def source? (j : Json) : Option ListSource := do
  let (tag, content) ← j.variant? "type" []
  match tag with
  | "variable" =>
    let r ← content.plainRecord? ["variable"]
    let ref ← r.required "variable" VariableRef.decodeInner?
    pure (.variable ref)
  | "party" => if content.isBare then pure .party else none
  | "children" =>
    let r ← content.plainRecord? ["object", "kind", "childKind"]
    let desc ← r.required "object" ObjectDesc.decodeInner?
    let kind ← r.required "kind" ObjectKind.decodeInner?
    let childKind ← r.nullable "childKind" ObjectKind.decodeInner?
    pure (.children desc kind childKind)
  | "range" =>
    let r ← content.plainRecord? ["from", "to"]
    let first ← r.required "from" NumberInput.decode?
    let last ← r.required "to" NumberInput.decode?
    pure (.range first last)
  | _ => none

/-- The source of an iteration, its variable and its body. -/
def forEach? (params : Json) : Option (ListSource × VariableRef × Nested params) := do
  let f ← Fields.ofParams? [.plain "list", .plain "variable", .plain "commands"] params
  let source ← f.record.required "list" source?
  let ref ← f.record.required "variable" VariableRef.decode?
  let body ← f.body?
  pure (source, ref, body)

/-- A body without anything else. -/
def body? (params : Json) : Option (Nested params) := do
  let f ← Fields.ofParams? [.plain "commands"] params
  f.body?

/-- The name of a label. -/
def labelName? (params : Json) : Option String := do
  let r ← Action.params? ["name"] params
  r.required "name" Json.string?

/-- A jump: to a label, to a label with the origin kept, or back. -/
def jump? (params : Json) : Option Command := do
  let r ← Action.params? ["operation", "label"] params
  let label ← r.orElse "label" Json.string? ""
  r.orElse "operation"
    (Json.oneOf?
      [("jump", .jump .plain label), ("save-jump", .jump .saved label), ("return", .returnJump)])
    (.jump .plain label)

/-- A call of an event that there is. -/
def call? (isEvent : String → Bool) (params : Json) : Option Command := do
  let r ← Action.params? ["event", "mode", "parameters"] params
  let event ← r.required "event" Json.string?
  let make ← r.orElse "mode" (Json.oneOf? [("sync", Command.call), ("async", .callAsync)]) .call
  let params ← r.orElse "parameters" (Json.table? ValueOperand.decode?) .empty
  if isEvent event then pure (make event params) else none

/-- A custom instruction; its arguments are a text by itself or under
`parameters`. -/
def custom? (id : String) (params : Json) : Option Command := do
  let text ← match params with
    | .string text => some text
    | params => do
      let r ← Action.params? ["parameters"] params
      r.orElse "parameters" Json.string? ""
  let arguments ← (Arguments.ofText text).toOption
  pure (.custom id arguments)

/-- Instructions that are there for the author alone. -/
def isComment (id : String) : Bool := id == "comment"

end Program

open Program in
/-- The command of an instruction, in a loop or outside of any. -/
def Command.ofInstruction? (env : Environment) (inLoop : Bool) (i : Instruction) :
    Option Command :=
  if i.isDisabled || isComment i.id then none
  else
    let block (inLoop : Bool) (is : Nested i.params) : Block :=
      .ofCommands (is.1.attach.map fun ⟨j, _h⟩ => Command.ofInstruction? env inLoop j)
    let arms {sort : ArmSort} (list : List (Guard sort × Nested i.params)) : Arms sort :=
      .ofList (list.map fun (guard, is) => (guard, block inLoop is))
    let optional (is : Option (Nested i.params)) : OptionalBlock :=
      .ofOption (is.map (block inLoop))
    match i.id with
    | "if" => (branches? env.scripts i.params).map fun (list, otherwise) =>
      .ifElse (arms list) (optional otherwise)
    | "switch" => (cases? i.params).map fun (subject, list, otherwise) =>
      .switch subject (arms list) (optional otherwise)
    | "showChoices" => (options? i.params).map fun list => .choices (arms list)
    | "loop" => (loop? env.scripts i.params).map fun (tester, is) => .loop tester (block true is)
    | "forEach" => (forEach? i.params).map fun (source, ref, is) =>
      .forEach source ref (block true is)
    | "independent" => (body? i.params).map fun is => .independent (block false is)
    | "break" => if inLoop then some .breakLoop else none
    | "continue" => if inLoop then some .continueLoop else none
    | "label" => (labelName? i.params).map .label
    | "jumpTo" => jump? i.params
    | "callEvent" => call? env.isEvent i.params
    | id =>
      match (Action.readers env.scripts).lookup id with
      | some read => (read i.params).map .action
      | none => custom? id i.params
termination_by sizeOf i.params
decreasing_by exact is.2 j _h

/-- The block of a list of instructions that are in no loop. -/
def Block.ofInstructions (env : Environment) (is : List Instruction) : Block :=
  .ofCommands (is.map (Command.ofInstruction? env false))

end Cutscene
