import Cutscene.Event.Library
import Cutscene.Program.Reading
import Cutscene.Program.Step
/-!
# Programs — from blocks to steps

`Block.steps` lays out a block's own commands, and `Block.programs` makes the
programs of all the bodies nested in it, at any depth. A command takes one
step, except that a label takes none and a choice two. A nested body ends
with a step that goes on after its instruction; a loop's body with one that
decides about the next pass; any other with a return to the caller.

Labels belong to a unit: a whole event, or a body that is spawned on its own.
Of several labels of one name in a unit the last counts, wherever it stands.
-/

namespace Cutscene

/-- Where a label stands, and in how many iterations. -/
structure Label where
  place : Place
  depth : Nat
  deriving DecidableEq, Repr, Inhabited

/-- The innermost loop around a body. -/
structure LoopSite where
  /-- Does it go through a list? -/
  each : Bool
  exit : Place
  terminal : Place
  deriving DecidableEq, Repr, Inhabited

/-- Where a body stands: its key, the loop around it, the number of
iterations around it, and the labels of its unit. -/
structure Site where
  key : BodyKey
  loop : Option LoopSite
  depth : Nat
  labels : Table String Label
  deriving Inhabited

/-- The site of a body that the body at this site holds. -/
def Site.child (s : Site) (position : Nat) (slot : Slot) : Site :=
  { s with key := .child s.key position slot }

/-- How many steps a command takes. -/
def Command.width : Command → Nat
  | .label _ => 0
  | .choices _ => 2
  | _ => 1

/-- How many steps the commands of a block take. -/
def Block.width : Block → Nat
  | .nil => 0
  | .cons _ command rest => command.width + rest.width

/-- The site of a loop's body. -/
def Site.looped (s : Site) (position index : Nat) (each : Bool) (body : Block) : Site :=
  let inner := s.child position .body
  { inner with
    loop := some ⟨each, ⟨s.key, index + 1⟩, ⟨inner.key, body.width⟩⟩
    depth := if each then s.depth + 1 else s.depth }

/-! ## Labels -/

mutual

/-- The labels in a block whose first step has an index, in order. -/
def Block.labels (key : BodyKey) (depth index : Nat) : Block → List (String × Label)
  | .nil => []
  | .cons position command rest =>
    command.labels key depth position index ++
      rest.labels key depth (index + command.width)

/-- The labels in a command. -/
def Command.labels (key : BodyKey) (depth position index : Nat) :
    Command → List (String × Label)
  | .label name => [(name, ⟨⟨key, index⟩, depth⟩)]
  | .ifElse branches otherwise =>
    branches.labels key depth position 0 ++ otherwise.labels (.child key position .otherwise) depth
  | .switch _ cases default =>
    cases.labels key depth position 0 ++ default.labels (.child key position .default) depth
  | .choices options => options.labels key depth position 0
  | .loop _ body => body.labels (.child key position .body) depth 0
  | .forEach _ _ body => body.labels (.child key position .body) (depth + 1) 0
  | _ => []

/-- The labels in guarded bodies. -/
def Arms.labels {sort : ArmSort} (key : BodyKey) (depth position index : Nat) :
    Arms sort → List (String × Label)
  | .nil => []
  | .cons _ body rest =>
    body.labels (.child key position (sort.slot index)) depth 0 ++
      rest.labels key depth position (index + 1)

/-- The labels in a body that may be absent. -/
def OptionalBlock.labels (key : BodyKey) (depth : Nat) : OptionalBlock → List (String × Label)
  | .absent => []
  | .present body => body.labels key depth 0

end

/-- The labels of a unit: of one name the last. -/
def Block.unitLabels (key : BodyKey) (body : Block) : Table String Label :=
  .ofList (body.labels key 0 0)

/-- The site of a unit. -/
def Site.ofUnit (key : BodyKey) (body : Block) : Site := ⟨key, none, 0, body.unitLabels key⟩

/-! ## Steps -/

/-- The tester of a branch. -/
def Guard.tester : Guard .branch → Tester
  | .test tester => tester

/-- The candidates of a case. -/
def Guard.candidates : Guard .case → List ValueOperand
  | .values candidates => candidates

/-- The label of a choice. -/
def Guard.text : Guard .choice → Template
  | .label text => text

/-- The guards with the keys of their bodies. -/
def Arms.keyed {sort : ArmSort} (key : BodyKey) (position : Nat) (arms : Arms sort) :
    List (Guard sort × BodyKey) :=
  arms.guards.zipIdx.map fun (guard, index) => (guard, .child key position (sort.slot index))

/-- The key of a body that may be absent. -/
def OptionalBlock.key? (key : BodyKey) : OptionalBlock → Option BodyKey
  | .absent => none
  | .present _ => some key

/-- The step of a jump. Without a label to go to it does nothing. -/
def Site.jump (s : Site) (sort : JumpSort) (label : String) : Step :=
  match s.labels.get? label, sort with
  | none, _ => .idle
  | some target, .plain => .jump target.place (s.depth - target.depth)
  | some target, .saved => .saveJump target.place

/-- The steps of a command. -/
def Command.steps (s : Site) (position : Nat) : Command → List Step
  | .action a => [.action a]
  | .custom id arguments => [.custom id arguments]
  | .ifElse branches otherwise =>
    [.branch ((branches.keyed s.key position).map fun (guard, key) => (guard.tester, key))
      (otherwise.key? (.child s.key position .otherwise))]
  | .switch subject cases default =>
    [.select subject
      ((cases.keyed s.key position).map fun (guard, key) => (guard.candidates, key))
      (default.key? (.child s.key position .default))]
  | .choices options =>
    [.openChoices (options.guards.map Guard.text),
     .enterChoice ((options.keyed s.key position).map (·.2))]
  | .loop tester _ => [.enterLoop tester (.child s.key position .body)]
  | .forEach source ref _ => [.enterEach source ref (.child s.key position .body)]
  | .breakLoop =>
    match s.loop with
    | some around => [.leaveLoop around.each around.exit]
    | none => [.idle]
  | .continueLoop =>
    match s.loop with
    | some around => [.endPass around.terminal]
    | none => [.idle]
  | .label _ => []
  | .jump sort name => [s.jump sort name]
  | .returnJump => [.returnJump]
  | .independent _ => [.spawn (.child s.key position .independent)]
  | .call event params => [.call event params]
  | .callAsync event params => [.callAsync event params]

/-- The steps of a block's own commands. -/
def Block.steps (s : Site) : Block → List Step
  | .nil => []
  | .cons position command rest => command.steps s position ++ rest.steps s

/-- The program of a body, with the step that it ends in. -/
def Block.program (s : Site) (terminal : Step) (body : Block) : Program :=
  ⟨s.key, (body.steps s ++ [terminal]).toArray⟩

/-! ## Programs -/

mutual

/-- The programs of the bodies nested in a block. -/
def Block.programs (s : Site) (index : Nat) : Block → List Program
  | .nil => []
  | .cons position command rest =>
    command.programs s position index ++ rest.programs s (index + command.width)

/-- The programs of the bodies nested in a command. -/
def Command.programs (s : Site) (position index : Nat) : Command → List Program
  | .ifElse branches otherwise =>
    branches.programs s position 0 ⟨s.key, index + 1⟩ ++
      otherwise.programs (s.child position .otherwise) ⟨s.key, index + 1⟩
  | .switch _ cases default =>
    cases.programs s position 0 ⟨s.key, index + 1⟩ ++
      default.programs (s.child position .default) ⟨s.key, index + 1⟩
  | .choices options => options.programs s position 0 ⟨s.key, index + 2⟩
  | .loop tester body =>
    let inner := s.looped position index false body
    body.program inner (.repeatLoop tester ⟨s.key, index + 1⟩) :: body.programs inner 0
  | .forEach _ ref body =>
    let inner := s.looped position index true body
    body.program inner (.nextItem ref ⟨s.key, index + 1⟩) :: body.programs inner 0
  | .independent body =>
    let inner := Site.ofUnit (.child s.key position .independent) body
    body.program inner .leave :: body.programs inner 0
  | _ => []

/-- The programs of guarded bodies and of the bodies nested in them. -/
def Arms.programs {sort : ArmSort} (s : Site) (position index : Nat) (resume : Place) :
    Arms sort → List Program
  | .nil => []
  | .cons _ body rest =>
    let inner := s.child position (sort.slot index)
    body.program inner (.resume resume) :: body.programs inner 0 ++
      rest.programs s position (index + 1) resume

/-- The programs of a body that may be absent and of the bodies nested in it. -/
def OptionalBlock.programs (s : Site) (resume : Place) : OptionalBlock → List Program
  | .absent => []
  | .present body => body.program s (.resume resume) :: body.programs s 0

end

/-- All the programs of a unit, its own first. -/
def Block.unitPrograms (key : BodyKey) (body : Block) : List Program :=
  let s := Site.ofUnit key body
  body.program s .leave :: body.programs s 0

/-! ## Events -/

/-- An event made into programs. -/
structure Compiled where
  name : String
  programs : List Program
  parameters : Attributes
  deriving Inhabited

namespace Compiled

/-- A list of instructions made into programs, without parameters. -/
def ofInstructions (env : Environment) (name : String) (is : List Instruction) : Compiled :=
  ⟨name, (Block.ofInstructions env is).unitPrograms (.root name), .empty⟩

/-- An event of a library made into programs. -/
def ofEvent (env : Environment) (e : EventDef) : Compiled :=
  { ofInstructions env e.name e.commands with parameters := e.parameters }

/-- The program under a key. -/
def program? (c : Compiled) (key : BodyKey) : Option Program := c.programs.find? (·.key == key)

/-- The program whose key has a text. -/
def programOfText? (c : Compiled) (text : String) : Option Program :=
  c.programs.find? (·.key.text == text)

end Compiled

end Cutscene
