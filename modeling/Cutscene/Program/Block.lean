import Cutscene.Action.Basic
import Cutscene.Program.Key
/-!
# Programs — blocks

A block is a list of commands, each with the position of its instruction.
Positions count every instruction of the list, also those that are switched
off or make no command. A command acts, or steers: it chooses among bodies,
repeats one, jumps, calls or spawns.

Bodies that are chosen among stand in `Arms`, whose guards are of one sort:
a tester for a branch, candidate values for a case, a label for a choice.
-/

namespace Cutscene

/-- What guards a body. -/
inductive ArmSort where
  | branch
  | case
  | choice
  deriving DecidableEq, Repr

/-- The slot of the body with an index. -/
def ArmSort.slot : ArmSort → Nat → Slot
  | .branch => .branch
  | .case => .case
  | .choice => .choice

/-- The guard of a body. -/
inductive Guard : ArmSort → Type where
  | test (tester : Tester) : Guard .branch
  | values (candidates : List ValueOperand) : Guard .case
  | label (text : Template) : Guard .choice

/-- Where a list to go through comes from. -/
inductive ListSource where
  | variable (ref : VariableRef)
  | party
  | children (desc : ObjectDesc) (kind : ObjectKind) (childKind : Option ObjectKind)
  | range (first last : NumberInput)
  deriving Inhabited

/-- Is a jump's origin kept to return to? -/
inductive JumpSort where
  | plain
  | saved
  deriving DecidableEq, Repr, Inhabited

mutual

/-- Commands in order. -/
inductive Block where
  | nil
  | cons (position : Nat) (command : Command) (rest : Block)

/-- What an instruction amounts to. -/
inductive Command where
  | action (action : Action)
  | custom (id : String) (arguments : Arguments)
  | ifElse (branches : Arms .branch) (otherwise : OptionalBlock)
  | switch (subject : ValueOperand) (cases : Arms .case) (default : OptionalBlock)
  | choices (options : Arms .choice)
  | loop (tester : Tester) (body : Block)
  | forEach (source : ListSource) (ref : VariableRef) (body : Block)
  | breakLoop
  | continueLoop
  | label (name : String)
  | jump (sort : JumpSort) (label : String)
  | returnJump
  | independent (body : Block)
  | call (event : String) (params : Table String ValueOperand)
  | callAsync (event : String) (params : Table String ValueOperand)

/-- Guarded bodies. -/
inductive Arms : ArmSort → Type where
  | nil {sort : ArmSort} : Arms sort
  | cons {sort : ArmSort} (guard : Guard sort) (body : Block) (rest : Arms sort) : Arms sort

/-- A body that may be absent. -/
inductive OptionalBlock where
  | absent
  | present (body : Block)

end

instance : Inhabited Block := ⟨.nil⟩
instance : Inhabited Command := ⟨.breakLoop⟩

/-- The arms of a list of guards and bodies. -/
def Arms.ofList {sort : ArmSort} (arms : List (Guard sort × Block)) : Arms sort :=
  arms.foldr (fun (guard, body) rest => .cons guard body rest) .nil

/-- The guards in order. -/
def Arms.guards {sort : ArmSort} : Arms sort → List (Guard sort)
  | .nil => []
  | .cons guard _ rest => guard :: rest.guards

/-- The block of the commands that there are, each at its position. -/
def Block.ofCommands (commands : List (Option Command)) : Block :=
  commands.zipIdx.foldr
    (fun (command, position) rest =>
      match command with
      | some command => .cons position command rest
      | none => rest)
    .nil

/-- The body, if there is one. -/
def OptionalBlock.ofOption : Option Block → OptionalBlock
  | none => .absent
  | some body => .present body

end Cutscene
