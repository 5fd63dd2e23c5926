import Cutscene.Proofs.Program.Read
/-!
# Walking — the tree of an event

The tree of an event has every command that its instructions make, also the
breaks and continues that stand outside of loops (`EventDef.tree`). The block
that programs are made from has none of those, and nothing else is missing in
it (`EventDef.pruned_tree`).
-/

namespace Cutscene

/-- Does the command leave or repeat the loop around it? -/
def Command.isLeap : Command → Bool
  | .breakLoop | .continueLoop => true
  | _ => false

/-! ## Blocks without stray leaps -/

mutual

/-- The block, in a loop or outside of any, without the leaps that have no
loop around them. -/
def Block.pruned (inLoop : Bool) : Block → Block
  | .nil => .nil
  | .cons position command rest =>
    if command.isLeap && !inLoop then rest.pruned inLoop
    else .cons position (command.pruned inLoop) (rest.pruned inLoop)

/-- The command without such leaps in its bodies. A loop's body has a loop
around it; a body of its own was read as one. -/
def Command.pruned (inLoop : Bool) : Command → Command
  | .ifElse branches otherwise => .ifElse (branches.pruned inLoop) (otherwise.pruned inLoop)
  | .switch subject cases default =>
    .switch subject (cases.pruned inLoop) (default.pruned inLoop)
  | .choices options => .choices (options.pruned inLoop)
  | command => command

/-- The guarded bodies without such leaps. -/
def Arms.pruned {sort : ArmSort} (inLoop : Bool) : Arms sort → Arms sort
  | .nil => .nil
  | .cons guard body rest => .cons guard (body.pruned inLoop) (rest.pruned inLoop)

/-- A body that may be absent, without such leaps. -/
def OptionalBlock.pruned (inLoop : Bool) : OptionalBlock → OptionalBlock
  | .absent => .absent
  | .present body => .present (body.pruned inLoop)

end

mutual

/-- In a loop there is nothing to prune. -/
theorem Block.pruned_true : (b : Block) → b.pruned true = b
  | .nil => rfl
  | .cons position command rest => by
    rw [Block.pruned, Bool.not_true, Bool.and_false, if_neg Bool.false_ne_true,
      Command.pruned_true command, Block.pruned_true rest]

theorem Command.pruned_true : (c : Command) → c.pruned true = c
  | .ifElse branches otherwise => by
    rw [Command.pruned, Arms.pruned_true branches, OptionalBlock.pruned_true otherwise]
  | .switch subject cases default => by
    rw [Command.pruned, Arms.pruned_true cases, OptionalBlock.pruned_true default]
  | .choices options => by rw [Command.pruned, Arms.pruned_true options]
  | .action _ | .custom .. | .loop .. | .forEach .. | .breakLoop | .continueLoop | .label _
  | .jump .. | .returnJump | .independent _ | .call .. | .callAsync .. => rfl

theorem Arms.pruned_true {sort : ArmSort} : (arms : Arms sort) → arms.pruned true = arms
  | .nil => rfl
  | .cons guard body rest => by
    rw [Arms.pruned, Block.pruned_true body, Arms.pruned_true rest]

theorem OptionalBlock.pruned_true : (o : OptionalBlock) → o.pruned true = o
  | .absent => rfl
  | .present body => by rw [OptionalBlock.pruned, Block.pruned_true body]

end

/-! ## Pruning what was read -/

/-- The command pruned, if it is no stray leap. -/
def Command.kept (inLoop : Bool) (c : Command) : Option Command :=
  if c.isLeap && !inLoop then none else some (c.pruned inLoop)

theorem Block.pruned_ofCommands (inLoop : Bool) (commands : List (Option Command)) :
    (Block.ofCommands commands).pruned inLoop =
      .ofCommands (commands.map (·.bind (Command.kept inLoop))) := by
  rw [Block.ofCommands, Block.ofCommands, List.zipIdx_map]
  induction commands.zipIdx with
  | nil => rfl
  | cons pair pairs ih =>
    obtain ⟨command, position⟩ := pair
    simp only [List.map_cons, List.foldr_cons, Prod.map]
    cases command with
    | none => exact ih
    | some command =>
      simp only [Option.bind_some, Command.kept, Block.pruned]
      split
      · exact ih
      · exact congrArg _ ih

theorem Arms.pruned_ofList {sort : ArmSort} (inLoop : Bool) (arms : List (Guard sort × Block)) :
    (Arms.ofList arms).pruned inLoop =
      .ofList (arms.map fun arm => (arm.1, arm.2.pruned inLoop)) := by
  induction arms with
  | nil => rfl
  | cons arm arms ih => exact congrArg (Arms.cons arm.1 (arm.2.pruned inLoop)) ih

theorem OptionalBlock.pruned_ofOption (inLoop : Bool) (o : Option Block) :
    (OptionalBlock.ofOption o).pruned inLoop = .ofOption (o.map (Block.pruned inLoop)) := by
  cases o <;> rfl

theorem Command.bind_kept {α : Type} {o : Option α} {f g : α → Command} {inLoop : Bool}
    (h : ∀ x, (f x).kept inLoop = some (g x)) : (o.map f).bind (kept inLoop) = o.map g := by
  cases o with
  | none => rfl
  | some x => exact h x

open Program in
/-- **An instruction outside of loops makes the command that it makes in one,
pruned**, or none if that is a stray leap. -/
theorem Command.ofInstruction?_false (env : Environment) (i : Instruction) :
    Command.ofInstruction? env false i =
      (Command.ofInstruction? env true i).bind (Command.kept false) := by
  induction hn : sizeOf i.params using Nat.strongRecOn generalizing i with
  | ind n ih =>
  subst hn
  -- the bodies of the instruction, read in a loop and read outside of any
  have hblock : ∀ is : Nested i.params,
      Block.ofCommands (is.1.attach.map fun j => Command.ofInstruction? env false j.1) =
        (Block.ofCommands (is.1.attach.map fun j =>
          Command.ofInstruction? env true j.1)).pruned false := by
    intro is
    rw [Block.pruned_ofCommands, List.map_map]
    congr 1
    exact List.map_congr_left fun j _ => ih _ (is.2 j.1 j.2) j.1 rfl
  rw [Command.ofInstruction?, Command.ofInstruction?]
  split
  · rfl
  simp only [hblock]
  split
  case h_1 =>
    refine (Command.bind_kept fun x => ?_).symm
    simp [Command.kept, Command.isLeap, Command.pruned, Arms.pruned_ofList,
      OptionalBlock.pruned_ofOption, List.map_map, Option.map_map, Function.comp_def]
  case h_2 =>
    refine (Command.bind_kept fun x => ?_).symm
    simp [Command.kept, Command.isLeap, Command.pruned, Arms.pruned_ofList,
      OptionalBlock.pruned_ofOption, List.map_map, Option.map_map, Function.comp_def]
  case h_3 =>
    refine (Command.bind_kept fun x => ?_).symm
    simp [Command.kept, Command.isLeap, Command.pruned, Arms.pruned_ofList,
      List.map_map, Function.comp_def]
  case h_4 | h_5 | h_6 | h_9 => exact (Command.bind_kept fun x => rfl).symm
  case h_7 | h_8 => rfl
  case h_10 =>
    cases hjump : jump? i.params with
    | none => rfl
    | some c => rcases jump?_cases hjump with ⟨sort, label, rfl⟩ | rfl <;> rfl
  case h_11 =>
    cases hcall : call? env.isEvent i.params with
    | none => rfl
    | some c => obtain ⟨event, arguments, -, rfl | rfl⟩ := call?_cases hcall <;> rfl
  case h_12 =>
    split
    · exact (Command.bind_kept fun x => rfl).symm
    · cases hcustom : custom? i.id i.params with
      | none => rfl
      | some c =>
        obtain ⟨arguments, rfl⟩ := custom?_cases hcustom
        rfl

/-! ## Events -/

/-- The tree of an event: the commands that its instructions make, the leaps
that have no loop around them among them. -/
def EventDef.tree (env : Environment) (d : EventDef) : Block :=
  .ofCommands (d.commands.map (Command.ofInstruction? env true))

/-- **The block of an event is its tree, pruned.** -/
theorem EventDef.pruned_tree (env : Environment) (d : EventDef) :
    (d.tree env).pruned false = .ofInstructions env d.commands := by
  rw [EventDef.tree, Block.pruned_ofCommands, List.map_map, Block.ofInstructions]
  congr 1
  exact List.map_congr_left fun i _ => (Command.ofInstruction?_false env i).symm

end Cutscene
