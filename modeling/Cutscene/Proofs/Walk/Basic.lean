import Cutscene.Proofs.Walk.Tree
import Cutscene.Run.Advance
/-!
# Walking — events run along their trees

`Library.walk` runs the tree of an event as it stands, with no programs, no
places and no stacks. A condition walks the first body whose tester holds; a
switch the first with a candidate equal to the subject; a loop tests before
every pass; an iteration computes its list once and binds each item in turn.
A body's walk says how it ended (`Exit`): at its end, by leaving or repeating
the innermost loop around it, or by stopping the event. A leap that has no loop
of its event around it is passed over. A call walks the tree of the event
called with the parameters supplied, and then has the caller's back.

A walk is given a number of ticks. Every command takes one, every further
test of a loop and every further item of an iteration too, and so does coming
back from a body that has come to its end. A walk that is out of ticks stands
still where it is, so `Walked` is what was done so far. Commands that the walk
does not know, as pauses, jumps and spawned bodies, are passed over.
-/

namespace Cutscene

/-- How the walk of a body ends. -/
inductive Exit where
  | done
  | broke
  | continued
  | stopped
  deriving DecidableEq, Repr

/-- What comes of a walk: it is out of ticks, or it ended with some left. -/
inductive Walked (ticks : Nat) where
  | out (m : Machine)
  | ended (exit : Exit) (left : Nat) (h : left ≤ ticks) (m : Machine)

namespace Walked

variable {ticks ticks' : Nat}

/-- How the walk ended, if it did: the exit, the ticks left and the machine. -/
def end? : Walked ticks → Option (Exit × Nat × Machine)
  | out _ => none
  | ended exit left _ m => some (exit, left, m)

/-- What comes of a walk, as one that was given more ticks. -/
def widen (h : ticks ≤ ticks') : Walked ticks → Walked ticks'
  | out m => .out m
  | ended exit left hleft m => .ended exit left (Nat.le_trans hleft h) m

/-- The walk, and what follows when it has ended. -/
def onward (w : Walked ticks)
    (next : Exit → (left : Nat) → left ≤ ticks → Machine → Walked left) : Walked ticks :=
  match w with
  | out m => .out m
  | ended exit left h m => (next exit left h m).widen h

end Walked

/-! ## Choosing a body -/

/-- The guarded bodies in order. -/
def Arms.toList {sort : ArmSort} : Arms sort → List (Guard sort × Block)
  | .nil => []
  | .cons guard body rest => (guard, body) :: rest.toList

/-- The body, if there is one. -/
def OptionalBlock.toOption : OptionalBlock → Option Block
  | .absent => none
  | .present body => some body

/-- The first body whose guard passes the test, or the other one. Those after
it are not tested. -/
def firstWhere {γ α : Type} (test : γ → Act Bool) (otherwise : Option α) :
    List (γ × α) → Act (Option α)
  | [] => pure otherwise
  | (guard, body) :: rest => do
    if ← test guard then pure (some body) else firstWhere test otherwise rest

/-- The body of a condition that is walked: the first whose tester holds. -/
def chooseBranch (branches : Arms .branch) (otherwise : OptionalBlock) : Act (Option Block) :=
  firstWhere (·.tester.holds) otherwise.toOption branches.toList

/-- The body of a switch that is walked: the first with a candidate equal to
the subject. -/
def chooseCase (subject : ValueOperand) (cases : Arms .case) (default : OptionalBlock) :
    Act (Option Block) := do
  let subject ← Act.draw subject.compute
  firstWhere (fun guard => anyEqual subject guard.candidates) default.toOption cases.toList

/-- The machine with other parameters. -/
def Machine.withParameters (m : Machine) (parameters : Attributes) : Machine :=
  { m with context.ambient.parameters := parameters }

/-! ## Walks -/

mutual

/-- Walks a block that stands in a loop, or outside of any. -/
def Library.walk (l : Library) (inLoop : Bool) (block : Block) (ticks : Nat) (m : Machine) :
    Walked ticks :=
  match ticks, block with
  | 0, _ => .out m
  | ticks + 1, .nil => .ended .done (ticks + 1) (Nat.le_refl _) m
  | ticks + 1, .cons position command rest =>
    match command with
    | .action a =>
      match a.run (fun _ => false) m with
      | (.next, m) => (l.walk inLoop rest ticks m).widen (Nat.le_succ _)
      | (.stop, m) => .ended .stopped ticks (Nat.le_succ _) m
    | .ifElse branches otherwise =>
      let (body, m) := chooseBranch branches otherwise m
      (l.walkChosen inLoop body rest ticks m).widen (Nat.le_succ _)
    | .switch subject cases default =>
      let (body, m) := chooseCase subject cases default m
      (l.walkChosen inLoop body rest ticks m).widen (Nat.le_succ _)
    | .loop tester body =>
      let (holds, m) := tester.holds m
      if holds then
        ((l.walk true body ticks m).onward fun exit left _ m =>
          match exit with
          | .done | .continued => l.walk inLoop (.cons position (.loop tester body) rest) left m
          | .broke => l.walk inLoop rest left m
          | .stopped => .ended .stopped left (Nat.le_refl _) m).widen (Nat.le_succ _)
      else (l.walk inLoop rest ticks m).widen (Nat.le_succ _)
    | .forEach source ref body =>
      let (items, m) := Act.draw source.items m
      (l.walkItems inLoop ref body rest ⟨items.toArray, 0⟩ ticks m).widen (Nat.le_succ _)
    | .breakLoop =>
      if inLoop then .ended .broke ticks (Nat.le_succ _) m else l.walk inLoop rest (ticks + 1) m
    | .continueLoop =>
      if inLoop then .ended .continued ticks (Nat.le_succ _) m else l.walk inLoop rest (ticks + 1) m
    | .call event params =>
      match l.get? event with
      | none => (l.walk inLoop rest ticks m).widen (Nat.le_succ _)
      | some d =>
        let caller := m.context.ambient.parameters
        let (supplied, m) := Act.draw (fun m => supply m params caller) m
        -- the callee starts outside of any loop, whatever its caller stands in
        ((l.walk false (d.tree l.environment) ticks
            (m.withParameters (supplied.fill d.parameters))).onward fun exit left _ m =>
          match exit with
          | .stopped => .ended .stopped left (Nat.le_refl _) m
          | _ => (l.walk inLoop rest (left - 1) (m.withParameters caller)).widen
              (Nat.sub_le _ _)).widen (Nat.le_succ _)
    | _ => l.walk inLoop rest (ticks + 1) m
termination_by (ticks, 0, sizeOf block)

/-- Walks a body that was chosen, if any was, and then the rest. -/
def Library.walkChosen (l : Library) (inLoop : Bool) (body : Option Block) (rest : Block)
    (ticks : Nat) (m : Machine) : Walked ticks :=
  match body with
  | none => l.walk inLoop rest ticks m
  | some body =>
    (l.walk inLoop body ticks m).onward fun exit left _ m =>
      match exit with
      | .done => (l.walk inLoop rest (left - 1) m).widen (Nat.sub_le _ _)
      | exit => .ended exit left (Nat.le_refl _) m
termination_by (ticks, 1, 0)
decreasing_by all_goals simp only [Prod.lex_def, true_and]; omega

/-- Walks a body for the current item of a list and for those after it, and
then the rest. -/
def Library.walkItems (l : Library) (inLoop : Bool) (ref : VariableRef) (body rest : Block)
    (items : Iteration) (ticks : Nat) (m : Machine) : Walked ticks :=
  match items.current? with
  | none => l.walk inLoop rest ticks m
  | some item =>
    (l.walk true body ticks (m.write ref item)).onward fun exit left h m =>
      match exit with
      | .done | .continued =>
        match left, h with
        | 0, _ => .out m
        | left + 1, (_ : left < ticks) =>
          (l.walkItems inLoop ref body rest items.next left m).widen (Nat.le_succ _)
      | .broke => l.walk inLoop rest left m
      | .stopped => .ended .stopped left (Nat.le_refl _) m
termination_by (ticks, 1, 0)
decreasing_by all_goals simp only [Prod.lex_def, true_and]; omega

end

end Cutscene
