import Cutscene.Program.Block
import Cutscene.Program.Key
/-!
# Programs — steps

A program is a list of steps under a key. Where a step sends control is a
body's key, which is entered at its first step, or a place. Some steps are
bound only when they first run (`Step.isLate`): what they refer to is looked
up then.
-/

namespace Cutscene

/-- One step of a program. -/
inductive Step where
  | action (action : Action)
  /-- Hands over to the handler of a custom instruction. -/
  | custom (id : String) (arguments : Arguments)
  /-- Enters the first body whose tester holds. -/
  | branch (arms : List (Tester × BodyKey)) (otherwise : Option BodyKey)
  /-- Enters the first body with a candidate equal to the subject. -/
  | select (subject : ValueOperand) (arms : List (List ValueOperand × BodyKey))
      (otherwise : Option BodyKey)
  /-- Shows options and pauses. -/
  | openChoices (labels : List Template)
  /-- Enters the body of the option chosen. -/
  | enterChoice (bodies : List BodyKey)
  | enterLoop (tester : Tester) (body : BodyKey)
  /-- At the end of a loop's body: starts it again or leaves. -/
  | repeatLoop (tester : Tester) (exit : Place)
  | enterEach (source : ListSource) (ref : VariableRef) (body : BodyKey)
  /-- At the end of an iteration's body: goes on with the next item or leaves. -/
  | nextItem (ref : VariableRef) (exit : Place)
  /-- Leaves the innermost loop, an iteration with its items. -/
  | leaveLoop (each : Bool) (exit : Place)
  /-- Goes to the end of the innermost loop's body. -/
  | endPass (terminal : Place)
  /-- Goes on after the instruction that a body belongs to. -/
  | resume (place : Place)
  /-- Goes to a label, dropping the iterations left. -/
  | jump (target : Place) (drop : Nat)
  /-- Goes to a label and keeps where to return. -/
  | saveJump (target : Place)
  | returnJump
  | idle
  /-- Starts a body as a running event of its own. -/
  | spawn (body : BodyKey)
  | call (event : String) (params : Table String ValueOperand)
  | callAsync (event : String) (params : Table String ValueOperand)
  /-- Returns to the caller, or finishes. -/
  | leave
  deriving Inhabited

/-- Is the step bound only when it first runs? -/
def Step.isLate : Step → Bool
  | .custom .. | .endPass .. | .call .. => true
  | _ => false

/-- The steps of a body. -/
structure Program where
  key : BodyKey
  steps : Array Step
  deriving Inhabited

/-- The indexes of the steps that are bound when they first run. -/
def Program.late (p : Program) : List Nat :=
  (p.steps.toList.zipIdx.filter (·.1.isLate)).map (·.2)

end Cutscene
