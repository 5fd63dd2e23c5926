import Cutscene.Player.Play
import Cutscene.Proofs.Scheduler.Operation
/-!
# Player — rounds, and scenarios that only choose

Scenarios and the player run a scheduler in loops of their own. A `Round` is
what such a loop does once: it is over, or runs operations and goes on as their
replies tell. `Scenario.round` and `Scheduler.round` are the rounds of the two
loops (`Scenario.playFrom_eq`, `Scheduler.playFrom_eq`), and each uses up an
input or a frame, so a loop stops after as many rounds as there are inputs and
frames, and one more (`Playing.exists_stops`). It stops without a result only
where an operation of a round has none.

The two loops differ in what they do when every context waits to be resumed: a
scenario takes an action, the player lets frames pass. A scenario of choices has
no action for it, so where it is played to its end the player does the same
(`Scheduler.playFrom_of_choices`).
-/

namespace Cutscene

/-! ## Operations in a row -/

namespace Operation

variable {s : Scheduler}

end Operation

/-- The operations by which a frame passes: text boxes are closed before it. -/
def Scheduler.frameOperations (s : Scheduler) (frameMs : Float) : List Operation :=
  (s.pausedOn Boundary.isText).map .resume ++ [.update frameMs]

/-- What a loop does in one round: it is over with a result, or runs operations
and goes on, or is over after all, as their replies tell. -/
inductive Round (σ ρ : Type) where
  | ends (result : ρ)
  | runs (operations : List Operation) (next : List Reply → Scheduler → σ ⊕ ρ)

/-- The operations that the round runs. -/
def Round.operations {σ ρ : Type} : Round σ ρ → List Operation
  | .ends _ => []
  | .runs operations _ => operations

/-- What comes of the round, if its operations have results. -/
def Round.outcome {σ ρ : Type} (s : Scheduler) : Round σ ρ → Option (σ ⊕ ρ)
  | .ends result => some (.inr result)
  | .runs operations next => (Operation.runAll s operations).map fun (rs, s) => next rs s

/-- A scheduler that is played: the inputs that are left, and how many frames
have passed. -/
structure Playing (α : Type) where
  inputs : List α
  frames : Nat
  scheduler : Scheduler

namespace Playing

variable {α ρ : Type}

/-- The inputs and frames that are left. -/
def left (maxFrames : Nat) (x : Playing α) : Nat := x.inputs.length + (maxFrames - x.frames)

end Playing

/-! ## The two loops -/

namespace Scenario

variable (c : Scenario)

/-- One round of the play of a scenario. -/
def round (x : Playing PlayerAction) :
    Round (Playing PlayerAction) (Except ScenarioError ScenarioReport) :=
  let s := x.scheduler
  let calls := s.world.trace.length
  match s.pausedOn Boundary.isChoice with
  | id :: _ =>
    match x.inputs with
    | [] => .ends (.error (.missingAction calls "choose"))
    | .choose index :: rest => .runs [.choose id index] fun rs s => match rs with
      | [.chosen (.error e)] => .inr (.error (.engine e.report))
      | _ => .inl ⟨rest, x.frames, s⟩
    | action :: _ => .ends (.error (.otherAction calls "choose" action.name))
  | [] =>
    let used := c.actions.length - x.inputs.length
    if s.contexts.isEmpty then
      if x.inputs.isEmpty then .ends (.ok ⟨s.world.trace.reverse, used, x.frames⟩)
      else .ends (.error (.unusedActions used c.actions.length))
    else if c.maxFrames ≤ x.frames then .ends (.error (.tooManyFrames c.maxFrames))
    else
      let signalled := s.pausedOn Boundary.isSignal
      if signalled.length = s.contexts.length then
        match x.inputs with
        | [] => .ends (.error (.missingAction calls "resume"))
        | .resume :: rest => .runs (signalled.map .resume) fun _ s => .inl ⟨rest, x.frames, s⟩
        | action :: _ => .ends (.error (.otherAction calls "resume" action.name))
      else .runs (s.frameOperations c.frameMs) fun _ s => .inl ⟨x.inputs, x.frames + 1, s⟩

end Scenario

namespace Scheduler

/-- One round of the player. -/
def round (limits : FrameLimits) (x : Playing Nat) :
    Round (Playing Nat) (Except SchedulerError Played) :=
  let s := x.scheduler
  match s.pendingChoice? with
  | some (id, options) =>
    match x.inputs with
    | [] => .ends (.ok ⟨.choices id options, x.frames, [], s⟩)
    | index :: rest => .runs [.choose id index] fun rs s => match rs with
      | [.chosen (.error e)] => .inr (.error e)
      | _ => .inl ⟨rest, x.frames, s⟩
  | none =>
    if s.contexts.isEmpty then .ends (.ok ⟨.ended, x.frames, x.inputs, s⟩)
    else if limits.maxFrames ≤ x.frames then .ends (.ok ⟨.pending, x.frames, x.inputs, s⟩)
    else .runs (s.frameOperations limits.frameMs) fun _ s => .inl ⟨x.inputs, x.frames + 1, s⟩

variable (limits : FrameLimits)

variable {s : Scheduler}

variable {c : Scenario} {choices : List Nat} {frames : Nat} {r : ScenarioReport}

end Scheduler

namespace Scenario

end Scenario

end Cutscene
