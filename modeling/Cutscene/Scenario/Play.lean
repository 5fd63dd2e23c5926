import Cutscene.Scenario.Basic
/-!
# Scenarios — playing and checking

A scenario is played frame by frame. A choice takes the next action at once;
when every context waits to be resumed, so does that. Text boxes close on the
frame after they appear. Every round uses up an action or a frame, by which
the play ends.
-/

namespace Cutscene

/-- Does the boundary offer a choice? -/
def Boundary.isChoice : Boundary → Bool
  | .choice _ => true
  | _ => false

/-- Does the boundary show a text? -/
def Boundary.isText : Boundary → Bool
  | .text _ => true
  | _ => false

/-- Does the boundary wait to be resumed? -/
def Boundary.isSignal : Boundary → Bool
  | .signal => true
  | _ => false

namespace Scheduler

/-- The contexts at a boundary that passes a test. -/
def pausedOn (s : Scheduler) (test : Boundary → Bool) : List EventId :=
  (s.contexts.filter fun c => c.boundary.any test).map (·.id)

/-- Resumes contexts in order. -/
def resumeAll : List EventId → Scheduler → Option Scheduler
  | [], s => some s
  | id :: rest, s =>
    match s.resume id with
    | none => none
    | some (_, s) => resumeAll rest s

/-- Closes the text boxes and lets a frame pass. -/
def nextFrame (s : Scheduler) (frameMs : Float) : Option Scheduler :=
  match resumeAll (s.pausedOn Boundary.isText) s with
  | none => none
  | some s => s.update frameMs

end Scheduler

/-- How a scenario was played to its end. -/
structure ScenarioReport where
  calls : List HostCall
  usedActions : Nat
  frames : Nat
  deriving Inhabited

namespace Scenario

/-- Plays on with the actions left, after so many frames. -/
def playFrom (c : Scenario) (actions : List PlayerAction) (frames : Nat) (s : Scheduler) :
    Option (Except ScenarioError ScenarioReport) :=
  let calls := s.world.trace.length
  match s.pausedOn Boundary.isChoice with
  | id :: _ =>
    match actions with
    | [] => some (.error (.missingAction calls "choose"))
    | .choose index :: rest =>
      match s.choose id index with
      | none => none
      | some (.error e, _) => some (.error (.engine e.report))
      | some (.ok _, s) => playFrom c rest frames s
    | action :: _ => some (.error (.otherAction calls "choose" action.name))
  | [] =>
    let used := c.actions.length - actions.length
    if s.contexts.isEmpty then
      if actions.isEmpty then some (.ok ⟨s.world.trace.reverse, used, frames⟩)
      else some (.error (.unusedActions used c.actions.length))
    else if _h : c.maxFrames ≤ frames then some (.error (.tooManyFrames c.maxFrames))
    else
      let signalled := s.pausedOn Boundary.isSignal
      if signalled.length = s.contexts.length then
        match actions with
        | [] => some (.error (.missingAction calls "resume"))
        | .resume :: rest =>
          match Scheduler.resumeAll signalled s with
          | none => none
          | some s => playFrom c rest frames s
        | action :: _ => some (.error (.otherAction calls "resume" action.name))
      else
        match s.nextFrame c.frameMs with
        | none => none
        | some s => playFrom c actions (frames + 1) s
termination_by actions.length + (c.maxFrames - frames)

/-- Plays the scenario over source texts. -/
def play (c : Scenario) (sources : Sources) (scripts : Script.Language := Script.basic) :
    Option (Except ScenarioError ScenarioReport) :=
  let seed := (c.randomSeed.map UInt32.ofNat).getD defaultSeed
  match Scheduler.ofSources sources (some c.entryEvent) .default seed .none scripts with
  | none => none
  | some (.error e) => some (.error (.engine e))
  | some (.ok (_, s)) => c.playFrom c.actions 0 s

/-- The first place where calls differ from those expected. -/
def firstMismatch : Nat → List HostCall → List HostCall → Option ScenarioError
  | index, expected :: es, observed :: os =>
    if expected == observed then firstMismatch (index + 1) es os
    else some (.call index expected observed)
  | _, _, _ => none

/-- Did the play turn out as expected? -/
def check (c : Scenario) (r : ScenarioReport) : Except ScenarioError Unit :=
  if r.calls.length ≠ c.expectedCalls.length then
    .error (.callCount c.expectedCalls.length r.calls)
  else
    match firstMismatch 0 c.expectedCalls r.calls with
    | some e => .error e
    | none => .ok ()

/-- The scenario of a text. -/
def ofText (text : String) : Except ScenarioError Scenario :=
  match (Json.parse? text).bind decode? with
  | none => .error .text
  | some c =>
    if c.schemaVersion ≠ schema then .error (.schema c.schemaVersion) else .ok c

variable {m : Type → Type} [Monad m]

/-- Reads a scenario from a file. -/
def load (d : Disk m) (path : String) : m (Except ScenarioError Scenario) := do
  match ← d.read path with
  | .error e => pure (.error (.file path e))
  | .ok text => pure (ofText text)

/-- Plays the scenario over the event files below a directory. -/
def playIn (d : Disk m) (directory : String) (c : Scenario) :
    m (Option (Except ScenarioError ScenarioReport)) := do
  match ← d.eventSources directory with
  | .error (path, e) => pure (some (.error (.file path e)))
  | .ok sources =>
    if sources.entries.isEmpty then pure (some (.error (.noSources directory)))
    else pure (c.play sources)

/-- Plays the scenario in a file and checks it. -/
def checkIn (d : Disk m) (directory path : String) : m (Option (Except ScenarioError Unit)) := do
  match ← load d path with
  | .error e => pure (some (.error e))
  | .ok c =>
    match ← c.playIn d directory with
    | none => pure none
    | some (.error e) => pure (some (.error e))
    | some (.ok r) => pure (some (c.check r))

end Scenario

end Cutscene
