import Cutscene.Player.Play
import Cutscene.Player.State
/-!
# Player — commands

`run` plays a project as far as the choices given carry it. An agent plays in
pieces: `start` plays to the first boundary and saves the state, `resume`
goes on from a saved state with at most one choice. Each answers with lines
of text and an exit code; nothing is saved when an error is told.
-/

namespace Cutscene

namespace Player

/-- What the player answers. -/
structure Answer where
  code : Nat
  lines : List String
  deriving DecidableEq, Repr, Inhabited

/-- The lines about an option, from the first index on. -/
def optionLines (options : List String) : List String :=
  options.zipIdx.map fun (option, index) =>
    "CHOICE:" ++ toString index ++ "|" ++ Json.quote option

/-- The answer to a play that reached a boundary. -/
def Answer.played (p : Played) (stateOut : Option String) : Answer :=
  let event := match p.stop with
    | .choices .. => "CHOICES"
    | .pending => "PENDING"
    | .ended => "END"
  let offered := match p.stop with
    | .choices id options => ("CHOICE_EVENT:" ++ toString id.val) :: optionLines options
    | _ => []
  ⟨0,
    "RESULT:OK" :: ("EVENT:" ++ event) ::
      p.calls.map (fun call => "CALL_JSON:" ++ call.encode.compact) ++
      offered ++
      ["FRAMES:" ++ toString p.frames, "STATE_OUT:" ++ stateOut.getD "NONE"]⟩

/-- The answer that tells an error; `*` stands for a message that is not its
own. -/
def Answer.failed (r : Report) : Answer :=
  ⟨1,
    ["RESULT:ERROR", "ERROR_CODE:" ++ r.code,
     "ERROR_MSG_JSON:" ++ (r.message.map Json.quote).getD "*"] ++
      (r.path.map fun path => "ERROR_PATH_JSON:" ++ Json.quote path).toList⟩

/-- Plays a scheduler; what the engine refuses is an error. -/
def playWith (s : Scheduler) (limits : FrameLimits) (choices : List Nat) :
    Option (Except PlayerError Played) :=
  (s.play limits choices).map fun
    | .ok p => .ok p
    | .error e => .error (.engine e.report)

/-- Starts a project and plays it. -/
def startAndPlay (scripts : Script.Language) (project : SourceProject) (entry : Option String)
    (limits : FrameLimits) (choices : List Nat) : Option (Except PlayerError Played) :=
  match Scheduler.ofSources project.sources entry .default defaultSeed .none scripts with
  | none => none
  | some (.error e) => some (.error (.engine e))
  | some (.ok (_, s)) => playWith s limits choices

/-- Goes on from a saved state and plays; a choice that was not wanted is an
error. -/
def resumeAndPlay (scripts : Script.Language) (project : SourceProject) (state : PlayerState)
    (limits : FrameLimits) (choice : Option Nat) : Option (Except PlayerError Played) :=
  let settings := { Settings.default with compilerVersion := some state.compilerVersion }
  match Scheduler.resumeSources project.sources settings state.snapshot scripts with
  | .error e => some (.error (.engine e))
  | .ok s =>
    match playWith s limits choice.toList with
    | some (.ok p) => some (if p.choices.isEmpty then .ok p else .error .unusedChoice)
    | other => other

/-- The state to save after a play. -/
def stateAfter (projectId compilerVersion : String) (framesBefore : Nat) (p : Played) :
    Except PlayerError PlayerState :=
  match p.scheduler.snapshot with
  | .error e => .error (.engine e.report)
  | .ok snapshot =>
    .ok ⟨PlayerState.schema, projectId, compilerVersion, framesBefore + p.frames, snapshot⟩

variable {m : Type → Type} [Monad m]

/-- Saves the state after a play and answers. -/
def saveAndAnswer (d : Disk m) (stateOut projectId compilerVersion : String) (framesBefore : Nat)
    (p : Played) : m Answer := do
  match stateAfter projectId compilerVersion framesBefore p with
  | .error e => pure (.failed e.report)
  | .ok state =>
    match ← state.save d stateOut with
    | .error e => pure (.failed e.report)
    | .ok _ => pure (.played p (some stateOut))

/-- Does what is asked; no answer where a run of the engine has no result. -/
def execute (scripts : Script.Language) (d : Disk m) : Invocation → m (Option Answer)
  | .run eventsDir entry limits choices => do
    match ← SourceProject.ofDirectory d eventsDir with
    | .error e => pure (some (.failed e.report))
    | .ok project =>
      match startAndPlay scripts project entry limits choices with
      | none => pure none
      | some (.error e) => pure (some (.failed e.report))
      | some (.ok p) => pure (some (.played p none))
  | .start eventsDir entry limits stateOut => do
    match ← SourceProject.ofDirectory d eventsDir with
    | .error e => pure (some (.failed e.report))
    | .ok project =>
      match startAndPlay scripts project entry limits [] with
      | none => pure none
      | some (.error e) => pure (some (.failed e.report))
      | some (.ok p) =>
        some <$> saveAndAnswer d stateOut project.id Engine.defaultVersion 0 p
  | .resume stateIn choice limits stateOut => do
    match ← PlayerState.load d stateIn with
    | .error e => pure (some (.failed e.report))
    | .ok state =>
      match ← SourceProject.ofId d state.projectId with
      | .error e => pure (some (.failed e.report))
      | .ok project =>
        match resumeAndPlay scripts project state limits choice with
        | none => pure none
        | some (.error e) => pure (some (.failed e.report))
        | some (.ok p) =>
          some <$> saveAndAnswer d stateOut state.projectId state.compilerVersion state.frame p

/-- Answers arguments: with an exit code alone where they ask for nothing.
Scripts are in the basic language. -/
def answer (d : Disk m) (arguments : List String) : m (Option Answer) :=
  match Invocation.ofArguments arguments with
  | .error .help => pure (some ⟨0, []⟩)
  | .error .wrong => pure (some ⟨2, []⟩)
  | .ok invocation => execute Script.basic d invocation

end Player

end Cutscene
