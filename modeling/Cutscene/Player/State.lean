import Cutscene.Files.Disk
import Cutscene.Json.Printer
import Cutscene.Scheduler.Snapshot
/-!
# Player — saved states and projects on disk

A saved state is a snapshot, the project it belongs to, and the frames played
so far, in a file. A project is told by the directory its events lie in.
-/

namespace Cutscene

/-- A saved state. -/
structure PlayerState where
  schemaVersion : String
  projectId : String
  compilerVersion : String
  frame : Nat
  snapshot : Snapshot
  deriving Inhabited

/-- The version of the form of saved states. -/
def PlayerState.schema : String := "player-state.v1"

/-- Why the player cannot do what it is asked. -/
inductive PlayerError where
  | noDirectory (path : String)
  | notDirectory (path : String)
  | source (cause : FileError)
  | noSources (path : String)
  /-- The project is not told by a directory. -/
  | project (id : String)
  | noState (path : String)
  | readState (cause : FileError)
  /-- The text is no saved state. -/
  | stateText
  | stateSchema (found : String)
  | writeState (cause : FileError)
  | unusedChoice
  | engine (report : Report)

/-- What is told of the error. -/
def PlayerError.report : PlayerError → Report
  | .noDirectory path => .of "CLI_SOURCE_NOT_FOUND" ("events-dir does not exist: " ++ path)
  | .notDirectory path => .of "CLI_SOURCE_NOT_DIR" ("events-dir is not a directory: " ++ path)
  | .source cause => .of "CLI_SOURCE_READ" cause.text
  | .noSources path => .of "CLI_SOURCE_EMPTY" ("No .event.json files under " ++ path)
  | .project id => .of "CLI_SOURCE_REF_INVALID" ("Unsupported project ref: " ++ id)
  | .noState path => .of "CLI_STATE_NOT_FOUND" ("State file does not exist: " ++ path)
  | .readState cause => .of "CLI_STATE_READ" cause.text
  | .stateText => ⟨"CLI_STATE_INVALID", none, none⟩
  | .stateSchema found =>
    .of "CLI_STATE_SCHEMA" ("Unsupported player state schema: " ++ found)
  | .writeState cause => .of "CLI_STATE_WRITE" cause.text
  | .unusedChoice =>
    .of "CLI_NO_PENDING_CHOICE" "A choice was given but no event is waiting for one."
  | .engine report => report

/-! ## Saved states -/

namespace PlayerState

/-- The saved state as JSON. -/
def encode (s : PlayerState) : Json :=
  .object
    [("schemaVersion", .string s.schemaVersion), ("projectId", .string s.projectId),
     ("compilerVersion", .string s.compilerVersion), ("frame", .ofNat s.frame),
     ("snapshot", s.snapshot.encode)]

/-- The saved state of a JSON value. -/
def decode? (j : Json) : Option PlayerState := do
  let r ← j.plainRecord?
    ["schemaVersion", "projectId", "compilerVersion", "frame", "snapshot"]
  let schemaVersion ← r.required "schemaVersion" Json.string?
  let projectId ← r.required "projectId" Json.string?
  let compilerVersion ← r.required "compilerVersion" Json.string?
  let frame ← r.required "frame" Json.word64?
  let snapshot ← r.required "snapshot" Snapshot.decode?
  pure ⟨schemaVersion, projectId, compilerVersion, frame, snapshot⟩

/-- The text of a saved state. -/
def text (s : PlayerState) : String := s.encode.pretty

/-- The saved state of a text. -/
def ofText (text : String) : Except PlayerError PlayerState :=
  match (Json.parse? text).bind decode? with
  | none => .error .stateText
  | some s => if s.schemaVersion ≠ schema then .error (.stateSchema s.schemaVersion) else .ok s

variable {m : Type → Type} [Monad m]

/-- Writes a saved state into a file. -/
def save (d : Disk m) (path : String) (s : PlayerState) : m (Except PlayerError Unit) := do
  match ← d.makeDirectory (parentPath path) with
  | .error e => pure (.error (.writeState e))
  | .ok _ =>
    match ← d.write path s.text with
    | .error e => pure (.error (.writeState e))
    | .ok _ => pure (.ok ())

/-- Reads a saved state from a file. -/
def load (d : Disk m) (path : String) : m (Except PlayerError PlayerState) := do
  match ← d.sort? path with
  | none => pure (.error (.noState path))
  | some _ =>
    match ← d.read path with
    | .error e => pure (.error (.readState e))
    | .ok text => pure (ofText text)

end PlayerState

/-! ## Projects -/

/-- Sources, and what the project is told by. -/
structure SourceProject where
  id : String
  sources : Sources
  deriving Inhabited

namespace SourceProject

/-- What stands before the directory that tells a project. -/
def scheme : String := "events-dir:"

variable {m : Type → Type} [Monad m]

/-- The project of the events below a directory. -/
def ofDirectory (d : Disk m) (directory : String) : m (Except PlayerError SourceProject) := do
  let path := joinPath (← d.workingDirectory) directory
  match ← d.sort? path with
  | none => pure (.error (.noDirectory path))
  | some .file => pure (.error (.notDirectory path))
  | some .directory =>
    match ← d.eventSources path with
    | .error (_, e) => pure (.error (.source e))
    | .ok sources =>
      if sources.entries.isEmpty then pure (.error (.noSources path))
      else pure (.ok ⟨scheme ++ path, sources⟩)

/-- The project that an id tells. -/
def ofId (d : Disk m) (id : String) : m (Except PlayerError SourceProject) :=
  if Text.startsWith id scheme then
    ofDirectory d (String.ofList (id.toList.drop scheme.length))
  else pure (.error (.project id))

end SourceProject

end Cutscene
