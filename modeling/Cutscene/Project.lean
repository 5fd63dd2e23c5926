import Cutscene.Scheduler.Snapshot
/-!
# Projects

A project is a library and the event to start with. A scheduler is made from
source texts by starting that event, or rebuilt from a snapshot over them.
-/

namespace Cutscene

/-- Why a project has no event to start with. -/
inductive EntryError where
  | unknown (name : String)
  | noMain
  deriving DecidableEq, Repr

/-- What is told of the error. -/
def EntryError.report : EntryError → Report
  | .unknown name =>
    .of "API_ENTRY_EVENT_NOT_FOUND" ("Entry event \"" ++ name ++ "\" is not registered.")
  | .noMain =>
    .of "API_ENTRY_MAIN_NOT_FOUND" "Expected an event named \"main\" as default entry."

/-- A library and the event to start with. -/
structure Project where
  library : Library
  entry : String
  deriving Inhabited

/-- The event to start with: the one asked for, or else `main`. -/
def Library.entry (l : Library) (asked : Option String) : Except EntryError String :=
  match asked with
  | some name => if l.contains name then .ok name else .error (.unknown name)
  | none => if l.contains "main" then .ok "main" else .error .noMain

/-- The project of source texts. -/
def Project.ofSources (sources : Sources) (asked : Option String)
    (scripts : Script.Language := Script.basic) : Except Report Project :=
  match Library.ofSources sources scripts with
  | .error e => .error e
  | .ok library =>
    match library.entry asked with
    | .error e => .error e.report
    | .ok entry => .ok ⟨library, entry⟩

/-- How an engine is set up beside its library. -/
structure Settings where
  handlers : Table String Handler
  stepBudget : Option Nat
  compilerVersion : Option String
  deferred : Bool
  deriving Inhabited

/-- An engine without handlers, as it is unless told otherwise. -/
def Settings.default : Settings := ⟨.empty, none, none, false⟩

/-- The engine of a library under settings. -/
def Settings.engine (s : Settings) (l : Library) : Engine :=
  { (Engine.ofLibrary l).withBudget (s.stepBudget.getD Engine.defaultBudget) with
    handlers := s.handlers
    compilerVersion := s.compilerVersion.getD Engine.defaultVersion
    deferred := fun _ => s.deferred }

/-- The seed unless there is another one. -/
def defaultSeed : UInt32 := 1

/-- Starts a project; the number of its first context. -/
def Project.start (p : Project) (settings : Settings) (seed : UInt32) (ambient : Ambient) :
    Option (Except Report (EventId × Scheduler)) :=
  ((Scheduler.fresh (settings.engine p.library) seed).start p.entry ambient).map fun
    | (.ok id, s) => .ok (id, s)
    | (.error e, _) => .error e.report

/-- A scheduler made from source texts by starting an event. -/
def Scheduler.ofSources (sources : Sources) (asked : Option String) (settings : Settings)
    (seed : UInt32) (ambient : Ambient) (scripts : Script.Language := Script.basic) :
    Option (Except Report (EventId × Scheduler)) :=
  match Project.ofSources sources asked scripts with
  | .error e => some (.error e)
  | .ok p => p.start settings seed ambient

/-- A scheduler rebuilt from a snapshot over source texts. -/
def Scheduler.resumeSources (sources : Sources) (settings : Settings) (snapshot : Snapshot)
    (scripts : Script.Language := Script.basic) : Except Report Scheduler :=
  match Library.ofSources sources scripts with
  | .error e => .error e
  | .ok library =>
    match Scheduler.restore (settings.engine library) snapshot with
    | .error e => .error e.report
    | .ok s => .ok s

end Cutscene
