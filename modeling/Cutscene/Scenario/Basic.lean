import Cutscene.Files.Disk
import Cutscene.Project
import Cutscene.Json.Printer
/-!
# Scenarios

A scenario plays a project with prepared input and says which calls the host
must get: the event to start, the length of a frame and how many there may
be, the seed, and the actions that answer choices and pauses.
-/

namespace Cutscene

/-- Prepared input: a choice, or resuming whatever waits for it. -/
inductive PlayerAction where
  | choose (index : Nat)
  | resume
  deriving DecidableEq, Repr, Inhabited

/-- The action's name. -/
def PlayerAction.name : PlayerAction → String
  | .choose _ => "choose"
  | .resume => "resume"

/-- A project's input and the calls expected of it. -/
structure Scenario where
  schemaVersion : String
  entryEvent : String
  frameMs : Float
  maxFrames : Nat
  randomSeed : Option Nat
  actions : List PlayerAction
  expectedCalls : List HostCall
  deriving Inhabited

/-- The version of the form of scenarios. -/
def Scenario.schema : String := "ev-tool-case.v1"

/-- The length of a frame unless told otherwise. -/
def defaultFrameMs : Float := 16.0

/-! ## As JSON -/

/-- The action as JSON. -/
def PlayerAction.encode : PlayerAction → Json
  | .choose index => .tagged "kind" "choose" [("index", .ofNat index)]
  | .resume => .tagged "kind" "resume" []

/-- The action of a JSON value. -/
def PlayerAction.decode? (j : Json) : Option PlayerAction := do
  let (tag, content) ← j.variant? "kind" []
  match tag with
  | "choose" =>
    let r ← content.plainRecord? ["index"]
    let index ← r.required "index" Json.word64?
    pure (.choose index)
  | "resume" => if content.isBare then pure .resume else none
  | _ => none

/-- The scenario as JSON. -/
def Scenario.encode (s : Scenario) : Json :=
  .object
    [("schemaVersion", .string s.schemaVersion), ("entryEvent", .string s.entryEvent),
     ("frameMs", .ofFloat s.frameMs), ("maxFrames", .ofNat s.maxFrames),
     ("randomSeed", .ofOption .ofNat s.randomSeed),
     ("actions", .ofList PlayerAction.encode s.actions),
     ("expectedCalls", .ofList HostCall.encode s.expectedCalls)]

/-- The scenario of a JSON value. -/
def Scenario.decode? (j : Json) : Option Scenario := do
  let r ← j.plainRecord?
    ["schemaVersion", "entryEvent", "frameMs", "maxFrames", "randomSeed", "actions",
     "expectedCalls"]
  let schemaVersion ← r.required "schemaVersion" Json.string?
  let entryEvent ← r.orElse "entryEvent" Json.string? "main"
  let frameMs ← r.orElse "frameMs" Json.float? defaultFrameMs
  let maxFrames ← r.orElse "maxFrames" Json.word64? 5000
  let randomSeed ← r.nullable "randomSeed" Json.word32?
  let actions ← r.orElse "actions" (Json.list? (Json.whole? PlayerAction.decode?)) []
  let expectedCalls ← r.orElse "expectedCalls" (Json.list? (Json.whole? HostCall.decode?)) []
  pure ⟨schemaVersion, entryEvent, frameMs, maxFrames, randomSeed, actions, expectedCalls⟩

/-! ## Errors -/

/-- Why a scenario cannot be read, cannot be played to its end, or does not
turn out as expected. -/
inductive ScenarioError where
  | file (path : String) (cause : FileError)
  /-- The text is no scenario. -/
  | text
  | schema (found : String)
  | noSources (directory : String)
  | engine (report : Report)
  /-- An action was needed after so many calls and there was none left. -/
  | missingAction (calls : Nat) (wanted : String)
  /-- An action of one name was needed, and the next one had another. -/
  | otherAction (calls : Nat) (wanted found : String)
  | unusedActions (used total : Nat)
  | tooManyFrames (limit : Nat)
  | callCount (expected : Nat) (observed : List HostCall)
  | call (index : Nat) (expected observed : HostCall)

/-- What is told of the error; nothing of its own where the text is no
scenario or the engine tells. -/
def ScenarioError.message : ScenarioError → Option String
  | .file path cause => some ("Failed to read file " ++ path ++ ": " ++ cause.text)
  | .text => none
  | .schema found =>
    some ("Invalid testcase schema version \"" ++ found ++ "\", expected \"" ++
      Scenario.schema ++ "\".")
  | .noSources directory => some ("No .event.json files under " ++ directory ++ ".")
  | .engine _ => none
  | .missingAction calls wanted =>
    some ("Action missing after call index " ++ toString calls ++ ": expected " ++ wanted ++ ".")
  | .otherAction calls wanted found =>
    some ("Action kind mismatch after call index " ++ toString calls ++ ": expected " ++ wanted ++
      ", got " ++ found ++ ".")
  | .unusedActions used total =>
    some ("Unused actions: used " ++ toString used ++ " of " ++ toString total ++ ".")
  | .tooManyFrames limit => some ("Guard exceeded: max_frames=" ++ toString limit ++ ".")
  | .callCount expected observed =>
    some ("Expected call count " ++ toString expected ++ ", actual " ++
      toString observed.length ++ ". observed=" ++
      (Json.ofList HostCall.encode observed).pretty)
  | .call index expected observed =>
    some ("Call mismatch at index " ++ toString index ++ ". expected=" ++
      expected.encode.compact ++ " actual=" ++ observed.encode.compact)

end Cutscene
