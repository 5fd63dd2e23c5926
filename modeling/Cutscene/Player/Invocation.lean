import Cutscene.Decimal.Reading
import Cutscene.Text.Search
/-!
# Player — invocations

What the player is asked to do, read from its arguments. Options are given as
`--name value` or `--name=value`, in any order; a value that starts with a
dash must be given in the second way. An option stands at most once, except
that a run takes any number of choices.
-/

namespace Cutscene

/-- The length of a frame, and how many there may be. -/
structure FrameLimits where
  frameMs : Float
  maxFrames : Nat
  deriving Inhabited

/-- What the player is asked to do. -/
inductive Invocation where
  | run (eventsDir : String) (entry : Option String) (limits : FrameLimits) (choices : List Nat)
  | start (eventsDir : String) (entry : Option String) (limits : FrameLimits) (stateOut : String)
  | resume (stateIn : String) (choice : Option Nat) (limits : FrameLimits) (stateOut : String)
  deriving Inhabited

/-- Why arguments ask for nothing to be done. -/
inductive Usage where
  /-- They ask what arguments there are. -/
  | help
  /-- They are not understood. -/
  | wrong
  deriving DecidableEq, Repr

namespace Invocation

/-- The whole number below `2 ^ 64` that digits write; a plus may stand in
front. -/
def word? (s : String) : Option Nat :=
  let digits := match s.toList with
    | '+' :: cs => cs
    | cs => cs
  if digits.isEmpty || !digits.all Decimal.isDigit then none
  else
    let n := Decimal.wholeOf digits
    if n < UInt64.size then some n else none

/-- An option: its name, which values it takes, and whether it may stand more
than once. -/
structure Flag where
  name : String
  accepts : String → Bool
  repeats : Bool

/-- An option with any text. -/
def textFlag (name : String) : Flag := ⟨name, fun _ => true, false⟩

/-- The options for frames. -/
def frameFlags : List Flag :=
  [⟨"frame-ms", fun s => (Decimal.float? s.toList).isSome, false⟩,
   ⟨"max-frames", fun s => (word? s).isSome, false⟩]

/-- The option for a choice. -/
def choiceFlag (repeats : Bool) : Flag := ⟨"choice", fun s => (word? s).isSome, repeats⟩

/-- The options of a run. -/
def runFlags : List Flag :=
  textFlag "events-dir" :: textFlag "entry" :: choiceFlag true :: frameFlags

/-- The options of a start. -/
def startFlags : List Flag :=
  textFlag "events-dir" :: textFlag "entry" :: textFlag "state-out" :: frameFlags

/-- The options of a resumption. -/
def resumeFlags : List Flag :=
  textFlag "state-in" :: choiceFlag false :: textFlag "state-out" :: frameFlags

/-- Does the argument ask for help? -/
def isHelp (argument : String) : Bool :=
  argument == "--help" || ['-', 'h'].isPrefixOf argument.toList

/-- Can the argument be a value that stands by itself? -/
def isValue (argument : String) : Bool :=
  argument == "-" || !(['-'].isPrefixOf argument.toList)

/-- The name of an option and the value joined to it, if there is one. -/
def option? (argument : String) : Option (String × Option String) :=
  match argument.toList with
  | '-' :: '-' :: cs =>
    some (match Text.splitAt? ['='] cs with
      | some (name, value) => (String.ofList name, some (String.ofList value))
      | none => (String.ofList cs, none))
  | _ => none

/-- The options given, with their values, after those seen so far. -/
def collect (flags : List Flag) (seen : List (String × String)) :
    List String → Except Usage (List (String × String))
  | [] => .ok seen.reverse
  | argument :: rest =>
    if isHelp argument then .error .help
    else if argument = "--" ∧ rest.isEmpty then .ok seen.reverse
    else
      match option? argument with
      | none => .error .wrong
      | some (name, joined) =>
        match flags.find? (·.name == name) with
        | none => .error .wrong
        | some flag =>
          let fits (value : String) : Bool :=
            flag.accepts value && (flag.repeats || !seen.any (·.1 == name))
          match joined, rest with
          | some value, rest =>
            if fits value then collect flags ((name, value) :: seen) rest else .error .wrong
          | none, value :: rest =>
            if isValue value && fits value then collect flags ((name, value) :: seen) rest
            else .error .wrong
          | none, [] => .error .wrong

/-- The value of an option that must be given. -/
def needed (given : List (String × String)) (name : String) : Except Usage String :=
  match given.lookup name with
  | some value => .ok value
  | none => .error .wrong

/-- The options for frames, as they are unless given. -/
def limitsOf (given : List (String × String)) : FrameLimits where
  frameMs := ((given.lookup "frame-ms").bind fun s => Decimal.float? s.toList).getD 16.0
  maxFrames := ((given.lookup "max-frames").bind word?).getD 10000

/-- The choices given, in order. -/
def choicesOf (given : List (String × String)) : List Nat :=
  given.filterMap fun (name, value) => if name = "choice" then word? value else none

/-- Reads the options of a run. -/
def ofRun (arguments : List String) : Except Usage Invocation := do
  let given ← collect runFlags [] arguments
  let eventsDir ← needed given "events-dir"
  pure (.run eventsDir (given.lookup "entry") (limitsOf given) (choicesOf given))

/-- Reads the options of a start. -/
def ofStart (arguments : List String) : Except Usage Invocation := do
  let given ← collect startFlags [] arguments
  let eventsDir ← needed given "events-dir"
  let stateOut ← needed given "state-out"
  pure (.start eventsDir (given.lookup "entry") (limitsOf given) stateOut)

/-- Reads the options of a resumption. -/
def ofResume (arguments : List String) : Except Usage Invocation := do
  let given ← collect resumeFlags [] arguments
  let stateIn ← needed given "state-in"
  let stateOut ← needed given "state-out"
  pure (.resume stateIn (choicesOf given).head? (limitsOf given) stateOut)

/-- Reads a request for help about a command. -/
def ofHelp : List String → Except Usage Invocation
  | [] | ["help"] | ["run"] | ["agent"] | ["agent", "help"] | ["agent", "start"]
  | ["agent", "resume"] => .error .help
  | _ => .error .wrong

/-- Reads a request for help about a command of an agent. -/
def ofAgentHelp : List String → Except Usage Invocation
  | [] | ["help"] | ["start"] | ["resume"] => .error .help
  | _ => .error .wrong

/-- What arguments ask for. -/
def ofArguments : List String → Except Usage Invocation
  | "run" :: rest => ofRun rest
  | "agent" :: "start" :: rest => ofStart rest
  | "agent" :: "resume" :: rest => ofResume rest
  | "agent" :: "help" :: rest => ofAgentHelp rest
  | "help" :: rest => ofHelp rest
  | "agent" :: argument :: _ => if isHelp argument then .error .help else .error .wrong
  | argument :: _ => if isHelp argument then .error .help else .error .wrong
  | [] => .error .wrong

end Invocation

end Cutscene
