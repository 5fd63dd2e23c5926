import Cutscene.Scheduler.Basic
/-!
# Scheduler — snapshots

A snapshot is what a scheduler can be rebuilt from over the same events:
the variables, the random state, the next number, and every context with its
places. A place is told by the text of a program's key, the program's length
and the index, so that one that no longer fits is noticed. Lists stand in
order, the outermost first.

`Scheduler.snapshot` takes a snapshot, and `Scheduler.restore` rebuilds from
one. Objects, the clock and the calls made are not part of it.
-/

namespace Cutscene

/-- A place, told without the program itself. -/
structure Pointer where
  program : String
  length : Nat
  index : Nat
  deriving DecidableEq, Repr, Inhabited

/-- A context in a snapshot, which runs, is paused or waits. -/
inductive SavedState where
  | running
  | paused
  | waiting (remainingMs : Float)
  deriving Inhabited

/-- Where a called event returns to, and its caller's parameters. -/
structure SavedCall where
  position : Pointer
  parameters : Attributes
  deriving Inhabited

/-- A context in a snapshot. -/
structure SavedContext where
  id : EventId
  eventName : String
  root : Pointer
  position : Pointer
  callStack : List SavedCall
  jumpReturns : List Pointer
  attributes : Attributes
  forEach : List Iteration
  state : SavedState
  boundary : Option Boundary
  choice : Option Nat
  ambient : Ambient
  deriving Inhabited

/-- What a scheduler can be rebuilt from. -/
structure Snapshot where
  schemaVersion : String
  compilerVersion : String
  globals : Attributes
  selfVars : Table String Attributes
  rngState : UInt32
  nextEventId : Nat
  contexts : List SavedContext
  deriving Inhabited

/-- The version of the form of snapshots. -/
def Snapshot.schema : String := "event-snapshot.v1"

/-! ## As JSON -/

/-- The pointer as JSON. -/
def Pointer.encode (p : Pointer) : Json :=
  .object [("program", .string p.program), ("length", .ofNat p.length), ("index", .ofNat p.index)]

/-- The pointer of a JSON value. -/
def Pointer.decode? (j : Json) : Option Pointer := do
  let r ← j.plainRecord? ["program", "length", "index"]
  let program ← r.required "program" Json.string?
  let length ← r.required "length" Json.word64?
  let index ← r.required "index" Json.word64?
  pure ⟨program, length, index⟩

/-- The iteration as JSON. -/
def Iteration.encode (i : Iteration) : Json :=
  .object [("list", .ofList Value.encode i.items.toList), ("index", .ofNat i.index)]

/-- The iteration of a JSON value. -/
def Iteration.decode? (j : Json) : Option Iteration := do
  let r ← j.plainRecord? ["list", "index"]
  let items ← r.required "list" (Json.list? (Json.whole? Value.decode?))
  let index ← r.required "index" Json.word64?
  pure ⟨items.toArray, index⟩

/-- The call as JSON. -/
def SavedCall.encode (c : SavedCall) : Json :=
  .object [("position", c.position.encode), ("parameters", c.parameters.encode)]

/-- The call of a JSON value. -/
def SavedCall.decode? (j : Json) : Option SavedCall := do
  let r ← j.plainRecord? ["position", "parameters"]
  let position ← r.required "position" Pointer.decode?
  let parameters ← r.required "parameters" Attributes.decode?
  pure ⟨position, parameters⟩

/-- The state as JSON. -/
def SavedState.encode : SavedState → Json
  | .running => .tagged "kind" "running" []
  | .paused => .tagged "kind" "paused" []
  | .waiting remainingMs => .tagged "kind" "waiting" [("remainingMs", .ofFloat remainingMs)]

/-- The state of a JSON value. -/
def SavedState.decode? (j : Json) : Option SavedState := do
  let (tag, content) ← j.variant? "kind" []
  match tag with
  | "running" => if content.isBare then pure .running else none
  | "paused" => if content.isBare then pure .paused else none
  | "waiting" =>
    let r ← content.plainRecord? ["remainingMs"]
    let remainingMs ← r.required "remainingMs" Json.float?
    pure (.waiting remainingMs)
  | _ => none

/-- The context as JSON. -/
def SavedContext.encode (c : SavedContext) : Json :=
  .object
    [("id", c.id.encode), ("eventName", .string c.eventName), ("root", c.root.encode),
     ("position", c.position.encode), ("callStack", .ofList SavedCall.encode c.callStack),
     ("jumpReturns", .ofList Pointer.encode c.jumpReturns), ("attributes", c.attributes.encode),
     ("forEach", .ofList Iteration.encode c.forEach), ("state", c.state.encode),
     ("boundary", .ofOption Boundary.encode c.boundary), ("choice", .ofOption .ofNat c.choice),
     ("ambient", c.ambient.encode)]

/-- The context of a JSON value. -/
def SavedContext.decode? (j : Json) : Option SavedContext := do
  let r ← j.plainRecord?
    ["id", "eventName", "root", "position", "callStack", "jumpReturns", "attributes", "forEach",
     "state", "boundary", "choice", "ambient"]
  let id ← r.required "id" EventId.decode?
  let eventName ← r.required "eventName" Json.string?
  let root ← r.required "root" Pointer.decode?
  let position ← r.required "position" Pointer.decode?
  let callStack ← r.required "callStack" (Json.list? SavedCall.decode?)
  let jumpReturns ← r.required "jumpReturns" (Json.list? Pointer.decode?)
  let attributes ← r.required "attributes" Attributes.decode?
  let forEach ← r.required "forEach" (Json.list? Iteration.decode?)
  let state ← r.required "state" (Json.whole? SavedState.decode?)
  let boundary ← r.optional "boundary" (Json.whole? Boundary.decode?)
  let choice ← r.optional "choice" Json.word64?
  let ambient ← r.required "ambient" Ambient.decode?
  pure ⟨id, eventName, root, position, callStack, jumpReturns, attributes, forEach, state,
    boundary, choice, ambient⟩

/-- The snapshot as JSON. -/
def Snapshot.encode (s : Snapshot) : Json :=
  .object
    [("schemaVersion", .string s.schemaVersion), ("compilerVersion", .string s.compilerVersion),
     ("globals", s.globals.encode), ("selfVars", .ofTable Attributes.encode s.selfVars),
     ("rngState", .ofNat s.rngState.toNat), ("nextEventId", .ofNat s.nextEventId),
     ("contexts", .ofList SavedContext.encode s.contexts)]

/-- The snapshot of a JSON value. -/
def Snapshot.decode? (j : Json) : Option Snapshot := do
  let r ← j.plainRecord?
    ["schemaVersion", "compilerVersion", "globals", "selfVars", "rngState", "nextEventId",
     "contexts"]
  let schemaVersion ← r.required "schemaVersion" Json.string?
  let compilerVersion ← r.required "compilerVersion" Json.string?
  let globals ← r.required "globals" Attributes.decode?
  let selfVars ← r.required "selfVars" (Json.table? Attributes.decode?)
  let rngState ← r.required "rngState" Json.word32?
  let nextEventId ← r.required "nextEventId" Json.word64?
  let contexts ← r.required "contexts" (Json.list? SavedContext.decode?)
  pure ⟨schemaVersion, compilerVersion, globals, selfVars, .ofNat rngState, nextEventId,
    contexts⟩

/-! ## Taking -/

/-- Why a snapshot cannot be taken, or nothing rebuilt from one. -/
inductive SnapshotError where
  /-- The context is at its end. -/
  | finished (id : EventId)
  /-- The form is of another version. -/
  | schema (found : String)
  /-- The programs are of another version. -/
  | version (found expected : String)
  /-- There is no program of the name. -/
  | missing (program : String)
  /-- The program has another length, or none of its steps has the index. -/
  | mismatch (length : Nat) (pointer : Pointer)
  deriving DecidableEq, Repr

/-- What is told of the error. -/
def SnapshotError.report : SnapshotError → Report
  | .finished id =>
    .of "SNAPSHOT_CONTEXT_FINISHED" ("Context " ++ id.text ++ " already finished.")
  | .schema found =>
    .of "SNAPSHOT_SCHEMA"
      ("Unsupported snapshot schema \"" ++ found ++ "\"; expected \"" ++ Snapshot.schema ++ "\".")
  | .version found expected =>
    .of "SNAPSHOT_COMPILER_VERSION"
      ("Snapshot compiler version \"" ++ found ++ "\" does not match \"" ++ expected ++ "\".")
  | .missing program =>
    .of "SNAPSHOT_PROGRAM_MISMATCH" ("Program \"" ++ program ++ "\" no longer exists.")
  | .mismatch length p =>
    .of "SNAPSHOT_PROGRAM_MISMATCH"
      ("Program \"" ++ p.program ++ "\" has " ++ toString length ++
        " steps, snapshot recorded " ++ toString p.length ++ " (index " ++ toString p.index ++ ").")

/-- The number of steps of the program under a key. -/
def Engine.length (e : Engine) (key : BodyKey) : Nat :=
  ((e.program? key).map (·.steps.size)).getD 0

/-- The pointer to a place. -/
def Engine.pointer (e : Engine) (place : Place) : Pointer :=
  ⟨place.program.text, e.length place.program, place.index⟩

/-- The context as a snapshot has it. -/
def Context.save (e : Engine) (c : Context) : Except SnapshotError SavedContext :=
  let save (state : SavedState) : Except SnapshotError SavedContext :=
    .ok
      { id := c.id
        eventName := c.name
        root := e.pointer ⟨c.root, 0⟩
        position := e.pointer c.place
        callStack := c.calls.reverse.map fun call => ⟨e.pointer call.place, call.parameters⟩
        jumpReturns := c.returns.reverse.map e.pointer
        attributes := c.attributes
        forEach := c.iterations.reverse
        state
        boundary := c.boundary
        choice := c.choice
        ambient := c.ambient }
  match c.state with
  | .running => save .running
  | .paused => save .paused
  | .waiting remainingMs => save (.waiting remainingMs)
  | .finished => .error (.finished c.id)

/-- A snapshot of the scheduler. -/
def Scheduler.snapshot (s : Scheduler) : Except SnapshotError Snapshot := do
  let contexts ← s.contexts.mapM (Context.save s.engine)
  pure
    { schemaVersion := Snapshot.schema
      compilerVersion := s.engine.compilerVersion
      globals := s.world.globals
      selfVars := s.world.selfVars
      rngState := s.world.random.state
      nextEventId := s.world.nextEventId
      contexts }

/-! ## Rebuilding -/

/-- The place a pointer tells, if its program is as it was. -/
def Engine.place (e : Engine) (p : Pointer) : Except SnapshotError Place :=
  match e.programOfText? p.program with
  | none => .error (.missing p.program)
  | some program =>
    if program.steps.size ≠ p.length ∨ program.steps.size < p.index then
      .error (.mismatch program.steps.size p)
    else .ok ⟨program.key, p.index⟩

/-- The context as it was. -/
def SavedContext.load (e : Engine) (c : SavedContext) : Except SnapshotError Context := do
  let root ← e.place c.root
  let place ← e.place c.position
  let calls ← c.callStack.mapM fun call => do
    pure (⟨← e.place call.position, call.parameters⟩ : CallFrame)
  let returns ← c.jumpReturns.mapM e.place
  pure
    { id := c.id
      name := c.eventName
      root := root.program
      place
      calls := calls.reverse
      returns := returns.reverse
      attributes := c.attributes
      iterations := c.forEach.reverse
      state := match c.state with
        | .running => .running
        | .paused => .paused
        | .waiting remainingMs => .waiting remainingMs
      ambient := c.ambient
      boundary := c.boundary
      choice := c.choice }

/-- A scheduler rebuilt from a snapshot, its world otherwise fresh. -/
def Scheduler.restore (e : Engine) (s : Snapshot) : Except SnapshotError Scheduler := do
  if s.schemaVersion ≠ Snapshot.schema then .error (.schema s.schemaVersion)
  else if s.compilerVersion ≠ e.compilerVersion then
    .error (.version s.compilerVersion e.compilerVersion)
  else
    let contexts ← s.contexts.mapM (SavedContext.load e)
    pure
      { engine := e
        world := { World.fresh s.rngState with
          globals := s.globals
          selfVars := s.selfVars
          nextEventId := max s.nextEventId 1 }
        contexts }

end Cutscene
