import Cutscene.Event.HostCall
import Cutscene.Program.Layout
import Cutscene.Random
import Cutscene.Scene.Store
/-!
# Running — contexts, the world, the machine

A context is one running event: where it is, where it returns to, its
variables, and why it stands still if it does. The world is what all contexts
share. A machine is a context and the world it runs in; every step of a
program changes a machine. The engine is what does not change: the events
made into programs, the handlers of custom instructions, and the limits.
-/

namespace Cutscene

/-- Is a context running, and if not, why? -/
inductive RunState where
  | running
  | paused
  | waiting (remainingMs : Float)
  | finished
  deriving DecidableEq, Inhabited

/-- Times in descriptions: powers of ten from -4 to 15 are written
positionally and keep their point. -/
def times : Decimal.Layout := ⟨some (-4, 15), true, false, .away⟩

/-- The state described. -/
def RunState.text : RunState → String
  | .running => "Running"
  | .paused => "Paused"
  | .waiting remainingMs => "Waiting \x7b remaining_ms: " ++ times.render remainingMs ++ " \x7d"
  | .finished => "Finished"

/-- Is it the running state? -/
def RunState.isRunning : RunState → Bool
  | .running => true
  | _ => false

/-- Is it the paused state? -/
def RunState.isPaused : RunState → Bool
  | .paused => true
  | _ => false

/-- Is it the finished state? -/
def RunState.isFinished : RunState → Bool
  | .finished => true
  | _ => false

/-- A list gone through, and the index of the current item. -/
structure Iteration where
  items : Array Value
  index : Nat
  deriving Inhabited

/-- The current item. -/
def Iteration.current? (i : Iteration) : Option Value := i.items[i.index]?

/-- The list with the next item current. Indexes have 64 bits, and the first
follows the greatest. -/
def Iteration.next (i : Iteration) : Iteration := { i with index := (i.index + 1) % UInt64.size }

/-- Where a called event returns to, and its caller's parameters. -/
structure CallFrame where
  place : Place
  parameters : Attributes
  deriving Inhabited

/-- A running event. The innermost call, return and iteration stand first in
their lists. -/
structure Context where
  id : EventId
  name : String
  root : BodyKey
  place : Place
  calls : List CallFrame
  returns : List Place
  attributes : Attributes
  iterations : List Iteration
  state : RunState
  ambient : Ambient
  boundary : Option Boundary
  choice : Option Nat
  deriving Inhabited

namespace Context

/-- A context about to run a body from its start. -/
def start (id : EventId) (name : String) (root : BodyKey) (ambient : Ambient) : Context :=
  ⟨id, name, root, ⟨root, 0⟩, [], [], .empty, [], .running, ambient, none, none⟩

/-- The context at its end. -/
def finish (c : Context) : Context :=
  { c with state := .finished, calls := [], returns := [], iterations := [], boundary := none }

/-- The paused context running again; nothing if it is not paused. -/
def wake? (c : Context) : Option Context :=
  if c.state.isPaused then some { c with state := .running, boundary := none } else none

/-- The context paused. -/
def pause (c : Context) (why : Boundary) : Context :=
  { c with state := .paused, boundary := some why }

/-- The context waiting; a time that is negative or not finite is none. -/
def wait (c : Context) (ms : Float) : Context :=
  { c with state := .waiting (if ms.isFinite && 0.0 < ms then ms else 0.0) }

/-- The context at another place. -/
def goto (c : Context) (place : Place) : Context := { c with place }

end Context

/-- What all contexts share. -/
structure World where
  globals : Attributes
  /-- The variables of objects, by instance key. -/
  selfVars : Table String Attributes
  objects : Store
  random : Random
  /-- The calls made to the host, the last one first. -/
  trace : List HostCall
  /-- Contexts that were spawned and did not finish, the last one first. -/
  spawned : List Context
  /-- Contexts asked to resume, the last one first. -/
  resumes : List EventId
  /-- Objects removed, the last one first. -/
  destroyed : List ObjectId
  nextEventId : Nat
  elapsedMs : Float
  frame : Nat
  /-- The late steps that have run. -/
  bound : List Place
  deriving Inhabited

namespace World

/-- The world before anything happened, from a seed. -/
def fresh (seed : UInt32) : World :=
  ⟨.empty, .empty, .empty, ⟨seed⟩, [], [], [], [], 1, 0.0, 0, []⟩

/-- The world with one more call to the host. -/
def call (w : World) (c : HostCall) : World := { w with trace := c :: w.trace }

/-- The world with an object and everything below it removed, and their
variables with them; the numbers of what was removed. -/
def destroyObject (w : World) (id : ObjectId) : List ObjectId × World :=
  let (removed, objects) := w.objects.remove id
  let ids := removed.map (·.id)
  (ids,
    { w with
      objects
      selfVars := removed.foldl (fun vars o => vars.erase o.instanceKey) w.selfVars
      destroyed := ids.reverse ++ w.destroyed })

/-- A new number for a context, and the world that has handed it out. -/
def allocate (w : World) : EventId × World :=
  let id : EventId := ⟨w.nextEventId⟩
  (id, { w with nextEventId := id.next.val })

/-- The world asked to resume a context. -/
def requestResume (w : World) (id : EventId) : World := { w with resumes := id :: w.resumes }

end World

/-- A context and the world it runs in. -/
structure Machine where
  context : Context
  world : World
  deriving Inhabited

/-- Does control go on after a step, or does the context stop here? -/
inductive Flow where
  | next
  | stop
  deriving DecidableEq, Repr, Inhabited

/-- What a handler of a custom instruction does. -/
abbrev Handler := Arguments → Machine → Flow × Machine

/-- What does not change while events run. -/
structure Engine where
  library : Library
  events : Table String Compiled
  handlers : Table String Handler
  /-- How many steps a context runs at a time. -/
  stepBudget : Nat
  compilerVersion : String
  /-- Does the host take its time with a call for an animation, a movement or a
  skill? -/
  deferred : HostCall → Bool
  /-- How deeply contexts may spawn each other before any of them stands
  still; beyond that a run has no result. -/
  spawnDepth : Nat
  deriving Inhabited

namespace Engine

/-- The version of the programs that a snapshot belongs to. -/
def defaultVersion : String := "event-compiler.v1"

/-- How many steps a context runs at a time unless told otherwise. -/
def defaultBudget : Nat := 10000

/-- How deeply contexts may spawn each other. -/
def defaultSpawnDepth : Nat := 1000000

/-- The engine of a library. -/
def ofLibrary (library : Library) : Engine where
  library := library
  events := .ofList (library.events.entries.map fun (name, e) =>
    (name, .ofEvent library.environment e))
  handlers := .empty
  stepBudget := defaultBudget
  compilerVersion := defaultVersion
  deferred _ := false
  spawnDepth := defaultSpawnDepth

/-- The engine with another step budget, which is at least one. -/
def withBudget (e : Engine) (budget : Nat) : Engine := { e with stepBudget := max budget 1 }

/-- The event of a name, made into programs. -/
def event? (e : Engine) (name : String) : Option Compiled := e.events.get? name

/-- The program under a key. -/
def program? (e : Engine) (key : BodyKey) : Option Program :=
  (e.event? key.event).bind (·.program? key)

/-- The step at a place. -/
def step? (e : Engine) (place : Place) : Option Step :=
  (e.program? place.program).bind (·.steps[place.index]?)

/-- The program whose key has a text. -/
def programOfText? (e : Engine) (text : String) : Option Program :=
  (e.event? (BodyKey.eventOfText text)).bind (·.programOfText? text)

end Engine

end Cutscene
