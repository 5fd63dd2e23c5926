import Cutscene.Report
import Cutscene.Run.Advance
/-!
# Scheduler

A scheduler holds the live contexts, in the order they came, and the world.
Every operation that runs a context ends by reconciling: contexts that were
spawned join, requests to resume are met, contexts whose owner was destroyed
finish, and finished contexts are dropped. An operation has no result where
an advance has none.
-/

namespace Cutscene

/-- Why an operation is refused. -/
inductive SchedulerError where
  /-- There is no event of the name. -/
  | unknownEvent (name : String)
  /-- There is no live context with the number. -/
  | unknownContext (id : EventId)
  /-- The context does not wait for a choice. -/
  | noChoice (id : EventId)
  /-- The choice has fewer options. -/
  | choiceIndex (index count : Nat)
  deriving DecidableEq, Repr

/-- What is told of the error. -/
def SchedulerError.report : SchedulerError → Report
  | .unknownEvent name =>
    .of "ENGINE_EVENT_NOT_FOUND" ("Event \"" ++ name ++ "\" is not registered.")
  | .unknownContext id =>
    .of "ENGINE_CONTEXT_NOT_FOUND" ("No live context " ++ id.text ++ ".")
  | .noChoice id =>
    .of "ENGINE_NO_PENDING_CHOICE" ("Context " ++ id.text ++ " is not waiting for a choice.")
  | .choiceIndex index count =>
    .of "ENGINE_CHOICE_INDEX"
      ("Choice index " ++ toString index ++ " is out of range for " ++ toString count ++
        " options.")

/-- The live contexts and the world, under an engine. -/
structure Scheduler where
  engine : Engine
  world : World
  contexts : List Context
  deriving Inhabited

namespace Scheduler

/-- A scheduler without contexts, its world fresh from a seed. -/
def fresh (e : Engine) (seed : UInt32) : Scheduler := ⟨e, .fresh seed, []⟩

/-- The live context with a number. -/
def context? (s : Scheduler) (id : EventId) : Option Context := s.contexts.find? (·.id == id)

/-- The contexts with the one of a number replaced. -/
def replaceIn (id : EventId) (c : Context) : List Context → List Context
  | [] => []
  | old :: rest => if old.id == id then c :: rest else old :: replaceIn id c rest

/-- The scheduler with the context of a number replaced. -/
def replace (s : Scheduler) (id : EventId) (c : Context) : Scheduler :=
  { s with contexts := replaceIn id c s.contexts }

/-- The scheduler after a context of it was advanced. -/
def advanceContext (s : Scheduler) (c : Context) : Option Scheduler :=
  match Machine.advance s.engine ⟨c, s.world⟩ with
  | none => none
  | some m => some ({ s with world := m.world }.replace c.id m.context)

/-! ## Reconciling -/

/-- The scheduler with the contexts that were spawned. -/
def takeSpawned (s : Scheduler) : Scheduler :=
  { s with
    contexts := s.contexts ++ s.world.spawned.reverse
    world := { s.world with spawned := [] } }

/-- Meets a request to resume; a context that is gone or not paused needs
nothing. -/
def meetRequest (s : Scheduler) (id : EventId) : Option Scheduler :=
  match (s.context? id).bind Context.wake? with
  | none => some s
  | some c => s.advanceContext c

/-- Meets requests in order. -/
def meetRequests : List EventId → Scheduler → Option Scheduler
  | [], s => some s
  | id :: rest, s =>
    match s.meetRequest id with
    | none => none
    | some s => meetRequests rest s

/-- How many rounds of requests are met at most. -/
def maxRounds : Nat := 10000

/-- Meets requests, and those that arise from meeting them, for so many
rounds. -/
def meetRounds : Nat → Scheduler → Option Scheduler
  | 0, s => some s
  | rounds + 1, s =>
    let s := s.takeSpawned
    let requests := s.world.resumes.reverse
    let s := { s with world := { s.world with resumes := [] } }
    if requests.isEmpty then some s
    else
      match meetRequests requests s with
      | none => none
      | some s => meetRounds rounds s

/-- Is the context's owner among those destroyed? -/
def isOrphan (destroyed : List ObjectId) (c : Context) : Bool :=
  c.ambient.owner.any destroyed.contains

/-- Finishes the contexts of owners that were destroyed and drops all that
are finished. -/
def sweep (s : Scheduler) : Scheduler :=
  let destroyed := s.world.destroyed
  let finished := s.contexts.map fun c => if isOrphan destroyed c then c.finish else c
  { s with
    contexts := finished.filter fun c => !c.state.isFinished
    world := { s.world with destroyed := [] } }

/-- Folds in what steps and the host have left to do. -/
def reconcile (s : Scheduler) : Option Scheduler :=
  match meetRounds maxRounds s with
  | none => none
  | some s => some ({ s with world := { s.world with resumes := [] } }.takeSpawned.sweep)

/-! ## Operations -/

/-- Starts an event and runs it until it first stops. -/
def start (s : Scheduler) (name : String) (ambient : Ambient) :
    Option (Except SchedulerError EventId × Scheduler) :=
  match s.engine.event? name with
  | none => some (.error (.unknownEvent name), s)
  | some event =>
    let ambient := { ambient with parameters := ambient.parameters.fill event.parameters }
    let (id, world) := s.world.allocate
    match Machine.advance s.engine ⟨.start id name (.root name) ambient, world⟩ with
    | none => none
    | some m =>
      { s with world := m.world, contexts := s.contexts ++ [m.context] }.reconcile.map
        fun s => (.ok id, s)

/-- A context after a frame's time: one that has waited long enough runs. -/
def countDown (deltaMs : Float) (c : Context) : Context :=
  match c.state with
  | .waiting remainingMs =>
    let remainingMs := remainingMs - deltaMs
    { c with state := if remainingMs ≤ 0.0 then .running else .waiting remainingMs }
  | _ => c

/-- Advances the contexts that run, in order, after a frame's time. -/
def advanceAll (e : Engine) (deltaMs : Float) :
    List Context → World → Option (List Context × World)
  | [], w => some ([], w)
  | c :: rest, w =>
    let c := countDown deltaMs c
    if c.state.isRunning then
      match Machine.advance e ⟨c, w⟩ with
      | none => none
      | some m => (advanceAll e deltaMs rest m.world).map fun (cs, w) => (m.context :: cs, w)
    else (advanceAll e deltaMs rest w).map fun (cs, w) => (c :: cs, w)

/-- Lets a frame's time pass. -/
def update (s : Scheduler) (deltaMs : Float) : Option Scheduler :=
  let world := { s.world with
    elapsedMs := s.world.elapsedMs + deltaMs, frame := s.world.frame + 1 }
  match advanceAll s.engine deltaMs s.contexts world with
  | none => none
  | some (contexts, world) => { s with contexts, world }.reconcile

/-- Resumes a paused context; tells whether there was one. -/
def resume (s : Scheduler) (id : EventId) : Option (Bool × Scheduler) :=
  match (s.context? id).bind Context.wake? with
  | none => some (false, s)
  | some c => ((s.advanceContext c).bind reconcile).map fun s => (true, s)

/-- Makes the choice that a context waits for. -/
def choose (s : Scheduler) (id : EventId) (index : Nat) :
    Option (Except SchedulerError Unit × Scheduler) :=
  match s.context? id with
  | none => some (.error (.unknownContext id), s)
  | some c =>
    match c.boundary with
    | some (.choice options) =>
      if options.length ≤ index then some (.error (.choiceIndex index options.length), s)
      else
        let c := { c with choice := some index }
        let c := c.wake?.getD c
        ((s.advanceContext c).bind reconcile).map fun s => (.ok (), s)
    | _ => some (.error (.noChoice id), s)

/-- Stops a context; tells whether there was one. -/
def stop (s : Scheduler) (id : EventId) : Option (Bool × Scheduler) :=
  match s.context? id with
  | none => some (false, s)
  | some c => (s.replace id c.finish).reconcile.map fun s => (true, s)

/-- Destroys an object and finishes the contexts it owns; what was removed. -/
def destroyObject (s : Scheduler) (id : ObjectId) : Option (List ObjectId × Scheduler) :=
  let (removed, world) := s.world.destroyObject id
  { s with world }.reconcile.map fun s => (removed, s)

/-- The scheduler with its world changed by the host. -/
def modifyWorld (s : Scheduler) (change : World → World) : Scheduler :=
  { s with world := change s.world }

end Scheduler

end Cutscene
