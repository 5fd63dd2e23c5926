import Cutscene.Scheduler.Snapshot
/-!
# Scheduler — operations and reachable states

`Operation` gathers what a host can do to a scheduler: start an event, let a
frame pass, resume, choose, stop, destroy an object, take a snapshot, and
edit the world between two of these. `Scheduler.Reachable` is what comes of
any sequence of them over an engine, restoring the scheduler's own snapshots
included.

Operations that run contexts first change the scheduler and then reconcile
(`Operation.Prepares`).
-/

namespace Cutscene

/-- What a host does to the world between operations. -/
inductive HostEdit where
  | requestResume (id : EventId)
  | destroyLater (id : ObjectId)
  | drawUnit
  | drawBelow (bound : Nat)
  | setGlobal (key : String) (value : Value)
  | setAttribute (id : ObjectId) (key : String) (value : Value)
  | create (kind : ObjectKind) (dataId : String) (parent : Option ObjectId)
      (key slot : Option String)
  | attach (parent child : ObjectId)
  | joinParty (actor : ObjectId)

/-- What a host does to a scheduler. -/
inductive Operation where
  | start (event : String) (ambient : Ambient)
  | update (deltaMs : Float)
  | resume (id : EventId)
  | choose (id : EventId) (index : Nat)
  | stop (id : EventId)
  | destroy (id : ObjectId)
  | edit (change : HostEdit)
  | snapshot

/-- What an operation answers. -/
inductive Reply where
  | started (result : Except SchedulerError EventId)
  | chosen (result : Except SchedulerError Unit)
  | flag (b : Bool)
  | removed (ids : List ObjectId)
  | unit (x : Float)
  | below (n : Nat)
  | created (id : Option ObjectId)
  | snapshot (result : Except SnapshotError Snapshot)
  | done

/-- The world with a new object, if its parent is there. -/
def World.create (w : World) (kind : ObjectKind) (dataId : String) (parent : Option ObjectId)
    (key slot : Option String) : Option ObjectId × World :=
  let created := match parent with
    | some parent => w.objects.createChild? parent kind dataId
    | none => some (w.objects.create kind dataId)
  match created with
  | none => (none, w)
  | some (id, objects) =>
    (some id, { w with objects := objects.modify id fun o => { o with key, slot } })

/-- What a host's edit answers, and the world after it. -/
def HostEdit.run (w : World) : HostEdit → Reply × World
  | .requestResume id => (.done, w.requestResume id)
  | .destroyLater id => (.removed (w.destroyObject id).1, (w.destroyObject id).2)
  | .drawUnit => (.unit w.random.unit.1, { w with random := w.random.unit.2 })
  | .drawBelow bound =>
    (.below (w.random.below bound).1, { w with random := (w.random.below bound).2 })
  | .setGlobal key value => (.done, { w with globals := w.globals.insert key value })
  | .setAttribute id key value =>
    (.done, { w with objects :=
      w.objects.modify id fun o => { o with attributes := o.attributes.insert key value } })
  | .create kind dataId parent key slot =>
    (.created (w.create kind dataId parent key slot).1, (w.create kind dataId parent key slot).2)
  | .attach parent child =>
    match w.objects.attach? parent child with
    | none => (.flag false, w)
    | some objects => (.flag true, { w with objects })
  | .joinParty actor => (.done, { w with objects := w.objects.joinParty actor })

namespace Operation

/-- Runs an operation: what it answers, and the scheduler after it. -/
def run (s : Scheduler) : Operation → Option (Reply × Scheduler)
  | .start event ambient => (s.start event ambient).map fun (r, s) => (.started r, s)
  | .update deltaMs => (s.update deltaMs).map fun s => (.done, s)
  | .resume id => (s.resume id).map fun (b, s) => (.flag b, s)
  | .choose id index => (s.choose id index).map fun (r, s) => (.chosen r, s)
  | .stop id => (s.stop id).map fun (b, s) => (.flag b, s)
  | .destroy id => (s.destroyObject id).map fun (ids, s) => (.removed ids, s)
  | .edit change => some ((change.run s.world).1, { s with world := (change.run s.world).2 })
  | .snapshot => some (.snapshot s.snapshot, s)

/-- Does the operation have a result of which this holds? -/
def leads (op : Operation) (s : Scheduler) (p : Reply → Scheduler → Bool) : Bool :=
  (op.run s).any fun x => p x.1 x.2

theorem exists_of_leads {op : Operation} {s : Scheduler} {p : Reply → Scheduler → Bool}
    (h : op.leads s p) : ∃ r s', op.run s = some (r, s') ∧ p r s' := by
  obtain ⟨⟨r, s'⟩, hrun, hp⟩ := (Option.any_eq_true _ _).1 h
  exact ⟨r, s', hrun, hp⟩

/-- Runs operations in order: what they answer, and the scheduler after them. -/
def runAll (s : Scheduler) : List Operation → Option (List Reply × Scheduler)
  | [] => some ([], s)
  | op :: ops =>
    match op.run s with
    | none => none
    | some (r, s) => (runAll s ops).map fun (rs, s) => (r :: rs, s)

theorem runAll_append {s : Scheduler} (ops more : List Operation) :
    runAll s (ops ++ more) =
      (runAll s ops).bind fun (rs, s) => (runAll s more).map fun (rs', s) => (rs ++ rs', s) := by
  induction ops generalizing s with
  | nil => simp [runAll]
  | cons op ops ih =>
    rw [List.cons_append, runAll, runAll]
    cases op.run s with
    | none => rfl
    | some x =>
      simp only [ih, Option.map_bind, Option.bind_map, Function.comp_def, Option.map_map,
        List.cons_append]

/-- The circumstances of an event that a host starts. -/
def startAmbient (ambient : Ambient) (event : Compiled) : Ambient :=
  { ambient with parameters := ambient.parameters.fill event.parameters }

/-- What an operation that runs contexts makes of a scheduler before it
reconciles. -/
inductive Prepares (s : Scheduler) : Operation → Scheduler → Prop
  | start {name : String} {ambient : Ambient} {event : Compiled} {m : Machine}
      (h : s.engine.event? name = some event)
      (hm : Machine.advance s.engine
        ⟨.start s.world.allocate.1 name (.root name) (startAmbient ambient event),
          s.world.allocate.2⟩ = some m) :
    Prepares s (.start name ambient)
      { s with world := m.world, contexts := s.contexts ++ [m.context] }
  | update {deltaMs : Float} {contexts : List Context} {world : World}
      (h : Scheduler.advanceAll s.engine deltaMs s.contexts { s.world with
        elapsedMs := s.world.elapsedMs + deltaMs, frame := s.world.frame + 1 } =
          some (contexts, world)) :
    Prepares s (.update deltaMs) { s with contexts, world }
  | resume {id : EventId} {c : Context} {s' : Scheduler}
      (hc : (s.context? id).bind Context.wake? = some c) (h : s.advanceContext c = some s') :
    Prepares s (.resume id) s'
  | choose {id : EventId} {index : Nat} {c : Context} {options : List String} {s' : Scheduler}
      (hc : s.context? id = some c) (hb : c.boundary = some (.choice options))
      (hi : index < options.length)
      (h : s.advanceContext ({ c with choice := some index }.wake?.getD
        { c with choice := some index }) = some s') :
    Prepares s (.choose id index) s'
  | stop {id : EventId} {c : Context} (hc : s.context? id = some c) :
    Prepares s (.stop id) (s.replace id c.finish)
  | destroy (id : ObjectId) :
    Prepares s (.destroy id) { s with world := (s.world.destroyObject id).2 }

end Operation

/-- What a scheduler can come to over an engine, by operations and by
restoring snapshots that were taken on the way. -/
inductive Scheduler.Reachable (e : Engine) : Scheduler → Prop
  | fresh (seed : UInt32) : Reachable e (.fresh e seed)
  | run {s s' : Scheduler} {op : Operation} {r : Reply} (h : Reachable e s)
      (hop : op.run s = some (r, s')) : Reachable e s'
  | restore {s s' : Scheduler} {saved : Snapshot} (h : Reachable e s)
      (hs : s.snapshot = .ok saved) (hr : Scheduler.restore e saved = .ok s') : Reachable e s'

theorem Scheduler.Reachable.runAll {e : Engine} {s s' : Scheduler} {ops : List Operation}
    {rs : List Reply} (h : s.Reachable e) (hrun : Operation.runAll s ops = some (rs, s')) :
    s'.Reachable e := by
  induction ops generalizing s rs with
  | nil =>
    obtain ⟨-, rfl⟩ := Prod.mk.inj (Option.some.inj hrun)
    exact h
  | cons op ops ih =>
    rw [Operation.runAll] at hrun
    split at hrun
    · simp at hrun
    · rename_i r s₁ hop
      obtain ⟨⟨rs₁, s₂⟩, hmore, heq⟩ := Option.map_eq_some_iff.1 hrun
      obtain ⟨-, rfl⟩ := Prod.mk.inj heq
      exact ih (h.run hop) hmore

end Cutscene
