import Cutscene.Run.Action
/-!
# Running — effects

Whatever operands, conditions and actions do to a machine, apart from where
control stands, is a row of effects: variables are set, a number is drawn, the
host is called, objects are created, changed or destroyed, a context is asked
to resume (`Machine.after`).

Two machines are alike when they have the same variables, objects, random
state and circumstances (`Machine.Alike`); where their contexts stand and what
their clocks show may differ. A computation is traced when it has a row of
effects from every machine, and, if it does not look at the clock, the same
row and the same result from every machine that is alike (`Act.Traced`). So a
frame property is read off the effects one by one, and two runs are compared
without opening an action again.
-/

namespace Cutscene

/-- A change that a computation makes to a machine. -/
inductive Effect where
  | locals (vars : Attributes)
  | globals (vars : Attributes)
  | selfVars (id : ObjectId) (vars : Attributes)
  | random (r : Random)
  | call (c : HostCall)
  | attributes (id : ObjectId) (vars : Attributes)
  | label (id : ObjectId) (key slot : Option String)
  | create (kind : ObjectKind) (dataId : String) (parent : Option ObjectId)
  | destroy (id : ObjectId)
  | requestResume (id : EventId)

/-- The store with a new object, below a parent or below none; as it was if
the parent is gone. -/
def Store.grow (s : Store) (kind : ObjectKind) (dataId : String) : Option ObjectId → Store
  | some parent => ((s.createChild? parent kind dataId).map (·.2)).getD s
  | none => (s.create kind dataId).2

namespace Effect

/-- The machine with the change made. -/
def apply (m : Machine) : Effect → Machine
  | .locals vars => { m with context.attributes := vars }
  | .globals vars => { m with world.globals := vars }
  | .selfVars id vars =>
    match m.world.objects.get? id with
    | none => m
    | some o => { m with world.selfVars := m.world.selfVars.insert o.instanceKey vars }
  | .random r => { m with world.random := r }
  | .call c => { m with world := m.world.call c }
  | .attributes id vars =>
    { m with world.objects := m.world.objects.modify id fun o => { o with attributes := vars } }
  | .label id key slot =>
    { m with world.objects := m.world.objects.modify id fun o => { o with key, slot } }
  | .create kind dataId parent =>
    { m with world.objects := m.world.objects.grow kind dataId parent }
  | .destroy id => (m.destroyObject id).2
  | .requestResume id => { m with world := m.world.requestResume id }

/-- Does the effect create an object below none? -/
def isRooting : Effect → Bool
  | .create _ _ none => true
  | _ => false

/-- May a context with the owner have the effect? It writes the variables of
no other object, and creates none below none if it is rootless. -/
def Fits (rootless : Prop) (owner : Option ObjectId) : Effect → Prop
  | .selfVars id _ => owner = some id
  | .create _ _ none => ¬ rootless
  | _ => True

theorem Fits.isRooting_eq {rootless : Prop} {owner : Option ObjectId} {x : Effect}
    (h : x.Fits rootless owner) (hr : rootless) : x.isRooting = false := by
  cases x with
  | create kind dataId parent =>
    cases parent with
    | none => exact absurd hr h
    | some parent => rfl
  | _ => rfl

end Effect

namespace Machine

/-- The machine after a row of effects. -/
def after (m : Machine) (es : List Effect) : Machine := es.foldl Effect.apply m

@[simp] theorem after_nil (m : Machine) : m.after [] = m := rfl

@[simp] theorem after_cons (m : Machine) (x : Effect) (es : List Effect) :
    m.after (x :: es) = (x.apply m).after es := rfl

theorem after_append (m : Machine) (es es' : List Effect) :
    m.after (es ++ es') = (m.after es).after es' :=
  List.foldl_append

/-! ## What an effect leaves -/

theorem createObject?_eq (m : Machine) (kind : ObjectKind) (dataId : String)
    (parent : Option ObjectId) :
    ((m.createObject? kind dataId parent).map (·.2)).getD m =
      Effect.apply m (.create kind dataId parent) := by
  cases parent with
  | none => rfl
  | some parent =>
    -- a parent that is gone makes nothing, and the effect leaves the machine
    simp only [createObject?, Effect.apply, Store.grow]
    cases m.world.objects.createChild? parent kind dataId <;> rfl

/-- **An effect leaves the context as it is, but for its variables.** -/
theorem context_apply (m : Machine) (x : Effect) :
    (x.apply m).context = { m.context with attributes := (x.apply m).context.attributes } := by
  cases x with
  | selfVars id vars =>
    simp only [Effect.apply]
    split <;> rfl
  | _ => rfl

theorem context_after (m : Machine) (es : List Effect) :
    (m.after es).context = { m.context with attributes := (m.after es).context.attributes } := by
  induction es generalizing m with
  | nil => rfl
  | cons x es ih =>
    rw [after_cons, ih, context_apply]

theorem ambient_after (m : Machine) (es : List Effect) :
    (m.after es).context.ambient = m.context.ambient := by
  rw [context_after]

/-- What an effect leaves of the world: the contexts spawned, the numbers
handed out, the clock and the steps bound. -/
theorem world_apply (m : Machine) (x : Effect) :
    (x.apply m).world.spawned = m.world.spawned ∧
      (x.apply m).world.nextEventId = m.world.nextEventId ∧
      (x.apply m).world.elapsedMs = m.world.elapsedMs ∧
      (x.apply m).world.frame = m.world.frame ∧
      (x.apply m).world.bound = m.world.bound := by
  cases x with
  | selfVars id vars =>
    simp only [Effect.apply]
    split <;> exact ⟨rfl, rfl, rfl, rfl, rfl⟩
  | _ => exact ⟨rfl, rfl, rfl, rfl, rfl⟩

theorem world_after (m : Machine) (es : List Effect) :
    (m.after es).world.spawned = m.world.spawned ∧
      (m.after es).world.nextEventId = m.world.nextEventId ∧
      (m.after es).world.elapsedMs = m.world.elapsedMs ∧
      (m.after es).world.frame = m.world.frame ∧
      (m.after es).world.bound = m.world.bound := by
  induction es generalizing m with
  | nil => exact ⟨rfl, rfl, rfl, rfl, rfl⟩
  | cons x es ih =>
    obtain ⟨h1, h2, h3, h4, h5⟩ := m.world_apply x
    obtain ⟨h1', h2', h3', h4', h5'⟩ := ih (x.apply m)
    exact ⟨h1'.trans h1, h2'.trans h2, h3'.trans h3, h4'.trans h4, h5'.trans h5⟩

/-! ## Machines that are alike -/

/-- The machines have the same variables, objects, random state and
circumstances. -/
structure Alike (m m' : Machine) : Prop where
  id : m.context.id = m'.context.id
  name : m.context.name = m'.context.name
  attributes : m.context.attributes = m'.context.attributes
  ambient : m.context.ambient = m'.context.ambient
  globals : m.world.globals = m'.world.globals
  selfVars : m.world.selfVars = m'.world.selfVars
  objects : m.world.objects = m'.world.objects
  random : m.world.random = m'.world.random

namespace Alike

variable {m m' : Machine}

/-- The same effect leaves machines alike. -/
theorem apply (h : m.Alike m') (x : Effect) : (x.apply m).Alike (x.apply m') := by
  obtain ⟨h1, h2, h3, h4, h5, h6, h7, h8⟩ := h
  cases x with
  | locals vars => exact ⟨h1, h2, rfl, h4, h5, h6, h7, h8⟩
  | globals vars => exact ⟨h1, h2, h3, h4, rfl, h6, h7, h8⟩
  | selfVars id vars =>
    have hget : m.world.objects.get? id = m'.world.objects.get? id := by rw [h7]
    simp only [Effect.apply, hget]
    cases m'.world.objects.get? id with
    | none => exact ⟨h1, h2, h3, h4, h5, h6, h7, h8⟩
    | some o => exact ⟨h1, h2, h3, h4, h5, by simp only [h6], h7, h8⟩
  | random r => exact ⟨h1, h2, h3, h4, h5, h6, h7, rfl⟩
  | call c => exact ⟨h1, h2, h3, h4, h5, h6, h7, h8⟩
  | requestResume id => exact ⟨h1, h2, h3, h4, h5, h6, h7, h8⟩
  | attributes id vars =>
    exact ⟨h1, h2, h3, h4, h5, h6, by simp only [Effect.apply, h7], h8⟩
  | label id key slot => exact ⟨h1, h2, h3, h4, h5, h6, by simp only [Effect.apply, h7], h8⟩
  | destroy id =>
    refine ⟨h1, h2, h3, h4, h5, ?_, ?_, h8⟩ <;>
      simp only [Effect.apply, destroyObject, World.destroyObject, h6, h7]
  | create kind dataId parent =>
    exact ⟨h1, h2, h3, h4, h5, h6, by simp only [Effect.apply, h7], h8⟩

theorem after (h : m.Alike m') (es : List Effect) : (m.after es).Alike (m'.after es) := by
  induction es generalizing m m' with
  | nil => exact h
  | cons x es ih => exact ih (h.apply x)

end Alike

end Machine

end Cutscene
