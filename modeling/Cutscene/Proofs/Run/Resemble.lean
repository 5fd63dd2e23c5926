import Cutscene.Proofs.Run.Turn
/-!
# Running — worlds that resemble each other

Two worlds resemble each other when they differ in their clocks, in the steps
bound and in the calls made before some moment, but in nothing else
(`World.Resembles`). Every effect keeps them so.

Two machines agree when they run the same event with the same variables in
worlds that resemble each other (`Machine.Agrees`): where control stands and
what the clocks show is all that may differ. A traced computation that does not
look at the clock comes to the same on both, and leaves them agreeing and
control where it was (`Act.Traced.agrees`).
-/

namespace Cutscene

/-- The worlds have the same objects, variables, random state, queues and next
number, and the same calls were made in them since those given. -/
structure World.Resembles (base base' : List HostCall) (w w' : World) : Prop where
  objects : w'.objects = w.objects
  globals : w'.globals = w.globals
  selfVars : w'.selfVars = w.selfVars
  random : w'.random = w.random
  spawned : w'.spawned = w.spawned
  resumes : w'.resumes = w.resumes
  destroyed : w'.destroyed = w.destroyed
  nextEventId : w'.nextEventId = w.nextEventId
  calls : ∃ calls, w.trace = calls ++ base ∧ w'.trace = calls ++ base'

namespace World.Resembles

variable {base base' : List HostCall} {w w' : World}

theorem symm (h : w.Resembles base base' w') : w'.Resembles base' base w := by
  obtain ⟨calls, hcalls, hcalls'⟩ := h.calls
  exact ⟨h.objects.symm, h.globals.symm, h.selfVars.symm, h.random.symm, h.spawned.symm,
    h.resumes.symm, h.destroyed.symm, h.nextEventId.symm, calls, hcalls', hcalls⟩

theorem call (h : w.Resembles base base' w') (c : HostCall) :
    (w.call c).Resembles base base' (w'.call c) := by
  obtain ⟨calls, hcalls, hcalls'⟩ := h.calls
  have hadded : ∃ calls, (w.call c).trace = calls ++ base ∧ (w'.call c).trace = calls ++ base' :=
    ⟨c :: calls, congrArg (c :: ·) hcalls, congrArg (c :: ·) hcalls'⟩
  exact { h with calls := hadded }

theorem requestResume (h : w.Resembles base base' w') (id : EventId) :
    (w.requestResume id).Resembles base base' (w'.requestResume id) :=
  { h with resumes := congrArg (id :: ·) h.resumes }

theorem draw (h : w.Resembles base base' w') (r : Random) :
    World.Resembles base base' { w with random := r } { w' with random := r } :=
  { h with random := rfl }

theorem destroyObject (h : w.Resembles base base' w') (id : ObjectId) :
    (w.destroyObject id).2.Resembles base base' (w'.destroyObject id).2 := by
  simp only [World.destroyObject, h.objects, h.selfVars, h.destroyed]
  exact { h with objects := rfl, selfVars := rfl, destroyed := rfl }

/-- A step that is bound makes no difference. -/
theorem bound (h : w.Resembles base base' w') (step : Step) (place : Place) :
    (w.bind step place).Resembles base base' w' := by
  unfold World.bind
  split <;> exact { h with }

theorem bind (h : w.Resembles base base' w') (step : Step) (place : Place) :
    (w.bind step place).Resembles base base' (w'.bind step place) :=
  -- first the one world takes the step in, then the other
  ((h.bound step place).symm.bound step place).symm

theorem allocate (h : w.Resembles base base' w') :
    w'.allocate.1 = w.allocate.1 ∧ w.allocate.2.Resembles base base' w'.allocate.2 := by
  have hid : w'.allocate.1 = w.allocate.1 := congrArg EventId.mk h.nextEventId
  exact ⟨hid, { h with nextEventId := congrArg (fun id => (EventId.next id).val) hid }⟩

theorem adopt (h : w.Resembles base base' w') (c : Context) :
    (w.adopt c).Resembles base base' (w'.adopt c) := by
  unfold World.adopt
  split
  · exact h
  · exact { h with spawned := congrArg (c :: ·) h.spawned }

/-- **Effects keep worlds resembling each other.** -/
theorem apply {m m' : Machine} (h : m.world.Resembles base base' m'.world) (x : Effect) :
    (x.apply m).world.Resembles base base' (x.apply m').world := by
  cases x with
  | locals vars => exact h
  | globals vars => exact { h with globals := rfl }
  | selfVars id vars =>
    have hget : m'.world.objects.get? id = m.world.objects.get? id := by rw [h.objects]
    simp only [Effect.apply, hget]
    cases m.world.objects.get? id with
    | none => exact h
    | some o =>
      exact { h with selfVars := congrArg (Table.insert · o.instanceKey vars) h.selfVars }
  | random r => exact h.draw r
  | call c => exact h.call c
  | attributes id vars =>
    exact { h with
      objects := congrArg (Store.modify · id fun o => { o with attributes := vars }) h.objects }
  | label id key slot =>
    exact { h with
      objects := congrArg (Store.modify · id fun o => { o with key, slot }) h.objects }
  | create kind dataId parent =>
    exact { h with objects := congrArg (Store.grow · kind dataId parent) h.objects }
  | destroy id => exact h.destroyObject id
  | requestResume id => exact h.requestResume id

theorem after {m m' : Machine} (h : m.world.Resembles base base' m'.world) (es : List Effect) :
    (m.after es).world.Resembles base base' (m'.after es).world := by
  induction es generalizing m m' with
  | nil => exact h
  | cons x es ih => exact ih (h.apply x)

end World.Resembles

/-! ## Machines that agree -/

/-- The machines run the same event with the same variables, in worlds where
the same calls were made to the host and that differ in their clocks and in the
steps bound at most. -/
structure Machine.Agrees (m m' : Machine) : Prop where
  id : m.context.id = m'.context.id
  name : m.context.name = m'.context.name
  attributes : m.context.attributes = m'.context.attributes
  ambient : m.context.ambient = m'.context.ambient
  world : m.world.Resembles [] [] m'.world

namespace Machine.Agrees

variable {m m' : Machine}

theorem refl (m : Machine) : m.Agrees m :=
  ⟨rfl, rfl, rfl, rfl, rfl, rfl, rfl, rfl, rfl, rfl, rfl, rfl, m.world.trace, by simp, by simp⟩

theorem alike (h : m.Agrees m') : m.Alike m' :=
  ⟨h.id, h.name, h.attributes, h.ambient, h.world.globals.symm, h.world.selfVars.symm,
    h.world.objects.symm, h.world.random.symm⟩

/-- The same calls were made to the host. -/
theorem trace (h : m.Agrees m') : m'.world.trace = m.world.trace := by
  obtain ⟨calls, hcalls, hcalls'⟩ := h.world.calls
  rw [hcalls, hcalls']

theorem after (h : m.Agrees m') (es : List Effect) : (m.after es).Agrees (m'.after es) := by
  have halike := h.alike.after es
  exact ⟨halike.id, halike.name, halike.attributes, halike.ambient, h.world.after es⟩

/-- The same value is written to the same variable. -/
theorem write (h : m.Agrees m') (ref : VariableRef) (v : Value) :
    (m.write ref v).Agrees (m'.write ref v) := by
  rw [Machine.write, Machine.write, Machine.modifyAt_eq, Machine.modifyAt_eq,
    h.alike.changeEffects]
  exact h.after _

/-- Where control goes makes no difference. -/
theorem goto (h : m.Agrees m') (place : Place) : (m.steer (m.context.goto place)).Agrees m' :=
  ⟨h.id, h.name, h.attributes, h.ambient, h.world⟩

/-- A step that is bound makes no difference. -/
theorem past (h : m.Agrees m') (step : Step) : (m.past step).Agrees m' :=
  ⟨h.id, h.name, h.attributes, h.ambient, h.world.bound step m.context.place⟩

end Machine.Agrees

/-- **What does not look at the clock comes to the same on machines that agree.** -/
theorem Act.Traced.agrees {α : Type} {act : Act α} (hact : Traced True False act) {m m' : Machine}
    (h : m.Agrees m') :
    ∃ a x x', act m = (a, x) ∧ act m' = (a, x') ∧ x.Agrees x' ∧
      x.context = { m.context with attributes := x.context.attributes } := by
  obtain ⟨es, -, hafter, hsame⟩ := hact m
  exact ⟨(act m).1, m.after es, m'.after es, Prod.ext rfl hafter, hsame trivial m' h.alike,
    h.after es, m.context_after es⟩

end Cutscene
