import Cutscene.Proofs.Run.Resemble
import Cutscene.Proofs.Run.Uphold
/-!
# Running — worlds that mirror each other

Two worlds mirror each other when they resemble each other and hold no objects.
If no step looks at the clock or creates an object, and custom handlers read only
the context, the variables and the random state (`Engine.IsStill`), then what
an advance makes of one machine it makes of its mirror image
(`Engine.IsStill.advance`).
-/

namespace Cutscene

/-! ## Stores without objects -/

namespace Store

theorem modify_empty (id : ObjectId) (change : GameObject → GameObject) :
    empty.modify id change = empty := rfl

theorem remove_empty (id : ObjectId) : empty.remove id = ([], empty) := rfl

theorem grow_empty (kind : ObjectKind) (dataId : String) (parent : ObjectId) :
    empty.grow kind dataId (some parent) = empty := rfl

theorem attach?_empty (parent child : ObjectId) : empty.attach? parent child = none := by
  have hgone : empty.contains parent = false := rfl
  rw [attach?, hgone]
  exact if_pos (.inr (.inl rfl))

theorem joinParty_empty (actor : ObjectId) : empty.joinParty actor = empty := by
  have hgone : empty.contains actor = false := rfl
  rw [joinParty, hgone]
  exact if_neg fun h => Bool.false_ne_true h.1

end Store

/-! ## Worlds -/

/-- The worlds resemble each other and hold no objects. -/
structure World.Mirrors (base base' : List HostCall) (w w' : World) : Prop
    extends w.Resembles base base' w' where
  bare : w.objects = .empty

namespace World.Mirrors

variable {base base' : List HostCall} {w w' : World}

theorem refl (h : w.objects = .empty) : w.Mirrors w.trace w.trace w :=
  ⟨⟨rfl, rfl, rfl, rfl, rfl, rfl, rfl, rfl, [], rfl, rfl⟩, h⟩

theorem bare' (h : w.Mirrors base base' w') : w'.objects = .empty := h.objects.trans h.bare

theorem symm (h : w.Mirrors base base' w') : w'.Mirrors base' base w :=
  ⟨h.toResembles.symm, h.bare'⟩

theorem requestResume (h : w.Mirrors base base' w') (id : EventId) :
    (w.requestResume id).Mirrors base base' (w'.requestResume id) :=
  ⟨h.toResembles.requestResume id, h.bare⟩

theorem draw (h : w.Mirrors base base' w') (r : Random) :
    World.Mirrors base base' { w with random := r } { w' with random := r } :=
  ⟨h.toResembles.draw r, h.bare⟩

/-- There is nothing to remove. -/
theorem destroyObject_eq (hw : w.objects = .empty) (id : ObjectId) :
    w.destroyObject id = ([], w) := by
  rw [World.destroyObject, hw, Store.remove_empty]
  show ([], { w with objects := Store.empty }) = _
  rw [← hw]

theorem bind (h : w.Mirrors base base' w') (step : Step) (place : Place) :
    (w.bind step place).Mirrors base base' (w'.bind step place) := by
  have hbare : (w.bind step place).objects = .empty := by
    unfold World.bind
    split <;> exact h.bare
  exact ⟨h.toResembles.bind step place, hbare⟩

theorem allocate (h : w.Mirrors base base' w') :
    w'.allocate.1 = w.allocate.1 ∧ w.allocate.2.Mirrors base base' w'.allocate.2 := by
  obtain ⟨hid, hworld⟩ := h.toResembles.allocate
  exact ⟨hid, hworld, h.bare⟩

theorem adopt (h : w.Mirrors base base' w') (c : Context) :
    (w.adopt c).Mirrors base base' (w'.adopt c) := by
  have hbare : (w.adopt c).objects = .empty := by
    unfold World.adopt
    split <;> exact h.bare
  exact ⟨h.toResembles.adopt c, hbare⟩

/-- An effect that creates no object below none creates none at all. -/
theorem bare_apply {m : Machine} (hm : m.world.objects = .empty) {x : Effect}
    (hx : x.isRooting = false) : (x.apply m).world.objects = .empty := by
  cases x with
  | attributes id vars =>
    simp only [Effect.apply, hm]
    exact Store.modify_empty id _
  | label id key slot =>
    simp only [Effect.apply, hm]
    exact Store.modify_empty id _
  | create kind dataId parent =>
    cases parent with
    | none => simp [Effect.isRooting] at hx
    | some parent =>
      simp only [Effect.apply, hm]
      exact Store.grow_empty kind dataId parent
  | destroy id =>
    simp only [Effect.apply, Machine.destroyObject, destroyObject_eq hm]
    exact hm
  | selfVars id vars =>
    simp only [Effect.apply]
    split <;> exact hm
  | _ => exact hm

/-- **An effect that creates no object below none keeps worlds mirrored.** -/
theorem apply {m m' : Machine} (h : m.world.Mirrors base base' m'.world) {x : Effect}
    (hx : x.isRooting = false) : (x.apply m).world.Mirrors base base' (x.apply m').world :=
  ⟨h.toResembles.apply x, bare_apply h.bare hx⟩

theorem after {m m' : Machine} (h : m.world.Mirrors base base' m'.world) {es : List Effect}
    (hes : ∀ x ∈ es, x.isRooting = false) :
    (m.after es).world.Mirrors base base' (m'.after es).world := by
  induction es generalizing m m' with
  | nil => exact h
  | cons x es ih =>
    obtain ⟨hx, hes⟩ := List.forall_mem_cons.1 hes
    exact ih (h.apply hx) hes

end World.Mirrors

/-! ## Handlers that read variables only -/

/-- What a handler of a custom instruction makes of a context and a world. -/
structure Handler.Answer where
  flow : Flow
  context : Context
  globals : Attributes
  selfVars : Table String Attributes
  random : Random
  /-- The calls made to the host, the last one first. -/
  calls : List HostCall
  /-- The contexts asked to resume, the last one first. -/
  resumes : List EventId
  /-- The contexts that join the world, the last one first. -/
  spawned : List Context

/-- The world with the answer taken in. -/
def Handler.Answer.world (a : Handler.Answer) (w : World) : World :=
  { w with
    globals := a.globals
    selfVars := a.selfVars
    random := a.random
    trace := a.calls ++ w.trace
    resumes := a.resumes ++ w.resumes
    spawned := a.spawned ++ w.spawned }

/-- Where there are no objects, what the handler answers depends on the
context, the variables and the random state only, and it creates no object. -/
def Handler.ReadsVariables (h : Handler) : Prop :=
  ∃ answer : Arguments → Context → Attributes → Table String Attributes → Random → Handler.Answer,
    ∀ arguments m, m.world.objects = .empty →
      let a := answer arguments m.context m.world.globals m.world.selfVars m.world.random
      h arguments m = (a.flow, ⟨a.context, a.world m.world⟩)

/-- No step looks at the clock or creates an object, and custom handlers read
only the context, the variables and the random state. -/
structure Engine.IsStill (e : Engine) : Prop where
  step : ∀ {place : Place} {step : Step}, e.step? place = some step →
    step.isTimeless ∧ step.isCreate = false
  handler : ∀ {id : String} {h : Handler}, e.handlers.get? id = some h → h.ReadsVariables

theorem World.Mirrors.answer {base base' : List HostCall} {w w' : World}
    (h : w.Mirrors base base' w') (a : Handler.Answer) :
    (a.world w).Mirrors base base' (a.world w') := by
  obtain ⟨calls, hcalls, hcalls'⟩ := h.calls
  refine ⟨⟨h.objects, rfl, rfl, rfl, congrArg (a.spawned ++ ·) h.spawned,
    congrArg (a.resumes ++ ·) h.resumes, h.destroyed, h.nextEventId, a.calls ++ calls, ?_, ?_⟩,
    h.bare⟩
  · rw [List.append_assoc, ← hcalls]
    rfl
  · rw [List.append_assoc, ← hcalls']
    rfl

/-! ## Machines -/

/-- The machines have the same context, and their worlds mirror each other. -/
structure Machine.Mirrors (base base' : List HostCall) (m m' : Machine) : Prop where
  context : m'.context = m.context
  world : m.world.Mirrors base base' m'.world

namespace Machine.Mirrors

variable {base base' : List HostCall} {m m' : Machine}

theorem alike (h : m.Mirrors base base' m') : m.Alike m' := by
  have hc := h.context
  exact ⟨by rw [hc], by rw [hc], by rw [hc], by rw [hc], h.world.globals.symm,
    h.world.selfVars.symm, h.world.objects.symm, h.world.random.symm⟩

theorem past (h : m.Mirrors base base' m') (step : Step) :
    (m.past step).Mirrors base base' (m'.past step) := by
  refine ⟨?_, ?_⟩
  · simp only [Machine.past, h.context]
  · simp only [Machine.past, h.context]
    exact h.world.bind step m.context.place

theorem settle (h : m.Mirrors base base' m') (flow : Flow) :
    (m.settle flow).Mirrors base base' (m'.settle flow) := by
  cases flow with
  | next => exact h
  | stop =>
    simp only [Machine.settle, h.context]
    split
    · exact ⟨rfl, h.world⟩
    · exact h

end Machine.Mirrors

namespace Engine.IsStill

variable {e : Engine} {base base' : List HostCall} {m m' : Machine}

/-- **A step comes to the same on machines that mirror each other.** -/
theorem run_step (he : e.IsStill) {place : Place} {step : Step}
    (hstep : e.step? place = some step) (h : m.Mirrors base base' m') :
    (step.run e m').1 = (step.run e m).1 ∧
      (step.run e m).2.Mirrors base base' (step.run e m').2 := by
  obtain ⟨htimeless, hcreate⟩ := he.step hstep
  by_cases hcustom : step.isCustom = false
  -- the same effects and the same turn, and only a creation could bring an object in
  · have hturns : Act.Turns True True e step (step.run e) :=
      step.turns hcustom (fun _ => htimeless) (fun _ => hcreate)
    obtain ⟨es, o, c, hfits, -, hrun, hsame⟩ := hturns m
    have hrun' := hsame trivial m' h.alike h.context h.world.nextEventId
    have hafter := h.world.after fun x hx => (hfits x hx).isRooting_eq trivial
    rw [hrun, hrun']
    refine ⟨rfl, rfl, ?_⟩
    cases o with
    | flow flow => exact hafter
    | spawn child => exact hafter.allocate.2
  · cases step with
    | custom id arguments =>
      cases hhandler : e.handlers.get? id with
      | none =>
        rw [Step.run_custom_none hhandler, Step.run_custom_none hhandler]
        exact ⟨rfl, h⟩
      | some handler =>
        obtain ⟨answer, hanswer⟩ := he.handler hhandler
        have hanswer' := hanswer arguments m' h.world.bare'
        simp only [h.context, h.world.globals, h.world.selfVars, h.world.random] at hanswer'
        rw [Step.run_custom_some hhandler, Step.run_custom_some hhandler,
          hanswer arguments m h.world.bare, hanswer']
        exact ⟨rfl, rfl, h.world.answer _⟩
    | _ => exact absurd rfl hcustom

/-- Many steps come to the same, if spawned contexts that are run do. -/
theorem steps (he : e.IsStill) {spawn : Machine → Option Machine}
    (hspawn : ∀ {m m' x : Machine}, m.Mirrors base base' m' → spawn m = some x →
      ∃ x', spawn m' = some x' ∧ x.Mirrors base base' x') (budget : Nat) {x : Machine}
    (h : m.Mirrors base base' m') (hrun : Machine.steps e spawn budget m = some x) :
    ∃ x', Machine.steps e spawn budget m' = some x' ∧ x.Mirrors base base' x' := by
  induction budget generalizing m m' with
  | zero =>
    obtain rfl := Option.some.inj hrun
    exact ⟨m', rfl, h⟩
  | succ budget ih =>
    rw [Machine.steps] at hrun
    rw [Machine.steps, h.context]
    by_cases hrunning : (!m.context.state.isRunning) = true
    · rw [if_pos hrunning] at hrun ⊢
      obtain rfl := Option.some.inj hrun
      exact ⟨m', rfl, h⟩
    rw [if_neg hrunning] at hrun ⊢
    cases hstep : e.step? m.context.place with
    | none =>
      rw [hstep] at hrun
      obtain rfl := Option.some.inj hrun
      exact ⟨_, rfl, rfl, h.world⟩
    | some step =>
      obtain ⟨houtcome, hnext⟩ := he.run_step hstep (h.past step)
      simp only [hstep] at hrun ⊢
      cases hr : step.run e (m.past step) with
      | mk o m₁ =>
        cases hr' : step.run e (m'.past step) with
        | mk o' m₁' =>
          rw [hr, hr'] at houtcome hnext
          obtain rfl : o' = o := houtcome
          rw [hr] at hrun
          cases o' with
          | flow flow => exact ih (hnext.settle flow) hrun
          | spawn child =>
            simp only at hrun ⊢
            cases hdone : spawn ⟨child, m₁.world⟩ with
            | none => simp [hdone] at hrun
            | some done =>
              -- the context that is spawned starts in worlds that mirror each other
              have hstart : Machine.Mirrors base base' ⟨child, m₁.world⟩ ⟨child, m₁'.world⟩ :=
                ⟨rfl, hnext.world⟩
              obtain ⟨done', hdone', hboth⟩ := hspawn hstart hdone
              simp only [hdone] at hrun
              simp only [hdone', hboth.context]
              have hadopted : Machine.Mirrors base base'
                  ⟨m₁.context, done.world.adopt done.context⟩
                  ⟨m₁'.context, done'.world.adopt done.context⟩ :=
                ⟨hnext.context, hboth.world.adopt _⟩
              exact ih hadopted hrun

theorem advanceWithin (he : e.IsStill) (depth : Nat) {x : Machine} (h : m.Mirrors base base' m')
    (hrun : Machine.advanceWithin e depth m = some x) :
    ∃ x', Machine.advanceWithin e depth m' = some x' ∧ x.Mirrors base base' x' := by
  induction depth generalizing m m' x with
  | zero => exact he.steps (fun _ h => by simp at h) _ h hrun
  | succ depth ih => exact he.steps ih _ h hrun

/-- **An advance comes to the same on machines that mirror each other.** -/
theorem advance (he : e.IsStill) {x : Machine} (h : m.Mirrors base base' m')
    (hrun : Machine.advance e m = some x) :
    ∃ x', Machine.advance e m' = some x' ∧ x.Mirrors base base' x' :=
  he.advanceWithin _ h hrun

end Engine.IsStill

end Cutscene
