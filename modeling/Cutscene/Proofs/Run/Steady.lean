import Cutscene.Proofs.Program.Held
import Cutscene.Proofs.Run.Pace
import Cutscene.Proofs.Run.Uphold
/-!
# Running — steady steps

A step is steady when it leaves its context running or finished, spawns nothing
and does not look at the clock. A context that runs steady steps is interrupted
by nothing but its budget (`Machine.Steady`).

Between advances a frame passes: requests to resume and objects that were
destroyed are taken off their queues, and the clock is set. Machines match when
they differ in these at most (`Machine.Matches`). Steady steps keep them so
(`Engine.IsSteady.exists_steps`), so where a run is cut makes no difference to
what it does. How many steps an advance executes is read off its visits
(`Engine.IsSteady.portion`).
-/

namespace Cutscene

/-! ## Steady steps -/

/-- Does the action go on, unless it finishes the context? -/
def Action.isPrompt : Action → Bool
  | .showText _ awaited | .playAnimation _ _ _ awaited | .moveActor _ _ _ awaited
  | .castSkill _ _ _ awaited => !awaited
  | .wait _ | .pauseEvent _ => false
  | _ => true

/-- Does the step leave its context running or finished, without spawning one
or looking at the clock? A custom step may do anything. -/
def Step.isSteady : Step → Bool
  | .action a => a.isPrompt && a.isTimeless
  | .custom .. | .openChoices _ | .spawn _ | .callAsync .. => false
  | step => step.isTimeless

/-- All steps of the library are steady. -/
def Library.IsSteady (l : Library) : Prop :=
  ∀ b, l.Holds b → ∀ step ∈ b.program.steps.toList, step.isSteady

instance (l : Library) : Decidable l.IsSteady :=
  decidable_of_iff (∀ b ∈ l.bodies, ∀ step ∈ b.program.steps.toList, step.isSteady)
    ⟨fun h b hb => h b (Library.holds_iff.1 hb), fun h b hb => h b (Library.holds_iff.2 hb)⟩

/-- All steps that the engine finds are steady. -/
def Engine.IsSteady (e : Engine) : Prop :=
  ∀ ⦃place : Place⦄ ⦃step : Step⦄, e.step? place = some step → step.isSteady

theorem Engine.Serves.isSteady {e : Engine} {l : Library} (he : e.Serves l) (hl : l.IsSteady) :
    e.IsSteady := by
  intro place step hstep
  obtain ⟨b, hb, -, hget⟩ := he.exists_step hstep
  exact hl b hb step (Array.mem_toList_iff.2 (Array.mem_of_getElem? hget))

namespace Step

variable {step : Step}

theorem isCustom_of_isSteady (h : step.isSteady) : step.isCustom = false := by
  cases step with
  | custom id arguments => simp [isSteady] at h
  | _ => rfl

theorem isTimeless_of_isSteady (h : step.isSteady) : step.isTimeless := by
  cases step with
  | action a => exact (Bool.and_eq_true _ _ ▸ h).2
  | custom | openChoices | spawn | callAsync => simp [isSteady] at h
  | _ => exact h

end Step

/-! ## Prompt actions -/

/-- Control goes on, or the context is finished. -/
def Act.GoesOn (x : Flow × Machine) : Prop := x.1 = .next ∨ x.2.context.state.isFinished

theorem Act.goesOn_withSome {α : Type} {a : Option α} {body : α → Act Flow} {m : Machine}
    (h : ∀ a, GoesOn (body a m)) : GoesOn (withSome a body m) := by
  cases a with
  | none => exact .inl rfl
  | some a => exact h a

open Act in
/-- **A prompt action goes on or finishes the context.** -/
theorem Action.goesOn_run {a : Action} (h : a.isPrompt) (deferred : HostCall → Bool) (m : Machine) :
    GoesOn (a.run deferred m) := by
  -- awaited calls are not prompt, so a host that takes its time makes no difference
  cases a with
  | setBoolean ref update operand =>
    exact goesOn_withSome (a := operand.compute m) fun _ => .inl rfl
  | setNumber | setText | pushItem | removeItem => exact goesOn_withSome fun _ => .inl rfl
  | setObject ref desc kind =>
    exact goesOn_withSome (a := m.resolve (some kind) desc) fun _ => .inl rfl
  | setList | deleteVariable | stopAudio | log | script => exact .inl rfl
  | showText text awaited =>
    obtain rfl : awaited = false := by simpa [isPrompt] using h
    exact .inl rfl
  | playAudio channel track volume => exact goesOn_withSome fun _ => .inl rfl
  | playAnimation target kind animation awaited =>
    obtain rfl : awaited = false := by simpa [isPrompt] using h
    refine goesOn_withSome fun animation => ?_
    cases target with
    | none => exact .inl rfl
    | some desc => exact goesOn_withSome fun _ => .inl rfl
  | moveActor actor x y awaited =>
    obtain rfl : awaited = false := by simpa [isPrompt] using h
    exact goesOn_withSome fun _ => goesOn_withSome fun _ => goesOn_withSome fun _ => .inl rfl
  | castSkill caster skill target awaited =>
    obtain rfl : awaited = false := by simpa [isPrompt] using h
    exact goesOn_withSome (a := m.resolve (some .actor) caster) fun _ =>
      goesOn_withSome (a := m.resolve (some .skill) skill) fun _ => .inl rfl
  | createObject kind dataId parent key slot ref =>
    simp only [Action.run, look_bind]
    split
    · exact .inl rfl
    · refine goesOn_withSome (a := m.createObject? kind dataId _) fun made => ?_
      cases ref <;> exact .inl rfl
  | deleteObject desc kind =>
    refine goesOn_withSome (a := m.resolve (some kind) desc) fun id => ?_
    show GoesOn ((if (m.destroyObject id).2.context.ambient.owner.any
      (m.destroyObject id).1.contains then finish else next) (m.destroyObject id).2)
    split
    · exact .inr rfl
    · exact .inl rfl
  | addState actor state =>
    exact goesOn_withSome (a := m.resolve (some .actor) actor) fun _ => .inl rfl
  | removeState actor state =>
    exact goesOn_withSome (a := m.resolve (some .actor) actor) fun _ => .inl rfl
  | continueEvent handle =>
    exact goesOn_withSome (a := (m.read handle).bind Value.event?) fun _ => .inl rfl
  | stopEvent => exact .inr rfl
  | wait | pauseEvent => simp [isPrompt] at h

/-! ## Turns of steady steps -/

/-- What a steady step does: control goes on and the context runs as before, or
it stops because the context has finished; only of an action is that not read
off the turn. -/
theorem Step.Turn.steady {e : Engine} {id : EventId} {step : Step} {c c' : Context} {o : Outcome}
    (h : step.Turn e id c o c') (hs : step.isSteady) :
    c'.ambient.owner = c.ambient.owner ∧
      ((o = .flow .next ∧ c'.state = c.state) ∨
        o = .flow .stop ∧ (c'.state.isFinished ∨ ∃ a, step = .action a)) := by
  cases h with
  | halt a halt =>
    cases halt with
    | none => exact ⟨rfl, .inl ⟨rfl, rfl⟩⟩
    | some halt => cases halt <;> exact ⟨rfl, .inr ⟨rfl, .inr ⟨a, rfl⟩⟩⟩
  | finish hc => exact ⟨rfl, .inr ⟨rfl, .inl rfl⟩⟩
  | openChoices | spawn | callAsync => simp [isSteady] at hs
  | _ => exact ⟨rfl, .inl ⟨rfl, rfl⟩⟩

/-! ## What lasts from one advance to the next -/

/-- The world without what a frame changes: the queues of requests and of
objects destroyed, and the clock. -/
def World.lasting (w : World) : World :=
  { w with resumes := [], destroyed := [], elapsedMs := 0.0, frame := 0 }

@[simp] theorem World.spawned_lasting (w : World) : w.lasting.spawned = w.spawned := rfl

theorem World.spawned_bind (w : World) (step : Step) (place : Place) :
    (w.bind step place).spawned = w.spawned := by
  unfold World.bind
  split <;> rfl

theorem World.lasting_bind (w : World) (step : Step) (place : Place) :
    (w.bind step place).lasting = w.lasting.bind step place := by
  unfold World.bind
  split <;> split <;> first | rfl | contradiction

namespace Machine

/-- The machines differ at most in what a frame changes. -/
structure Matches (m m' : Machine) : Prop where
  context : m'.context = m.context
  world : m'.world.lasting = m.world.lasting

namespace Matches

variable {m m' : Machine}

theorem refl (m : Machine) : m.Matches m := ⟨rfl, rfl⟩

/-- What lasts of the worlds is the same. -/
theorem lasts {α : Type} (h : m.Matches m') (f : World → α) :
    f m'.world.lasting = f m.world.lasting :=
  congrArg f h.world

theorem alike (h : m.Matches m') : m.Alike m' where
  id := by rw [h.context]
  name := by rw [h.context]
  attributes := by rw [h.context]
  ambient := by rw [h.context]
  globals := (h.lasts World.globals).symm
  selfVars := (h.lasts World.selfVars).symm
  objects := (h.lasts World.objects).symm
  random := (h.lasts World.random).symm

/-- **Effects keep machines matching.** -/
theorem apply (h : m.Matches m') (x : Effect) : (x.apply m).Matches (x.apply m') where
  context := by
    have hafter := h.alike.context_after h.context [x]
    exact hafter
  world := by
    have hobjects : m'.world.objects = m.world.objects := h.lasts World.objects
    cases x with
    | locals vars => exact h.world
    | globals vars => exact h.lasts fun w => { w with globals := vars }
    | selfVars id vars =>
      have hget : m'.world.objects.get? id = m.world.objects.get? id := by rw [hobjects]
      simp only [Effect.apply, hget]
      cases m.world.objects.get? id with
      | none => exact h.world
      | some o =>
        exact h.lasts fun w => { w with selfVars := w.selfVars.insert o.instanceKey vars }
    | random r => exact h.lasts fun w => { w with random := r }
    | call c => exact h.lasts (World.call · c)
    | attributes id vars =>
      exact h.lasts fun w =>
        { w with objects := w.objects.modify id fun o => { o with attributes := vars } }
    | label id key slot =>
      exact h.lasts fun w => { w with objects := w.objects.modify id fun o => { o with key, slot } }
    | create kind dataId parent =>
      exact h.lasts fun w => { w with objects := w.objects.grow kind dataId parent }
    | destroy id => exact h.lasts fun w => (w.destroyObject id).2.lasting
    | requestResume id => exact h.world

theorem after (h : m.Matches m') (es : List Effect) : (m.after es).Matches (m'.after es) := by
  induction es generalizing m m' with
  | nil => exact h
  | cons x es ih => exact ih (h.apply x)

theorem past (h : m.Matches m') (step : Step) : (m.past step).Matches (m'.past step) where
  context := by rw [Machine.past, Machine.past, h.context]
  world := by
    rw [Machine.past, Machine.past, World.lasting_bind, World.lasting_bind, h.world, h.context]

theorem steer (h : m.Matches m') (c : Context) : (m.steer c).Matches (m'.steer c) := ⟨rfl, h.world⟩

end Matches

/-- The machine's context runs or has finished, belongs to no object, and has
spawned nothing. -/
structure Steady (m : Machine) : Prop where
  state : m.context.state.isRunning ∨ m.context.state.isFinished
  owner : m.context.ambient.owner = none
  spawned : m.world.spawned = []

namespace Steady

variable {m m' : Machine}

theorem isFinished (h : m.Steady) (hrunning : m.context.state.isRunning = false) :
    m.context.state.isFinished :=
  h.state.resolve_left (by simp [hrunning])

theorem isPaused (h : m.Steady) : m.context.state.isPaused = false := by
  cases hstate : m.context.state with
  | paused => simpa [hstate, RunState.isRunning, RunState.isFinished] using h.state
  | _ => rfl

theorem of_matches (h : m.Steady) (hm : m.Matches m') : m'.Steady where
  state := hm.context ▸ h.state
  owner := hm.context ▸ h.owner
  spawned := (hm.lasts World.spawned).trans h.spawned

theorem finish (h : m.Steady) : (m.steer m.context.finish).Steady := ⟨.inr rfl, h.owner, h.spawned⟩

end Steady

end Machine

/-! ## Runs -/

namespace Engine.IsSteady

open Machine

variable {e : Engine} {m x : Machine}

/-- A steady step does one thing to all machines that match: their context goes
on as it was or has finished. -/
theorem exists_turn (he : e.IsSteady) {step : Step} (hstep : e.step? m.context.place = some step) :
    ∃ es o c, c.ambient.owner = m.context.ambient.owner ∧
      ((o = .flow .next ∧ c.state = m.context.state) ∨ o = .flow .stop ∧ c.state.isFinished) ∧
      ∀ m', m.Matches m' →
        step.run e (m'.past step) = (o, ⟨c, o.world ((m'.past step).after es).world⟩) := by
  have hsteady := he hstep
  have hturns : Act.Turns True False e step (step.run e) :=
    step.turns (Step.isCustom_of_isSteady hsteady)
      (fun _ => Step.isTimeless_of_isSteady hsteady) False.elim
  obtain ⟨es, o, c, -, hturn, hrun, hsame⟩ := hturns (m.past step)
  obtain ⟨howner, hgoes⟩ := hturn.steady hsteady
  rw [ambient_after] at howner
  rw [context_after] at hgoes
  refine ⟨es, o, c, howner, hgoes.imp_right ?_, fun m' hm' => ?_⟩
  · rintro ⟨rfl, hfinished | ⟨a, rfl⟩⟩
    · exact ⟨rfl, hfinished⟩
    · -- a prompt action stops only by finishing
      have hact : (Outcome.flow (a.run e.deferred (m.past (.action a))).1,
          (a.run e.deferred (m.past (.action a))).2) =
            (.flow .stop, ⟨c, ((m.past (.action a)).after es).world⟩) := hrun
      obtain ⟨hflow, hx⟩ := Prod.mk.inj hact
      have hprompt := Action.goesOn_run (Bool.and_eq_true _ _ ▸ hsteady).1 e.deferred
        (m.past (.action a))
      rw [Act.GoesOn, Outcome.flow.inj hflow, hx] at hprompt
      exact ⟨rfl, hprompt.resolve_left (by simp)⟩
  · have hpast := hm'.past step
    exact hsame trivial _ hpast.alike hpast.context (hpast.lasts World.nextEventId)

/-- **A steady step leaves its machine steady**, and machines that match match
after it. -/
theorem exists_run (he : e.IsSteady) (hm : m.Steady) (hrunning : m.context.state.isRunning)
    {step : Step} (hstep : e.step? m.context.place = some step) :
    ∃ flow x, step.run e (m.past step) = (.flow flow, x) ∧ (x.settle flow).Steady ∧
      ∀ m', m.Matches m' → ∃ x', step.run e (m'.past step) = (.flow flow, x') ∧
        (x.settle flow).Matches (x'.settle flow) := by
  obtain ⟨es, o, c, howner, hgoes, hrun⟩ := he.exists_turn hstep
  have hworld : ∀ m', m.Matches m' → ((m'.past step).after es).world.lasting =
      ((m.past step).after es).world.lasting := fun m' hm' => ((hm'.past step).after es).world
  have hspawned : ((m.past step).after es).world.spawned = [] := by
    rw [((m.past step).world_after es).1]
    exact (World.spawned_bind ..).trans hm.spawned
  rcases hgoes with ⟨rfl, hstate⟩ | ⟨rfl, hfinished⟩
  · exact ⟨.next, _, hrun m (.refl m), ⟨.inl (hstate ▸ hrunning), howner.trans hm.owner, hspawned⟩,
      fun m' hm' => ⟨_, hrun m' hm', rfl, hworld m' hm'⟩⟩
  · have hsettled : ∀ w : World, Machine.settle ⟨c, w⟩ .stop = ⟨c, w⟩ := fun w =>
      if_neg fun hrunning => by simp [RunState.isFinished_of_isRunning hrunning] at hfinished
    refine ⟨.stop, _, hrun m (.refl m), ?_, fun m' hm' => ⟨_, hrun m' hm', ?_⟩⟩
    · rw [hsettled]
      exact ⟨.inr hfinished, howner.trans hm.owner, hspawned⟩
    · rw [hsettled, hsettled]
      exact ⟨rfl, hworld m' hm'⟩

/-- **Steady steps always have a result**, and machines that match match after
them. -/
theorem exists_steps (he : e.IsSteady) (hm : m.Steady) (n : Nat) :
    ∃ x, steps e (fun _ => none) n m = some x ∧ x.Steady ∧
      ∀ m', m.Matches m' → ∃ x', steps e (fun _ => none) n m' = some x' ∧ x.Matches x' := by
  induction n generalizing m with
  | zero => exact ⟨m, rfl, hm, fun m' hm' => ⟨m', rfl, hm'⟩⟩
  | succ n ih =>
    cases hrunning : m.context.state.isRunning with
    | false =>
      refine ⟨m, steps_of_not_running hrunning, hm, fun m' hm' => ⟨m', ?_, hm'⟩⟩
      exact steps_of_not_running (hm'.context ▸ hrunning)
    | true =>
      cases hstep : e.step? m.context.place with
      | none =>
        refine ⟨m.steer m.context.finish, ?_, hm.finish, fun m' hm' =>
          ⟨m'.steer m.context.finish, ?_, hm'.steer _⟩⟩
        · simp [steps, hrunning, hstep, steer]
        · simp [steps, hm'.context, hrunning, hstep, steer]
      | some step =>
        obtain ⟨flow, x, hrun, hx, hmatches⟩ := he.exists_run hm hrunning hstep
        obtain ⟨y, hy, hsteady, hrest⟩ := ih hx
        refine ⟨y, ?_, hsteady, fun m' hm' => ?_⟩
        · rw [steps_of_run hrunning hstep hrun, hy]
        · obtain ⟨x', hrun', hx'⟩ := hmatches m' hm'
          obtain ⟨y', hy', hmatches'⟩ := hrest _ hx'
          refine ⟨y', ?_, hmatches'⟩
          rw [steps_of_run (hm'.context ▸ hrunning) (hm'.context ▸ hstep) hrun', hy']

theorem steady_steps (he : e.IsSteady) (hm : m.Steady) {n : Nat}
    (hx : steps e (fun _ => none) n m = some x) : x.Steady := by
  obtain ⟨y, hy, hsteady, -⟩ := he.exists_steps hm n
  exact Option.some.inj (hy.symm.trans hx) ▸ hsteady

/-- An advance of a steady machine is a budget of steps. -/
theorem exists_advance (he : e.IsSteady) (hm : m.Steady)
    (hx : steps e (fun _ => none) e.stepBudget m = some x) {m' : Machine} (hm' : m.Matches m') :
    ∃ x', advance e m' = some x' ∧ x.Matches x' := by
  obtain ⟨y, hy, -, hmatches⟩ := he.exists_steps hm e.stepBudget
  obtain rfl := Option.some.inj (hx.symm.trans hy)
  obtain ⟨x', hx', hmatches⟩ := hmatches m' hm'
  exact ⟨x', advance_of_steps hx', hmatches⟩

/-! ## Portions -/

/-- Steady steps are executed one after the other, as many as are asked for
unless the context finishes before. -/
theorem length_visitsWith (he : e.IsSteady) (hm : m.Steady) (spawn : Machine → Option Machine)
    (inner : Machine → List Machine) {n : Nat} (hx : steps e (fun _ => none) n m = some x) :
    (visitsWith e spawn inner n m).length ≤ n ∧
      ((visitsWith e spawn inner n m).length < n → x.context.state.isFinished) := by
  induction n generalizing m with
  | zero => simp [visitsWith]
  | succ n ih =>
    cases hrunning : m.context.state.isRunning with
    | false =>
      rw [steps_of_not_running hrunning] at hx
      obtain rfl := Option.some.inj hx
      exact ⟨by simp [visitsWith, hrunning], fun _ => hm.isFinished hrunning⟩
    | true =>
      cases hstep : e.step? m.context.place with
      | none =>
        have hfinished : m.steer m.context.finish = x := by
          simpa [steps, hrunning, hstep, steer] using hx
        exact ⟨by simp [visitsWith, hrunning, hstep], fun _ => hfinished ▸ rfl⟩
      | some step =>
        obtain ⟨flow, y, hrun, hy, -⟩ := he.exists_run hm hrunning hstep
        rw [steps_of_run hrunning hstep hrun] at hx
        obtain ⟨hle, hfinished⟩ := ih hy hx
        have hvisits : visitsWith e spawn inner (n + 1) m =
            m :: visitsWith e spawn inner n (y.settle flow) := by
          simp [visitsWith, hrunning, hstep, hrun]
        rw [hvisits, List.length_cons]
        exact ⟨Nat.succ_le_succ hle, fun hlt => hfinished (Nat.lt_of_succ_lt_succ hlt)⟩

end Engine.IsSteady

/-- The advance executes at most a budget of steps, and fewer only if the
context has finished. -/
def Machine.Portion (e : Engine) (m : Machine) : Prop :=
  (m.visits e).length ≤ e.stepBudget ∧
    ((m.visits e).length < e.stepBudget →
      ∃ x, Machine.advance e m = some x ∧ x.context.state.isFinished)

/-- **An advance of a steady machine executes a budget of steps**, unless the
context finishes before. -/
theorem Engine.IsSteady.portion {e : Engine} {m : Machine} (he : e.IsSteady) (hm : m.Steady) :
    m.Portion e := by
  obtain ⟨x, hx, -, -⟩ := he.exists_steps hm e.stepBudget
  have hlength : ∃ spawn inner, m.visits e = Machine.visitsWith e spawn inner e.stepBudget m := by
    rw [Machine.visits]
    cases e.spawnDepth with
    | zero => exact ⟨_, _, rfl⟩
    | succ depth => exact ⟨_, _, rfl⟩
  obtain ⟨spawn, inner, hvisits⟩ := hlength
  obtain ⟨hle, hfinished⟩ := he.length_visitsWith hm spawn inner hx
  rw [Machine.Portion, hvisits]
  exact ⟨hle, fun hlt => ⟨x, Machine.advance_of_steps hx, hfinished hlt⟩⟩

/-! ## Budgets -/

namespace Machine

variable {e : Engine} {m : Machine}

theorem steps_add (spawn : Machine → Option Machine) (a b : Nat) (m : Machine) :
    steps e spawn (a + b) m = (steps e spawn a m).bind (steps e spawn b) := by
  induction a generalizing m with
  | zero => rw [Nat.zero_add]; rfl
  | succ a ih =>
    rw [Nat.succ_add, steps_succ, steps_succ spawn a, Option.bind_assoc]
    exact congrArg _ (funext ih)

/-- A finished context is left as it is, however many steps more it is given. -/
theorem steps_of_finished {a b : Nat} {x : Machine} (hle : a ≤ b)
    (hx : steps e (fun _ => none) a m = some x) (hfinished : x.context.state.isFinished) :
    steps e (fun _ => none) b m = some x := by
  obtain ⟨c, rfl⟩ := Nat.exists_eq_add_of_le hle
  rw [steps_add, hx, Option.bind_some]
  refine steps_of_not_running ?_
  cases hstate : x.context.state <;> simp_all [RunState.isFinished, RunState.isRunning]

end Machine

theorem Step.run_withBudget (e : Engine) (budget : Nat) (step : Step) :
    step.run (e.withBudget budget) = step.run e := by
  cases step <;> rfl

/-- The budget matters to nothing but how many steps an advance runs. -/
theorem Machine.steps_withBudget (e : Engine) (budget : Nat) (spawn : Machine → Option Machine)
    (n : Nat) (m : Machine) : steps (e.withBudget budget) spawn n m = steps e spawn n m := by
  induction n generalizing m with
  | zero => rfl
  | succ n ih =>
    have hstep : (e.withBudget budget).step? m.context.place = e.step? m.context.place := rfl
    rw [steps, steps, hstep]
    simp only [ih, Step.run_withBudget]

end Cutscene
