import Cutscene.Proofs.Run.Spawn
import Cutscene.Proofs.Scheduler.Sustain
/-!
# Scheduler — operations as plans

What an operation does depends on how deeply contexts may spawn each other only
through its advances. `Operation.plan` is the operation without the depth: the
machines that it advances, and what it answers after them. At every depth an
operation does what its plan says (`Operation.run_withDepth`) and advances the
machines that its plan does (`Operation.advances_withDepth`).
-/

namespace Cutscene

/-- The engine where contexts may spawn each other so deeply. -/
def Engine.withDepth (e : Engine) (depth : Nat) : Engine := { e with spawnDepth := depth }

/-- The scheduler where contexts may spawn each other so deeply. -/
def Scheduler.withDepth (s : Scheduler) (depth : Nat) : Scheduler :=
  { s with engine := s.engine.withDepth depth }

/-! ## The depth matters to nothing but advances -/

theorem Step.run_withDepth (e : Engine) (depth : Nat) (step : Step) :
    step.run (e.withDepth depth) = step.run e := by
  cases step <;> rfl

namespace Machine

theorem plan_withDepth (e : Engine) (depth budget : Nat) (m : Machine) :
    m.plan (e.withDepth depth) budget = m.plan e budget := by
  induction budget generalizing m with
  | zero => rfl
  | succ budget ih =>
    have hstep : (e.withDepth depth).step? m.context.place = e.step? m.context.place := rfl
    rw [plan, plan, hstep]
    simp only [ih, Step.run_withDepth]

theorem advanceWithin_withDepth (e : Engine) (depth depth' : Nat) :
    advanceWithin (e.withDepth depth') depth = advanceWithin e depth := by
  induction depth with
  | zero =>
    funext m
    rw [advanceWithin_eq_run, advanceWithin_eq_run, plan_withDepth]
    rfl
  | succ depth ih =>
    funext m
    rw [advanceWithin_eq_run, advanceWithin_eq_run, plan_withDepth, advanceBelow, advanceBelow, ih]
    rfl

theorem advance_withDepth (e : Engine) (depth : Nat) :
    advance (e.withDepth depth) = advanceWithin e depth :=
  advanceWithin_withDepth e depth depth

end Machine

/-! ## The plans of the scheduler -/

namespace Scheduler

open Plan

/-- The scheduler with other contexts and another world. -/
def holding (s : Scheduler) (left : List Context × World) : Scheduler :=
  { s with contexts := left.1, world := left.2 }

/-- Advances a context of the scheduler. -/
def contextPlan (s : Scheduler) (c : Context) : Plan (List Context × World) :=
  .advance ⟨c, s.world⟩ fun m => .done (replaceIn c.id m.context s.contexts, m.world)

/-- Meets a request to resume. -/
def requestPlan (s : Scheduler) (id : EventId) : Plan (List Context × World) :=
  match (s.context? id).bind Context.wake? with
  | none => .done (s.contexts, s.world)
  | some c => s.contextPlan c

/-- Meets requests in order. -/
def requestsPlan : List EventId → Scheduler → Plan (List Context × World)
  | [], s => .done (s.contexts, s.world)
  | id :: rest, s => (s.requestPlan id).bind fun left => requestsPlan rest (s.holding left)

/-- Meets requests for so many rounds. -/
def roundsPlan : Nat → Scheduler → Plan (List Context × World)
  | 0, s => .done (s.contexts, s.world)
  | rounds + 1, s =>
    if s.world.resumes.reverse.isEmpty then .done (s.drained.contexts, s.drained.world)
    else
      (requestsPlan s.world.resumes.reverse s.drained).bind fun left =>
        roundsPlan rounds (s.drained.holding left)

/-- Reconciles. -/
def reconcilePlan (s : Scheduler) : Plan (List Context × World) :=
  (roundsPlan maxRounds s).map fun left =>
    let s := { s.holding left with world := { left.2 with resumes := [] } }.takeSpawned.sweep
    (s.contexts, s.world)

/-- The machine that starting an event advances. -/
def starting (s : Scheduler) (name : String) (ambient : Ambient) (event : Compiled) : Machine :=
  ⟨.start s.world.allocate.1 name (.root name) (Operation.startAmbient ambient event),
    s.world.allocate.2⟩

/-- The world when a frame's time has passed. -/
def ticked (s : Scheduler) (deltaMs : Float) : World :=
  { s.world with elapsedMs := s.world.elapsedMs + deltaMs, frame := s.world.frame + 1 }

/-- Advances the contexts that run, after a frame's time. -/
def framePlan (deltaMs : Float) : List Context → World → Plan (List Context × World)
  | [], w => .done ([], w)
  | c :: rest, w =>
    let c := countDown deltaMs c
    if c.state.isRunning then
      .advance ⟨c, w⟩ fun m =>
        (framePlan deltaMs rest m.world).map fun left => (m.context :: left.1, left.2)
    else (framePlan deltaMs rest w).map fun left => (c :: left.1, left.2)

/-- What comes of a plan of the scheduler, at a depth. -/
def within (s : Scheduler) (depth : Nat) (p : Plan (List Context × World)) : Option Scheduler :=
  (p.run (Machine.advanceWithin s.engine depth)).map (s.withDepth depth).holding

variable (s : Scheduler) (depth : Nat)

theorem start_eq {name : String} {event : Compiled} (h : s.engine.event? name = some event)
    (ambient : Ambient) :
    s.start name ambient =
      match Machine.advance s.engine (s.starting name ambient event) with
      | none => none
      | some m => (s.holding (s.contexts ++ [m.context], m.world)).reconcile.map
          fun s' => (.ok s.world.allocate.1, s') := by
  simp only [start, h]
  rfl

theorem update_eq (deltaMs : Float) :
    s.update deltaMs =
      match advanceAll s.engine deltaMs s.contexts (s.ticked deltaMs) with
      | none => none
      | some (contexts, world) => (s.holding (contexts, world)).reconcile :=
  rfl

theorem advanceContext_withDepth (c : Context) :
    (s.withDepth depth).advanceContext c = s.within depth (s.contextPlan c) := by
  have hadv : Machine.advance (s.withDepth depth).engine = Machine.advanceWithin s.engine depth :=
    Machine.advance_withDepth s.engine depth
  have hworld : (s.withDepth depth).world = s.world := rfl
  rw [advanceContext, within, contextPlan, run, hadv, hworld]
  cases Machine.advanceWithin s.engine depth ⟨c, s.world⟩ <;> rfl

theorem meetRequest_withDepth (id : EventId) :
    (s.withDepth depth).meetRequest id = s.within depth (s.requestPlan id) := by
  have hcontext : (s.withDepth depth).context? id = s.context? id := rfl
  rw [meetRequest, requestPlan, hcontext]
  cases (s.context? id).bind Context.wake? with
  | none => rfl
  | some c => exact advanceContext_withDepth s depth c

theorem requestAdvances_withDepth (id : EventId) :
    (s.withDepth depth).requestAdvances id =
      (s.requestPlan id).advanced (Machine.advanceWithin s.engine depth) := by
  have hcontext : (s.withDepth depth).context? id = s.context? id := rfl
  rw [requestAdvances, requestPlan, hcontext]
  cases (s.context? id).bind Context.wake? with
  | none => rfl
  | some c =>
    simp only [contextPlan, advanced]
    split <;> rfl

theorem meetRequests_withDepth (ids : List EventId) :
    meetRequests ids (s.withDepth depth) = s.within depth (requestsPlan ids s) := by
  induction ids generalizing s with
  | nil => rfl
  | cons id ids ih =>
    rw [meetRequests, meetRequest_withDepth, requestsPlan, within, within, run_bind]
    cases (s.requestPlan id).run (Machine.advanceWithin s.engine depth) with
    | none => rfl
    | some left => exact ih (s.holding left)

theorem requestsAdvances_withDepth (ids : List EventId) :
    requestsAdvances ids (s.withDepth depth) =
      (requestsPlan ids s).advanced (Machine.advanceWithin s.engine depth) := by
  induction ids generalizing s with
  | nil => rfl
  | cons id ids ih =>
    rw [requestsAdvances, requestAdvances_withDepth, meetRequest_withDepth, requestsPlan,
      advanced_bind, within]
    cases (s.requestPlan id).run (Machine.advanceWithin s.engine depth) with
    | none => rfl
    | some left => exact congrArg _ (ih (s.holding left))

theorem meetRounds_withDepth (rounds : Nat) :
    meetRounds rounds (s.withDepth depth) = s.within depth (roundsPlan rounds s) := by
  induction rounds generalizing s with
  | zero => rfl
  | succ rounds ih =>
    rw [meetRounds_succ, roundsPlan]
    have hdrained : (s.withDepth depth).drained = s.drained.withDepth depth := rfl
    have hresumes : (s.withDepth depth).world.resumes = s.world.resumes := rfl
    rw [hdrained, hresumes]
    split
    · rfl
    · -- both sides meet the requests that are waiting before the round that follows is planned
      have hengine : s.drained.engine = s.engine := rfl
      rw [meetRequests_withDepth, within, within, run_bind, hengine]
      cases (requestsPlan s.world.resumes.reverse s.drained).run
          (Machine.advanceWithin s.engine depth) with
      | none => rfl
      | some left => exact ih (s.drained.holding left)

theorem roundsAdvances_withDepth (rounds : Nat) :
    roundsAdvances rounds (s.withDepth depth) =
      (roundsPlan rounds s).advanced (Machine.advanceWithin s.engine depth) := by
  induction rounds generalizing s with
  | zero => rfl
  | succ rounds ih =>
    rw [roundsAdvances_succ, roundsPlan]
    have hdrained : (s.withDepth depth).drained = s.drained.withDepth depth := rfl
    have hresumes : (s.withDepth depth).world.resumes = s.world.resumes := rfl
    rw [hdrained, hresumes]
    split
    · rfl
    · have hengine : s.drained.engine = s.engine := rfl
      rw [requestsAdvances_withDepth, meetRequests_withDepth, within, advanced_bind, hengine]
      cases (requestsPlan s.world.resumes.reverse s.drained).run
          (Machine.advanceWithin s.engine depth) with
      | none => rfl
      | some left => exact congrArg _ (ih (s.drained.holding left))

theorem reconcile_withDepth :
    (s.withDepth depth).reconcile = s.within depth s.reconcilePlan := by
  rw [reconcile, meetRounds_withDepth, reconcilePlan, within, within, run_map]
  cases (roundsPlan maxRounds s).run (Machine.advanceWithin s.engine depth) <;> rfl

theorem reconcileAdvances_withDepth :
    reconcileAdvances (some (s.withDepth depth)) =
      s.reconcilePlan.advanced (Machine.advanceWithin s.engine depth) := by
  rw [reconcileAdvances, roundsAdvances_withDepth, reconcilePlan, advanced_map]

theorem advanceAll_withDepth (e : Engine) (depth : Nat) (deltaMs : Float) (cs : List Context)
    (w : World) :
    advanceAll (e.withDepth depth) deltaMs cs w =
      (framePlan deltaMs cs w).run (Machine.advanceWithin e depth) := by
  induction cs generalizing w with
  | nil => rfl
  | cons c cs ih =>
    rw [advanceAll, framePlan, Machine.advance_withDepth]
    simp only
    split
    · rw [run]
      cases Machine.advanceWithin e depth ⟨countDown deltaMs c, w⟩ with
      | none => rfl
      | some m => simp only [ih, run_map]
    · rw [ih, run_map]

theorem advanceAll_ticked_withDepth (deltaMs : Float) :
    advanceAll (s.withDepth depth).engine deltaMs (s.withDepth depth).contexts
        ((s.withDepth depth).ticked deltaMs) =
      (framePlan deltaMs s.contexts (s.ticked deltaMs)).run
        (Machine.advanceWithin s.engine depth) :=
  advanceAll_withDepth s.engine depth deltaMs s.contexts (s.ticked deltaMs)

theorem frameAdvances_withDepth (e : Engine) (depth : Nat) (deltaMs : Float) (cs : List Context)
    (w : World) :
    frameAdvances (e.withDepth depth) deltaMs cs w =
      (framePlan deltaMs cs w).advanced (Machine.advanceWithin e depth) := by
  induction cs generalizing w with
  | nil => rfl
  | cons c cs ih =>
    rw [frameAdvances, framePlan, Machine.advance_withDepth]
    split
    · rw [advanced]
      cases Machine.advanceWithin e depth ⟨countDown deltaMs c, w⟩ with
      | none => rfl
      | some m => simp only [ih, advanced_map]
    · rw [ih, advanced_map]

end Scheduler

namespace Operation

open Plan Scheduler

/-- Reconciles and then answers. -/
def answerPlan (r : Reply) (s : Scheduler) : Plan (Reply × List Context × World) :=
  s.reconcilePlan.map fun left => (r, left)

/-- What an operation does: it advances machines, and then it answers. -/
def plan (s : Scheduler) : Operation → Plan (Reply × List Context × World)
  | .start name ambient =>
    match s.engine.event? name with
    | none => .done (.started (.error (.unknownEvent name)), s.contexts, s.world)
    | some event =>
      .advance (s.starting name ambient event) fun m =>
        answerPlan (.started (.ok s.world.allocate.1))
          (s.holding (s.contexts ++ [m.context], m.world))
  | .update deltaMs =>
    (framePlan deltaMs s.contexts (s.ticked deltaMs)).bind fun left =>
      answerPlan .done (s.holding left)
  | .resume id =>
    match (s.context? id).bind Context.wake? with
    | none => .done (.flag false, s.contexts, s.world)
    | some c => (s.contextPlan c).bind fun left => answerPlan (.flag true) (s.holding left)
  | .choose id index =>
    match s.context? id with
    | none => .done (.chosen (.error (.unknownContext id)), s.contexts, s.world)
    | some c =>
      match c.boundary with
      | some (.choice options) =>
        if options.length ≤ index then
          .done (.chosen (.error (.choiceIndex index options.length)), s.contexts, s.world)
        else
          let c := { c with choice := some index }
          (s.contextPlan (c.wake?.getD c)).bind fun left =>
            answerPlan (.chosen (.ok ())) (s.holding left)
      | _ => .done (.chosen (.error (.noChoice id)), s.contexts, s.world)
  | .stop id =>
    match s.context? id with
    | none => .done (.flag false, s.contexts, s.world)
    | some c => answerPlan (.flag true) (s.replace id c.finish)
  | .destroy id =>
    answerPlan (.removed (s.world.destroyObject id).1)
      { s with world := (s.world.destroyObject id).2 }
  | .edit change => .done ((change.run s.world).1, s.contexts, (change.run s.world).2)
  | .snapshot => .done (.snapshot s.snapshot, s.contexts, s.world)

/-- The answer and the scheduler that come of a plan, at a depth. -/
def within (s : Scheduler) (depth : Nat) (p : Plan (Reply × List Context × World)) :
    Option (Reply × Scheduler) :=
  (p.run (Machine.advanceWithin s.engine depth)).map fun x => (x.1, (s.withDepth depth).holding x.2)

variable (s : Scheduler) (depth : Nat)

theorem reconcile_map_withDepth (r : Reply) :
    ((s.withDepth depth).reconcile.map fun s => (r, s)) = within s depth (answerPlan r s) := by
  rw [reconcile_withDepth, Scheduler.within, within, answerPlan, run_map]
  cases s.reconcilePlan.run (Machine.advanceWithin s.engine depth) <;> rfl

theorem advanceContext_map_withDepth (r : Reply) (c : Context) :
    ((((s.withDepth depth).advanceContext c).bind reconcile).map fun s => (r, s)) =
      within s depth ((s.contextPlan c).bind fun left => answerPlan r (s.holding left)) := by
  rw [advanceContext_withDepth, Scheduler.within, within, run_bind]
  cases (s.contextPlan c).run (Machine.advanceWithin s.engine depth) with
  | none => rfl
  | some left => exact reconcile_map_withDepth (s.holding left) depth r

/-- **An operation does what its plan says**, at any depth. -/
theorem run_withDepth (op : Operation) :
    op.run (s.withDepth depth) = within s depth (op.plan s) := by
  have hcontext : ∀ id, (s.withDepth depth).context? id = s.context? id := fun _ => rfl
  have hadv : Machine.advance (s.withDepth depth).engine = Machine.advanceWithin s.engine depth :=
    Machine.advance_withDepth s.engine depth
  cases op with
  | start name ambient =>
    have hevent : (s.withDepth depth).engine.event? name = s.engine.event? name := rfl
    rw [Operation.run, plan]
    cases h : s.engine.event? name with
    | none =>
      rw [h] at hevent
      simp only [Scheduler.start, hevent]
      rfl
    | some event =>
      have hstarting : (s.withDepth depth).starting name ambient event =
        s.starting name ambient event := rfl
      rw [start_eq _ (hevent.trans h), hadv, hstarting, within]
      simp only [Plan.run]
      cases Machine.advanceWithin s.engine depth (s.starting name ambient event) with
      | none => rfl
      | some m =>
        simp only [Option.map_map]
        exact reconcile_map_withDepth (s.holding (s.contexts ++ [m.context], m.world)) depth
          (.started (.ok s.world.allocate.1))
  | update deltaMs =>
    have hframe := advanceAll_ticked_withDepth s depth deltaMs
    rw [Operation.run, plan, update_eq, hframe, within, run_bind]
    cases (framePlan deltaMs s.contexts (s.ticked deltaMs)).run
        (Machine.advanceWithin s.engine depth) with
    | none => rfl
    | some left => exact reconcile_map_withDepth (s.holding left) depth .done
  | resume id =>
    rw [Operation.run, Scheduler.resume, plan, hcontext]
    cases (s.context? id).bind Context.wake? with
    | none => rfl
    | some c =>
      simp only [Option.map_map]
      exact advanceContext_map_withDepth s depth (.flag true) c
  | choose id index =>
    rw [Operation.run, Scheduler.choose, plan, hcontext]
    cases s.context? id with
    | none => rfl
    | some c =>
      cases hb : c.boundary with
      | none => simp only [hb]; rfl
      | some boundary =>
        cases boundary with
        | choice options =>
          simp only [hb]
          split
          · rfl
          · rw [Option.map_map]
            exact advanceContext_map_withDepth s depth (.chosen (.ok ())) _
        | _ => simp only [hb]; rfl
  | stop id =>
    rw [Operation.run, Scheduler.stop, plan, hcontext]
    cases s.context? id with
    | none => rfl
    | some c =>
      simp only [Option.map_map]
      exact reconcile_map_withDepth (s.replace id c.finish) depth (.flag true)
  | destroy id =>
    rw [Operation.run, Scheduler.destroyObject, Option.map_map]
    exact reconcile_map_withDepth { s with world := (s.world.destroyObject id).2 } depth _
  | edit change => rfl
  | snapshot => rfl

theorem advanced_answerPlan (r : Reply) :
    (answerPlan r s).advanced (Machine.advanceWithin s.engine depth) =
      reconcileAdvances (some (s.withDepth depth)) := by
  rw [answerPlan, advanced_map, reconcileAdvances_withDepth]

/-- The advance of a context and what follows from it. -/
theorem advances_context_withDepth (r : Reply) (c : Context) :
    ⟨c, s.world⟩ :: reconcileAdvances ((s.withDepth depth).advanceContext c) =
      ((s.contextPlan c).bind fun left => answerPlan r (s.holding left)).advanced
        (Machine.advanceWithin s.engine depth) := by
  rw [advanceContext_withDepth, Scheduler.within]
  simp only [contextPlan, Plan.bind, Plan.run, advanced]
  cases Machine.advanceWithin s.engine depth ⟨c, s.world⟩ with
  | none => rfl
  | some m =>
    exact congrArg _ (advanced_answerPlan
      (s.holding (replaceIn c.id m.context s.contexts, m.world)) depth r).symm

/-- **An operation advances the machines that its plan does**, at any depth. -/
theorem advances_withDepth (op : Operation) :
    op.advances (s.withDepth depth) =
      (op.plan s).advanced (Machine.advanceWithin s.engine depth) := by
  have hcontext : ∀ id, (s.withDepth depth).context? id = s.context? id := fun _ => rfl
  have hadv : Machine.advance (s.withDepth depth).engine = Machine.advanceWithin s.engine depth :=
    Machine.advance_withDepth s.engine depth
  cases op with
  | start name ambient =>
    have hevent : (s.withDepth depth).engine.event? name = s.engine.event? name := rfl
    rw [Operation.advances, plan, hevent]
    cases s.engine.event? name with
    | none => rfl
    | some event =>
      simp only [advanced]
      refine congrArg (List.cons (s.starting name ambient event)) ?_
      rw [hadv]
      -- what reconciling advances is nothing if the new context has no result at this depth
      change reconcileAdvances
        ((Machine.advanceWithin s.engine depth (s.starting name ambient event)).map _) = _
      cases Machine.advanceWithin s.engine depth (s.starting name ambient event) with
      | none => rfl
      | some m =>
        exact (advanced_answerPlan (s.holding (s.contexts ++ [m.context], m.world)) depth _).symm
  | update deltaMs =>
    have hframe := advanceAll_ticked_withDepth s depth deltaMs
    rw [Operation.advances, plan, advanced_bind, ← frameAdvances_withDepth]
    refine congrArg _ ?_
    change reconcileAdvances ((advanceAll _ _ _ ((s.withDepth depth).ticked deltaMs)).map _) = _
    rw [hframe]
    cases (framePlan deltaMs s.contexts (s.ticked deltaMs)).run
        (Machine.advanceWithin s.engine depth) with
    | none => rfl
    | some left => exact (advanced_answerPlan (s.holding left) depth .done).symm
  | resume id =>
    rw [Operation.advances, plan, hcontext]
    cases (s.context? id).bind Context.wake? with
    | none => rfl
    | some c => exact advances_context_withDepth s depth (.flag true) c
  | choose id index =>
    rw [Operation.advances, plan, hcontext]
    cases s.context? id with
    | none => rfl
    | some c =>
      cases hb : c.boundary with
      | none => simp only [hb]; rfl
      | some boundary =>
        cases boundary with
        | choice options =>
          simp only [hb]
          split
          · rfl
          · exact advances_context_withDepth s depth (.chosen (.ok ())) _
        | _ => simp only [hb]; rfl
  | stop id =>
    rw [Operation.advances, plan, hcontext]
    cases s.context? id with
    | none => rfl
    | some c => exact (advanced_answerPlan (s.replace id c.finish) depth (.flag true)).symm
  | destroy id =>
    exact (advanced_answerPlan { s with world := (s.world.destroyObject id).2 } depth _).symm
  | edit change => rfl
  | snapshot => rfl

/-- **An operation has a result just if everything that it advances has one.** -/
theorem isSome_run_iff (op : Operation) :
    (op.run s).isSome ↔ ∀ m ∈ op.advances s, (Machine.advance s.engine m).isSome := by
  -- the depth is that of the scheduler itself
  have hself : s.withDepth s.engine.spawnDepth = s := rfl
  have hrun := run_withDepth s s.engine.spawnDepth op
  have hadvances := advances_withDepth s s.engine.spawnDepth op
  rw [hself] at hrun hadvances
  rw [hrun, hadvances, within, Option.isSome_map, Plan.isSome_run_iff]
  rfl

end Operation

end Cutscene
