import Cutscene.Proofs.Run.Steady
import Cutscene.Proofs.Scheduler.Surplus
import Cutscene.Proofs.Walk.Lowering
/-!
# Scheduler — a budget only slices a run

An event that runs steady steps as the only context goes on, frame after frame,
where its budget stopped it. The scheduler bears the machine that steps alone
have made (`Scheduler.Bears`): an operation gives it one more budget of steps,
and whatever else happens between two advances is not seen by the event
(`Scheduler.Bears.update`, `Scheduler.exists_start`). So how a run is sliced is
the only thing that depends on the budget (`Library.IsSteady.slices`).
-/

namespace Cutscene

/-! ## Frames -/

namespace Operation

/-- An event is started, and then frames pass. -/
def frames (name : String) (ambient : Ambient) (deltas : List Float) : List Operation :=
  .start name ambient :: deltas.map .update

/-- The machines that operations advance, in order. -/
def advancesAll (s : Scheduler) : List Operation → List Machine
  | [] => []
  | op :: ops => op.advances s ++
      match op.run s with
      | none => []
      | some (_, s) => advancesAll s ops

theorem runAll_cons {s s' : Scheduler} {op : Operation} {r : Reply}
    (h : op.run s = some (r, s')) (ops : List Operation) :
    runAll s (op :: ops) = (runAll s' ops).map fun x => (r :: x.1, x.2) := by
  rw [runAll, h]

theorem advancesAll_cons {s s' : Scheduler} {op : Operation} {r : Reply}
    (h : op.run s = some (r, s')) (ops : List Operation) :
    advancesAll s (op :: ops) = op.advances s ++ advancesAll s' ops := by
  rw [advancesAll, h]

end Operation

namespace Scheduler

variable {e : Engine} {s s' : Scheduler} {x y : Machine}

/-! ## Reconciling where nobody waits -/

theorem drained_drained (s : Scheduler) : s.drained.drained = s.drained := by
  simp [drained, takeSpawned]

theorem meetRequests_of_idle (h : ∀ id, s.Idle id) (ids : List EventId) :
    meetRequests ids s = some s := by
  induction ids with
  | nil => rfl
  | cons id ids ih =>
    rw [meetRequests, meetRequest_of_idle (h id)]
    exact ih

theorem requestsAdvances_of_idle (h : ∀ id, s.Idle id) (ids : List EventId) :
    requestsAdvances ids s = [] := by
  induction ids with
  | nil => rfl
  | cons id ids ih =>
    have hnone : s.requestAdvances id = [] := by
      rw [List.eq_nil_iff_forall_not_mem]
      intro m hm
      obtain ⟨c, hc, hpaused, -⟩ := mem_requestAdvances.1 hm
      simp [h id c hc] at hpaused
    rw [requestsAdvances, meetRequest_of_idle (h id), hnone]
    exact ih

/-- Two rounds are enough where nobody waits. -/
theorem meetRounds_of_idle (h : ∀ id, s.drained.Idle id) (rounds : Nat) :
    meetRounds (rounds + 2) s = some s.drained := by
  rw [meetRounds_succ]
  split
  · rfl
  · rw [meetRequests_of_idle h]
    exact (meetRounds_succ ..).trans (congrArg some s.drained_drained)

theorem roundsAdvances_of_idle (h : ∀ id, s.drained.Idle id) (rounds : Nat) :
    roundsAdvances (rounds + 2) s = [] := by
  rw [roundsAdvances_succ]
  split
  · rfl
  · rw [requestsAdvances_of_idle h, meetRequests_of_idle h]
    rfl

/-- **Where nobody waits and nobody has an owner, reconciling advances nothing**:
it empties the queues and drops the finished contexts. -/
theorem reconcile_of_idle (hspawned : s.world.spawned = [])
    (hpaused : ∀ c ∈ s.contexts, c.state.isPaused = false)
    (howner : ∀ c ∈ s.contexts, c.ambient.owner = none) :
    reconcileAdvances (some s) = [] ∧
      s.reconcile = some ⟨s.engine, { s.world with resumes := [], destroyed := [] },
        s.contexts.filter (!·.state.isFinished)⟩ := by
  have hcontexts : s.drained.contexts = s.contexts := by simp [drained, takeSpawned, hspawned]
  have hidle : ∀ id, s.drained.Idle id := fun id c hc =>
    hpaused c (hcontexts ▸ mem_of_context? hc)
  refine ⟨roundsAdvances_of_idle hidle 9998, ?_⟩
  rw [reconcile, show maxRounds = 9998 + 2 from rfl, meetRounds_of_idle hidle]
  have horphan : ∀ c ∈ s.contexts, (if isOrphan s.world.destroyed c then c.finish else c) = c :=
    fun c hc => if_neg (by simp [isOrphan, howner c hc])
  have hswept : (s.contexts.map fun c => if isOrphan s.world.destroyed c then c.finish else c) =
      s.contexts :=
    (List.map_congr_left horphan).trans (List.map_id' _)
  simp [sweep, takeSpawned, drained, hspawned, hswept]

/-! ## One context -/

/-- The scheduler holds the machine's context and nothing else, or nothing if
that has finished, and its world is the machine's but for what a frame
changes. -/
structure Bears (e : Engine) (x : Machine) (s : Scheduler) : Prop where
  engine : s.engine = e
  contexts : s.contexts = [x.context].filter (!·.state.isFinished)
  world : s.world.lasting = x.world.lasting

theorem Bears.isFinished (h : s.Bears e x) (hnone : s.contexts = []) :
    x.context.state.isFinished := by
  have hcontexts := h.contexts.symm.trans hnone
  simpa using hcontexts

theorem Bears.contexts_eq_nil (h : s.Bears e x) (hfinished : x.context.state.isFinished) :
    s.contexts = [] := by
  rw [h.contexts, List.filter_cons_of_neg (by simp [hfinished]), List.filter_nil]

/-- **Reconciling leaves the one machine that is there.** -/
theorem exists_reconcile (hx : x.Steady) (hy : x.Matches y) (e : Engine) {cs : List Context}
    (hcs : cs = [y.context] ∨ cs = [] ∧ x.context.state.isFinished) :
    ∃ s', reconcile ⟨e, y.world, cs⟩ = some s' ∧ s'.Bears e x ∧
      reconcileAdvances (some ⟨e, y.world, cs⟩) = [] := by
  have hsteady := hx.of_matches hy
  have hmem : ∀ c ∈ cs, c = y.context := by
    rcases hcs with rfl | ⟨rfl, -⟩ <;> simp
  obtain ⟨hadvances, hreconcile⟩ := reconcile_of_idle (s := ⟨e, y.world, cs⟩) hsteady.spawned
    (fun c hc => hmem c hc ▸ hsteady.isPaused) fun c hc => hmem c hc ▸ hsteady.owner
  refine ⟨_, hreconcile, ⟨rfl, ?_, hy.world⟩, hadvances⟩
  rcases hcs with rfl | ⟨rfl, hfinished⟩
  · rw [hy.context]
  · simp [hfinished]

/-- A context that does not wait is not changed by a frame's time. -/
theorem countDown_of_isRunning {c : Context} (h : c.state.isRunning) (deltaMs : Float) :
    countDown deltaMs c = c := by
  rw [countDown]
  cases hstate : c.state <;> simp_all [RunState.isRunning]

/-- What a frame advances is the machine, for one more budget of steps. -/
theorem Bears.exists_advanceAll (he : e.IsSteady) (hx : x.Steady) (h : s.Bears e x)
    (hy : Machine.steps e (fun _ => none) e.stepBudget x = some y) (deltaMs : Float) :
    ∃ z cs, y.Matches z ∧ (cs = [z.context] ∨ cs = [] ∧ y.context.state.isFinished) ∧
      advanceAll e deltaMs s.contexts (s.ticked deltaMs) = some (cs, z.world) ∧
      ∀ m ∈ frameAdvances e deltaMs s.contexts (s.ticked deltaMs), m.Steady := by
  -- the frame finds the machine as the last one left it, but for the time
  have hticked : x.Matches ⟨x.context, s.ticked deltaMs⟩ := ⟨rfl, h.world⟩
  cases hrunning : x.context.state.isRunning with
  | false =>
    rw [Machine.steps_of_not_running hrunning] at hy
    obtain rfl := Option.some.inj hy
    have hnone := h.contexts_eq_nil (hx.isFinished hrunning)
    refine ⟨_, [], hticked, .inr ⟨rfl, hx.isFinished hrunning⟩, ?_, ?_⟩
    · rw [hnone]
      rfl
    · simp [hnone, frameAdvances]
  | true =>
    have hcontexts : s.contexts = [x.context] := by
      simp [h.contexts, RunState.isFinished_of_isRunning hrunning]
    obtain ⟨z, hz, hmatches⟩ := he.exists_advance hx hy hticked
    refine ⟨z, [z.context], hmatches, .inl rfl, ?_, ?_⟩
    · simp [hcontexts, advanceAll, countDown_of_isRunning hrunning, hrunning, hz]
    · simpa [hcontexts, frameAdvances, countDown_of_isRunning hrunning, hrunning, hz] using
        hx.of_matches hticked

/-- **A frame is one more budget of steps.** -/
theorem Bears.update (he : e.IsSteady) (hx : x.Steady) (h : s.Bears e x)
    (hy : Machine.steps e (fun _ => none) e.stepBudget x = some y) (deltaMs : Float) :
    ∃ s', (Operation.update deltaMs).run s = some (.done, s') ∧ s'.Bears e y ∧
      ∀ m ∈ (Operation.update deltaMs).advances s, m.Steady := by
  obtain ⟨z, cs, hmatches, hcs, hadvanced, hframe⟩ := h.exists_advanceAll he hx hy deltaMs
  obtain ⟨s', hs', hbears, hnone⟩ := exists_reconcile (he.steady_steps hx hy) hmatches e hcs
  obtain rfl := h.engine
  refine ⟨s', ?_, hbears, ?_⟩
  · rw [Operation.run, update_eq, hadvanced]
    exact congrArg (Option.map _) hs'
  · have hadvances : (Operation.update deltaMs).advances s =
        frameAdvances s.engine deltaMs s.contexts (s.ticked deltaMs) := by
      have hreconciled := congrArg (fun o => reconcileAdvances (o.map s.holding)) hadvanced
      exact (congrArg _ (hreconciled.trans hnone)).trans (List.append_nil _)
    rw [hadvances]
    exact hframe

theorem steady_starting {w : World} (hw : w.spawned = []) {ambient : Ambient}
    (howner : ambient.owner = none) (e : Engine) (name : String) (event : Compiled) :
    (starting ⟨e, w, []⟩ name ambient event).Steady :=
  ⟨.inl rfl, howner, hw⟩

/-- **So is the start of an event.** -/
theorem exists_start (he : e.IsSteady) {w : World} (hw : w.spawned = []) {name : String}
    {event : Compiled} (hevent : e.event? name = some event) {ambient : Ambient}
    (howner : ambient.owner = none)
    (hy : Machine.steps e (fun _ => none) e.stepBudget
      (starting ⟨e, w, []⟩ name ambient event) = some y) :
    ∃ r s', (Operation.start name ambient).run ⟨e, w, []⟩ = some (r, s') ∧ s'.Bears e y ∧
      ∀ m ∈ (Operation.start name ambient).advances ⟨e, w, []⟩, m.Steady := by
  have hsteady := steady_starting hw howner e name event
  obtain ⟨z, hz, hmatches⟩ := he.exists_advance hsteady hy (.refl _)
  obtain ⟨s', hs', hbears, hnone⟩ :=
    exists_reconcile (he.steady_steps hsteady hy) hmatches e (.inl rfl)
  refine ⟨.started (.ok w.allocate.1), s', ?_, hbears, ?_⟩
  · rw [Operation.run, start_eq _ hevent]
    simp only [hz]
    rw [show (holding ⟨e, w, []⟩ ([] ++ [z.context], z.world)).reconcile = some s' from hs']
    rfl
  · have hadvances : (Operation.start name ambient).advances ⟨e, w, []⟩ =
        [starting ⟨e, w, []⟩ name ambient event] := by
      have hreconciled := congrArg (fun o : Option Machine => reconcileAdvances (o.map fun m =>
        (⟨e, m.world, [] ++ [m.context]⟩ : Scheduler))) hz
      rw [Operation.advances, hevent]
      exact congrArg _ (hreconciled.trans hnone)
    rw [hadvances]
    exact List.forall_mem_singleton.2 hsteady

/-- **Frames are as many budgets of steps.** -/
theorem Bears.runAll (he : e.IsSteady) (hx : x.Steady) (h : s.Bears e x) {deltas : List Float}
    (hy : Machine.steps e (fun _ => none) (e.stepBudget * deltas.length) x = some y) :
    ∃ rs s', Operation.runAll s (deltas.map .update) = some (rs, s') ∧ s'.Bears e y ∧
      ∀ m ∈ Operation.advancesAll s (deltas.map .update), m.Steady := by
  induction deltas generalizing s x with
  | nil =>
    obtain rfl := Option.some.inj hy
    exact ⟨[], s, rfl, h, fun m hm => by simp [Operation.advancesAll] at hm⟩
  | cons deltaMs deltas ih =>
    rw [List.length_cons, Nat.mul_succ, Nat.add_comm, Machine.steps_add] at hy
    obtain ⟨z, hz, hy⟩ := Option.bind_eq_some_iff.1 hy
    obtain ⟨s₁, hrun, hbears, hadvances⟩ := h.update he hx hz deltaMs
    obtain ⟨rs, s', hruns, hbears', hmore⟩ := ih (he.steady_steps hx hz) hbears hy
    refine ⟨.done :: rs, s', ?_, hbears', ?_⟩
    · rw [List.map_cons, Operation.runAll_cons hrun, hruns]
      rfl
    · rw [List.map_cons, Operation.advancesAll_cons hrun]
      exact List.forall_mem_append.2 ⟨hadvances, hmore⟩

open Operation in
/-- **A run is so many steps of one machine**, however they are sliced. -/
theorem exists_frames (he : e.IsSteady) {w : World} (hw : w.spawned = []) {name : String}
    {event : Compiled} (hevent : e.event? name = some event) {ambient : Ambient}
    (howner : ambient.owner = none) (deltas : List Float) :
    ∃ y rs s', Machine.steps e (fun _ => none) (e.stepBudget * (deltas.length + 1))
        (starting ⟨e, w, []⟩ name ambient event) = some y ∧
      runAll ⟨e, w, []⟩ (frames name ambient deltas) = some (rs, s') ∧ s'.Bears e y ∧
      ∀ m ∈ advancesAll ⟨e, w, []⟩ (frames name ambient deltas), m.Steady := by
  have hsteady := steady_starting hw howner e name event
  obtain ⟨x, hx, hx', -⟩ := he.exists_steps hsteady e.stepBudget
  obtain ⟨y, hy, -, -⟩ := he.exists_steps hx' (e.stepBudget * deltas.length)
  obtain ⟨r, s₁, hrun, hbears, hadvances⟩ := exists_start he hw hevent howner hx
  obtain ⟨rs, s', hruns, hbears', hmore⟩ := hbears.runAll he hx' hy
  refine ⟨y, r :: rs, s', ?_, ?_, hbears', ?_⟩
  · rw [Nat.mul_succ, Nat.add_comm, Machine.steps_add, hx, Option.bind_some, hy]
  · rw [frames, runAll_cons hrun, hruns]
    rfl
  · rw [frames, advancesAll_cons hrun]
    exact List.forall_mem_append.2 ⟨hadvances, hmore⟩

end Scheduler

/-! ## Budgets -/

theorem Engine.IsSteady.withBudget {e : Engine} (he : e.IsSteady) (budget : Nat) :
    (e.withBudget budget).IsSteady :=
  fun _ _ hstep => he hstep

open Operation in
/-- **A budget only slices a run.** Let the steps of a library be steady, and
start an event without an owner where no other context is. Whatever the budget
and however many frames pass, there is a result, and every advance executes a
budget of steps unless it finishes the event before. If the event finishes under
one budget, it does so under another after frames enough, with the same calls to
the host, variables, objects and random state. -/
theorem Library.IsSteady.slices {e : Engine} {l : Library} (hl : l.IsSteady) (he : e.Serves l)
    {name : String} {d : EventDef} (hd : l.get? name = some d) {ambient : Ambient}
    (howner : ambient.owner = none) {w : World} (hw : w.spawned = []) :
    (∀ budget deltas,
      (runAll ⟨e.withBudget budget, w, []⟩ (frames name ambient deltas)).isSome ∧
      ∀ m ∈ advancesAll ⟨e.withBudget budget, w, []⟩ (frames name ambient deltas),
        m.Portion (e.withBudget budget)) ∧
    ∀ budget budget' deltas rs s, 1 ≤ budget → 1 ≤ budget' →
      runAll ⟨e.withBudget budget, w, []⟩ (frames name ambient deltas) =
        some (rs, s) → s.contexts = [] →
      ∀ deltas' : List Float, budget * (deltas.length + 1) ≤ budget' * (deltas'.length + 1) →
        ∃ rs' s', runAll ⟨e.withBudget budget', w, []⟩ (frames name ambient deltas') =
            some (rs', s') ∧ s'.contexts = [] ∧
          s'.world.trace = s.world.trace ∧ s'.world.globals = s.world.globals ∧
          s'.world.objects = s.world.objects ∧ s'.world.selfVars = s.world.selfVars ∧
          s'.world.random = s.world.random := by
  have hsteady := he.isSteady hl
  have hevent : e.event? name = some (.ofEvent l.environment d) := by rw [he.event?, hd]; rfl
  have hbudget : ∀ {budget}, 1 ≤ budget → (e.withBudget budget).stepBudget = budget :=
    fun h => Nat.max_eq_left h
  have hframes (budget : Nat) :=
    Scheduler.exists_frames (hsteady.withBudget budget) hw hevent howner
  constructor
  · intro budget deltas
    obtain ⟨-, rs, s, -, hruns, -, hadvances⟩ := hframes budget deltas
    exact ⟨Option.isSome_iff_exists.2 ⟨_, hruns⟩,
      fun m hm => (hsteady.withBudget budget).portion (hadvances m hm)⟩
  · intro budget budget' deltas rs s hpos hpos' hrun hnone deltas' hle
    obtain ⟨y, rs₁, s₁, hy, hrun₁, hbears, -⟩ := hframes budget deltas
    obtain ⟨y', rs', s', hy', hrun', hbears', -⟩ := hframes budget' deltas'
    obtain ⟨-, rfl⟩ := Prod.mk.inj (Option.some.inj (hrun₁.symm.trans hrun))
    have hfinished := hbears.isFinished hnone
    -- the machine of the first run has finished, so the steps that are left do nothing
    rw [Machine.steps_withBudget, hbudget hpos] at hy
    rw [Machine.steps_withBudget, hbudget hpos'] at hy'
    obtain rfl := Option.some.inj ((Machine.steps_of_finished hle hy hfinished).symm.trans hy')
    have hlasts {α : Type} (f : World → α) : f s'.world.lasting = f s₁.world.lasting :=
      congrArg f (hbears'.world.trans hbears.world.symm)
    exact ⟨rs', s', hrun', hbears'.contexts_eq_nil hfinished, hlasts World.trace,
      hlasts World.globals, hlasts World.objects, hlasts World.selfVars, hlasts World.random⟩

/-- The greetings of a list, three steps at a time: after the start and six
frames the event is over. One step at a time it is over after twenty frames, with
the same greetings. -/
theorem Library.IsSteady.slices_roster :
    Library.roster.IsSteady ∧ Engine.Serves (.ofLibrary .roster) .roster ∧
      (∃ d, Library.roster.get? "main" = some d) ∧ Ambient.none.owner = none ∧
      (World.fresh 0).spawned = [] ∧
      ∃ rs s, Operation.runAll ⟨(Engine.ofLibrary .roster).withBudget 3, .fresh 0, []⟩
          (Operation.frames "main" .none (List.replicate 6 16.0)) = some (rs, s) ∧
        s.contexts = [] ∧ s.world.trace == [.log "c", .log "a"] ∧
        ∃ rs' s', Operation.runAll ⟨(Engine.ofLibrary .roster).withBudget 1, .fresh 0, []⟩
            (Operation.frames "main" .none (List.replicate 20 16.0)) = some (rs', s') ∧
          s'.contexts = [] ∧ s'.world.trace = s.world.trace := by
  have hl : Library.roster.IsSteady := by decide +kernel
  have hget : (Library.roster.get? "main").isSome := by decide +kernel
  obtain ⟨d, hd⟩ := Option.isSome_iff_exists.1 hget
  have hran : (Operation.runAll ⟨(Engine.ofLibrary .roster).withBudget 3, .fresh 0, []⟩
      (Operation.frames "main" .none (List.replicate 6 16.0))).any fun x =>
        x.2.contexts.isEmpty && x.2.world.trace == [.log "c", .log "a"] := by
    decide +kernel
  obtain ⟨⟨rs, s⟩, hrun, hs⟩ := (Option.any_eq_true _ _).1 hran
  obtain ⟨hempty, htrace⟩ := Bool.and_eq_true_iff.1 hs
  have hnone := List.isEmpty_iff.1 hempty
  obtain ⟨-, hslices⟩ := hl.slices (.ofLibrary .roster) hd
    (show Ambient.none.owner = none from rfl) (show (World.fresh 0).spawned = [] from rfl)
  obtain ⟨rs', s', hrun', hnone', htrace', -⟩ :=
    hslices 3 1 (List.replicate 6 16.0) rs s (by decide) (by decide) hrun hnone
      (List.replicate 20 16.0) (by simp)
  exact ⟨hl, .ofLibrary .roster, ⟨d, hd⟩, rfl, rfl, rs, s, hrun, hnone, htrace, rs', s', hrun',
    hnone', htrace'⟩

end Cutscene
