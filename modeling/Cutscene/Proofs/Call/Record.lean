import Cutscene.Proofs.Call.Life
/-!
# Calls — the steps that a context has executed

A context's record is the row of the steps that it has executed since it was
created, the latest first, each with the machine that it found and the one that
it left (`Context.Did`). Between two steps of its own a context may be paused
and woken, wait, be given a choice, or be saved and loaded, and others run and
change the world. None of that moves it, so none of it is in the record, and a
law about the steps of a context in a row is an induction along its record,
whatever happens in between.

Every context that executes a step has a record
(`Scheduler.Reachable.exists_record`).
-/

namespace Cutscene

/-- A step that was executed: the machine that it found, and the one that it
left. -/
structure Executed where
  before : Machine
  after : Machine
  deriving Inhabited

/-- Executing the step, with this outcome, is what happened. -/
structure Executed.Of (e : Engine) (step : Step) (o : Outcome) (x : Executed) : Prop where
  running : x.before.context.state.isRunning
  here : e.step? x.before.context.place = some step
  plain : step.isCustom = false
  run : step.run e (x.before.past step) = (o, x.after)

/-- What is executed is a turn of its step. -/
theorem Executed.Of.exists_turn {e : Engine} {step : Step} {o : Outcome} {x : Executed}
    (h : x.Of e step o) : ∃ id vars, step.Turn e id
      { x.before.context.goto (x.before.context.place.plus 1) with attributes := vars } o
        x.after.context := by
  have turns : Act.Turns False False e step (step.run e) :=
    step.turns h.plain False.elim False.elim
  obtain ⟨es, o', c', -, turn, run, -⟩ := turns (x.before.past step)
  obtain ⟨rfl, after⟩ := Prod.mk.inj (h.run.symm.trans run)
  rw [Machine.context_after] at turn
  rw [after]
  exact ⟨_, _, turn⟩

/-- The context has executed the steps of the list, the latest first, and no
others but custom ones. -/
inductive Context.Did (e : Engine) : List Executed → Context → Prop
  | new {c : Context} (h : c.IsNew) : Did e [] c
  | step {done : List Executed} {x : Executed} {step : Step} {o : Outcome}
      (h : Did e done x.before.context) (executed : x.Of e step o) :
    Did e (x :: done) x.after.context
  /-- A custom step, which is the host's. -/
  | pass {done : List Executed} {c : Context} {step : Step} {vars : Attributes} (h : Did e done c)
      (running : c.state.isRunning) (here : e.step? c.place = some step)
      (custom : step.isCustom) :
    Did e done { c.goto (c.place.plus 1) with attributes := vars }
  /-- Whatever leaves a context that has not finished where it stands. -/
  | stand {done : List Executed} {c c' : Context} (h : Did e done c)
      (live : c.state.isFinished = false) (same : c.SameControl c') : Did e done c'

namespace Context.Did

variable {e : Engine} {c : Context}

/-- **A record goes back to each of its steps.** -/
theorem of_append {later earlier : List Executed} {x : Executed}
    (h : c.Did e (later ++ x :: earlier)) :
    ∃ step o, x.before.context.Did e earlier ∧ x.Of e step o := by
  generalize hdone : later ++ x :: earlier = done at h
  induction h generalizing later with
  | new h => simp at hdone
  | @step done y step o h executed ih =>
    rcases List.append_eq_cons_iff.1 hdone with ⟨-, heq⟩ | ⟨later, -, heq⟩
    · obtain ⟨rfl, rfl⟩ := List.cons.inj heq
      exact ⟨step, o, h, executed⟩
    · exact ih heq.symm
  | pass h running here custom ih => exact ih hdone
  | stand h live same ih => exact ih hdone

end Context.Did

/-- The record, the latest step first, of so many more steps of a machine that
is woken as soon as it stops. Custom steps are left out of it, and it ends early
at a step that finishes the context. -/
def Machine.recorded (e : Engine) : Nat → List Executed → Machine → List Executed × Machine
  | 0, done, m => (done, m)
  | count + 1, done, m =>
    match e.step? m.context.place with
    | none => (done, m)
    | some step =>
      let m' := (step.run e (m.past step)).2
      if m'.context.state.isFinished then (done, m)
      else
        recorded e count (if step.isCustom then done else ⟨m, m'⟩ :: done)
          { m' with context.state := .running }

/-- A custom step leaves the record as it is. -/
theorem Context.Did.custom {e : Engine} (hk : e.KeepsControl) {done : List Executed} {m : Machine}
    {step : Step} (h : m.context.Did e done) (running : m.context.state.isRunning)
    (here : e.step? m.context.place = some step) (custom : step.isCustom)
    (live : (step.run e (m.past step)).2.context.state.isFinished = false) :
    (step.run e (m.past step)).2.context.Did e done := by
  have passed : Context.Did e done
      { m.context.goto (m.context.place.plus 1) with attributes := m.context.attributes } :=
    h.pass running here custom
  rcases Step.run_custom e custom with ⟨id, arguments, handler, -, handled, some⟩ | none
  · rw [some] at live ⊢
    obtain ⟨control, -⟩ := hk id handler handled arguments (m.past step)
    exact passed.stand (RunState.isFinished_of_isRunning running) (control live)
  · rw [none]
    exact passed

/-- **What is recorded is a record.** -/
theorem Machine.did_recorded {e : Engine} (hk : e.KeepsControl) (count : Nat)
    {done : List Executed} {m : Machine} (h : m.context.Did e done)
    (running : m.context.state.isRunning) :
    (m.recorded e count done).2.context.Did e (m.recorded e count done).1 := by
  induction count generalizing done m with
  | zero => exact h
  | succ count ih =>
    rw [recorded]
    split
    · exact h
    rename_i step here
    simp only
    split
    · exact h
    · rename_i goes
      have live : (step.run e (m.past step)).2.context.state.isFinished = false := by
        simpa using goes
      refine ih (.stand ?_ live ⟨rfl, rfl, rfl, rfl, rfl⟩) rfl
      cases custom : step.isCustom with
      | true => exact h.custom hk running here custom live
      | false =>
        have executed : Executed.Of e step (step.run e (m.past step)).1
            ⟨m, (step.run e (m.past step)).2⟩ := ⟨running, here, custom, rfl⟩
        exact h.step executed

/-- The context has a record. -/
def Context.HasRecord (e : Engine) (c : Context) : Prop := ∃ done, c.Did e done

/-- **Contexts keep their records.** -/
theorem Engine.Serves.maintains_hasRecord {e : Engine} {l : Library} (he : e.Serves l)
    (hl : l.Lawful) (hk : e.KeepsControl) :
    e.Maintains fun c => c.Placed l ∧ c.UnlessFinished (Context.HasRecord e) := by
  have placed := he.maintains_placed hl (hk.keepsPlaces l)
  refine ⟨⟨?turn, ?skip, ?custom, ?pause, ?wake, ?countDown⟩, ?choose⟩
  case turn =>
    intro c c' step id vars o hc running here plain turn executes
    obtain ⟨placed', child⟩ := placed.turn hc.1 running here plain turn executes
    obtain ⟨done, did⟩ := hc.2 (RunState.isFinished_of_isRunning running)
    obtain ⟨m, m', rfl, run, rfl⟩ := executes
    have executed : Executed.Of e step o ⟨m, m'⟩ := ⟨running, here, plain, run⟩
    refine ⟨fun live => ⟨placed' live, fun _ => ⟨_, did.step executed⟩⟩, fun c ho => ?_⟩
    subst ho
    exact ⟨child c rfl, fun _ => ⟨[], .new turn.isNew⟩⟩
  case skip =>
    intro c step vars hc running here custom
    obtain ⟨done, did⟩ := hc.2 (RunState.isFinished_of_isRunning running)
    exact ⟨placed.skip hc.1 running here custom, fun _ => ⟨done, did.pass running here custom⟩⟩
  case custom =>
    intro m id arguments handler handled hc running hw
    obtain ⟨control, kept⟩ := hk id handler handled arguments m
    have live := RunState.isFinished_of_isRunning running
    obtain ⟨done, did⟩ := hc.2 live
    refine ⟨fun live' => ⟨hc.1.of_control (control live'), fun _ => ⟨done, ?_⟩⟩,
      fun c hc => hw c (kept ▸ hc)⟩
    exact did.stand live (control live')
  case pause =>
    intro c hc running
    have live := RunState.isFinished_of_isRunning running
    obtain ⟨done, did⟩ := hc.2 live
    exact ⟨placed.pause hc.1 running, fun _ => ⟨done, did.stand live ⟨rfl, rfl, rfl, rfl, rfl⟩⟩⟩
  case wake =>
    intro c hc paused
    have live := RunState.isFinished_of_isPaused paused
    obtain ⟨done, did⟩ := hc.2 live
    exact ⟨placed.wake hc.1 paused, fun _ => ⟨done, did.stand live ⟨rfl, rfl, rfl, rfl, rfl⟩⟩⟩
  case choose =>
    intro c index hc
    refine ⟨placed.choose hc.1, fun live => ?_⟩
    obtain ⟨done, did⟩ := hc.2 live
    exact ⟨done, did.stand live ⟨rfl, rfl, rfl, rfl, rfl⟩⟩
  case countDown =>
    intro c deltaMs hc
    refine ⟨placed.countDown hc.1, fun live => ?_⟩
    rw [Scheduler.isFinished_countDown] at live
    obtain ⟨done, did⟩ := hc.2 live
    obtain ⟨state, counted⟩ := Scheduler.exists_countDown_eq deltaMs c
    rw [counted]
    exact ⟨done, did.stand live ⟨rfl, rfl, rfl, rfl, rfl⟩⟩

/-- **Every context that executes a step has a record.** -/
theorem Scheduler.Reachable.exists_record {e : Engine} {l : Library} (he : e.Serves l)
    (hl : l.Lawful) (hk : e.KeepsControl) {s : Scheduler} (hs : s.Reachable e) {op : Operation}
    {x : Machine} (hx : x ∈ op.visits s) : x.context.HasRecord e := by
  have starts : ∀ op : Operation, op.Starts e fun c =>
      c.Placed l ∧ c.UnlessFinished (Context.HasRecord e) := by
    intro op id name ambient event ho hevent
    exact ⟨he.starts_placed hl op ho hevent, fun _ => ⟨[], .new ⟨_, _, _, _, rfl⟩⟩⟩
  have placed : ∀ c : Context,
      c.Placed l ∧ c.UnlessFinished (Context.HasRecord e) → c.Placed l := fun _ hc => hc.1
  have maintains := he.maintains_hasRecord hl hk
  obtain ⟨hengine, has⟩ := maintains.reachable starts (he.loads hl placed) hs
  exact (maintains.visited hengine has (starts op) hx).2
    (RunState.isFinished_of_isRunning (Operation.isRunning_of_mem_visits hx))

end Cutscene
