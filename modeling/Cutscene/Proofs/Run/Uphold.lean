import Cutscene.Proofs.Run.Turn
/-!
# Running — invariants of an advance

An engine upholds a property of contexts and one of worlds when every turn of
a step, every effect and every custom handler keeps them (`Engine.Upholds`).
From this one statement about single steps follows what an advance keeps
(`Engine.Upholds.advance`), whatever contexts are spawned on the way.

`Machine.visits` lists the machines at which an advance executes a step, those
of the contexts spawned among them: a law about every step that is executed is
one about the machines visited (`Engine.Upholds.visits`). An advance that finds
no step ends its context: `Machine.fetches` lists the machines at which one is
looked for, and the visits are those where there is one (`Machine.visits_eq`).
-/

namespace Cutscene

theorem RunState.isFinished_of_isRunning {s : RunState} (h : s.isRunning) :
    s.isFinished = false := by
  cases s with
  | finished => simp [RunState.isRunning] at h
  | _ => rfl

theorem RunState.isFinished_of_isPaused {s : RunState} (h : s.isPaused) :
    s.isFinished = false := by
  cases s with
  | finished => simp [RunState.isPaused] at h
  | _ => rfl

/-- Some machine with the first context runs the step, and is left with the
second. -/
def Step.Executes (e : Engine) (step : Step) (c : Context) (o : Outcome) (c' : Context) : Prop :=
  ∃ m m' : Machine, m.context = c ∧ step.run e (m.past step) = (o, m') ∧ m'.context = c'

/-- Every turn, effect and handler keeps a property of contexts and one of
worlds. A turn need only do so where it is really executed. -/
structure Engine.Upholds (e : Engine) (C : Context → Prop) (W : World → Prop) : Prop where
  turn : ∀ {c c' : Context} {step : Step} {id : EventId} {vars : Attributes} {o : Outcome},
    C c → c.state.isRunning → e.step? c.place = some step → step.isCustom = false →
    step.Turn e id { c.goto (c.place.plus 1) with attributes := vars } o c' →
    step.Executes e c o c' → C c' ∧ ∀ child, o = .spawn child → C child
  /-- A custom step without a handler. -/
  skip : ∀ {c : Context} {step : Step}, C c → c.state.isRunning → e.step? c.place = some step →
    step.isCustom → C (c.goto (c.place.plus 1))
  custom : ∀ {m : Machine} {id : String} {arguments : Arguments} {handler : Handler},
    C m.context → W m.world → m.context.state.isRunning →
    e.step? m.context.place = some (.custom id arguments) → e.handlers.get? id = some handler →
    C (handler arguments (m.past (.custom id arguments))).2.context ∧
      W (handler arguments (m.past (.custom id arguments))).2.world
  /-- A context that a step stops without saying why. -/
  pause : ∀ {c : Context}, C c → c.state.isRunning → C (c.pause .signal)
  finish : ∀ {c : Context}, C c → C c.finish
  effect : ∀ {m : Machine} {x : Effect}, W m.world → W (x.apply m).world
  bind : ∀ {w : World} {step : Step} {place : Place}, W w → W (w.bind step place)
  allocate : ∀ {w : World}, W w → W w.allocate.2
  adopt : ∀ {c : Context} {w : World}, C c → W w → W (w.adopt c)

theorem Step.run_custom_some {e : Engine} {id : String} {arguments : Arguments} {handler : Handler}
    (h : e.handlers.get? id = some handler) (m : Machine) :
    Step.run e (.custom id arguments) m =
      (.flow (handler arguments m).1, (handler arguments m).2) := by
  simp only [Step.run, h]

theorem Step.run_custom_none {e : Engine} {id : String} {arguments : Arguments}
    (h : e.handlers.get? id = none) (m : Machine) :
    Step.run e (.custom id arguments) m = (.flow .next, m) := by
  simp only [Step.run, h]
  rfl

/-- A custom step does what a handler does, or nothing. -/
theorem Step.run_custom (e : Engine) {step : Step} (hcustom : step.isCustom) :
    (∃ id arguments handler, step = .custom id arguments ∧ e.handlers.get? id = some handler ∧
      ∀ m, step.run e m = (.flow (handler arguments m).1, (handler arguments m).2)) ∨
    ∀ m, step.run e m = (.flow .next, m) := by
  cases step with
  | custom id arguments =>
    cases hhandler : e.handlers.get? id with
    | some handler =>
      exact .inl ⟨id, arguments, handler, rfl, hhandler, Step.run_custom_some hhandler⟩
    | none => exact .inr (Step.run_custom_none hhandler)
  | _ => simp [Step.isCustom] at hcustom

namespace Engine.Upholds

variable {e : Engine} {C : Context → Prop} {W : World → Prop}

theorem effects (h : e.Upholds C W) {m : Machine} (hw : W m.world) (es : List Effect) :
    W (m.after es).world := by
  induction es generalizing m with
  | nil => exact hw
  | cons x es ih => exact ih (h.effect hw)

/-- **One step keeps the properties, and a context it spawns has them.** -/
theorem run_step (h : e.Upholds C W) {m m' : Machine} {step : Step} {o : Outcome}
    (hc : C m.context) (hw : W m.world) (hrunning : m.context.state.isRunning)
    (hstep : e.step? m.context.place = some step) (hrun : step.run e (m.past step) = (o, m')) :
    C m'.context ∧ W m'.world ∧ ∀ child, o = .spawn child → C child := by
  cases hcustom : step.isCustom with
  | false =>
    have hturns : Act.Turns False False e step (step.run e) :=
      step.turns hcustom False.elim False.elim
    obtain ⟨es, o', c', -, hturn, hrun', -⟩ := hturns (m.past step)
    obtain ⟨rfl, rfl⟩ := Prod.mk.inj (hrun.symm.trans hrun')
    -- of the context, effects change no more than the variables
    rw [Machine.context_after] at hturn
    have hworld : W ((m.past step).after es).world := h.effects (h.bind hw) es
    obtain ⟨hc', hchild⟩ := h.turn hc hrunning hstep hcustom hturn ⟨m, _, rfl, hrun, rfl⟩
    refine ⟨hc', ?_, hchild⟩
    cases o with
    | flow flow => exact hworld
    | spawn child => exact h.allocate hworld
  | true =>
    rcases Step.run_custom e hcustom with ⟨id, arguments, handler, rfl, hhandler, hsome⟩ | hnone
    · rw [hsome] at hrun
      obtain ⟨rfl, rfl⟩ := Prod.mk.inj hrun
      obtain ⟨hc', hw'⟩ := h.custom hc hw hrunning hstep hhandler
      exact ⟨hc', hw', fun child hchild => by simp at hchild⟩
    · rw [hnone] at hrun
      obtain ⟨rfl, rfl⟩ := Prod.mk.inj hrun
      exact ⟨h.skip hc hrunning hstep hcustom, h.bind hw, fun child hchild => by simp at hchild⟩

theorem settle (h : e.Upholds C W) {m : Machine} (hc : C m.context) (hw : W m.world) (flow : Flow) :
    C (m.settle flow).context ∧ W (m.settle flow).world := by
  cases flow with
  | next => exact ⟨hc, hw⟩
  | stop =>
    simp only [Machine.settle]
    split
    · exact ⟨h.pause hc ‹_›, hw⟩
    · exact ⟨hc, hw⟩

/-- Many steps keep the properties, if spawned contexts that are run do. -/
theorem steps (h : e.Upholds C W) {spawn : Machine → Option Machine}
    (hspawn : ∀ {m m' : Machine}, C m.context → W m.world → spawn m = some m' →
      C m'.context ∧ W m'.world) (budget : Nat) {m m' : Machine} (hc : C m.context)
    (hw : W m.world) (hrun : Machine.steps e spawn budget m = some m') :
    C m'.context ∧ W m'.world := by
  induction budget generalizing m with
  | zero =>
    obtain rfl := Option.some.inj hrun
    exact ⟨hc, hw⟩
  | succ budget ih =>
    rw [Machine.steps] at hrun
    split at hrun
    · obtain rfl := Option.some.inj hrun
      exact ⟨hc, hw⟩
    rename_i hrunning
    split at hrun
    · obtain rfl := Option.some.inj hrun
      exact ⟨h.finish hc, hw⟩
    rename_i step hstep
    have hstepped : ∀ {o m'}, step.run e (m.past step) = (o, m') →
        C m'.context ∧ W m'.world ∧ ∀ child, o = .spawn child → C child := fun hrun =>
      h.run_step hc hw (by simpa using hrunning) hstep hrun
    split at hrun
    · rename_i flow m₁ hm₁
      have hstepped := hstepped hm₁
      obtain ⟨hc', hw'⟩ := h.settle hstepped.1 hstepped.2.1 flow
      exact ih hc' hw' hrun
    · rename_i child m₁ hm₁
      have hstepped := hstepped hm₁
      split at hrun
      · simp at hrun
      · rename_i done hdone
        obtain ⟨hcd, hwd⟩ := hspawn (m := ⟨child, m₁.world⟩)
          (hstepped.2.2 child rfl) hstepped.2.1 hdone
        exact ih (m := ⟨m₁.context, done.world.adopt done.context⟩) hstepped.1 (h.adopt hcd hwd)
          hrun

theorem advanceWithin (h : e.Upholds C W) (depth : Nat) {m m' : Machine} (hc : C m.context)
    (hw : W m.world) (hrun : Machine.advanceWithin e depth m = some m') :
    C m'.context ∧ W m'.world := by
  induction depth generalizing m m' with
  | zero => exact h.steps (fun _ _ h => by simp at h) _ hc hw hrun
  | succ depth ih => exact h.steps ih _ hc hw hrun

/-- **An advance keeps the properties.** -/
theorem advance (h : e.Upholds C W) {m m' : Machine} (hc : C m.context) (hw : W m.world)
    (hrun : Machine.advance e m = some m') : C m'.context ∧ W m'.world :=
  h.advanceWithin _ hc hw hrun

/-- An advance has the properties once they hold after its first step. -/
theorem advance_of_first (h : e.Upholds C W) {m m₁ m' : Machine} {step : Step} {flow : Flow}
    (hrunning : m.context.state.isRunning) (hstep : e.step? m.context.place = some step)
    (hrun : step.run e (m.past step) = (.flow flow, m₁)) (hbudget : 0 < e.stepBudget)
    (hc : C (m₁.settle flow).context) (hw : W (m₁.settle flow).world)
    (hadvance : Machine.advance e m = some m') : C m'.context ∧ W m'.world := by
  obtain ⟨budget, hbudget⟩ : ∃ budget, e.stepBudget = budget + 1 := ⟨e.stepBudget - 1, by omega⟩
  have hfirst : ∀ spawn, Machine.steps e spawn e.stepBudget m =
      Machine.steps e spawn budget (m₁.settle flow) := by
    intro spawn
    rw [hbudget]
    exact Machine.steps_of_run hrunning hstep hrun spawn budget
  unfold Machine.advance at hadvance
  cases hdepth : e.spawnDepth with
  | zero =>
    rw [hdepth, Machine.advanceWithin, hfirst] at hadvance
    exact h.steps (fun _ _ h => by simp at h) _ hc hw hadvance
  | succ depth =>
    rw [hdepth, Machine.advanceWithin, hfirst] at hadvance
    exact h.steps (h.advanceWithin depth) _ hc hw hadvance

end Engine.Upholds

/-! ## The steps that are executed -/

namespace Machine

/-- The machines at which a context executes a step, given how a context that
it spawns is run and where that one executes steps. -/
def visitsWith (e : Engine) (spawn : Machine → Option Machine) (inner : Machine → List Machine) :
    Nat → Machine → List Machine
  | 0, _ => []
  | budget + 1, m =>
    if !m.context.state.isRunning then []
    else
      match e.step? m.context.place with
      | none => []
      | some step =>
        m :: match step.run e (m.past step) with
          | (.flow flow, m) => visitsWith e spawn inner budget (m.settle flow)
          | (.spawn child, m) =>
            inner ⟨child, m.world⟩ ++
              match spawn ⟨child, m.world⟩ with
              | none => []
              | some done =>
                visitsWith e spawn inner budget { m with world := done.world.adopt done.context }

/-- The machines at which an advance executes a step, with so many contexts
left to spawn one another. -/
def visitsWithin (e : Engine) : Nat → Machine → List Machine
  | 0 => visitsWith e (fun _ => none) (fun _ => []) e.stepBudget
  | depth + 1 => visitsWith e (advanceWithin e depth) (visitsWithin e depth) e.stepBudget

/-- The machines at which an advance executes a step, in order. -/
def visits (e : Engine) (m : Machine) : List Machine := visitsWithin e e.spawnDepth m

/-- A machine that runs and has a step is the first that its advance visits. -/
theorem exists_visits_cons {e : Engine} {m : Machine} {step : Step}
    (hrunning : m.context.state.isRunning) (hstep : e.step? m.context.place = some step)
    (hbudget : 0 < e.stepBudget) : ∃ rest, m.visits e = m :: rest := by
  obtain ⟨budget, hbudget⟩ : ∃ budget, e.stepBudget = budget + 1 := ⟨e.stepBudget - 1, by omega⟩
  have hfirst : ∀ spawn inner, ∃ rest, visitsWith e spawn inner e.stepBudget m = m :: rest := by
    intro spawn inner
    rw [hbudget, visitsWith, hrunning, hstep]
    exact ⟨_, rfl⟩
  rw [visits]
  cases e.spawnDepth with
  | zero => exact hfirst _ _
  | succ depth => exact hfirst _ _

/-- The machines at which a context looks for a step, whether there is one or
not, given how a context that it spawns is run and where that one looks. -/
def fetchesWith (e : Engine) (spawn : Machine → Option Machine) (inner : Machine → List Machine) :
    Nat → Machine → List Machine
  | 0, _ => []
  | budget + 1, m =>
    if !m.context.state.isRunning then []
    else
      m :: match e.step? m.context.place with
        | none => []
        | some step =>
          match step.run e (m.past step) with
          | (.flow flow, m) => fetchesWith e spawn inner budget (m.settle flow)
          | (.spawn child, m) =>
            inner ⟨child, m.world⟩ ++
              match spawn ⟨child, m.world⟩ with
              | none => []
              | some done =>
                fetchesWith e spawn inner budget { m with world := done.world.adopt done.context }

/-- The machines at which an advance looks for a step, with so many contexts
left to spawn one another. -/
def fetchesWithin (e : Engine) : Nat → Machine → List Machine
  | 0 => fetchesWith e (fun _ => none) (fun _ => []) e.stepBudget
  | depth + 1 => fetchesWith e (advanceWithin e depth) (fetchesWithin e depth) e.stepBudget

/-- The machines at which an advance looks for a step, in order. -/
def fetches (e : Engine) (m : Machine) : List Machine := fetchesWithin e e.spawnDepth m

/-- There is a step at the machine's place. -/
def hasStep (e : Engine) (m : Machine) : Bool := (e.step? m.context.place).isSome

theorem visitsWith_eq {e : Engine} {spawn : Machine → Option Machine}
    {inner : Machine → List Machine} (fetched : Machine → List Machine)
    (hinner : ∀ m, inner m = (fetched m).filter (hasStep e)) (budget : Nat) (m : Machine) :
    visitsWith e spawn inner budget m =
      (fetchesWith e spawn fetched budget m).filter (hasStep e) := by
  induction budget generalizing m with
  | zero => rfl
  | succ budget ih =>
    rw [visitsWith, fetchesWith]
    split
    · rfl
    cases hstep : e.step? m.context.place with
    | none => rw [List.filter_cons_of_neg (by simp [hasStep, hstep]), List.filter_nil]
    | some step =>
      rw [List.filter_cons_of_pos (by simp [hasStep, hstep])]
      simp only
      congr 1
      -- a step goes on, or spawns a context that looks for steps of its own
      split
      · exact ih _
      · rw [List.filter_append, hinner]
        congr 1
        split
        · rfl
        · exact ih _

/-- **An advance executes a step wherever it looks for one and there is one.** -/
theorem visits_eq (e : Engine) (m : Machine) :
    m.visits e = (m.fetches e).filter (hasStep e) := by
  suffices h : ∀ depth m, visitsWithin e depth m = (fetchesWithin e depth m).filter (hasStep e) from
    h _ m
  intro depth
  induction depth with
  | zero => exact visitsWith_eq (fun _ => []) (fun _ => rfl) _
  | succ depth ih => exact visitsWith_eq (fetchesWithin e depth) ih _

/-- The machine is running, and its context and world have the properties. -/
def Runs (C : Context → Prop) (W : World → Prop) (m : Machine) : Prop :=
  m.context.state.isRunning ∧ C m.context ∧ W m.world

end Machine

namespace Engine.Upholds

variable {e : Engine} {C : Context → Prop} {W : World → Prop}

theorem fetchesWith (h : e.Upholds C W) {spawn : Machine → Option Machine}
    {inner : Machine → List Machine}
    (hspawn : ∀ {m m' : Machine}, C m.context → W m.world → spawn m = some m' →
      C m'.context ∧ W m'.world)
    (hinner : ∀ {m x : Machine}, C m.context → W m.world → x ∈ inner m → x.Runs C W)
    (budget : Nat) {m x : Machine} (hc : C m.context) (hw : W m.world)
    (hx : x ∈ Machine.fetchesWith e spawn inner budget m) : x.Runs C W := by
  induction budget generalizing m with
  | zero => simp [Machine.fetchesWith] at hx
  | succ budget ih =>
    rw [Machine.fetchesWith] at hx
    split at hx
    · simp at hx
    rename_i hrunning
    rcases List.mem_cons.1 hx with rfl | hx
    · exact ⟨by simpa using hrunning, hc, hw⟩
    split at hx
    · simp at hx
    rename_i step hstep
    have hstepped : ∀ {o m'}, step.run e (m.past step) = (o, m') →
        C m'.context ∧ W m'.world ∧ ∀ child, o = .spawn child → C child := fun hrun =>
      h.run_step hc hw (by simpa using hrunning) hstep hrun
    split at hx
    · rename_i flow m₁ hm₁
      have hstepped := hstepped hm₁
      obtain ⟨hc', hw'⟩ := h.settle hstepped.1 hstepped.2.1 flow
      exact ih hc' hw' hx
    · rename_i child m₁ hm₁
      have hstepped := hstepped hm₁
      rcases List.mem_append.1 hx with hx | hx
      · exact hinner (m := ⟨child, m₁.world⟩) (hstepped.2.2 child rfl) hstepped.2.1 hx
      split at hx
      · simp at hx
      · rename_i done hdone
        obtain ⟨hcd, hwd⟩ := hspawn (m := ⟨child, m₁.world⟩)
          (hstepped.2.2 child rfl) hstepped.2.1 hdone
        exact ih (m := ⟨m₁.context, done.world.adopt done.context⟩) hstepped.1 (h.adopt hcd hwd) hx

/-- **Wherever an advance looks for a step, the properties hold.** -/
theorem fetches (h : e.Upholds C W) {m x : Machine} (hc : C m.context) (hw : W m.world)
    (hx : x ∈ m.fetches e) : x.Runs C W := by
  suffices hs : ∀ depth {m x : Machine}, C m.context → W m.world →
      x ∈ Machine.fetchesWithin e depth m → x.Runs C W from hs _ hc hw hx
  intro depth
  induction depth with
  | zero => exact fun hc hw hx =>
      h.fetchesWith (fun _ _ h => by simp at h) (fun _ _ h => by simp at h) _ hc hw hx
  | succ depth ih => exact fun hc hw hx => h.fetchesWith (h.advanceWithin depth) ih _ hc hw hx

/-- **Wherever an advance executes a step, the properties hold.** -/
theorem visits (h : e.Upholds C W) {m x : Machine} (hc : C m.context) (hw : W m.world)
    (hx : x ∈ m.visits e) : x.Runs C W := by
  rw [Machine.visits_eq] at hx
  exact h.fetches hc hw (List.mem_filter.1 hx).1

end Engine.Upholds

end Cutscene
