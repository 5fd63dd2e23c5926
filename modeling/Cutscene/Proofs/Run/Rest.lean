import Cutscene.Proofs.Run.Placed
import Cutscene.Proofs.Scheduler.Maintain
/-!
# Running — contexts at rest

Why a context stands still, the choice made for it and its place are kept in
three fields, and written by different steps. `Context.Rests` says how they
agree while no step runs: a boundary goes with a pause, no choice is made, and
a context that waits for one stands where it is looked at
(`Library.Offers`). Every turn of a step leaves a context so
(`Context.Rests.turn`), and with the scheduler's bookkeeping rest is retained
(`Engine.Serves.retains_rest`).
-/

namespace Cutscene

/-! ## Where choices are offered -/

/-- The place is the second step of a command of a body held that offers a
choice among bodies. -/
structure Library.Offers (l : Library) (b : Body) (x : Entry) (arms : Arms .choice) (p : Place) :
    Prop where
  holds : l.Holds b
  mem : x ∈ b.entries
  command : x.command = .choices arms
  place : p = ⟨b.key, x.index + 1⟩

/-- Only a command that offers a choice opens one, with a label for each body,
and its first step does. -/
theorem Command.exists_choices {s : Site} {position k : Nat} {labels : List Template}
    {c : Command} (h : (c.steps s position)[k]? = some (.openChoices labels)) :
    ∃ arms, c = .choices arms ∧ k = 0 ∧ labels = arms.guards.map Guard.text := by
  have hmem := List.mem_of_getElem? h
  cases c with
  | choices arms =>
    match k with
    | 0 => exact ⟨arms, rfl, rfl, (Step.openChoices.inj (Option.some.inj h)).symm⟩
    | 1 => simp [steps] at h
    | k + 2 => simp [steps] at h
  | breakLoop =>
    simp only [steps] at hmem
    split at hmem <;> simp at hmem
  | continueLoop =>
    simp only [steps] at hmem
    split at hmem <;> simp at hmem
  | jump sort name =>
    rw [steps, List.mem_singleton] at hmem
    unfold Site.jump at hmem
    split at hmem <;> simp at hmem
  | _ => simp [steps] at hmem

theorem Arms.getElem?_keyed {key : BodyKey} {position index : Nat} {arms : Arms .choice}
    (h : index < arms.guards.length) :
    ((arms.keyed key position).map (·.2))[index]? = some (.child key position (.choice index)) := by
  simp [keyed, List.getElem?_zipIdx, List.getElem?_eq_getElem h, ArmSort.slot]

theorem Arms.exists_body_of_lt {sort : ArmSort} : (arms : Arms sort) → {index : Nat} →
    index < arms.guards.length → ∃ body, arms.body? index = some body
  | .nil, _, h => by simp [Arms.guards] at h
  | .cons _ body _, 0, _ => ⟨body, rfl⟩
  | .cons _ _ rest, index + 1, h => by
    rw [Arms.guards, List.length_cons] at h
    exact Arms.exists_body_of_lt rest (Nat.lt_of_succ_lt_succ h)

namespace Library.Offers

variable {e : Engine} {l : Library} {b : Body} {x : Entry} {arms : Arms .choice} {p : Place}

/-- After a step that opens a choice stands the one that looks at it. -/
theorem of_openChoices (he : e.Serves l) {labels : List Template}
    (hstep : e.step? p = some (.openChoices labels)) :
    ∃ b x arms, l.Offers b x arms (p.plus 1) ∧ arms.guards.length = labels.length := by
  obtain ⟨b, hb, hkey, hget⟩ := he.exists_step hstep
  rcases Body.step_cases hget with ⟨-, hterminal⟩ | ⟨x, hx, k, -, hindex, hget⟩
  · have hlast := hb.terminal_lands.1
    rw [← hterminal] at hlast
    simp [Step.isTerminal] at hlast
  · obtain ⟨arms, hcommand, rfl, rfl⟩ := Command.exists_choices hget
    refine ⟨b, x, arms, ⟨hb, hx, hcommand, ?_⟩, by rw [List.length_map]⟩
    rw [Place.plus, hindex, hkey]

/-- The step at the place looks at the choice. -/
theorem step? (h : l.Offers b x arms p) (he : e.Serves l) (hl : l.Lawful) :
    e.step? p = some (.enterChoice ((arms.keyed b.key x.position).map (·.2))) := by
  have hwidth : 1 < x.command.width := by
    rw [h.command]
    exact Nat.one_lt_two
  rw [h.place, he.step? hl h.holds, Body.step_entry h.mem hwidth, Entry.steps, h.command]
  rfl

/-- Under the key of an option stands its body. -/
theorem block? (h : l.Offers b x arms p) (hl : l.Lawful) (index : Nat) :
    l.block? (.child b.key x.position (.choice index)) = arms.body? index := by
  rw [Library.block?, h.holds.block? hl, Option.bind_some,
    Block.command?_of_mem _ h.holds.distinct h.mem, Option.bind_some, h.command]
  rfl

end Library.Offers

/-- What looking at a choice does: it enters the body that was chosen, if there
is one, and forgets the choice. -/
theorem Step.run_enterChoice (e : Engine) (bodies : List BodyKey) (m : Machine) :
    Step.run e (.enterChoice bodies) m =
      (.flow .next, ⟨(m.context.choice.bind fun index => bodies[index]?).elim
        { m.context with choice := none } fun body =>
          { m.context with choice := none }.goto ⟨body, 0⟩, m.world⟩) := by
  show Act.enterOptional (m.context.choice.bind fun index => bodies[index]?) _ = _
  cases m.context.choice.bind fun index => bodies[index]? <;> rfl

/-! ## Rest -/

/-- The context has a boundary just if it is paused, and no choice is made for
it; where it waits for a choice, its place is the one that looks at it, among
as many bodies as there are options. -/
structure Context.Rests (l : Library) (c : Context) : Prop where
  boundary : c.boundary.isSome = c.state.isPaused
  choice : c.choice = none
  offers : ∀ options, c.boundary = some (.choice options) →
    ∃ b x arms, l.Offers b x arms c.place ∧ arms.guards.length = options.length

namespace Context.Rests

variable {e : Engine} {l : Library} {c c' : Context}

theorem of_none (hboundary : c.boundary = none) (hpaused : c.state.isPaused = false)
    (hchoice : c.choice = none) : c.Rests l :=
  ⟨by rw [hboundary, hpaused]; rfl, hchoice, fun options h => by simp [hboundary] at h⟩

/-- A context that is paused without a choice to make. -/
theorem pause (hchoice : c.choice = none) (why : Boundary)
    (hwhy : ∀ options, why ≠ .choice options) : (c.pause why).Rests l :=
  ⟨rfl, hchoice, fun options h => absurd (Option.some.inj h) (hwhy options)⟩

theorem boundary_eq_none (h : c.Rests l) (hpaused : c.state.isPaused = false) :
    c.boundary = none := by
  rw [← Option.not_isSome_iff_eq_none, h.boundary, hpaused]
  simp

/-- A context that waits for a choice is paused. -/
theorem isPaused (h : c.Rests l) {why : Boundary} (hboundary : c.boundary = some why) :
    c.state.isPaused := by
  rw [← h.boundary, hboundary]
  rfl

theorem start (id : EventId) (name : String) (root : BodyKey) (ambient : Ambient) :
    (Context.start id name root ambient).Rests l :=
  of_none rfl rfl rfl

/-- **One turn leaves a context at rest**, unless it finishes it, and so is one
that it spawns. -/
theorem turn (h : c.Rests l) (he : e.Serves l) (hrunning : c.state.isRunning) {step : Step}
    {id : EventId} {vars : Attributes} {o : Outcome} (hstep : e.step? c.place = some step)
    (hturn : step.Turn e id { c.goto (c.place.plus 1) with attributes := vars } o c') :
    c'.UnlessFinished (Rests l) ∧ ∀ child, o = .spawn child → child.Rests l := by
  have hpaused : c.state.isPaused = false := by
    cases hstate : c.state <;> simp_all [RunState.isRunning, RunState.isPaused]
  have hboundary := h.boundary_eq_none hpaused
  -- most turns keep the state, the boundary and the choice
  have hkept : ∀ {x : Context}, x.boundary = c.boundary → x.state = c.state →
      x.choice = none → x.Rests l := fun hb hs hc =>
    of_none (hb.trans hboundary) (by rw [hs]; exact hpaused) hc
  cases hturn with
  | halt a halt =>
    refine ⟨fun hfinished => ?_, by simp⟩
    cases halt with
    | none => exact hkept rfl rfl h.choice
    | some halt =>
      cases halt with
      | pause shown =>
        have hkept :
            ({ c.goto (c.place.plus 1) with attributes := vars } : Context).choice = none :=
          h.choice
        exact pause hkept (shown.elim .signal .text) (by cases shown <;> simp)
      | wait ms => exact of_none hboundary rfl h.choice
      | finish => simp [Halt.apply, finish, RunState.isFinished] at hfinished
  | openChoices labels options hlength =>
    refine ⟨fun _ => ⟨rfl, rfl, fun options' h' => ?_⟩, by simp⟩
    obtain rfl := Boundary.choice.inj (Option.some.inj h')
    obtain ⟨b, x, arms, hoffers, hguards⟩ := Library.Offers.of_openChoices he hstep
    exact ⟨b, x, arms, hoffers, hguards.trans hlength.symm⟩
  | chosen hbody => exact ⟨fun _ => hkept rfl rfl rfl, by simp⟩
  | unchosen bodies => exact ⟨fun _ => hkept rfl rfl rfl, by simp⟩
  | spawn body =>
    refine ⟨fun _ => hkept rfl rfl h.choice, fun child hchild => ?_⟩
    obtain rfl := Outcome.spawn.inj hchild
    exact start ..
  | callAsync params hevent vars =>
    refine ⟨fun _ => hkept rfl rfl h.choice, fun child hchild => ?_⟩
    obtain rfl := Outcome.spawn.inj hchild
    exact start ..
  | finish hc =>
    exact ⟨fun hfinished => by simp [Context.finish, RunState.isFinished] at hfinished, by simp⟩
  | _ => exact ⟨fun _ => hkept rfl rfl h.choice, by simp⟩

end Context.Rests

/-- The handler leaves its context at rest, unless it finishes it, and so the
contexts that it spawns. -/
def Handler.KeepsRest (l : Library) (h : Handler) : Prop :=
  ∀ arguments m, m.context.state.isRunning → m.context.Rests l →
    (∀ c ∈ m.world.spawned, c.Rests l) →
    ((h arguments m).2.context.state.isFinished = false → (h arguments m).2.context.Rests l) ∧
    ∀ c ∈ (h arguments m).2.world.spawned, c.Rests l

/-- All custom handlers leave contexts at rest. -/
def Engine.KeepsRest (e : Engine) (l : Library) : Prop :=
  ∀ id handler, e.handlers.get? id = some handler → handler.KeepsRest l

theorem Engine.keepsRest_tells (l : Library) : (Engine.handling l .tells).KeepsRest l := by
  intro id handler hhandler arguments m _ hc hw
  obtain rfl := Engine.eq_of_handling hhandler
  exact ⟨fun _ => hc, hw⟩

theorem Engine.keepsRest_posts (l : Library) (event : String) :
    (Engine.handling l (.posts event)).KeepsRest l := by
  intro id handler hhandler arguments m _ hc hw
  obtain rfl := Engine.eq_of_handling hhandler
  exact ⟨fun _ => hc, List.forall_mem_cons.2 ⟨.pause rfl .signal (by simp), hw⟩⟩

/-- **Rest is retained.** -/
theorem Engine.Serves.retains_rest {e : Engine} {l : Library} (he : e.Serves l)
    (hk : e.KeepsRest l) : e.Retains (Context.Rests l) where
  turn := fun hc hrunning hstep _ hturn _ => hc.turn he hrunning hstep hturn
  skip := by
    intro c step vars hc hrunning _ _
    have hpaused : c.state.isPaused = false := by
      cases hstate : c.state <;> simp_all [RunState.isRunning, RunState.isPaused]
    exact .of_none (hc.boundary_eq_none hpaused) hpaused hc.choice
  custom := fun hhandler hc hrunning hw => hk _ _ hhandler _ _ hrunning hc hw
  pause := fun hc _ => .pause hc.choice .signal (by simp)
  wake := fun hc _ => .of_none rfl rfl hc.choice
  countDown := by
    intro c deltaMs hc
    unfold Scheduler.countDown
    split
    · rename_i remainingMs hstate
      have hboundary := hc.boundary_eq_none (by rw [hstate]; rfl)
      refine .of_none hboundary ?_ hc.choice
      simp only
      split <;> rfl
    · exact hc

end Cutscene
