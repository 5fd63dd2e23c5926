import Mathlib.Algebra.Ring.Nat
import Mathlib.Logic.Function.Iterate
import Cutscene.Run.Advance
import Cutscene.Proofs.Run.Turn
/-!
# Running — events that take numbers

A context that starts others which are over at once leaves nothing in the world
but the numbers they took (`Machine.Spends`). Events that start one another in
a row double what is taken (`Machine.spends_chain`), so a short chain of them
uses up all the numbers there are. What such a chain needs of the programs can
be computed (`Engine.doubles`).
-/

namespace Cutscene

/-- The world after a number was handed out. -/
def World.spend (w : World) : World := w.allocate.2

theorem World.spend_iterate (n : Nat) {w : World} (hw : w.nextEventId < UInt64.size) :
    World.spend^[n] w = { w with nextEventId := (w.nextEventId + n) % UInt64.size } := by
  induction n with
  | zero => rw [Nat.add_zero, Nat.mod_eq_of_lt hw]; rfl
  | succ n ih =>
    rw [Function.iterate_succ_apply', ih]
    show ({ w with
      nextEventId := ((w.nextEventId + n) % UInt64.size + 1) % UInt64.size } : World) = _
    rw [Nat.mod_add_mod, Nat.add_assoc]

/-! ## Chains of events -/

/-- What a step does in a chain of events: it starts one, without parameters,
or leaves its own. -/
inductive Link where
  | starts (event : String)
  | leaves
  deriving DecidableEq

/-- What the step does in a chain of events, if it has a part in one. -/
def Step.link? : Step → Option Link
  | .callAsync event ⟨[], _⟩ => some (.starts event)
  | .leave => some .leaves
  | _ => none

theorem Step.eq_of_starts {event : String} {step : Step} (h : step.link? = some (.starts event)) :
    step = .callAsync event .empty := by
  cases step with
  | callAsync name params =>
    obtain ⟨entries, hsorted⟩ := params
    cases entries with
    | nil =>
      obtain rfl := Link.starts.inj (Option.some.inj h)
      rfl
    | cons entry rest => cases h
  | _ => cases h

theorem Step.eq_of_leaves {step : Step} (h : step.link? = some .leaves) : step = .leave := by
  cases step with
  | leave => rfl
  | callAsync name params =>
    obtain ⟨entries, hsorted⟩ := params
    cases entries <;> cases h
  | _ => cases h

namespace Engine

variable (e : Engine)

/-- Is there the event, and is it started at the place? -/
def starts (place : Place) (event : String) : Bool :=
  (e.event? event).isSome && (e.step? place).bind Step.link? == some (.starts event)

/-- Is an event left at the place? -/
def leaves (place : Place) : Bool := (e.step? place).bind Step.link? == some .leaves

/-- Does the caller do nothing but start the event twice? -/
def doubles (caller event : String) : Bool :=
  e.starts ⟨.root caller, 0⟩ event && e.starts ⟨.root caller, 1⟩ event &&
    e.leaves ⟨.root caller, 2⟩

variable {e} {place : Place} {event : String}

theorem exists_of_starts (h : e.starts place event) :
    ∃ callee, e.event? event = some callee ∧
      e.step? place = some (.callAsync event .empty) := by
  obtain ⟨hevent, hlink⟩ := Bool.and_eq_true_iff.1 h
  obtain ⟨callee, hcallee⟩ := Option.isSome_iff_exists.1 hevent
  obtain ⟨step, hstep, hstarts⟩ := Option.bind_eq_some_iff.1 (eq_of_beq hlink)
  exact ⟨callee, hcallee, hstep.trans (congrArg some (Step.eq_of_starts hstarts))⟩

theorem step?_of_leaves (h : e.leaves place) : e.step? place = some .leave := by
  obtain ⟨step, hstep, hleaves⟩ := Option.bind_eq_some_iff.1 (eq_of_beq h)
  exact hstep.trans (congrArg some (Step.eq_of_leaves hleaves))

end Engine

/-! ## Contexts that take numbers -/

namespace Machine

/-- Whoever starts the event, its context is over at once, and all that is left
of it and of those it starts is that they took so many numbers. -/
def Spends (run : Machine → Option Machine) (event : String) (n : Nat) : Prop :=
  ∀ id ambient w, ∃ m, run ⟨.start id event (.root event) ambient, w⟩ = some m ∧
    m.context.state.isFinished ∧ m.world = World.spend^[n] w

variable {e : Engine} {run : Machine → Option Machine} {budget n : Nat} {m : Machine}
  {event : String}

/-- A step that leaves a context without calls is its last. -/
theorem steps_leave (hrunning : m.context.state.isRunning) (hcalls : m.context.calls = [])
    (hstep : e.step? m.context.place = some .leave) (hbudget : 0 < budget) :
    steps e run budget m = some ⟨(m.context.goto (m.context.place.plus 1)).finish, m.world⟩ := by
  have hrun : Step.run e .leave (m.past .leave) =
      (.flow .stop, ⟨(m.context.goto (m.context.place.plus 1)).finish, m.world⟩) := by
    simp only [Step.run, Act.look_bind]
    rw [show (m.past .leave).context.calls = [] from hcalls]
    rfl
  obtain ⟨budget, rfl⟩ : ∃ b, budget = b + 1 := ⟨budget - 1, by omega⟩
  rw [steps, hrunning, hstep]
  simp only [hrun]
  cases budget <;> rfl

/-- A step that leaves a context without calls is the last of its advance. -/
theorem advance_leave (hrunning : m.context.state.isRunning) (hcalls : m.context.calls = [])
    (hstep : e.step? m.context.place = some .leave) (hbudget : 0 < e.stepBudget) :
    advance e m = some ⟨(m.context.goto (m.context.place.plus 1)).finish, m.world⟩ := by
  rw [advance]
  cases e.spawnDepth <;> exact steps_leave hrunning hcalls hstep hbudget

/-- A step that starts an event goes on with the numbers taken. -/
theorem steps_starts (hrunning : m.context.state.isRunning)
    (hstarts : e.starts m.context.place event) (hspends : Spends run event n) :
    steps e run (budget + 1) m = steps e run budget
      ⟨m.context.goto (m.context.place.plus 1), World.spend^[n + 1] m.world⟩ := by
  obtain ⟨callee, hevent, hstep⟩ := Engine.exists_of_starts hstarts
  obtain ⟨x, hx, hfinished, hworld⟩ := hspends m.world.allocate.1
    { m.context.ambient with
      parameters := m.context.ambient.parameters.fill callee.parameters } m.world.spend
  have hrun : Step.run e (.callAsync event .empty) (m.past (.callAsync event .empty)) =
      (.spawn (.start m.world.allocate.1 event (.root event) { m.context.ambient with
        parameters := m.context.ambient.parameters.fill callee.parameters }),
        ⟨m.context.goto (m.context.place.plus 1), m.world.spend⟩) := by
    simp only [Step.run, hevent]
    rfl
  rw [steps, hrunning, hstep]
  simp only [hrun, hx, World.adopt, hfinished, if_true, hworld, Function.iterate_succ_apply]
  rfl

/-- A context that starts an event twice goes on with the numbers of both. -/
theorem steps_starts_starts (hrunning : m.context.state.isRunning)
    (hfirst : e.starts m.context.place event)
    (hsecond : e.starts (m.context.place.plus 1) event) (hspends : Spends run event n) :
    steps e run (budget + 2) m = steps e run budget
      ⟨(m.context.goto (m.context.place.plus 1)).goto ((m.context.place.plus 1).plus 1),
        World.spend^[2 * (n + 1)] m.world⟩ := by
  rw [steps_starts hrunning hfirst hspends,
    steps_starts (m := ⟨m.context.goto (m.context.place.plus 1), World.spend^[n + 1] m.world⟩)
      hrunning hsecond hspends, Nat.two_mul,
    Function.iterate_add_apply World.spend (n + 1) (n + 1)]
  rfl

/-- An event without instructions takes no number. -/
theorem spends_zero (hbudget : 0 < budget) (hleaves : e.leaves ⟨.root event, 0⟩) :
    Spends (steps e run budget) event 0 :=
  fun _ _ _ => ⟨_, steps_leave rfl rfl (Engine.step?_of_leaves hleaves) hbudget, rfl, rfl⟩

/-- **An event that starts another one twice** takes the numbers of both. -/
theorem spends_twice {caller : String} (hbudget : 3 ≤ budget) (hdoubles : e.doubles caller event)
    (hspends : Spends run event n) : Spends (steps e run budget) caller (2 * (n + 1)) := by
  intro id ambient w
  obtain ⟨hstarts, hleaves⟩ := Bool.and_eq_true_iff.1 hdoubles
  obtain ⟨hfirst, hsecond⟩ := Bool.and_eq_true_iff.1 hstarts
  obtain ⟨budget, rfl⟩ : ∃ b, budget = b + 3 := ⟨budget - 3, by omega⟩
  rw [steps_starts_starts rfl hfirst hsecond hspends,
    steps_leave rfl rfl (Engine.step?_of_leaves hleaves) (Nat.succ_pos budget)]
  exact ⟨_, rfl, rfl, rfl⟩

/-- **A chain of events doubles what is taken** with every event: the last one
does nothing, and each of the others starts the one after it twice. -/
theorem spends_chain (name : Nat → String) {length : Nat} (hbudget : 3 ≤ e.stepBudget)
    (hlast : e.leaves ⟨.root (name 0), 0⟩)
    (hdoubles : ∀ k < length, e.doubles (name (k + 1)) (name k)) (depth : Nat) {k : Nat}
    (hk : k ≤ length) : Spends (advanceWithin e (depth + k)) (name k) (2 ^ (k + 1) - 2) := by
  induction k with
  | zero => cases depth <;> exact spends_zero (by omega) hlast
  | succ k ih =>
    have hcount : 2 ^ (k + 2) - 2 = 2 * (2 ^ (k + 1) - 2 + 1) := by
      have hpos : 2 ≤ 2 ^ (k + 1) := Nat.le_self_pow (Nat.succ_ne_zero k) 2
      rw [Nat.pow_succ 2 (k + 1)]
      omega
    rw [hcount]
    exact spends_twice hbudget (hdoubles k hk) (ih (by omega))

end Machine

end Cutscene
