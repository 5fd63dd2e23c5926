import Cutscene.Proofs.Run.Rest
import Cutscene.Proofs.Scheduler.Conserve
import Cutscene.Proofs.Scheduler.Request
/-!
# Scheduler — contexts at rest

Between operations every context of a reachable scheduler is at rest. Rest is
retained, but making a choice breaks it for a moment: the context then holds a
choice, and only its next step forgets it (`Engine.rechooses_rests`).

A context that waits for a choice among options therefore stands where one of
as many bodies is entered. A choice that is accepted enters its own body, and
when the context is resumed without one it passes all of them
(`Scheduler.Reachable.choices_heeded`).
-/

namespace Cutscene

/-- The context as it goes on, with a choice made or with none. -/
def Context.awake (c : Context) (choice : Option Nat) : Context :=
  { c with state := .running, boundary := none, choice }

/-- The machine executes a step, and that takes it to a place, where it goes
on. -/
def Machine.StepsTo (e : Engine) (m : Machine) (p : Place) : Prop :=
  m.context.state.isRunning ∧ ∃ step m', e.step? m.context.place = some step ∧
    step.run e (m.past step) = (.flow .next, m') ∧ m'.context.place = p ∧
    m'.context.state.isRunning

/-- A machine that executes a step does so first in its advance. -/
theorem Machine.StepsTo.exists_visits_cons {e : Engine} {m : Machine} {p : Place}
    (h : m.StepsTo e p) (hbudget : 0 < e.stepBudget) : ∃ rest, m.visits e = m :: rest := by
  obtain ⟨hrunning, step, m', hstep, -⟩ := h
  exact Machine.exists_visits_cons hrunning hstep hbudget

/-- It does so first in an operation that begins with its advance. -/
theorem Machine.StepsTo.exists_operation_visits_cons {s : Scheduler} {m : Machine} {p : Place}
    (h : m.StepsTo s.engine p) (hbudget : 0 < s.engine.stepBudget) (op : Operation)
    (hopening : op.opening s = [m]) : ∃ rest, op.visits s = m :: rest := by
  obtain ⟨rest, hvisits⟩ := h.exists_visits_cons hbudget
  rw [Operation.visits_eq_met, hopening, List.flatMap_singleton, hvisits, List.cons_append]
  exact ⟨_, rfl⟩

namespace Library.Offers

variable {e : Engine} {l : Library} {b : Body} {x : Entry} {arms : Arms .choice} {m : Machine}

/-- A context that looks for its choice and has made one enters the body
chosen. -/
theorem stepsTo_chosen (h : l.Offers b x arms m.context.place) (he : e.Serves l) (hl : l.Lawful)
    (hrunning : m.context.state.isRunning) {index : Nat} (hchoice : m.context.choice = some index)
    (hindex : index < arms.guards.length) :
    m.StepsTo e ⟨.child b.key x.position (.choice index), 0⟩ := by
  have hrun := Step.run_enterChoice e ((arms.keyed b.key x.position).map (·.2))
    (m.past (.enterChoice ((arms.keyed b.key x.position).map (·.2))))
  have hpassed : (m.past (.enterChoice ((arms.keyed b.key x.position).map (·.2)))).context.choice =
    some index := hchoice
  rw [hpassed, Option.bind_some, Arms.getElem?_keyed hindex] at hrun
  exact ⟨hrunning, _, _, h.step? he hl, hrun, rfl, hrunning⟩

/-- One that has made none passes all bodies. -/
theorem stepsTo_unchosen (h : l.Offers b x arms m.context.place) (he : e.Serves l) (hl : l.Lawful)
    (hrunning : m.context.state.isRunning) (hchoice : m.context.choice = none) :
    m.StepsTo e ⟨b.key, x.index + x.command.width⟩ := by
  have hrun := Step.run_enterChoice e ((arms.keyed b.key x.position).map (·.2))
    (m.past (.enterChoice ((arms.keyed b.key x.position).map (·.2))))
  have hpassed : (m.past (.enterChoice ((arms.keyed b.key x.position).map (·.2)))).context.choice =
    none := hchoice
  rw [hpassed, Option.bind_none] at hrun
  refine ⟨hrunning, _, _, h.step? he hl, hrun, ?_, hrunning⟩
  show m.context.place.plus 1 = _
  rw [h.place, h.command]
  rfl

end Library.Offers

namespace Context.Rests

variable {l : Library} {c : Context}

theorem wake?_eq (h : c.Rests l) (hpaused : c.state.isPaused) : c.wake? = some (c.awake none) := by
  rw [wake?, if_pos hpaused, awake, h.choice.symm]

/-- A choice among the options that a context waits for is accepted. -/
theorem chosen?_eq {s : Scheduler} {id : EventId} {index : Nat} {options : List String}
    (h : c.Rests l) (hc : s.context? id = some c) (hb : c.boundary = some (.choice options))
    (hi : index < options.length) : s.chosen? id index = some (c.awake (some index)) := by
  have hpaused : ({ c with choice := some index } : Context).state.isPaused := h.isPaused hb
  rw [Scheduler.chosen?_of hc hb hi, wake?, if_pos hpaused]
  rfl

end Context.Rests

/-- **A choice is forgotten by the first step after it.** -/
theorem Engine.Serves.rechooses_rests {e : Engine} {l : Library} (he : e.Serves l) (hl : l.Lawful)
    (hk : e.KeepsRest l) (hbudget : 0 < e.stepBudget) : e.Rechooses (Context.Rests l) := by
  rintro s id index c m rfl hs hc hm
  obtain ⟨x, options, hx, hb, hi, -⟩ := Scheduler.chosen?_eq_some hc
  have hrests := hs.1 x (Scheduler.mem_of_context? hx)
  rw [hrests.chosen?_eq hx hb hi] at hc
  obtain rfl := Option.some.inj hc
  obtain ⟨b, y, arms, hoffers, -⟩ := hrests.offers options hb
  have hoffers : l.Offers b y arms (x.awake (some index)).place := hoffers
  -- the step looks at the choice, and whatever it is, the context keeps none
  refine (he.retains_rest hk).carries.advance_of_first (m := ⟨x.awake (some index), s.world⟩) rfl
    (hoffers.step? he hl) (Step.run_enterChoice s.engine _ _) hbudget (fun _ => ?_) ?_ hm
  · simp only [Machine.settle]
    cases (Machine.past ⟨x.awake (some index), s.world⟩ _).context.choice.bind _ <;>
      exact .of_none rfl rfl rfl
  · intro c hc
    refine hs.2 c ?_
    have hspawned := (Machine.past_world ⟨x.awake (some index), s.world⟩
      (.enterChoice ((arms.keyed b.key y.position).map (·.2)))).1
    rw [← hspawned]
    exact hc

/-- Contexts at places that stand, and at rest. -/
theorem Engine.Serves.rechooses_placed_rests {e : Engine} {l : Library} (he : e.Serves l)
    (hl : l.Lawful) (hplaces : e.KeepsPlaces l) (hk : e.KeepsRest l) (hbudget : 0 < e.stepBudget) :
    e.Rechooses fun c => c.Placed l ∧ c.Rests l :=
  Engine.Rechooses.and (he.maintains_placed hl hplaces).rechooses (he.rechooses_rests hl hk hbudget)

theorem Engine.Serves.retains_placed_rests {e : Engine} {l : Library} (he : e.Serves l)
    (hl : l.Lawful) (hplaces : e.KeepsPlaces l) (hk : e.KeepsRest l) :
    e.Retains fun c => c.Placed l ∧ c.Rests l :=
  (he.maintains_placed hl hplaces).toRetains.and (he.retains_rest hk)

theorem Engine.Serves.starts_placed_rests {e : Engine} {l : Library} (he : e.Serves l)
    (hl : l.Lawful) (op : Operation) : op.Starts e fun c => c.Placed l ∧ c.Rests l :=
  fun ho hevent => ⟨he.starts_placed hl op ho hevent, .start ..⟩

namespace Scheduler

variable {e : Engine} {l : Library} {s : Scheduler}

/-- **Between operations contexts are at rest**, at places that stand. -/
theorem Reachable.rest_placed (he : e.Serves l) (hl : l.Lawful) (hplaces : e.KeepsPlaces l)
    (hk : e.KeepsRest l) (hbudget : 0 < e.stepBudget) (hs : s.Reachable e) :
    s.Has (fun c => c.Placed l ∧ c.Rests l) (World.Spawned fun c => c.Placed l ∧ c.Rests l) := by
  exact ((he.retains_placed_rests hl hplaces hk).reachable
    (he.rechooses_placed_rests hl hplaces hk hbudget) (he.starts_placed_rests hl)
    (he.loads hl fun c (hc : c.Placed l ∧ c.Rests l) => hc.1) hs).2

/-- **Contexts wait consistently, and heed the choice made for them.** Let
custom handlers leave contexts at places that stand and at rest, and let there
be a budget. In every reachable scheduler:

* every live context runs, is paused or waits; it has a boundary just if it is
  paused, and no choice is made for it; if it waits for a choice, its place is
  the second step of a command that offers one, of as many bodies as there are
  options (`Context.Rests`);
* a choice among the options of a context that its number finds is accepted, and
  has a result if all that is advanced has one; the first step that is executed
  is one of the context, and enters the body chosen;
* resumed without a choice, the context first passes all bodies, whether the
  host resumes it or an operation meets a request to;
* any other choice is refused, and nothing changes. -/
theorem Reachable.choices_heeded (he : e.Serves l) (hl : l.Lawful) (hplaces : e.KeepsPlaces l)
    (hk : e.KeepsRest l) (hbudget : 0 < e.stepBudget) (hs : s.Reachable e) :
    (∀ c ∈ s.contexts, c.state.isFinished = false ∧ c.Rests l) ∧
    (∀ (c : Context) (options : List String), s.context? c.id = some c →
      c.boundary = some (.choice options) →
      ∃ b x arms, l.Offers b x arms c.place ∧ arms.guards.length = options.length ∧
        (∀ index, index < options.length →
          (∀ r s', (Operation.choose c.id index).run s = some (r, s') → r = .chosen (.ok ())) ∧
          ((∀ m ∈ (Operation.choose c.id index).advances s, (Machine.advance e m).isSome) →
            ((Operation.choose c.id index).run s).isSome) ∧
          ∃ body rest, arms.body? index = some body ∧
            l.block? (.child b.key x.position (.choice index)) = some body ∧
            (Operation.choose c.id index).visits s = ⟨c.awake (some index), s.world⟩ :: rest ∧
            Machine.StepsTo e ⟨c.awake (some index), s.world⟩
              ⟨.child b.key x.position (.choice index), 0⟩) ∧
        ∃ rest, (Operation.resume c.id).visits s = ⟨c.awake none, s.world⟩ :: rest ∧
          Machine.StepsTo e ⟨c.awake none, s.world⟩ ⟨b.key, x.index + x.command.width⟩) ∧
    (∀ (op : Operation) (id : EventId) (s₁ : Scheduler), (id, s₁) ∈ op.met s →
      ∀ (c : Context) (options : List String), s₁.context? id = some c →
        c.boundary = some (.choice options) → c.state.isFinished = false →
        ∃ b x arms rest, l.Offers b x arms c.place ∧ arms.guards.length = options.length ∧
          (metAdvances (id, s₁)).flatMap (Machine.visits e) = ⟨c.awake none, s₁.world⟩ :: rest ∧
          Machine.StepsTo e ⟨c.awake none, s₁.world⟩ ⟨b.key, x.index + x.command.width⟩) ∧
    ∀ (id : EventId) (index : Nat),
      (∀ c options, s.context? id = some c → c.boundary = some (.choice options) →
        options.length ≤ index) →
      ∃ err, (Operation.choose id index).run s = some (.chosen (.error err), s) := by
  obtain rfl := hs.engine_eq
  have hhas := hs.rest_placed he hl hplaces hk hbudget
  refine ⟨fun c hc => ⟨hs.unfinished c hc, (hhas.1 c hc).2⟩, fun c options hc hb => ?_,
    fun op id s₁ hmet c options hc hb hlive => ?_, fun id index hrefused => ?_⟩
  · have hrests := (hhas.1 c (mem_of_context? hc)).2
    obtain ⟨b, x, arms, hoffers, hguards⟩ := hrests.offers options hb
    refine ⟨b, x, arms, hoffers, hguards, fun index hi => ⟨fun r s' hrun => ?_, fun hadvance => ?_,
      ?_⟩, ?_⟩
    · have hchosen := hrests.chosen?_eq hc hb hi
      rw [Operation.run, choose_of_chosen hchosen, Option.map_map] at hrun
      obtain ⟨s₂, -, heq⟩ := Option.map_eq_some_iff.1 hrun
      exact (Prod.mk.inj heq).1.symm
    · exact (Operation.isSome_run_iff s _).2 hadvance
    · have hindex : index < arms.guards.length := hguards ▸ hi
      obtain ⟨body, hbody⟩ := arms.exists_body_of_lt hindex
      have hsteps : Machine.StepsTo s.engine ⟨c.awake (some index), s.world⟩
          ⟨.child b.key x.position (.choice index), 0⟩ :=
        hoffers.stepsTo_chosen (m := ⟨c.awake (some index), s.world⟩) he hl rfl rfl hindex
      obtain ⟨rest, hvisits⟩ := hsteps.exists_operation_visits_cons hbudget
        (.choose c.id index) (by rw [Operation.opening, hrests.chosen?_eq hc hb hi]; rfl)
      exact ⟨body, rest, hbody, (hoffers.block? hl index).trans hbody, hvisits, hsteps⟩
    · have hsteps : Machine.StepsTo s.engine ⟨c.awake none, s.world⟩
          ⟨b.key, x.index + x.command.width⟩ :=
        hoffers.stepsTo_unchosen (m := ⟨c.awake none, s.world⟩) he hl rfl rfl
      have hwoken := hrests.wake?_eq (hrests.isPaused hb)
      obtain ⟨rest, hvisits⟩ := hsteps.exists_operation_visits_cons hbudget
        (.resume c.id) (by rw [Operation.opening, hc, Option.bind_some, hwoken]; rfl)
      exact ⟨rest, hvisits, hsteps⟩
  · -- the contexts that a request finds have kept rest up to the end of the operation
    obtain ⟨-, hmet⟩ := (he.retains_placed_rests hl hplaces hk).met
      (he.rechooses_placed_rests hl hplaces hk hbudget) rfl hhas (he.starts_placed_rests hl op) hmet
    obtain ⟨-, hrests⟩ := hmet.1 c (mem_of_context? hc) hlive
    obtain ⟨b, x, arms, hoffers, hguards⟩ := hrests.offers options hb
    have hsteps : Machine.StepsTo s.engine ⟨c.awake none, s₁.world⟩
        ⟨b.key, x.index + x.command.width⟩ :=
      hoffers.stepsTo_unchosen (m := ⟨c.awake none, s₁.world⟩) he hl rfl rfl
    obtain ⟨rest, hvisits⟩ := hsteps.exists_visits_cons hbudget
    refine ⟨b, x, arms, rest, hoffers, hguards, ?_, hsteps⟩
    rw [metAdvances, requestAdvances, hc, Option.bind_some, hrests.wake?_eq (hrests.isPaused hb),
      List.flatMap_singleton, hvisits]
  · have hnone : s.chosen? id index = none := by
      cases hchosen : s.chosen? id index with
      | none => rfl
      | some c =>
        obtain ⟨x, options, hx, hb, hi, -⟩ := chosen?_eq_some hchosen
        exact absurd (hrefused x options hx hb) (Nat.not_le_of_lt hi)
    obtain ⟨err, herr⟩ := choose_of_refused hnone
    exact ⟨err, by rw [Operation.run, herr]; rfl⟩

end Scheduler

/-- An event that offers a choice after a custom instruction, one that pauses,
and one of nothing. -/
def Library.offering : Library :=
  let pause : Json := .array [(⟨"pauseEvent", .null⟩ : Instruction).encode]
  let option (label : String) : Json := .object [("label", .string label), ("commands", pause)]
  let options : Json := .object [("options", .array [option "left", option "right"])]
  { events := .ofList
      [("offer", ⟨"offer", [⟨"custom", .null⟩, ⟨"showChoices", options⟩], .empty⟩),
       ("ask", ⟨"ask", [⟨"pauseEvent", .null⟩], .empty⟩),
       ("nothing", ⟨"nothing", [], .empty⟩)] }

/-- The event started: the second of its two bodies can be chosen and is
entered. -/
theorem Scheduler.Reachable.choices_heeded_offering :
    Engine.Serves (.handling .offering .tells) .offering ∧ Library.offering.Lawful ∧
      (Engine.handling .offering .tells).KeepsPlaces .offering ∧
      (Engine.handling .offering .tells).KeepsRest .offering ∧
      0 < (Engine.handling .offering .tells).stepBudget ∧
      ∃ s c r s' b x arms, Scheduler.Reachable (.handling .offering .tells) s ∧
        s.context? c.id = some c ∧ c.boundary = some (.choice ["left", "right"]) ∧
        c.Rests .offering ∧ Library.offering.Offers b x arms c.place ∧ arms.guards.length = 2 ∧
        (Operation.choose c.id 1).run s = some (r, s') ∧ r = .chosen (.ok ()) ∧
        Machine.StepsTo (.handling .offering .tells) ⟨c.awake (some 1), s.world⟩
          ⟨.child b.key x.position (.choice 1), 0⟩ := by
  have he : Engine.Serves (.handling .offering .tells) .offering := .ofLibrary .offering
  have hl : Library.offering.Lawful := by decide +kernel
  have hplaces := (Engine.keepsControl_tells .offering).keepsPlaces .offering
  have hrest := Engine.keepsRest_tells .offering
  have hbudget : 0 < (Engine.handling .offering .tells).stepBudget := by decide
  have hstarted : (Operation.start "offer" .none).leads
      (.fresh (.handling .offering .tells) 0) fun _ s => (s.context? ⟨1⟩).any fun c =>
        c.boundary == some (.choice ["left", "right"]) &&
          ((Operation.choose ⟨1⟩ 1).run s).isSome := by
    decide +kernel
  obtain ⟨r₁, s, hstart, hs⟩ := Operation.exists_of_leads hstarted
  obtain ⟨c, hc, hc'⟩ := (Option.any_eq_true _ _).1 hs
  simp only [Bool.and_eq_true, beq_iff_eq] at hc'
  obtain ⟨hboundary, hrun⟩ := hc'
  obtain ⟨⟨r, s'⟩, hrun⟩ := Option.isSome_iff_exists.1 hrun
  have hid : c.id = ⟨1⟩ := by simpa using List.find?_some hc
  rw [← hid] at hc hrun
  have hreach : Scheduler.Reachable (.handling .offering .tells) s := (Reachable.fresh 0).run hstart
  obtain ⟨hlive, hwaiting, -, -⟩ := hreach.choices_heeded he hl hplaces hrest hbudget
  obtain ⟨b, x, arms, hoffers, hlength, hchosen, -⟩ := hwaiting c _ hc hboundary
  obtain ⟨hok, -, body, rest, -, -, -, hsteps⟩ := hchosen 1 (by decide)
  exact ⟨he, hl, hplaces, hrest, hbudget, s, c, r, s', b, x, arms, hreach, hc, hboundary,
    (hlive c (mem_of_context? hc)).2, hoffers, hlength, hrun, hok r s' hrun, hsteps⟩

/-- **A choice among its options may not reach a context.** When numbers have
come round, another live context may have its number and stand before it: a
choice for that number is then refused. -/
theorem Scheduler.Reachable.exists_unheeded :
    Library.offering.Lawful ∧ ∃ s, Scheduler.Reachable (.ofLibrary .offering) s ∧
      (∃ c ∈ s.contexts, c.id = ⟨1⟩ ∧ c.boundary = some (.choice ["left", "right"])) ∧
      (Operation.choose ⟨1⟩ 0).run s = some (.chosen (.error (.noChoice ⟨1⟩)), s) := by
  have hl : Library.offering.Lawful := by decide +kernel
  obtain ⟨s, hreach, hs⟩ := Library.exists_recurring hl "nothing" "ask"
    (p := fun s => (Operation.start "offer" .none).leads s fun _ s' =>
      (s'.contexts.any fun c => c.id == ⟨1⟩ && c.boundary == some (.choice ["left", "right"])) &&
        (s'.context? ⟨1⟩).any fun c => c.boundary == some .signal)
    (by decide +kernel) (by decide +kernel)
  obtain ⟨r, s', hrun, hs'⟩ := Operation.exists_of_leads hs
  simp only [Bool.and_eq_true, List.any_eq_true, beq_iff_eq] at hs'
  obtain ⟨hwaiting, hfirst⟩ := hs'
  obtain ⟨c, hc, hboundary⟩ := (Option.any_eq_true _ _).1 hfirst
  refine ⟨hl, s', hreach.reachable.run hrun, hwaiting, ?_⟩
  have hboundary : c.boundary = some .signal := by simpa using hboundary
  rw [Operation.run, Scheduler.choose, hc]
  simp only [hboundary]
  rfl

end Cutscene
