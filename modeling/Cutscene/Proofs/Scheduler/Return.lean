import Cutscene.Proofs.Program.Held
import Cutscene.Proofs.Scheduler.Plan
/-!
# Scheduler — operations that return

Three things keep the host from waiting: the budget of steps of a context, the
bound on rounds of requests, and the depth at which contexts that spawn each
other are given up. The first two end an operation with a result, the third
without one. So an operation has a result, where contexts may spawn each other
deeply enough, just if nothing that it advances spawns forever
(`Operation.returns_iff_not_spawnsForever`), whatever events loop, call
themselves or ask each other to resume.
-/

namespace Cutscene

open Plan

/-- **An operation has a result, wherever contexts may spawn each other deeply
enough, just if nothing that it advances spawns forever.** -/
theorem Operation.returns_iff_not_spawnsForever (s : Scheduler) (op : Operation) :
    (∃ enough, ∀ depth, enough ≤ depth → (op.run (s.withDepth depth)).isSome) ↔
      ∀ depth, ∀ m ∈ op.advances (s.withDepth depth), ¬ m.SpawnsForever s.engine := by
  -- more depth only adds results, so one depth that is enough for all advances will do
  have hdeepens := Machine.deepens_advanceWithin s.engine
  have hrun : ∀ depth, (op.run (s.withDepth depth)).isSome =
      ((op.plan s).run (Machine.advanceWithin s.engine depth)).isSome := by
    intro depth
    rw [run_withDepth, within, Option.isSome_map]
  simp only [hrun, advances_withDepth, ← Machine.returns_iff]
  refine Iff.trans ?_ (exists_isSome_run_iff hdeepens)
  constructor
  · rintro ⟨enough, h⟩
    exact ⟨enough, h enough le_rfl⟩
  · rintro ⟨enough, h⟩
    exact ⟨enough, fun depth hle => isSome_run_deepens hdeepens hle h⟩

/-! ## An event that calls itself and does not wait for it -/

theorem Step.run_callAsync_some {e : Engine} {event : String} {callee : Compiled}
    (h : e.event? event = some callee) (params : Table String ValueOperand) (m : Machine) :
    ∃ (ambient : Ambient) (id : EventId) (m' : Machine),
      Step.run e (.callAsync event params) m =
        (.spawn (.start id event (.root event) ambient), m') := by
  simp only [Step.run, h]
  exact ⟨_, _, _, rfl⟩

section Breeding

variable {e : Engine} {event : String} {callee : Compiled} {params : Table String ValueOperand}

/-- A context at an asynchronous call first advances another, at the start of
the event called. -/
theorem Machine.plan_callAsync (hevent : e.event? event = some callee) {m : Machine}
    (hrunning : m.context.state.isRunning)
    (hstep : e.step? m.context.place = some (.callAsync event params)) (budget : Nat) :
    ∃ (child : Machine) (next : Machine → Plan Machine),
      m.plan e (budget + 1) = .advance child next ∧ child.context.state.isRunning ∧
        child.context.place = ⟨.root event, 0⟩ := by
  obtain ⟨ambient, id, m', hrun⟩ :=
    Step.run_callAsync_some hevent params (m.past (.callAsync event params))
  have hplan : m.plan e (budget + 1) =
      .advance ⟨.start id event (.root event) ambient, m'.world⟩ fun done =>
        plan e budget { m' with world := done.world.adopt done.context } := by
    rw [Machine.plan, if_neg (by simp [hrunning])]
    simp only [hstep, hrun]
  exact ⟨_, _, hplan, rfl, rfl⟩

/-- A context at the start of an event that begins by calling itself
asynchronously has no result, at any depth. -/
theorem Machine.advanceWithin_eq_none_of_callAsync (hevent : e.event? event = some callee)
    (hstep : e.step? ⟨.root event, 0⟩ = some (.callAsync event params))
    (hbudget : e.stepBudget ≠ 0) (depth : Nat) {m : Machine}
    (hrunning : m.context.state.isRunning) (hplace : m.context.place = ⟨.root event, 0⟩) :
    advanceWithin e depth m = none := by
  obtain ⟨budget, hbudget⟩ := Nat.exists_eq_succ_of_ne_zero hbudget
  -- each context spawns the next one at once, with one level less
  induction depth generalizing m with
  | zero =>
    obtain ⟨child, next, hplan, -, -⟩ :=
      Machine.plan_callAsync hevent hrunning (hplace ▸ hstep) budget
    rw [advanceWithin_eq_run, hbudget, hplan]
    rfl
  | succ depth ih =>
    obtain ⟨child, next, hplan, hchild, hstart⟩ :=
      Machine.plan_callAsync hevent hrunning (hplace ▸ hstep) budget
    rw [advanceWithin_eq_run, hbudget, hplan, Plan.run, advanceBelow, ih hchild hstart]

end Breeding

/-- An event that calls itself asynchronously. -/
def Library.breeding : Library :=
  let call : Json := .object [("event", .string "main"), ("mode", .string "async")]
  { events := .ofList [("main", ⟨"main", [⟨"callEvent", call⟩], .empty⟩)] }

/-- **The budget does not keep an event from spawning itself forever**: started,
it has no result, however deeply contexts may spawn each other. -/
theorem Operation.exists_forall_run_eq_none :
    Library.breeding.Lawful ∧ ∀ depth,
      (Operation.start "main" .none).run
        ((Scheduler.fresh (.ofLibrary .breeding) 0).withDepth depth) = none := by
  have hl : Library.breeding.Lawful := by decide +kernel
  have hevent : ((Engine.ofLibrary .breeding).event? "main").isSome := by decide +kernel
  have hstep : ((Engine.ofLibrary .breeding).step? ⟨.root "main", 0⟩).any fun step =>
      match step with
      | .callAsync event _ => event == "main"
      | _ => false := by
    decide +kernel
  obtain ⟨callee, hcallee⟩ := Option.isSome_iff_exists.1 hevent
  obtain ⟨step, hget, hcall⟩ := (Option.any_eq_true _ _).1 hstep
  cases step with
  | callAsync event params =>
    obtain rfl := beq_iff_eq.1 hcall
    refine ⟨hl, fun depth => ?_⟩
    have hfound : (Scheduler.fresh (.ofLibrary .breeding) 0).engine.event? "main" = some callee :=
      hcallee
    have hnone : Machine.advanceWithin (Scheduler.fresh (.ofLibrary .breeding) 0).engine depth
        ((Scheduler.fresh (.ofLibrary .breeding) 0).starting "main" .none callee) = none :=
      Machine.advanceWithin_eq_none_of_callAsync hcallee hget (by decide) depth rfl rfl
    rw [Operation.run_withDepth, Operation.within, Operation.plan]
    simp only [hfound, Plan.run, hnone, Option.map_none]
  | _ => simp at hcall

end Cutscene
