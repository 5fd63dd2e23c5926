import Cutscene.Proofs.Run.Resemble
import Cutscene.Proofs.Run.Spawn
/-!
# Running — step by step

`Machine.advances` advances a context again and again, as the frames pass:
the clock is set, and the context runs for a budget of steps. `Machine.pace`
runs one step at a time, before which the clock may be set. Advances are a
pace (`Machine.advances_of_pace`), so how steps are shared out over frames
does not matter to a proof about steps.
-/

namespace Cutscene

/-- The time passed and the number of frames. -/
abbrev Reading := Float × Nat

namespace Machine

/-- The machine with its clock set, if it is. -/
def atTime (m : Machine) : Option Reading → Machine
  | none => m
  | some (elapsedMs, frame) => { m with world.elapsedMs := elapsedMs, world.frame := frame }

@[simp] theorem context_atTime (m : Machine) (time : Option Reading) :
    (m.atTime time).context = m.context := by
  cases time <;> rfl

theorem Agrees.atTime {m r : Machine} (h : m.Agrees r) (time : Option Reading) :
    (m.atTime time).Agrees r := by
  cases time with
  | none => exact h
  | some reading => exact ⟨h.id, h.name, h.attributes, h.ambient, { h.world with }⟩

/-- Advances a context once for every reading of the clock. -/
def advances (e : Engine) : List Reading → Machine → Option Machine
  | [], m => some m
  | reading :: readings, m =>
    match advance e (m.atTime (some reading)) with
    | none => none
    | some m => advances e readings m

/-- Runs a step for every entry, before which the clock may be set. It has no
result if a step spawns a context. -/
def pace (e : Engine) : List (Option Reading) → Machine → Option Machine
  | [], m => some m
  | time :: times, m => (steps e (fun _ => none) 1 (m.atTime time)).bind (pace e times)

variable {e : Engine} {m m' : Machine}

theorem steps_of_not_running {spawn : Machine → Option Machine} {budget : Nat}
    (h : m.context.state.isRunning = false) : steps e spawn budget m = some m := by
  cases budget with
  | zero => rfl
  | succ budget => rw [steps, h, Bool.not_false, if_pos rfl]

/-- Many steps are one step and then the others. -/
theorem steps_succ (spawn : Machine → Option Machine) (budget : Nat) (m : Machine) :
    steps e spawn (budget + 1) m = (steps e spawn 1 m).bind (steps e spawn budget) := by
  rw [steps, steps]
  split
  · rename_i hrunning
    exact (steps_of_not_running (by simpa using hrunning)).symm
  · cases e.step? m.context.place with
    | none => exact (steps_of_not_running rfl).symm
    | some step =>
      simp only
      rcases step.run e (m.past step) with ⟨flow | child, m'⟩
      · rfl
      · simp only
        cases spawn ⟨child, m'.world⟩ <;> rfl

theorem pace_append (times times' : List (Option Reading)) (m : Machine) :
    pace e (times ++ times') m = (pace e times m).bind (pace e times') := by
  induction times generalizing m with
  | nil => rfl
  | cons time times ih =>
    rw [List.cons_append, pace, pace, Option.bind_assoc]
    exact congrArg _ (funext ih)

theorem pace_replicate_none (budget : Nat) (m : Machine) :
    pace e (List.replicate budget none) m = steps e (fun _ => none) budget m := by
  induction budget generalizing m with
  | zero => rfl
  | succ budget ih =>
    rw [List.replicate_succ, pace, steps_succ _ budget]
    exact congrArg _ (funext ih)

/-- Where control stands does not change when the context does not run. -/
theorem exists_pace_of_not_running (h : m.context.state.isRunning = false)
    (times : List (Option Reading)) :
    ∃ x, pace e times m = some x ∧ x.context = m.context ∧ ∀ r, m.Agrees r → x.Agrees r := by
  induction times generalizing m with
  | nil => exact ⟨m, rfl, rfl, fun _ hr => hr⟩
  | cons time times ih =>
    have hstill : (m.atTime time).context.state.isRunning = false := by rwa [context_atTime]
    obtain ⟨x, hx, hcontext, hagrees⟩ := ih hstill
    refine ⟨x, ?_, hcontext.trans (m.context_atTime time), fun r hr => hagrees r (hr.atTime time)⟩
    rw [pace, steps_of_not_running hstill, Option.bind_some, hx]

/-! ## Advances -/

/-- The steps of advances: a budget of them for every reading. -/
def beats (budget : Nat) (readings : List Reading) : List (Option Reading) :=
  readings.flatMap fun reading => some reading :: List.replicate (budget - 1) none

theorem length_beats {budget : Nat} (h : 0 < budget) (readings : List Reading) :
    (beats budget readings).length = readings.length * budget := by
  induction readings with
  | nil => simp [beats]
  | cons reading readings ih =>
    rw [beats, List.flatMap_cons, List.length_append, ← beats, ih, List.length_cons,
      List.length_replicate, List.length_cons, Nat.add_mul]
    omega

/-- An advance that spawns nothing is a budget of steps. -/
theorem advance_of_steps (h : steps e (fun _ => none) e.stepBudget m = some m') :
    advance e m = some m' := by
  -- a run in which nothing may be spawned is a run whatever may be
  have hextends : Plan.Extends (fun _ => none) (advanceBelow e e.spawnDepth) :=
    fun _ _ h => by simp at h
  rw [steps_eq_run] at h
  rw [advance, advanceWithin_eq_run]
  exact Plan.run_extends hextends h

/-- **Advances that spawn nothing are a pace.** -/
theorem advances_of_pace (hbudget : 0 < e.stepBudget) {readings : List Reading}
    (h : pace e (beats e.stepBudget readings) m = some m') :
    advances e readings m = some m' := by
  induction readings generalizing m with
  | nil => exact h
  | cons reading readings ih =>
    rw [beats, List.flatMap_cons, pace_append, ← beats, Option.bind_eq_some_iff] at h
    obtain ⟨x, hx, hrest⟩ := h
    have hsteps : steps e (fun _ => none) e.stepBudget (m.atTime (some reading)) = some x := by
      rw [pace, funext (pace_replicate_none (e.stepBudget - 1)), ← steps_succ,
        Nat.sub_add_cancel hbudget] at hx
      exact hx
    rw [advances, advance_of_steps hsteps]
    exact ih hrest

/-- Without a budget, advances set the clock and do nothing else. -/
theorem exists_advances_of_no_budget (hbudget : e.stepBudget = 0) (readings : List Reading)
    (m : Machine) :
    ∃ x, advances e readings m = some x ∧ x.context = m.context ∧
      ∀ r, m.Agrees r → x.Agrees r := by
  induction readings generalizing m with
  | nil => exact ⟨m, rfl, rfl, fun _ hr => hr⟩
  | cons reading readings ih =>
    obtain ⟨x, hx, hcontext, hagrees⟩ := ih (m.atTime (some reading))
    refine ⟨x, ?_, hcontext, fun r hr => hagrees r (hr.atTime _)⟩
    rw [advances, advance_of_steps (by rw [hbudget]; rfl)]
    exact hx

end Machine

end Cutscene
