import Cutscene.Proofs.Run.Pace
import Cutscene.Proofs.Walk.Choice
/-!
# Walking — steps that follow a walk

A walk ends in one of four ways, and each says where control stands when the
steps of the same body have done as much (`Exit.Lands`). Steps follow a walk
when they come to what it comes to: as many of them are left as the walk has
ticks left, and the machines agree (`Walked.Follows`).

`Machine.exists_paced` is the step lemma: a step that computes something and
then turns control comes to what the walk's computation comes to.
-/

namespace Cutscene

/-! ## Where control stands -/

/-- The context runs, at a place, in calls and in iterations. -/
structure Context.Poised (place : Place) (calls : List CallFrame) (iterations : List Iteration)
    (c : Context) : Prop where
  running : c.state.isRunning
  place : c.place = place
  calls : c.calls = calls
  iterations : c.iterations = iterations

theorem Context.Poised.goto {place : Place} {calls : List CallFrame} {iterations : List Iteration}
    {c : Context} (h : c.Poised place calls iterations) (target : Place) :
    (c.goto target).Poised target calls iterations :=
  ⟨h.running, rfl, h.calls, h.iterations⟩

/-- Writing a variable leaves control where it is. -/
theorem Context.Poised.write {place : Place} {calls : List CallFrame}
    {iterations : List Iteration} {m : Machine} (h : m.context.Poised place calls iterations)
    (ref : VariableRef) (v : Value) : (m.write ref v).context.Poised place calls iterations := by
  rw [Machine.write, Machine.modifyAt_eq, Machine.context_after]
  exact ⟨h.running, h.place, h.calls, h.iterations⟩

/-- Where control stands when the walk of a body has ended: at the body's last
step, after the loop around it, at the end of that loop's body, or nowhere. -/
def Exit.Lands (b : Body) (calls : List CallFrame) (iterations : List Iteration) (c : Context) :
    Exit → Prop
  | .done => c.Poised ⟨b.key, b.block.width⟩ calls iterations
  | .broke => ∃ around, b.site.loop = some around ∧
      c.Poised around.exit calls (if around.each then iterations.tail else iterations)
  | .continued => ∃ around, b.site.loop = some around ∧
      c.Poised around.terminal calls iterations
  | .stopped => c.state.isFinished

/-- An exit other than a body's end is one of every body with the same loop
around it. -/
theorem Exit.Lands.outward {b c : Body} {calls : List CallFrame} {iterations : List Iteration}
    {context : Context} {exit : Exit} (h : exit.Lands c calls iterations context)
    (hloop : c.site.loop = b.site.loop) (hexit : exit ≠ .done) :
    exit.Lands b calls iterations context := by
  cases exit with
  | done => exact absurd rfl hexit
  | broke =>
    rw [Exit.Lands, hloop] at h
    exact h
  | continued =>
    rw [Exit.Lands, hloop] at h
    exact h
  | stopped => exact h

/-- What the steps come to is what the walk comes to. -/
def Walked.Follows (e : Engine) (b : Body) (calls : List CallFrame)
    (iterations : List Iteration) (result : Option Machine) {ticks : Nat} : Walked ticks → Prop
  | .out r => ∃ m, result = some m ∧ m.context.state.isRunning ∧ m.Agrees r
  | .ended exit left _ r => ∃ times m, times.length = left ∧ (exit = .done → 0 < left) ∧
      result = Machine.pace e times m ∧ exit.Lands b calls iterations m.context ∧ m.Agrees r

namespace Walked.Follows

variable {e : Engine} {b c : Body} {calls calls' : List CallFrame}
  {iterations iterations' : List Iteration} {result : Option Machine} {ticks ticks' : Nat}

theorem widen {w : Walked ticks} (h : w.Follows e b calls iterations result)
    (hle : ticks ≤ ticks') : (w.widen hle).Follows e b calls iterations result := by
  cases w with
  | out r => exact h
  | ended exit left hleft r => exact h

/-- **Steps follow a walk and what comes after it**, if from wherever the walk
may have ended they follow that. -/
theorem onward {w : Walked ticks} (h : w.Follows e c calls' iterations' result)
    {next : Exit → (left : Nat) → left ≤ ticks → Machine → Walked left}
    (hnext : ∀ exit left hleft r times m, times.length = left → (exit = .done → 0 < left) →
      exit.Lands c calls' iterations' m.context → m.Agrees r →
      (next exit left hleft r).Follows e b calls iterations (Machine.pace e times m)) :
    (w.onward next).Follows e b calls iterations result := by
  cases w with
  | out r => exact h
  | ended exit left hleft r =>
    obtain ⟨times, m, hlength, hpositive, hresult, hlands, hagrees⟩ := h
    rw [hresult]
    exact (hnext exit left hleft r times m hlength hpositive hlands hagrees).widen hleft

end Walked.Follows

/-! ## One step -/

namespace Machine

variable {e : Engine} {m r : Machine} {place : Place} {calls : List CallFrame}
  {iterations : List Iteration}

/-- **A step comes to what its computation comes to.** The walk's machine has
done the computation, the one that steps has done it too, and what is left is
where control turns. -/
theorem exists_paced {α : Type} {act : Act α} (hact : Act.Traced True False act) {step : Step}
    {next : α → Act Outcome} (hrun : step.run e = act >>= next)
    (hstep : e.step? place = some step) (hm : m.context.Poised place calls iterations)
    (h : m.Agrees r) (time : Option Reading) :
    ∃ a x r', act r = (a, r') ∧ x.Agrees r' ∧ x.context.Poised (place.plus 1) calls iterations ∧
      ∀ flow y, next a x = (.flow flow, y) →
        ∀ times, pace e (time :: times) m = pace e times (y.settle flow) := by
  have hagrees : ((m.atTime time).past step).Agrees r := (h.atTime time).past step
  obtain ⟨a, x, r', hx, hr, hboth, hcontext⟩ := hact.agrees hagrees
  have hpast : ((m.atTime time).past step).context = m.context.goto (place.plus 1) := by
    simp only [past, context_atTime, hm.place]
  rw [hpast] at hcontext
  refine ⟨a, x, r', hr, hboth, ?_, fun flow y hy times => ?_⟩
  · rw [hcontext]
    exact ⟨hm.running, rfl, hm.calls, hm.iterations⟩
  · -- one tick of the pace is this step alone, its read of the clock included
    have hcomputed : step.run e ((m.atTime time).past step) = (.flow flow, y) := by
      rw [hrun]
      show (fun done : α × Machine => next done.1 done.2) (act ((m.atTime time).past step)) = _
      rw [hx]
      exact hy
    have hone : steps e (fun _ => none) 1 (m.atTime time) = some (y.settle flow) := by
      rw [steps, context_atTime, hm.running, Bool.not_true, if_neg Bool.false_ne_true, hm.place,
        hstep]
      simp only [hcomputed]
      rfl
    rw [pace, hone, Option.bind_some]

/-- A step that computes nothing first. -/
theorem exists_paced_now {step : Step} (hstep : e.step? place = some step)
    (hm : m.context.Poised place calls iterations) (h : m.Agrees r) (time : Option Reading) :
    ∃ x, x.Agrees r ∧ x.context.Poised (place.plus 1) calls iterations ∧
      ∀ flow y, step.run e x = (.flow flow, y) →
        ∀ times, pace e (time :: times) m = pace e times (y.settle flow) := by
  have hrun : step.run e = ((pure () : Act Unit) >>= fun _ => step.run e) := rfl
  obtain ⟨_, x, r', hr, hx, hpoised, hpace⟩ :=
    exists_paced (Act.traced_pure ()) hrun hstep hm h time
  obtain rfl : r = r' := congrArg Prod.snd hr
  exact ⟨x, hx, hpoised, hpace⟩

/-- A step that only sends control to a place. -/
theorem exists_paced_goto {step : Step} {target : Place} (hrun : step.run e = Act.goto target)
    (hstep : e.step? place = some step) (hm : m.context.Poised place calls iterations)
    (h : m.Agrees r) (time : Option Reading) :
    ∃ y, y.Agrees r ∧ y.context.Poised target calls iterations ∧
      ∀ times, pace e (time :: times) m = pace e times y := by
  obtain ⟨x, hx, hpoised, hpace⟩ := exists_paced_now hstep hm h time
  refine ⟨x.steer (x.context.goto target), hx.goto target, hpoised.goto target, hpace .next _ ?_⟩
  rw [hrun]
  rfl

end Machine

end Cutscene
