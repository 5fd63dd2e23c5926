import Cutscene.Proofs.Walk.Follow
/-!
# Walking — commands

The machine that steps stands before what is left of a tree, and the one that
walks has come there (`Library.Before`). Steps track walks of so many ticks if
from wherever that is so they follow the walk (`Library.Tracks`). Each command
is one lemma: if steps track walks of fewer ticks, they follow a walk whose
first command it is.
-/

namespace Cutscene

/-- The body is one of a plain event, in a loop or outside of any. -/
structure Library.Spot (l : Library) (b : Body) (inLoop : Bool) : Prop where
  holds : l.Holds b
  plain : l.IsPlain b.key.event
  loop : b.site.loop.isSome = inLoop

/-- The machine that steps stands before what is left of a tree, and agrees
with the one that walks. -/
structure Library.Before (l : Library) (b : Body) (inLoop : Bool) (block : Block)
    (calls : List CallFrame) (iterations : List Iteration) (m r : Machine) : Prop where
  spot : l.Spot b inLoop
  poised : ∃ index, b.Tail index (block.pruned inLoop) ∧
    m.context.Poised ⟨b.key, index⟩ calls iterations
  agrees : m.Agrees r

/-- Steps follow walks of so many ticks. -/
def Library.Tracks (l : Library) (e : Engine) (ticks : Nat) : Prop :=
  ∀ ⦃b inLoop block calls iterations m r times⦄,
    l.Before b inLoop block calls iterations m r → times.length = ticks →
      (l.walk inLoop block ticks r).Follows e b calls iterations (Machine.pace e times m)

namespace Library

variable {l : Library} {e : Engine} {b c : Body} {inLoop : Bool} {calls : List CallFrame}
  {iterations : List Iteration} {index position : Nat} {command : Command} {rest : Block}
  {m r : Machine} {times : List (Option Reading)} {ticks : Nat}

/-- The step of a command that has one. -/
theorem Spot.step? (h : l.Spot b inLoop) (he : e.Serves l) (hl : l.Lawful)
    (htail : b.Tail index (.cons position command rest)) {step : Step}
    (hstep : command.steps b.site position = [step]) : e.step? ⟨b.key, index⟩ = some step := by
  have hwidth : command.width = 1 := by
    rw [← command.length_steps b.site position, hstep]
    rfl
  have hget := Body.step_entry htail.mem_entries (k := 0) (by rw [hwidth]; exact Nat.one_pos)
  rw [he.step? hl h.holds, ← Nat.add_zero index]
  refine hget.trans ?_
  rw [Entry.steps, hstep]
  rfl

/-- The step that the body ends in. -/
theorem Spot.step?_terminal (h : l.Spot b inLoop) (he : e.Serves l) (hl : l.Lawful) :
    e.step? ⟨b.key, b.block.width⟩ = some b.terminal := by
  rw [he.step? hl h.holds, Body.step_terminal]

theorem Spot.isPlain (h : l.Spot b inLoop) (htail : b.Tail index (.cons position command rest)) :
    command.isPlain :=
  h.plain b h.holds .refl _ htail.mem_entries

/-- A body that is held stands in the same event. -/
theorem Spot.child (h : l.Spot b inLoop) {inner : Bool} (hc : c ∈ b.children)
    (hloop : c.site.loop.isSome = inner) : l.Spot c inner := by
  obtain ⟨position, slot, hkey⟩ := Body.key_of_mem_children hc
  refine ⟨h.holds.child hc, ?_, hloop⟩
  rw [hkey, BodyKey.event_child]
  exact h.plain

/-- After a command of one step, what is left is the rest. -/
theorem Tracks.onRest (ht : l.Tracks e ticks) (h : l.Spot b inLoop)
    (htail : b.Tail index (.cons position command (rest.pruned inLoop)))
    (hwidth : command.width = 1)
    (hm : m.context.Poised ⟨b.key, index + 1⟩ calls iterations) (hr : m.Agrees r)
    (htimes : times.length = ticks) :
    (l.walk inLoop rest ticks r).Follows e b calls iterations (Machine.pace e times m) := by
  have hnext := htail.next
  rw [hwidth] at hnext
  exact ht ⟨h, ⟨_, hnext, hm⟩, hr⟩ htimes

/-- A body is walked from its start. -/
theorem Tracks.onBody (ht : l.Tracks e ticks) {block : Block} (h : l.Spot c inLoop)
    (hblock : c.block = block.pruned inLoop) (hm : m.context.Poised ⟨c.key, 0⟩ calls iterations)
    (hr : m.Agrees r) (htimes : times.length = ticks) :
    (l.walk inLoop block ticks r).Follows e c calls iterations (Machine.pace e times m) :=
  ht ⟨h, ⟨0, hblock ▸ .whole, hm⟩, hr⟩ htimes

/-! ## Actions and leaps -/

/-- A log or a change of a variable. -/
theorem Tracks.quiet (ht : l.Tracks e ticks) (he : e.Serves l) (hl : l.Lawful)
    (h : l.Spot b inLoop) {a : Action} (hquiet : a.isQuiet) (htimeless : a.isTimeless)
    (htail : b.Tail index (.cons position (.action a) (rest.pruned inLoop)))
    (hm : m.context.Poised ⟨b.key, index⟩ calls iterations) (hr : m.Agrees r)
    (htimes : times.length = ticks) (time : Option Reading) :
    (l.walk inLoop (.cons position (.action a) rest) (ticks + 1) r).Follows e b calls iterations
      (Machine.pace e (time :: times) m) := by
  have hrun : Step.run e (.action a) =
      (a.run (fun _ => false) >>= fun flow => pure (.flow flow)) := by
    rw [Step.run, Action.run_eq (by rw [hquiet, Bool.true_or])]
  obtain ⟨flow, x, r', hwalked, hx, hpoised, hpace⟩ :=
    Machine.exists_paced (Action.traced hquiet htimeless) hrun (h.step? he hl htail rfl) hm hr time
  have hflow : flow = .next := by
    have hnext := Action.run_fst_of_isQuiet hquiet r
    rwa [hwalked] at hnext
  subst hflow
  rw [Library.walk, hwalked, hpace .next x rfl]
  exact (ht.onRest h htail rfl hpoised hx htimes).widen _

/-- The stop of the event. -/
theorem follows_stop (he : e.Serves l) (hl : l.Lawful) (h : l.Spot b inLoop) {a : Action}
    (hstop : a.isStop) (htail : b.Tail index (.cons position (.action a) (rest.pruned inLoop)))
    (hm : m.context.Poised ⟨b.key, index⟩ calls iterations) (hr : m.Agrees r)
    (htimes : times.length = ticks) (time : Option Reading) :
    (l.walk inLoop (.cons position (.action a) rest) (ticks + 1) r).Follows e b calls iterations
      (Machine.pace e (time :: times) m) := by
  obtain rfl : a = .stopEvent := by cases a <;> first | rfl | simp [Action.isStop] at hstop
  obtain ⟨x, hx, -, hpace⟩ := Machine.exists_paced_now (h.step? he hl htail rfl) hm hr time
  rw [Library.walk, hpace .stop _ rfl]
  exact ⟨times, _, htimes, by simp, rfl, rfl, hx.id, hx.name, hx.attributes, hx.ambient, hx.world⟩

/-- Leaving the loop around. -/
theorem follows_break (he : e.Serves l) (hl : l.Lawful) (h : l.Spot b true)
    (htail : b.Tail index (.cons position .breakLoop (rest.pruned true)))
    (hm : m.context.Poised ⟨b.key, index⟩ calls iterations) (hr : m.Agrees r)
    (htimes : times.length = ticks) (time : Option Reading) :
    (l.walk true (.cons position .breakLoop rest) (ticks + 1) r).Follows e b calls iterations
      (Machine.pace e (time :: times) m) := by
  obtain ⟨around, haround⟩ := Option.isSome_iff_exists.1 h.loop
  have hstep : Command.breakLoop.steps b.site position = [.leaveLoop around.each around.exit] := by
    rw [Command.steps, haround]
  obtain ⟨x, hx, hpoised, hpace⟩ :=
    Machine.exists_paced_now (h.step? he hl htail hstep) hm hr time
  have hleft : Step.run e (.leaveLoop around.each around.exit) x =
      (.flow .next, x.steer
        ({ x.context with
          iterations := if around.each then x.context.iterations.tail else x.context.iterations
        }.goto around.exit)) := by
    rw [Step.run]
    cases around.each <;> rfl
  rw [Library.walk, if_pos rfl, hpace .next _ hleft]
  refine ⟨times, _, htimes, by simp, rfl, ⟨around, haround, ?_⟩,
    hx.id, hx.name, hx.attributes, hx.ambient, hx.world⟩
  refine ⟨hpoised.running, rfl, hpoised.calls, ?_⟩
  show (if around.each then x.context.iterations.tail else x.context.iterations) = _
  rw [hpoised.iterations]

/-- Going to the end of the body of the loop around. -/
theorem follows_continue (he : e.Serves l) (hl : l.Lawful) (h : l.Spot b true)
    (htail : b.Tail index (.cons position .continueLoop (rest.pruned true)))
    (hm : m.context.Poised ⟨b.key, index⟩ calls iterations) (hr : m.Agrees r)
    (htimes : times.length = ticks) (time : Option Reading) :
    (l.walk true (.cons position .continueLoop rest) (ticks + 1) r).Follows e b calls iterations
      (Machine.pace e (time :: times) m) := by
  obtain ⟨around, haround⟩ := Option.isSome_iff_exists.1 h.loop
  have hstep : Command.continueLoop.steps b.site position = [.endPass around.terminal] := by
    rw [Command.steps, haround]
  obtain ⟨y, hy, hpoised, hpace⟩ :=
    Machine.exists_paced_goto rfl (h.step? he hl htail hstep) hm hr time
  rw [Library.walk, if_pos rfl, hpace]
  exact ⟨times, y, htimes, by simp, rfl, ⟨around, haround, hpoised⟩, hy⟩

/-! ## Bodies that are chosen -/

/-- Coming back from a body that goes on after its command. -/
theorem Tracks.onResume (ht : l.Tracks e ticks) (he : e.Serves l) (hl : l.Lawful)
    (h : l.Spot b inLoop) (htail : b.Tail index (.cons position command (rest.pruned inLoop)))
    (hwidth : command.width = 1) {inner : Bool} (hc : l.Spot c inner)
    (hterminal : c.terminal = .resume ⟨b.key, index + 1⟩)
    (hm : m.context.Poised ⟨c.key, c.block.width⟩ calls iterations) (hr : m.Agrees r)
    (htimes : times.length = ticks) (time : Option Reading) :
    (l.walk inLoop rest ticks r).Follows e b calls iterations
      (Machine.pace e (time :: times) m) := by
  have hstep := hc.step?_terminal he hl
  rw [hterminal] at hstep
  obtain ⟨y, hy, hpoised, hpace⟩ := Machine.exists_paced_goto rfl hstep hm hr time
  rw [hpace]
  exact ht.onRest h htail hwidth hpoised hy htimes

/-- **A body that is chosen, and then the rest.** -/
theorem follows_chosen (ht : ∀ n ≤ ticks, l.Tracks e n) (he : e.Serves l) (hl : l.Lawful)
    (h : l.Spot b inLoop) (htail : b.Tail index (.cons position command (rest.pruned inLoop)))
    (hwidth : command.width = 1) {chosen : Option (Body × Block)}
    (hpaired : ∀ x ∈ chosen, Paired inLoop b.site.loop ⟨b.key, index + 1⟩
      (command.children b.site position index) x)
    (hm : m.context.Poised ((chosen.map fun x => ⟨x.1.key, 0⟩).getD ⟨b.key, index + 1⟩) calls
      iterations) (hr : m.Agrees r) (htimes : times.length = ticks) :
    (l.walkChosen inLoop (chosen.map (·.2)) rest ticks r).Follows e b calls iterations
      (Machine.pace e times m) := by
  cases chosen with
  | none =>
    rw [Option.map_none, Library.walkChosen]
    exact (ht ticks le_rfl).onRest h htail hwidth hm hr htimes
  | some x =>
    obtain ⟨c, block⟩ := x
    obtain ⟨hmem, hloop, hterminal, hblock⟩ := hpaired _ rfl
    have hchild : c ∈ b.children := Body.mem_children_iff.2 ⟨_, htail.mem_entries, hmem⟩
    have hc : l.Spot c inLoop := h.child hchild (hloop ▸ h.loop)
    have hbody := (ht ticks le_rfl).onBody hc hblock hm hr htimes
    rw [Option.map_some, Library.walkChosen]
    refine hbody.onward fun exit left hleft r' times' m' htimes' hpositive hlands hr' => ?_
    cases exit with
    | done =>
      obtain ⟨time, times', rfl⟩ :=
        List.exists_cons_of_length_pos (htimes' ▸ hpositive rfl : 0 < times'.length)
      have htimes'' : times'.length = left - 1 := by
        rw [List.length_cons] at htimes'
        omega
      exact ((ht (left - 1) (by omega)).onResume he hl h htail hwidth hc hterminal hlands hr'
        htimes'' time).widen _
    -- the loop around the body is the one around its command
    | broke | continued | stopped =>
      exact ⟨times', m', htimes', hpositive, rfl, hlands.outward hloop (by decide), hr'⟩

/-- **A condition or a switch.** -/
theorem follows_choice (ht : ∀ n ≤ ticks, l.Tracks e n) (he : e.Serves l) (hl : l.Lawful)
    (h : l.Spot b inLoop) (htail : b.Tail index (.cons position command (rest.pruned inLoop)))
    {step : Step} (hstep : command.steps b.site position = [step]) {walk : Act (Option Block)}
    (hchooses : Chooses e inLoop b.site.loop ⟨b.key, index + 1⟩
      (command.children b.site position index) step walk)
    (hm : m.context.Poised ⟨b.key, index⟩ calls iterations) (hr : m.Agrees r)
    (htimes : times.length = ticks) (time : Option Reading) :
    (l.walkChosen inLoop (walk r).1 rest ticks (walk r).2).Follows e b calls iterations
      (Machine.pace e (time :: times) m) := by
  obtain ⟨act, htraced, hrun, hwalk, hpaired⟩ := hchooses
  have hwidth : command.width = 1 := by
    rw [← command.length_steps b.site position, hstep]
    rfl
  obtain ⟨chosen, x, r', hchosen, hx, hpoised, hpace⟩ :=
    Machine.exists_paced htraced hrun (h.step? he hl htail hstep) hm hr time
  have hwalked : walk r = (chosen.map (·.2), r') := by
    rw [hwalk]
    show (fun done : Option (Body × Block) × Machine => (done.1.map (·.2), done.2)) (act r) = _
    rw [hchosen]
  have hpairs : ∀ x ∈ chosen, Paired inLoop b.site.loop ⟨b.key, index + 1⟩
      (command.children b.site position index) x := fun x hx =>
    hpaired r x (by rw [hchosen]; exact hx)
  rw [hwalked]
  cases chosen with
  | none =>
    rw [hpace .next x rfl]
    exact follows_chosen ht he hl h htail hwidth hpairs hpoised hx htimes
  | some pair =>
    rw [hpace .next _ rfl]
    exact follows_chosen ht he hl h htail hwidth hpairs (hpoised.goto ⟨pair.1.key, 0⟩)
      (hx.goto ⟨pair.1.key, 0⟩) htimes

end Library

end Cutscene
