import Cutscene.Proofs.Walk.Pass
/-!
# Walking — programs do what the walk does

A call walks the tree of the event called, and its steps run that event's
program with the caller's place and parameters kept on the stack
(`Library.follows_call`). With it every command is accounted for, so steps
follow walks of any number of ticks, by induction on that number
(`Library.tracks`).
-/

namespace Cutscene

/-- An event is left by its end or by a stop: it has no loop around it. -/
theorem Exit.Lands.of_event {env : Environment} {d : EventDef} {calls : List CallFrame}
    {iterations : List Iteration} {context : Context} {exit : Exit}
    (h : exit.Lands (d.body env) calls iterations context) :
    exit = .done ∧ context.Poised ⟨(d.body env).key, (d.body env).block.width⟩ calls
      iterations ∨ exit = .stopped ∧ context.state.isFinished := by
  cases exit with
  | done => exact .inl ⟨rfl, h⟩
  | broke =>
    obtain ⟨_, hloop, -⟩ := h
    simp [EventDef.body, Block.unit, Site.ofUnit] at hloop
  | continued =>
    obtain ⟨_, hloop, -⟩ := h
    simp [EventDef.body, Block.unit, Site.ofUnit] at hloop
  | stopped => exact .inr ⟨rfl, h⟩

namespace Library

variable {l : Library} {e : Engine} {b c : Body} {inLoop : Bool} {calls : List CallFrame}
  {iterations : List Iteration} {index position : Nat} {rest : Block}
  {m r : Machine} {times : List (Option Reading)} {ticks : Nat}

/-! ## Calls -/

section Call

variable {event : String} {params : Table String ValueOperand} {d : EventDef}

/-- The body of an event that a plain one calls. -/
theorem Spot.called (h : l.Spot b inLoop) (he : e.Serves l) (hl : l.Lawful)
    (htail : b.Tail index (.cons position (.call event params) rest))
    (hd : l.get? event = some d) : l.Spot (d.body l.environment) false := by
  have hstep := h.step? he hl htail rfl
  rw [he.step? hl h.holds] at hstep
  have hcalls : l.Calls b.key.event event :=
    ⟨b, h.holds, rfl, _, Array.mem_toList_iff.2 (Array.mem_of_getElem? hstep), rfl⟩
  refine ⟨.event hd, ?_, rfl⟩
  have hevent : (d.body l.environment).key.event = event := hl.name_eq hd
  rw [hevent]
  exact h.plain.called hcalls

/-- The step that calls an event enters it with the parameters supplied, and
keeps where it came from. -/
theorem exists_paced_call (he : e.Serves l) (hl : l.Lawful) (h : l.Spot b inLoop)
    (htail : b.Tail index (.cons position (.call event params) rest))
    (hd : l.get? event = some d) (hm : m.context.Poised ⟨b.key, index⟩ calls iterations)
    (hr : m.Agrees r) (time : Option Reading) :
    ∃ supplied r' y,
      Act.draw (fun m => supply m params r.context.ambient.parameters) r = (supplied, r') ∧
      y.Agrees (r'.withParameters (supplied.fill d.parameters)) ∧
      y.context.Poised ⟨(d.body l.environment).key, 0⟩
        (⟨⟨b.key, index + 1⟩, r.context.ambient.parameters⟩ :: calls) iterations ∧
      ∀ times, Machine.pace e (time :: times) m = Machine.pace e times y := by
  have htraced : Act.Traced True False
      (Act.draw fun m => supply m params m.context.ambient.parameters) := by
    have hplain : (Command.call event params).isPlain := h.isPlain htail
    exact Act.traced_draw fun _ _ _ hm => by rw [hm.supply hplain, hm.ambient]
  have hcallee : e.event? event = some (.ofEvent l.environment d) := by
    rw [he.event?, hd]
    rfl
  have hrun : Step.run e (.call event params) =
      (Act.draw (fun m => supply m params m.context.ambient.parameters) >>= fun supplied => do
        Act.context fun c =>
          { c with
            calls := ⟨c.place, c.ambient.parameters⟩ :: c.calls
            ambient.parameters := supplied.fill d.parameters }
        Act.enter (.root event)) := by
    simp only [Step.run, hcallee]
    rfl
  obtain ⟨supplied, x, r', hsupplied, hx, hpoised, hpace⟩ :=
    Machine.exists_paced htraced hrun (h.step? he hl htail rfl) hm hr time
  -- drawing what is supplied leaves the caller's own parameters
  have hcaller : x.context.ambient.parameters = r.context.ambient.parameters := by
    rw [hx.ambient, show r'.context = r.context from congrArg (·.2.context) hsupplied.symm]
  have hkey : (d.body l.environment).key = .root event := congrArg BodyKey.root (hl.name_eq hd)
  let y := x.steer
    ({ x.context with
      calls := ⟨x.context.place, x.context.ambient.parameters⟩ :: x.context.calls
      ambient.parameters := supplied.fill d.parameters }.goto ⟨.root event, 0⟩)
  refine ⟨supplied, r', y, hsupplied, ?_, ?_, hpace .next y rfl⟩
  · have hambient := congrArg (fun a : Ambient =>
      { a with parameters := supplied.fill d.parameters }) hx.ambient
    exact ⟨hx.id, hx.name, hx.attributes, hambient, hx.world⟩
  · refine ⟨hpoised.running, ?_, ?_, hpoised.iterations⟩
    · rw [hkey]
      rfl
    · show (⟨x.context.place, x.context.ambient.parameters⟩ : CallFrame) :: x.context.calls = _
      rw [hcaller, hpoised.place, hpoised.calls]
      rfl

/-- The step that an event ends in goes back to its caller, whose parameters
it restores. -/
theorem exists_paced_leave (he : e.Serves l) (hl : l.Lawful)
    (h : l.Spot (d.body l.environment) false)
    {place : Place} {caller : Attributes}
    (hm : m.context.Poised ⟨(d.body l.environment).key, (d.body l.environment).block.width⟩
      (⟨place, caller⟩ :: calls) iterations)
    (hr : m.Agrees r) (time : Option Reading) :
    ∃ y, y.Agrees (r.withParameters caller) ∧ y.context.Poised place calls iterations ∧
      ∀ times, Machine.pace e (time :: times) m = Machine.pace e times y := by
  obtain ⟨x, hx, hpoised, hpace⟩ :=
    Machine.exists_paced_now (h.step?_terminal he hl) hm hr time
  let y := x.steer
    ({ x.context with calls := calls, ambient.parameters := caller }.goto place)
  have hrun : Step.run e .leave x = (.flow .next, y) := by
    simp only [Step.run, Act.look_bind, hpoised.calls]
    rfl
  have hambient := congrArg (fun a : Ambient => { a with parameters := caller }) hx.ambient
  exact ⟨y, ⟨hx.id, hx.name, hx.attributes, hambient, hx.world⟩,
    ⟨hpoised.running, rfl, rfl, hpoised.iterations⟩, hpace .next y hrun⟩

/-- **A call of an event.** -/
theorem follows_call (ht : ∀ n ≤ ticks, l.Tracks e n) (he : e.Serves l) (hl : l.Lawful)
    (h : l.Spot b inLoop)
    (htail : b.Tail index (.cons position (.call event params) (rest.pruned inLoop)))
    (hm : m.context.Poised ⟨b.key, index⟩ calls iterations) (hr : m.Agrees r)
    (htimes : times.length = ticks) (time : Option Reading) :
    (l.walk inLoop (.cons position (.call event params) rest) (ticks + 1) r).Follows e b calls
      iterations (Machine.pace e (time :: times) m) := by
  rw [Library.walk]
  cases hd : l.get? event with
  | none =>
    have hrun : Step.run e (.call event params) = Act.goOn := by
      simp only [Step.run, he.event?, hd, Option.map_none]
    obtain ⟨x, hx, hpoised, hpace⟩ :=
      Machine.exists_paced_now (h.step? he hl htail rfl) hm hr time
    rw [hpace .next x (by rw [hrun]; rfl)]
    exact ((ht ticks le_rfl).onRest h htail rfl hpoised hx htimes).widen _
  | some d =>
    obtain ⟨supplied, r', y, hsupplied, hy, hpoised, hpace⟩ :=
      exists_paced_call he hl h htail hd hm hr time
    have hcallee := h.called he hl htail hd
    have hbody :=
      (ht ticks le_rfl).onBody hcallee (d.pruned_tree l.environment).symm hpoised hy htimes
    simp only [hsupplied]
    rw [hpace]
    refine (hbody.onward ?_).widen _
    intro exit left hleft r'' times' m' htimes' hpositive hlands hr''
    rcases hlands.of_event with ⟨rfl, hended⟩ | ⟨rfl, hstopped⟩
    -- the step that leaves the event called is the tick for coming back
    · obtain ⟨time, times', rfl⟩ :=
        List.exists_cons_of_length_pos (htimes' ▸ hpositive rfl : 0 < times'.length)
      have htimes'' : times'.length = left - 1 := by
        rw [List.length_cons] at htimes'
        omega
      obtain ⟨y', hy', hpoised', hpace'⟩ := exists_paced_leave he hl hcallee hended hr'' time
      rw [hpace']
      exact ((ht (left - 1) (by omega)).onRest h htail rfl hpoised' hy' htimes'').widen _
    · exact ⟨times', m', htimes', by simp, rfl, hstopped, hr''⟩

end Call

/-! ## Every command -/

/-- An iteration: its list is computed once. -/
theorem follows_forEach (ht : ∀ n ≤ ticks, l.Tracks e n) (he : e.Serves l) (hl : l.Lawful)
    (h : l.Spot b inLoop) {source : ListSource} {ref : VariableRef} {body : Block}
    (htail : b.Tail index (.cons position (.forEach source ref body) (rest.pruned inLoop)))
    (hm : m.context.Poised ⟨b.key, index⟩ calls iterations) (hr : m.Agrees r)
    (htimes : times.length = ticks) (time : Option Reading) :
    (l.walk inLoop (.cons position (.forEach source ref body) rest) (ticks + 1) r).Follows e b calls
      iterations (Machine.pace e (time :: times) m) := by
  obtain ⟨list, r', y, hlist, haims, hpace⟩ := exists_paced_enterEach he hl h htail hm hr time
  rw [Library.walk, hlist, hpace]
  exact (follows_items ht he hl h htail haims htimes).widen (Nat.le_succ _)

/-- A plain action. -/
theorem follows_action (ht : l.Tracks e ticks) (he : e.Serves l) (hl : l.Lawful)
    (h : l.Spot b inLoop) {a : Action}
    (htail : b.Tail index (.cons position (.action a) (rest.pruned inLoop)))
    (hm : m.context.Poised ⟨b.key, index⟩ calls iterations) (hr : m.Agrees r)
    (htimes : times.length = ticks) (time : Option Reading) :
    (l.walk inLoop (.cons position (.action a) rest) (ticks + 1) r).Follows e b calls iterations
      (Machine.pace e (time :: times) m) := by
  have hplain := h.isPlain htail
  simp only [Command.isPlain, Bool.and_eq_true, Bool.or_eq_true] at hplain
  rcases hplain.1 with hquiet | hstop
  · exact ht.quiet he hl h hquiet hplain.2 htail hm hr htimes time
  · exact follows_stop he hl h hstop htail hm hr htimes time

/-- **Steps follow the walk of a block**, if they track walks of fewer ticks. -/
theorem follows_block (ht : ∀ n ≤ ticks, l.Tracks e n) (he : e.Serves l) (hl : l.Lawful)
    (h : l.Spot b inLoop) (hr : m.Agrees r) (htimes : times.length = ticks)
    (time : Option Reading) : (block : Block) → {index : Nat} →
      b.Tail index (block.pruned inLoop) →
      m.context.Poised ⟨b.key, index⟩ calls iterations →
      (l.walk inLoop block (ticks + 1) r).Follows e b calls iterations
        (Machine.pace e (time :: times) m)
  | .nil, index, htail, hm => by
    obtain rfl := htail.index_eq
    rw [Library.walk]
    exact ⟨time :: times, m, congrArg (· + 1) htimes, fun _ => Nat.succ_pos _, rfl, hm, hr⟩
  | .cons position command rest, index, htail, hm => by
    rw [Block.pruned] at htail
    cases hleap : command.isLeap && !inLoop with
    | true =>
      -- the walk passes over a stray leap, and there is no step for it
      rw [hleap, if_pos rfl] at htail
      have hrest := follows_block ht he hl h hr htimes time rest htail hm
      rw [Bool.and_eq_true, Bool.not_eq_true'] at hleap
      obtain ⟨hleap, rfl⟩ := hleap
      cases command with
      | breakLoop => rwa [Library.walk, if_neg Bool.false_ne_true]
      | continueLoop => rwa [Library.walk, if_neg Bool.false_ne_true]
      | _ => simp [Command.isLeap] at hleap
    | false =>
      rw [hleap, if_neg Bool.false_ne_true] at htail
      cases command with
      | action a => exact follows_action (ht ticks le_rfl) he hl h htail hm hr htimes time
      | ifElse branches otherwise =>
        have hchooses := chooses_ifElse (e := e) b.site position index (h.isPlain htail) rfl
        rw [Library.walk]
        exact (follows_choice ht he hl h htail rfl hchooses hm hr htimes time).widen _
      | switch subject cases default =>
        have hchooses := chooses_switch (e := e) b.site position index (h.isPlain htail) rfl
        rw [Library.walk]
        exact (follows_choice ht he hl h htail rfl hchooses hm hr htimes time).widen _
      | loop tester body =>
        have hfewer : ∀ n < ticks + 1, l.Tracks e n := fun n hn => ht n (Nat.le_of_lt_succ hn)
        exact follows_loop hfewer he hl h htail (.inl rfl) hm hr (congrArg (· + 1) htimes)
      | forEach source ref body => exact follows_forEach ht he hl h htail hm hr htimes time
      | breakLoop =>
        obtain rfl : inLoop = true := by simpa [Command.isLeap] using hleap
        exact follows_break he hl h htail hm hr htimes time
      | continueLoop =>
        obtain rfl : inLoop = true := by simpa [Command.isLeap] using hleap
        exact follows_continue he hl h htail hm hr htimes time
      | call event params => exact follows_call ht he hl h htail hm hr htimes time
      -- no other command is plain
      | _ => exact absurd (h.isPlain htail) (by simp [Command.pruned, Command.isPlain])

/-- **Steps track walks of any number of ticks.** -/
theorem tracks (he : e.Serves l) (hl : l.Lawful) (ticks : Nat) : l.Tracks e ticks := by
  induction ticks using Nat.strongRecOn with
  | ind ticks ih =>
    intro b inLoop block calls iterations m r times hbefore htimes
    obtain ⟨hspot, ⟨index, htail, hm⟩, hr⟩ := hbefore
    cases ticks with
    | zero => exact follows_out hm.running hr htimes
    | succ ticks =>
      obtain ⟨time, times, rfl⟩ := List.exists_cons_of_length_eq_add_one htimes
      have hfewer : ∀ n ≤ ticks, l.Tracks e n := fun n hn => ih n (Nat.lt_succ_of_le hn)
      exact follows_block hfewer he hl hspot hr (Nat.succ.inj htimes) time block htail hm

end Library

/-! ## Whole events -/

/-- A machine about to run an event. -/
def Machine.entering (name : String) (id : EventId) (ambient : Ambient) (w : World) : Machine :=
  ⟨.start id name (.root name) ambient, w⟩

/-- The machine has come to what a walk has come to: it runs if the walk is out
of ticks, it has finished if the walk has ended, and it agrees with the machine
that the walk has left. -/
def Machine.Meets (m : Machine) {ticks : Nat} : Walked ticks → Prop
  | .out r => m.context.state.isRunning ∧ m.Agrees r
  | .ended _ _ _ r => m.context.state.isFinished ∧ m.Agrees r

namespace Library

variable {l : Library} {e : Engine} {name : String} {d : EventDef}

/-- A machine that enters a plain event stands before the event's tree. -/
theorem IsPlain.before (h : l.IsPlain name) (hl : l.Lawful) (hd : l.get? name = some d)
    (id : EventId) (ambient : Ambient) (w : World) :
    l.Before (d.body l.environment) false (d.tree l.environment) [] [] (.entering name id ambient w)
      (.entering name id ambient w) := by
  have hkey : (d.body l.environment).key = .root name := congrArg BodyKey.root (hl.name_eq hd)
  have htail : (d.body l.environment).Tail 0 ((d.tree l.environment).pruned false) := by
    rw [d.pruned_tree]
    exact .whole
  refine ⟨⟨.event hd, ?_, rfl⟩, ⟨0, htail, rfl, ?_, rfl, rfl⟩, .refl _⟩
  · rw [hkey]
    exact h
  · rw [hkey]
    rfl

/-- An event that has come to its end, or was stopped, has finished after the
steps that are left. -/
theorem exists_pace_finished (he : e.Serves l) (hl : l.Lawful)
    (h : l.Spot (d.body l.environment) false) {exit : Exit} {m r : Machine}
    (hlands : exit.Lands (d.body l.environment) [] [] m.context) (hr : m.Agrees r)
    {times : List (Option Reading)} (hpositive : exit = .done → 0 < times.length) :
    ∃ x, Machine.pace e times m = some x ∧ x.context.state.isFinished ∧ x.Agrees r := by
  -- once finished, the machine stays as it is but for its clock
  have hstill : ∀ {m : Machine} (times : List (Option Reading)), m.context.state.isFinished →
      m.Agrees r → ∃ x, Machine.pace e times m = some x ∧ x.context.state.isFinished ∧
        x.Agrees r := by
    intro m times hfinished hr
    have hrunning : m.context.state.isRunning = false := by
      cases hstate : m.context.state with
      | running => rw [hstate] at hfinished; exact absurd hfinished (by decide)
      | _ => rfl
    obtain ⟨x, hx, hcontext, hagrees⟩ := Machine.exists_pace_of_not_running hrunning times
    exact ⟨x, hx, hcontext ▸ hfinished, hagrees r hr⟩
  rcases hlands.of_event with ⟨rfl, hended⟩ | ⟨rfl, hstopped⟩
  · obtain ⟨time, times, rfl⟩ := List.exists_cons_of_length_pos (hpositive rfl)
    obtain ⟨x, hx, hpoised, hpace⟩ :=
      Machine.exists_paced_now (h.step?_terminal he hl) hended hr time
    have hleave : Step.run e .leave x = (.flow .stop, x.steer x.context.finish) := by
      simp only [Step.run, Act.look_bind, hpoised.calls]
      rfl
    rw [hpace .stop _ hleave]
    exact hstill times rfl ⟨hx.id, hx.name, hx.attributes, hx.ambient, hx.world⟩
  · exact hstill times hstopped hr

/-- A plain event whose walk ends has finished after as many steps. -/
theorem IsPlain.advances_of_ended (h : l.IsPlain name) (he : e.Serves l) (hl : l.Lawful)
    (hd : l.get? name = some d) {id : EventId} {ambient : Ambient} {w : World}
    {readings : List Reading} {exit : Exit} {left : Nat} {r : Machine}
    (hwalk : (l.walk false (d.tree l.environment) (readings.length * e.stepBudget)
      (.entering name id ambient w)).end? = some (exit, left, r)) :
    ∃ m, (Machine.entering name id ambient w).advances e readings = some m ∧
      m.context.state.isFinished ∧ m.Agrees r := by
  have hbefore := h.before hl hd id ambient w
  have hbudget : 0 < e.stepBudget := by
    refine Nat.pos_of_ne_zero fun hzero => ?_
    rw [hzero, Nat.mul_zero, walk] at hwalk
    simp [Walked.end?] at hwalk
  have hfollows := tracks he hl _ hbefore (Machine.length_beats hbudget readings)
  revert hwalk hfollows
  cases l.walk false (d.tree l.environment) (readings.length * e.stepBudget)
    (.entering name id ambient w) with
  | out r => simp [Walked.end?]
  | ended exit left hleft r =>
    rintro ⟨⟩ ⟨times, x, hlength, hpositive, hresult, hlands, hr⟩
    obtain ⟨m, hm, hfinished, hagrees⟩ :=
      exists_pace_finished he hl hbefore.spot hlands hr fun hdone => hlength ▸ hpositive hdone
    exact ⟨m, Machine.advances_of_pace hbudget (hresult.trans hm), hfinished, hagrees⟩

/-- A plain event whose walk is out of ticks runs still after as many steps. -/
theorem IsPlain.advances_of_out (h : l.IsPlain name) (he : e.Serves l) (hl : l.Lawful)
    (hd : l.get? name = some d) {id : EventId} {ambient : Ambient} {w : World}
    {readings : List Reading} {r : Machine}
    (hwalk : l.walk false (d.tree l.environment) (readings.length * e.stepBudget)
      (.entering name id ambient w) = .out r) :
    ∃ m, (Machine.entering name id ambient w).advances e readings = some m ∧
      m.context.state.isRunning ∧ m.Agrees r := by
  have hbefore := h.before hl hd id ambient w
  rcases Nat.eq_zero_or_pos e.stepBudget with hbudget | hbudget
  · obtain ⟨m, hm, hcontext, hagrees⟩ :=
      Machine.exists_advances_of_no_budget hbudget readings (.entering name id ambient w)
    have hstill : r = .entering name id ambient w := by
      generalize hticks : readings.length * e.stepBudget = ticks at hwalk
      obtain rfl : 0 = ticks := by rw [← hticks, hbudget, Nat.mul_zero]
      rw [walk] at hwalk
      exact (Walked.out.inj hwalk).symm
    exact ⟨m, hm, hcontext ▸ rfl, hstill ▸ hagrees _ (.refl _)⟩
  · have hfollows := tracks he hl _ hbefore (Machine.length_beats hbudget readings)
    rw [hwalk] at hfollows
    obtain ⟨m, hm, hrunning, hr⟩ := hfollows
    exact ⟨m, Machine.advances_of_pace hbudget hm, hrunning, hr⟩

/-- **Lowering keeps the meaning of a plain event.** Let an engine serve a
library, with any budget of steps, and let an event and all that it calls be
plain. Enter it with any ambient in any world, and advance it any number of
times, whatever the clock shows. Then the machine comes to what a walk of the
event's tree comes to that is given as many ticks: it runs as long as the walk
is out of ticks, it has finished when the walk has ended, and it has the same
variables, objects, random state and parameters, and has made the same calls to
the host in the same order. -/
theorem IsPlain.advances_walk (h : l.IsPlain name) (he : e.Serves l) (hl : l.Lawful)
    (hd : l.get? name = some d) (id : EventId) (ambient : Ambient) (w : World)
    (readings : List Reading) :
    ∃ m, (Machine.entering name id ambient w).advances e readings = some m ∧
      m.Meets (l.walk false (d.tree l.environment) (readings.length * e.stepBudget)
        (.entering name id ambient w)) := by
  cases hwalk : l.walk false (d.tree l.environment) (readings.length * e.stepBudget)
    (.entering name id ambient w) with
  | out r => exact h.advances_of_out he hl hd hwalk
  | ended exit left hleft r =>
    exact h.advances_of_ended he hl hd (congrArg Walked.end? hwalk)

end Library

/-- An event that goes through a list of names. It passes over one of them, has
another event greet each, and leaves before the last. Then it leaves again,
where there is no loop to leave. -/
def Library.roster : Library :=
  let ofContext (key : String) : Json :=
    .object [("type", .string "local"), ("key", .string key)]
  let leap (name id : String) : Json := .object
    [("conditions", .array [.object
      [("type", .string "string"), ("variable", ofContext "name"),
       ("operation", .string "equal"), ("value", .string name)]]),
     ("commands", .array [.object [("id", .string id)]])]
  let names : Json := .array (["a", "b", "c", "d"].map fun name =>
    .object [("type", .string "string"), ("value", .string name)])
  let leaps : Instruction :=
    ⟨"if", .object [("branches", .array [leap "b" "continue", leap "d" "break"])]⟩
  let who : Json := .object [("type", .string "variable"), ("variable", ofContext "name")]
  let greet : Instruction :=
    ⟨"callEvent", .object [("event", .string "greet"), ("parameters", .object [("who", who)])]⟩
  let each : Instruction := ⟨"forEach", .object
    [("list", .object [("type", .string "variable"), ("variable", ofContext "names")]),
     ("variable", ofContext "name"), ("commands", .array [leaps.encode, greet.encode])]⟩
  let note : Instruction := ⟨"setString", .object
    [("variable", ofContext "who"),
     ("operand", .object [("type", .string "parameter"), ("key", .string "who")])]⟩
  let set : Instruction :=
    ⟨"setList", .object [("variable", ofContext "names"), ("values", names)]⟩
  let log : Instruction := ⟨"log", .object [("message", .string "\x7blocal:who\x7d")]⟩
  { events := .ofList
      [("main", ⟨"main", [set, each, ⟨"break", .null⟩], .empty⟩),
       ("greet", ⟨"greet", [note, log], .empty⟩)] }

/-- Both come to the end of the event, with the same greetings made. -/
theorem Library.IsPlain.advances_walk_roster :
    Engine.Serves (.ofLibrary .roster) .roster ∧ Library.roster.Lawful ∧
      Library.roster.IsPlain "main" ∧
      ∃ (d : EventDef) (m r : Machine) (exit : Exit) (left : Nat)
        (h : left ≤ [((0.0 : Float), 1)].length * (Engine.ofLibrary .roster).stepBudget),
        Library.roster.get? "main" = some d ∧
        (Machine.entering "main" ⟨1⟩ .none (.fresh 0)).advances (.ofLibrary .roster) [(0.0, 1)] =
          some m ∧
        Library.roster.walk false (d.tree Library.roster.environment)
          ([((0.0 : Float), 1)].length * (Engine.ofLibrary .roster).stepBudget)
          (.entering "main" ⟨1⟩ .none (.fresh 0)) = .ended exit left h r ∧
        m.context.state.isFinished ∧ m.Agrees r ∧ r.world.trace == [.log "c", .log "a"] := by
  have hl : Library.roster.Lawful := by decide +kernel
  have hplain : Library.roster.IsPlain "main" := Library.IsPlain.of_bodies (by decide +kernel) _
  have hget : (Library.roster.get? "main").isSome := by decide +kernel
  obtain ⟨d, hd⟩ := Option.isSome_iff_exists.1 hget
  obtain ⟨m, hm, hmeets⟩ :=
    hplain.advances_walk (.ofLibrary .roster) hl hd ⟨1⟩ .none (.fresh 0) [(0.0, 1)]
  have hran : ((Machine.entering "main" ⟨1⟩ .none (.fresh 0)).advances (.ofLibrary .roster)
      [(0.0, 1)]).any fun m =>
        m.context.state.isFinished && m.world.trace == [.log "c", .log "a"] := by
    decide +kernel
  rw [hm, Option.any_some, Bool.and_eq_true] at hran
  obtain ⟨hfinished, htrace⟩ := hran
  refine ⟨.ofLibrary .roster, hl, hplain, d, m, ?_⟩
  -- the machine has finished, so the walk has ended
  generalize Library.roster.walk false (d.tree Library.roster.environment) _ _ = w at hmeets ⊢
  cases w with
  | out r =>
    rw [RunState.isFinished_of_isRunning hmeets.1] at hfinished
    exact absurd hfinished (by decide)
  | ended exit left h r =>
    obtain ⟨-, hr⟩ := hmeets
    exact ⟨r, exit, left, h, hd, hm, rfl, hfinished, hr, by rw [hr.trace]; exact htrace⟩

end Cutscene
