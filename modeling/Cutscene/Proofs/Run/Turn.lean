import Cutscene.Proofs.Run.Ending
import Cutscene.Run.Advance
/-!
# Running — what a step can do

`Step.Turn` says once what a step can do to the context that runs it: where
control goes, what happens to the stacks of calls, returns and iterations,
and whether it goes on, stops or spawns. `Step.turns` is the inversion: every
step but a custom one is a row of effects followed by one turn, and on a
machine that is alike, with the same context, the same row and the same turn.
Invariants of contexts are case analyses of `Step.Turn` and never open
`Step.run`.
-/

namespace Cutscene

/-! ## Steps that do not look at the clock -/

def Step.isTimeless : Step → Bool
  | .action a => a.isTimeless
  | .branch arms _ => arms.all (·.1.isTimeless)
  | .select subject arms _ =>
    subject.isTimeless && arms.all (·.1.all ValueOperand.isTimeless)
  | .enterLoop tester _ => tester.isTimeless
  | .repeatLoop tester _ => tester.isTimeless
  | .enterEach source _ _ => source.isTimeless
  | .call _ params => areTimeless params
  | .callAsync _ params => areTimeless params
  | _ => true

/-- Is the step an action that creates objects? -/
def Step.isCreate : Step → Bool
  | .action a => a.isCreate
  | _ => false

/-- Is the step one of a custom instruction? -/
def Step.isCustom : Step → Bool
  | .custom .. => true
  | _ => false

/-! ## Turns -/

/-- The step may send control to the place and change nothing else. -/
def Step.Leads : Step → Place → Prop
  | .branch arms otherwise, p =>
    ∃ body, (body ∈ arms.map (·.2) ∨ otherwise = some body) ∧ p = ⟨body, 0⟩
  | .select _ arms otherwise, p =>
    ∃ body, (body ∈ arms.map (·.2) ∨ otherwise = some body) ∧ p = ⟨body, 0⟩
  | .enterLoop _ body, p => p = ⟨body, 0⟩
  | .repeatLoop _ exit, p => p = exit
  | .endPass terminal, p => p = terminal
  | .resume place, p => p = place
  | _, _ => False

/-- The step may go on at the next one and change nothing else. -/
def Step.mayStay : Step → Bool
  | .branch .. | .select .. | .enterLoop .. | .enterEach .. | .returnJump | .idle | .call ..
  | .callAsync .. => true
  | _ => false

/-- What a step can do to the context that runs it, whose variables are as
the step's effects have left them; `id` is the next number for a context. -/
inductive Step.Turn (e : Engine) (id : EventId) (c : Context) : Step → Outcome → Context → Prop
  | halt (a : Action) (halt : Option Halt) :
    Turn e id c (.action a) (.flow (Halt.flow halt)) (halt.elim c (Halt.apply c))
  | go {step : Step} {place : Place} (h : step.Leads place) :
    Turn e id c step (.flow .next) (c.goto place)
  | stay {step : Step} (h : step.mayStay) : Turn e id c step (.flow .next) c
  | openChoices (labels : List Template) (options : List String)
      (h : options.length = labels.length) :
    Turn e id c (.openChoices labels) (.flow .stop)
      ({ c with choice := none }.pause (.choice options))
  | chosen {bodies : List BodyKey} {body : BodyKey} (h : body ∈ bodies) :
    Turn e id c (.enterChoice bodies) (.flow .next) ({ c with choice := none }.goto ⟨body, 0⟩)
  | unchosen (bodies : List BodyKey) :
    Turn e id c (.enterChoice bodies) (.flow .next) { c with choice := none }
  | again (tester : Tester) (exit : Place) :
    Turn e id c (.repeatLoop tester exit) (.flow .next) { c with place.index := 0 }
  | iterate (source : ListSource) (ref : VariableRef) (body : BodyKey) (first : Value)
      (rest : List Value) :
    Turn e id c (.enterEach source ref body) (.flow .next)
      ({ c with iterations := ⟨(first :: rest).toArray, 0⟩ :: c.iterations }.goto ⟨body, 0⟩)
  | nextItem (ref : VariableRef) (exit : Place) {current : Iteration} {outer : List Iteration}
      (hc : c.iterations = current :: outer) (hnext : current.next.current?.isSome) :
    Turn e id c (.nextItem ref exit) (.flow .next)
      { c with iterations := current.next :: outer, place.index := 0 }
  | noItem (ref : VariableRef) (exit : Place) :
    Turn e id c (.nextItem ref exit) (.flow .next)
      ({ c with iterations := c.iterations.tail }.goto exit)
  | leaveLoop (each : Bool) (exit : Place) :
    Turn e id c (.leaveLoop each exit) (.flow .next)
      ({ c with iterations := if each then c.iterations.tail else c.iterations }.goto exit)
  | jump (target : Place) (drop : Nat) :
    Turn e id c (.jump target drop) (.flow .next)
      ({ c with iterations := c.iterations.drop drop }.goto target)
  | saveJump (target : Place) :
    Turn e id c (.saveJump target) (.flow .next)
      ({ c with returns := c.place :: c.returns }.goto target)
  | returnJump {place : Place} {outer : List Place} (hc : c.returns = place :: outer) :
    Turn e id c .returnJump (.flow .next) ({ c with returns := outer }.goto place)
  | spawn (body : BodyKey) :
    Turn e id c (.spawn body) (.spawn (.start id c.name body c.ambient)) c
  | call {event : String} {callee : Compiled} (params : Table String ValueOperand)
      (h : e.event? event = some callee) (vars : Attributes) :
    Turn e id c (.call event params) (.flow .next)
      ({ c with
        calls := ⟨c.place, c.ambient.parameters⟩ :: c.calls
        ambient.parameters := vars }.goto ⟨.root event, 0⟩)
  | callAsync {event : String} {callee : Compiled} (params : Table String ValueOperand)
      (h : e.event? event = some callee) (vars : Attributes) :
    Turn e id c (.callAsync event params)
      (.spawn (.start id event (.root event) { c.ambient with parameters := vars })) c
  | finish (hc : c.calls = []) : Turn e id c .leave (.flow .stop) c.finish
  | leave {frame : CallFrame} {outer : List CallFrame} (hc : c.calls = frame :: outer) :
    Turn e id c .leave (.flow .next)
      ({ c with calls := outer, ambient.parameters := frame.parameters }.goto frame.place)

/-- The world after a step: one that spawns has handed out a number. -/
def Outcome.world (w : World) : Outcome → World
  | .flow _ => w
  | .spawn _ => w.allocate.2

/-! ## Effects and control -/

namespace Machine

/-- The machine with its context somewhere else. -/
def steer (m : Machine) (c : Context) : Machine := { m with context := c }

theorem world_apply_congr {m m' : Machine} (h : m.world = m'.world) (x : Effect) :
    (x.apply m).world = (x.apply m').world := by
  cases x with
  | selfVars id vars =>
    simp only [Effect.apply, h]
    cases m'.world.objects.get? id with
    | none => exact h
    | some o => rfl
  | _ => simp only [Effect.apply, destroyObject, h]

theorem attributes_apply_congr {m m' : Machine}
    (h : m.context.attributes = m'.context.attributes) (x : Effect) :
    (x.apply m).context.attributes = (x.apply m').context.attributes := by
  cases x with
  | locals vars => rfl
  | selfVars id vars =>
    simp only [Effect.apply]
    split <;> split <;> exact h
  | _ => exact h

/-- **Effects do not depend on where control stands.** -/
theorem after_congr {m m' : Machine} (hw : m.world = m'.world)
    (ha : m.context.attributes = m'.context.attributes) (es : List Effect) :
    (m.after es).world = (m'.after es).world ∧
      (m.after es).context.attributes = (m'.after es).context.attributes := by
  induction es generalizing m m' with
  | nil => exact ⟨hw, ha⟩
  | cons x es ih => exact ih (world_apply_congr hw x) (attributes_apply_congr ha x)

/-- Effects on a machine that was steered, from those on the machine itself. -/
theorem after_steer (m : Machine) {c : Context} (ha : m.context.attributes = c.attributes)
    (es : List Effect) :
    (m.steer c).after es =
      (m.after es).steer { c with attributes := (m.after es).context.attributes } := by
  obtain ⟨hw, hattrs⟩ := after_congr (show m.world = (m.steer c).world from rfl) ha es
  have hc := (m.steer c).context_after es
  rw [← hattrs] at hc
  cases hm : (m.steer c).after es with
  | mk context world =>
    rw [hm] at hw hc
    simp only at hw hc
    rw [steer, hw, hc]
    rfl

end Machine

namespace Machine.Alike

variable {m m' : Machine}

theorem context_after (h : m.Alike m') (hc : m'.context = m.context) (es : List Effect) :
    (m'.after es).context = (m.after es).context := by
  rw [Machine.context_after m, Machine.context_after m', hc, (h.after es).attributes]

end Machine.Alike

/-! ## The inversion -/

/-- From every machine the computation is a row of effects followed by a turn
of the step; on a machine that is alike, with the same context, the same. -/
def Act.Turns (timeless rootless : Prop) (e : Engine) (step : Step) (act : Act Outcome) : Prop :=
  ∀ m, ∃ es o c, (∀ x ∈ es, x.Fits rootless m.context.ambient.owner) ∧
    step.Turn e ⟨m.world.nextEventId⟩ (m.after es).context o c ∧
    act m = (o, ⟨c, o.world (m.after es).world⟩) ∧
    (timeless → ∀ m', m.Alike m' → m'.context = m.context →
      m'.world.nextEventId = m.world.nextEventId →
      act m' = (o, ⟨c, o.world (m'.after es).world⟩))

namespace Act

variable {α : Type} {timeless rootless : Prop} {e : Engine} {step : Step}

/-- What follows a traced computation need only turn for results that it has. -/
theorem Traced.turns_of {act : Act α} {rest : α → Act Outcome} (h : Traced timeless rootless act)
    (p : α → Prop) (hp : ∀ m, p (act m).1)
    (hrest : ∀ a, p a → Turns timeless rootless e step (rest a)) :
    Turns timeless rootless e step (act >>= rest) := by
  intro m
  obtain ⟨es, hfits, hact, hsame⟩ := h m
  obtain ⟨es', o, c, hfits', hturn, hrun, hsame'⟩ := hrest (act m).1 (hp m) (m.after es)
  rw [m.ambient_after] at hfits'
  -- effects take no number, so the rest starts from the number that the whole does
  rw [(m.world_after es).2.1] at hturn
  refine ⟨es ++ es', o, c, List.forall_mem_append.2 ⟨hfits, hfits'⟩, ?_, ?_,
    fun ht m' hm hc hid => ?_⟩
  · rw [Machine.after_append]
    exact hturn
  · show rest (act m).1 (act m).2 = _
    rw [hact, hrun, Machine.after_append]
  · show rest (act m').1 (act m').2 = _
    rw [hsame ht m' hm, Machine.after_append]
    refine hsame' ht _ (hm.after es) (hm.context_after hc es) ?_
    rw [(m'.world_after es).2.1, (m.world_after es).2.1, hid]

theorem Traced.turns {act : Act α} {rest : α → Act Outcome} (h : Traced timeless rootless act)
    (hrest : ∀ a, Turns timeless rootless e step (rest a)) :
    Turns timeless rootless e step (act >>= rest) :=
  h.turns_of (fun _ => True) (fun _ => trivial) fun a _ => hrest a

/-- A turn without effects, which the context and the next number decide. -/
theorem turns_now {act : Act Outcome} (o : EventId → Context → Outcome) (f : Context → Context)
    (h : ∀ m, act m = (o ⟨m.world.nextEventId⟩ m.context,
      ⟨f m.context, (o ⟨m.world.nextEventId⟩ m.context).world m.world⟩))
    (hturn : ∀ id c, step.Turn e id c (o id c) (f c)) :
    Turns timeless rootless e step act := fun m =>
  ⟨[], _, _, fun _ hx => by simp at hx, hturn _ _, h m, fun _ m' _ hc hid => by
    rw [h m', hc, hid]
    rfl⟩

theorem turns_enter {body : BodyKey} (h : step.Leads ⟨body, 0⟩) :
    Turns timeless rootless e step (enter body) :=
  turns_now (fun _ _ => .flow .next) (·.goto ⟨body, 0⟩) (fun _ => rfl) fun _ _ => .go h

theorem turns_goto {place : Place} (h : step.Leads place) :
    Turns timeless rootless e step (goto place) :=
  turns_now (fun _ _ => .flow .next) (·.goto place) (fun _ => rfl) fun _ _ => .go h

theorem turns_goOn (h : step.mayStay) : Turns timeless rootless e step goOn :=
  turns_now (fun _ _ => .flow .next) id (fun _ => rfl) fun _ _ => .stay h

theorem turns_enterOptional {body : Option BodyKey} (hstay : step.mayStay)
    (h : ∀ b, body = some b → step.Leads ⟨b, 0⟩) :
    Turns timeless rootless e step (enterOptional body) := by
  cases body with
  | none => exact turns_goOn hstay
  | some b => exact turns_enter (h b rfl)

theorem turns_enterBranch {otherwise : Option BodyKey} (hstay : step.mayStay)
    (hotherwise : ∀ b, otherwise = some b → step.Leads ⟨b, 0⟩) :
    (arms : List (Tester × BodyKey)) → (∀ arm ∈ arms, step.Leads ⟨arm.2, 0⟩) →
      (timeless → arms.all (·.1.isTimeless)) →
      Turns timeless rootless e step (enterBranch otherwise arms)
  | [], _, _ => turns_enterOptional hstay hotherwise
  | (tester, body) :: arms, h, ht => by
    simp only [List.all_cons, Bool.and_eq_true] at ht
    refine (tester.traced fun h => (ht h).1).turns fun b => ?_
    cases b with
    | true => exact turns_enter (h _ List.mem_cons_self)
    | false =>
      exact turns_enterBranch hstay hotherwise arms
        (fun arm harm => h arm (List.mem_cons_of_mem _ harm)) fun h => (ht h).2

theorem traced_anyEqual (subject : Option Value) : (candidates : List ValueOperand) →
    (timeless → candidates.all ValueOperand.isTimeless) →
      Traced timeless rootless (anyEqual subject candidates)
  | [], _ => traced_pure _
  | candidate :: candidates, ht => by
    simp only [List.all_cons, Bool.and_eq_true] at ht
    refine (traced_draw fun h _ _ hm => hm.valueOperand (ht h).1).bind fun v => ?_
    split
    · exact traced_pure _
    · exact traced_anyEqual subject candidates fun h => (ht h).2

theorem turns_enterCase {otherwise : Option BodyKey} (subject : Option Value)
    (hstay : step.mayStay) (hotherwise : ∀ b, otherwise = some b → step.Leads ⟨b, 0⟩) :
    (arms : List (List ValueOperand × BodyKey)) → (∀ arm ∈ arms, step.Leads ⟨arm.2, 0⟩) →
      (timeless → arms.all (·.1.all ValueOperand.isTimeless)) →
      Turns timeless rootless e step (enterCase subject otherwise arms)
  | [], _, _ => turns_enterOptional hstay hotherwise
  | (candidates, body) :: arms, h, ht => by
    simp only [List.all_cons, Bool.and_eq_true] at ht
    refine (traced_anyEqual subject candidates fun h => (ht h).1).turns fun b => ?_
    cases b with
    | true => exact turns_enter (h _ List.mem_cons_self)
    | false =>
      exact turns_enterCase subject hstay hotherwise arms
        (fun arm harm => h arm (List.mem_cons_of_mem _ harm)) fun h => (ht h).2

theorem Ends.turns {a : Action} {act : Act Flow} (h : Ends timeless rootless act) :
    Turns timeless rootless e (.action a) (do pure (.flow (← act))) := by
  intro m
  obtain ⟨es, halt, hfits, hrun, hsame⟩ := h m
  have hhalt : ∀ m : Machine, m.halted halt =
      ⟨halt.elim m.context (Halt.apply m.context), m.world⟩ := by
    intro m
    cases halt <;> rfl
  refine ⟨es, _, _, hfits, .halt a halt, ?_, fun ht m' hm hc _ => ?_⟩
  · show (Outcome.flow (act m).1, (act m).2) = _
    rw [hrun, hhalt]
    rfl
  · show (Outcome.flow (act m').1, (act m').2) = _
    rw [hsame ht m' hm, hhalt, hm.context_after hc es]
    rfl

end Act

/-- The machine with the random generator in another state. -/
def Machine.rolled (m : Machine) (random : Random) : Machine := { m with world.random := random }

theorem Act.draw_bind {α β : Type} (operand : Machine → Draw α) (rest : α → Act β) (m : Machine) :
    (draw operand >>= rest) m =
      rest (operand m m.world.random).1 (m.rolled (operand m m.world.random).2) := rfl

theorem Act.look_bind {α β : Type} (f : Machine → α) (rest : α → Act β) (m : Machine) :
    (look f >>= rest) m = rest (f m) m := rfl

section NextItem

variable {e : Engine} {ref : VariableRef} {exit : Place}

theorem Step.run_nextItem_none {m : Machine}
    (h : ∀ current ∈ m.context.iterations.head?, current.next.current? = none) :
    Step.run e (.nextItem ref exit) m =
      (.flow .next,
        ⟨{ m.context with iterations := m.context.iterations.tail }.goto exit, m.world⟩) := by
  obtain ⟨c, w⟩ := m
  simp only [Step.run, Act.look_bind]
  cases hi : c.iterations with
  | nil =>
    have hc : { c with iterations := [].tail } = c := by rw [List.tail_nil, ← hi]
    simp only [hc]
    rfl
  | cons current outer =>
    have hnext : current.next.current? = none := h current (by simp [hi])
    simp only [hnext]
    rfl

theorem Step.run_nextItem_some {m : Machine} {current : Iteration} {outer : List Iteration}
    {item : Value} (hi : m.context.iterations = current :: outer)
    (hnext : current.next.current? = some item) :
    let es := m.changeEffects (fun key vars => vars.insert key item) ref
    Step.run e (.nextItem ref exit) m =
      (.flow .next,
        ⟨{ (m.after es).context with iterations := current.next :: outer, place.index := 0 },
          (m.after es).world⟩) := by
  intro es
  have hsteered : (m.steer { m.context with iterations := current.next :: outer }).write ref item =
      (m.after es).steer
        { (m.after es).context with iterations := current.next :: outer } := by
    -- what is written does not depend on the iterations, which are moved first
    have halike : m.Alike (m.steer { m.context with iterations := current.next :: outer }) :=
      ⟨rfl, rfl, rfl, rfl, rfl, rfl, rfl, rfl⟩
    rw [Machine.write, Machine.modifyAt_eq, ← halike.changeEffects]
    refine (m.after_steer (by rfl) es).trans ?_
    rw [Machine.context_after m es]
  have hrun : Step.run e (.nextItem ref exit) m = (.flow .next,
      ((m.steer { m.context with iterations := current.next :: outer }).write ref item).steer
        { ((m.steer { m.context with iterations := current.next :: outer }).write ref
          item).context with place.index := 0 }) := by
    simp only [Step.run, Act.look_bind, hi, hnext]
    rfl
  rw [hrun, hsteered]
  rfl

theorem turns_nextItem {timeless rootless : Prop} :
    Act.Turns timeless rootless e (.nextItem ref exit) (Step.run e (.nextItem ref exit)) := by
  intro m
  -- without an iteration under way the step goes on as after a last item
  have hleft : (∀ current ∈ m.context.iterations.head?, current.next.current? = none) ∨
      ∃ current outer item, m.context.iterations = current :: outer ∧
        current.next.current? = some item := by
    cases hi : m.context.iterations with
    | nil => exact .inl fun _ h => by simp at h
    | cons current outer =>
      cases hnext : current.next.current? with
      | none => exact .inl fun _ h => by simpa [← Option.some.inj h] using hnext
      | some item => exact .inr ⟨current, outer, item, rfl, hnext⟩
  rcases hleft with h | ⟨current, outer, item, hi, hnext⟩
  · refine ⟨[], _, _, fun _ hx => by simp at hx, .noItem ref exit, Step.run_nextItem_none h,
      fun _ m' _ hc _ => ?_⟩
    rw [Step.run_nextItem_none (by rw [hc]; exact h), hc]
    rfl
  · refine ⟨_, _, _, m.fits_changeEffects _ ref, ?_,
      Step.run_nextItem_some hi hnext, fun _ m' hm hc _ => ?_⟩
    · have hc : (m.after (m.changeEffects (fun key vars => vars.insert key item)
          ref)).context.iterations = current :: outer := by
        rw [Machine.context_after, hi]
      exact .nextItem ref exit hc (by rw [hnext]; rfl)
    · rw [Step.run_nextItem_some (by rw [hc]; exact hi) hnext, ← hm.changeEffects,
        hm.context_after hc]
      rfl

end NextItem

open Act in
/-- **Every step but a custom one is a row of effects followed by a turn.** -/
theorem Step.turns {timeless rootless : Prop} {e : Engine} (step : Step)
    (hcustom : step.isCustom = false) (ht : timeless → step.isTimeless)
    (hr : rootless → step.isCreate = false) :
    Turns timeless rootless e step (step.run e) := by
  cases step with
  | custom id arguments => simp [Step.isCustom] at hcustom
  | action a => exact (a.ends e.deferred ht hr).turns
  | branch arms otherwise =>
    have hleads : ∀ b, b ∈ arms.map (·.2) ∨ otherwise = some b →
        Step.Leads (.branch arms otherwise) ⟨b, 0⟩ := fun b hb => ⟨b, hb, rfl⟩
    exact turns_enterBranch rfl (fun b hb => hleads b (.inr hb)) arms
      (fun arm harm => hleads arm.2 (.inl (List.mem_map_of_mem harm))) ht
  | select subject arms otherwise =>
    simp only [Step.isTimeless, Bool.and_eq_true] at ht
    refine (traced_draw fun h _ _ hm => hm.valueOperand (ht h).1).turns fun v => ?_
    have hleads : ∀ b, b ∈ arms.map (·.2) ∨ otherwise = some b →
        Step.Leads (.select subject arms otherwise) ⟨b, 0⟩ := fun b hb => ⟨b, hb, rfl⟩
    exact turns_enterCase v rfl (fun b hb => hleads b (.inr hb)) arms
      (fun arm harm => hleads arm.2 (.inl (List.mem_map_of_mem harm))) fun h => (ht h).2
  | openChoices labels =>
    refine (traced_look fun _ m m' hm => ?_).turns_of
      (fun options => options.length = labels.length) (fun m => ?_) fun options hlength => ?_
    · exact List.map_congr_left fun label _ => hm.render label
    · exact List.length_map _
    · exact fun m => ⟨[.call (.showChoices options)], _, _,
        fun x hx => by rw [List.mem_singleton.1 hx]; trivial,
        .openChoices labels options hlength, rfl,
        fun _ ⟨c', w'⟩ _ hc _ => by
          obtain rfl : c' = m.context := hc
          rfl⟩
  | enterChoice bodies =>
    -- a choice that names no body is forgotten all the same
    refine turns_now (fun _ _ => .flow .next) (fun c =>
      (c.choice.bind fun index => bodies[index]?).elim { c with choice := none }
        fun body => { c with choice := none }.goto ⟨body, 0⟩) (fun m => ?_) fun id c => ?_
    · show enterOptional (m.context.choice.bind fun index => bodies[index]?) _ = _
      cases m.context.choice.bind fun index => bodies[index]? <;> rfl
    · cases hbody : c.choice.bind fun index => bodies[index]? with
      | none => exact .unchosen bodies
      | some body =>
        obtain ⟨index, -, hindex⟩ := Option.bind_eq_some_iff.1 hbody
        exact .chosen (List.mem_of_getElem? hindex)
  | enterLoop tester body =>
    refine (tester.traced ht).turns fun b => ?_
    cases b with
    | true => exact turns_enter rfl
    | false => exact turns_goOn rfl
  | repeatLoop tester exit =>
    refine (tester.traced ht).turns fun b => ?_
    cases b with
    | true =>
      exact turns_now (fun _ _ => .flow .next) (fun c => { c with place.index := 0 })
        (fun _ => rfl) fun _ _ => .again tester exit
    | false => exact turns_goto rfl
  | enterEach source ref body =>
    -- drawing the list and writing its first item are effects; the turn only enters
    refine (traced_draw fun h _ _ hm => hm.listSource (ht h)).turns fun items => ?_
    cases items with
    | nil => exact turns_goOn rfl
    | cons first rest =>
      refine (traced_write ref (fun _ => first) fun _ _ _ _ => rfl).turns fun _ => ?_
      exact turns_now (fun _ _ => .flow .next)
        (fun c => { c with iterations := ⟨(first :: rest).toArray, 0⟩ :: c.iterations }.goto
          ⟨body, 0⟩) (fun _ => rfl) fun _ _ => .iterate source ref body first rest
  | nextItem ref exit => exact turns_nextItem
  | leaveLoop each exit =>
    refine turns_now (fun _ _ => .flow .next) (fun c =>
      { c with iterations := if each then c.iterations.tail else c.iterations }.goto exit)
      (fun m => ?_) fun _ _ => .leaveLoop each exit
    cases each <;> rfl
  | endPass terminal => exact turns_goto rfl
  | resume place => exact turns_goto rfl
  | jump target drop =>
    exact turns_now (fun _ _ => .flow .next)
      (fun c => { c with iterations := c.iterations.drop drop }.goto target) (fun _ => rfl)
      fun _ _ => .jump target drop
  | saveJump target =>
    exact turns_now (fun _ _ => .flow .next)
      (fun c => { c with returns := c.place :: c.returns }.goto target) (fun _ => rfl)
      fun _ _ => .saveJump target
  | returnJump =>
    refine turns_now (fun _ _ => .flow .next) (fun c =>
      c.returns.head?.elim c fun place => { c with returns := c.returns.tail }.goto place)
      (fun m => ?_) fun id c => ?_
    · simp only [Step.run, look_bind]
      cases m.context.returns <;> rfl
    · cases hc : c.returns with
      | nil => exact .stay rfl
      | cons place outer => exact .returnJump hc
  | idle => exact turns_goOn rfl
  | spawn body =>
    exact turns_now (fun id c => .spawn (.start id c.name body c.ambient)) id (fun _ => rfl)
      fun _ _ => .spawn body
  | call event params =>
    simp only [Step.run]
    split
    -- an event that the engine does not know is passed over
    · exact turns_goOn rfl
    · rename_i callee hcallee
      refine (traced_draw fun h _ _ hm => by rw [hm.supply (ht h), hm.ambient]).turns
        fun supplied => ?_
      exact turns_now (fun _ _ => .flow .next)
        (fun c => { c with
          calls := ⟨c.place, c.ambient.parameters⟩ :: c.calls
          ambient.parameters := supplied.fill callee.parameters }.goto ⟨.root event, 0⟩)
        (fun _ => rfl) fun _ _ => .call params hcallee _
  | callAsync event params =>
    simp only [Step.run]
    split
    · exact turns_goOn rfl
    · rename_i callee hcallee
      refine (traced_draw fun h _ _ hm => by rw [hm.supply (ht h), hm.ambient]).turns
        fun supplied => ?_
      exact turns_now (fun id c => .spawn (.start id event (.root event)
        { c.ambient with parameters := supplied.fill callee.parameters })) id (fun _ => rfl)
        fun _ _ => .callAsync params hcallee _
  | leave =>
    refine turns_now (fun _ c => .flow (if c.calls = [] then .stop else .next)) (fun c =>
      c.calls.head?.elim c.finish fun frame =>
        { c with calls := c.calls.tail, ambient.parameters := frame.parameters }.goto frame.place)
      (fun m => ?_) fun id c => ?_
    · simp only [Step.run, look_bind]
      cases m.context.calls <;> rfl
    · cases hc : c.calls with
      | nil => exact .finish hc
      | cons frame outer => exact .leave hc

/-! ## One step of many -/

/-- The machine at the next step, which is where a step that is not bound late
finds it. -/
def Machine.onward (m : Machine) : Machine :=
  { m with context := m.context.goto (m.context.place.plus 1) }

/-- A step that spawns nothing is run, and what follows goes on from there. -/
theorem Machine.steps_of_run {e : Engine} {m m' : Machine} {step : Step} {flow : Flow}
    (running : m.context.state.isRunning) (here : e.step? m.context.place = some step)
    (run : step.run e (m.past step) = (.flow flow, m')) (spawn : Machine → Option Machine)
    (budget : Nat) : steps e spawn (budget + 1) m = steps e spawn budget (m'.settle flow) := by
  rw [steps, running, here]
  simp only [Bool.not_true, Bool.false_eq_true, if_false, run]

/-! ## Custom handlers -/

/-- The engine of a library, with a handler of the custom instruction. -/
def Engine.handling (l : Library) (h : Handler) : Engine :=
  { Engine.ofLibrary l with handlers := .ofList [("custom", h)] }

theorem Engine.eq_of_handling {l : Library} {h handler : Handler} {id : String}
    (hhandler : (Engine.handling l h).handlers.get? id = some handler) : handler = h := by
  obtain ⟨-, rfl⟩ : id = "custom" ∧ handler = h := by
    simpa using Table.mem_of_get?_ofList hhandler
  rfl

/-- A custom instruction that the host is told of. -/
def Handler.tells : Handler := fun _ m =>
  (.next, { m with world := m.world.call (.log "custom") })

/-- A custom instruction that spawns two contexts on an event, one that has ended
and one that is paused. -/
def Handler.posts (event : String) : Handler := fun _ m =>
  let (_, world) := m.world.allocate
  let (id, world) := world.allocate
  let post := (Context.start id event (.root event) m.context.ambient).pause .signal
  (.next, { m with world := world.adopt post })

end Cutscene
