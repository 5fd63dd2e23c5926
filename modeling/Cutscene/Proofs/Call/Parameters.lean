import Cutscene.Proofs.Call.Life
/-!
# Calls — parameters come back

A call keeps its caller's parameters and the return gives them back, so the
outermost of them are those the context was created with
(`Context.outermost`). Where an event does not call itself, a context that was
created for it stands outside all calls whenever it is in the event again
(`Context.Home`), so its parameters are then the ones it was created with
(`Scheduler.Reachable.parameters_of_life`).

There is one way round this: a jump kept by the caller and returned from in a
callee (`Context.Strays`) goes back to the caller without ending the call, so
the callee's parameters stay (`Scheduler.Reachable.exists_strayed`).
-/

namespace Cutscene

/-! ## Calls between events -/

/-- The event that the step calls and waits for. -/
def Step.callee? : Step → Option String
  | .call event _ => some event
  | _ => none

/-- Does the step return from a jump? -/
def Step.isReturnJump : Step → Bool
  | .returnJump => true
  | _ => false

/-- A program of the first event calls the second. -/
def Library.Calls (l : Library) (caller callee : String) : Prop :=
  ∃ b, l.Holds b ∧ b.key.event = caller ∧
    ∃ step ∈ b.program.steps.toList, step.callee? = some callee

/-- Where one event alone calls, and another alone is called, none calls
itself. -/
theorem Library.not_transGen_calls {l : Library} (caller callee : String) (hne : caller ≠ callee)
    (h : ∀ b ∈ l.bodies, ∀ step ∈ b.program.steps.toList, ∀ called ∈ step.callee?,
      b.key.event = caller ∧ called = callee) (event : String) :
    ¬ Relation.TransGen l.Calls event event := by
  have hcalls : ∀ {x y : String}, l.Calls x y → x = caller ∧ y = callee := by
    rintro x y ⟨b, hb, rfl, step, hstep, hcalled⟩
    exact h b (Library.holds_iff.1 hb) step hstep y hcalled
  intro hself
  obtain ⟨next, hfirst, -⟩ := Relation.TransGen.head'_iff.1 hself
  obtain ⟨last, -, hlast⟩ := Relation.TransGen.tail'_iff.1 hself
  exact hne ((hcalls hfirst).1.symm.trans (hcalls hlast).2)

/-- The handler leaves the parameters of its context as they are, unless it
finishes that. -/
def Handler.KeepsParameters (h : Handler) : Prop :=
  ∀ arguments m, (h arguments m).2.context.state.isFinished = false →
    (h arguments m).2.context.ambient.parameters = m.context.ambient.parameters

/-- All custom handlers leave parameters as they are. -/
def Engine.KeepsParameters (e : Engine) : Prop :=
  ∀ id handler, e.handlers.get? id = some handler → handler.KeepsParameters

theorem Engine.keepsParameters_tells (l : Library) :
    (Engine.handling l .tells).KeepsParameters := by
  intro id handler hhandler arguments m hfinished
  obtain rfl := Engine.eq_of_handling hhandler
  rfl

/-! ## Contexts -/

/-- The context is about to return from a jump inside a call, to a place of the
event that it was created for. -/
def Context.Strays (e : Engine) (c : Context) : Prop :=
  c.state.isRunning ∧ e.step? c.place = some .returnJump ∧ c.calls ≠ [] ∧
    ∃ place ∈ c.returns.head?, place.program.event = c.root.event

/-- The parameters of the context outside all calls. -/
def Context.outermost (c : Context) : Attributes :=
  (c.calls.getLast?.map (·.parameters)).getD c.ambient.parameters

/-- The places of a context belong to events that its own reaches by calls;
inside a call it is in none of its own event's, and only the outermost call
returns there. Its outermost parameters are the given ones. -/
structure Context.Home (l : Library) (parameters : Attributes) (c : Context) : Prop where
  place : Relation.ReflTransGen l.Calls c.root.event c.place.program.event
  calls : ∀ frame ∈ c.calls, Relation.ReflTransGen l.Calls c.root.event frame.place.program.event
  returns : ∀ p ∈ c.returns, Relation.ReflTransGen l.Calls c.root.event p.program.event
  away : c.calls ≠ [] → c.place.program.event ≠ c.root.event
  inner : ∀ frame ∈ c.calls.dropLast, frame.place.program.event ≠ c.root.event
  outermost : c.outermost = parameters

namespace Context.Home

variable {e : Engine} {l : Library} {parameters : Attributes} {c c' : Context}

theorem of_isNew (h : c.IsNew) : c.Home l c.ambient.parameters := by
  obtain ⟨id, name, root, ambient, rfl⟩ := h
  exact ⟨.refl, by simp [start], by simp [start], by simp [start], by simp [start], rfl⟩

/-- Back in its own event, the context has the parameters. -/
theorem parameters_eq (h : c.Home l parameters) (hevent : c.place.program.event = c.root.event) :
    c.ambient.parameters = parameters := by
  have hcalls : c.calls = [] := by
    by_contra hne
    exact h.away hne hevent
  have houtermost := h.outermost
  rw [Context.outermost, hcalls] at houtermost
  exact houtermost

/-- A context that only goes elsewhere in the same event stays at home. -/
theorem within (h : c.Home l parameters) (hroot : c'.root = c.root)
    (hevent : c'.place.program.event = c.place.program.event) (hcalls : c'.calls = c.calls)
    (hreturns : c'.returns = c.returns)
    (hparameters : c'.ambient.parameters = c.ambient.parameters) : c'.Home l parameters where
  place := by
    rw [hroot, hevent]
    exact h.place
  calls := by
    rw [hroot, hcalls]
    exact h.calls
  returns := by
    rw [hroot, hreturns]
    exact h.returns
  away := by
    rw [hroot, hevent, hcalls]
    exact h.away
  inner := by
    rw [hroot, hcalls]
    exact h.inner
  outermost := by
    rw [Context.outermost, hcalls, hparameters]
    exact h.outermost

/-- Saving a place of the same event to return to. -/
theorem saving (h : c.Home l parameters) {target : Place} {vars : Attributes}
    (hevent : target.program.event = c.place.program.event) :
    Context.Home l parameters
      { c with attributes := vars, place := target, returns := c.place.plus 1 :: c.returns } where
  place := by
    show Relation.ReflTransGen l.Calls c.root.event target.program.event
    rw [hevent]
    exact h.place
  calls := h.calls
  returns := List.forall_mem_cons.2 ⟨h.place, h.returns⟩
  away := by
    show c.calls ≠ [] → target.program.event ≠ c.root.event
    rw [hevent]
    exact h.away
  inner := h.inner
  outermost := h.outermost

/-- Going back to a place saved, which inside a call is none of its own
event's. -/
theorem returning (h : c.Home l parameters) {place : Place} {outer : List Place}
    {vars : Attributes} (hreturns : c.returns = place :: outer)
    (haway : c.calls ≠ [] → place.program.event ≠ c.root.event) :
    Context.Home l parameters { c with attributes := vars, place, returns := outer } := by
  have hsaved := h.returns
  rw [hreturns] at hsaved
  obtain ⟨hplace, houter⟩ := List.forall_mem_cons.1 hsaved
  exact ⟨hplace, h.calls, houter, haway, h.inner, h.outermost⟩

/-- Calling another event. The call is the outermost only if the context stood
outside all calls, with the outermost parameters. -/
theorem calling (h : c.Home l parameters) {event : String} {vars supplied : Attributes}
    (hcalls : l.Calls c.place.program.event event)
    (hself : ¬ Relation.TransGen l.Calls c.root.event c.root.event) :
    Context.Home l parameters
      { c with
        attributes := vars
        place := ⟨.root event, 0⟩
        calls := ⟨c.place.plus 1, c.ambient.parameters⟩ :: c.calls
        ambient.parameters := supplied } := by
  -- the event called is reached from the own one, so it is another
  have hreach : Relation.TransGen l.Calls c.root.event event := .tail' h.place hcalls
  refine ⟨hreach.to_reflTransGen, List.forall_mem_cons.2 ⟨h.place, h.calls⟩, h.returns, ?_, ?_, ?_⟩
  · rintro - (rfl : event = c.root.event)
    exact hself hreach
  · cases hc : c.calls with
    | nil => simp
    | cons frame outer =>
      have hinner := h.inner
      rw [hc] at hinner
      rw [List.dropLast_cons_cons]
      exact List.forall_mem_cons.2 ⟨h.away (by simp [hc]), hinner⟩
  · have houtermost := h.outermost
    rw [Context.outermost] at houtermost ⊢
    cases hc : c.calls with
    | nil => simpa [hc] using houtermost
    | cons frame outer => simpa [hc, List.getLast?_cons] using houtermost

/-- Ending a call. Only the outermost one leads back to the own event, and it
has kept the outermost parameters. -/
theorem leaving (h : c.Home l parameters) {frame : CallFrame} {outer : List CallFrame}
    {vars : Attributes} (hcalls : c.calls = frame :: outer) :
    Context.Home l parameters
      { c with
        attributes := vars
        place := frame.place
        calls := outer
        ambient.parameters := frame.parameters } := by
  have hreach := h.calls
  have hinner := h.inner
  have houtermost := h.outermost
  rw [hcalls] at hreach hinner
  rw [Context.outermost, hcalls] at houtermost
  obtain ⟨hframe, houter⟩ := List.forall_mem_cons.1 hreach
  cases outer with
  | nil => exact ⟨hframe, houter, h.returns, by simp, by simp, houtermost⟩
  | cons next rest =>
    rw [List.dropLast_cons_cons] at hinner
    obtain ⟨hne, hinner⟩ := List.forall_mem_cons.1 hinner
    rw [List.getLast?_cons_cons] at houtermost
    exact ⟨hframe, houter, h.returns, fun _ => hne, hinner, houtermost⟩

/-- **A turn keeps a context at home**, unless it finishes it, if the context
does not stray and its own event does not call itself. -/
theorem turn (h : c.Home l parameters) (he : e.Serves l)
    (hself : ¬ Relation.TransGen l.Calls c.root.event c.root.event) (hstrays : ¬ c.Strays e)
    (hrunning : c.state.isRunning) {step : Step} {id : EventId} {vars : Attributes} {o : Outcome}
    (hstep : e.step? c.place = some step)
    (hturn : step.Turn e id { c.goto (c.place.plus 1) with attributes := vars } o c') :
    c'.UnlessFinished (Context.Home l parameters) := by
  obtain ⟨b, hb, hkey, hget⟩ := he.exists_step hstep
  have hlands := (hb.lands hget).1
  rw [hkey] at hlands
  have hstay : Context.Home l parameters { c.goto (c.place.plus 1) with attributes := vars } :=
    h.within rfl rfl rfl rfl rfl
  intro hfinished
  cases hturn with
  | halt a halt =>
    cases halt with
    | none => exact hstay
    | some halt =>
      cases halt with
      | pause shown => exact h.within rfl rfl rfl rfl rfl
      | wait ms => exact h.within rfl rfl rfl rfl rfl
      | finish => simp [Halt.apply, finish, RunState.isFinished] at hfinished
  | @go step place hleads =>
    have hevent : place.program.event = c.place.program.event := by
      cases step <;> first | exact (hlands _ hleads).2 | exact hleads.elim
    exact h.within rfl hevent rfl rfl rfl
  | stay hmay => exact hstay
  | openChoices labels options => exact h.within rfl rfl rfl rfl rfl
  | chosen hbody => exact h.within rfl (hlands _ hbody).2 rfl rfl rfl
  | unchosen bodies => exact h.within rfl rfl rfl rfl rfl
  | again tester exit => exact h.within rfl rfl rfl rfl rfl
  | iterate source ref body first rest => exact h.within rfl hlands.2 rfl rfl rfl
  | nextItem ref exit hc hsome => exact h.within rfl rfl rfl rfl rfl
  | noItem ref exit => exact h.within rfl hlands.2 rfl rfl rfl
  | leaveLoop each exit => exact h.within rfl hlands.2 rfl rfl rfl
  | jump target drop => exact h.within rfl hlands.2 rfl rfl rfl
  | saveJump target => exact h.saving hlands.2
  | @returnJump place outer hc =>
    -- inside a call such a return could lead out of it, but then the context would stray
    have hreturns : c.returns = place :: outer := hc
    refine h.returning hreturns fun hcalls hevent =>
      hstrays ⟨hrunning, hstep, hcalls, place, ?_, hevent⟩
    rw [hreturns]
    exact rfl
  | spawn body => exact hstay
  | @call event callee params hevent supplied =>
    have hcalls : l.Calls c.place.program.event event :=
      ⟨b, hb, by rw [hkey], _, Array.mem_toList_iff.2 (Array.mem_of_getElem? hget), rfl⟩
    exact h.calling hcalls hself
  | callAsync params hevent supplied => exact hstay
  | finish hc => simp [finish, RunState.isFinished] at hfinished
  | leave hc => exact h.leaving hc

end Context.Home

/-! ## Lives -/

/-- No turn changes the root. -/
theorem Step.Turn.root_eq {e : Engine} {id : EventId} {step : Step} {c c' : Context} {o : Outcome}
    (h : step.Turn e id c o c') : c'.root = c.root := by
  cases h with
  | halt a halt =>
    cases halt with
    | none => rfl
    | some halt => cases halt <;> rfl
  | _ => rfl

namespace Context.Life

variable {e : Engine} {l : Library} {c₀ c : Context} {trail : List Context}

/-- A context keeps its root. -/
theorem root_eq (hk : e.KeepsControl) (h : c₀.Life e trail c) :
    c.UnlessFinished fun c => c.root = c₀.root := by
  induction h with
  | new h => exact fun _ => rfl
  | @move trail c c' h hmove ih =>
    intro hfinished
    cases hmove with
    | turn hrunning hstep hturn =>
      exact hturn.root_eq.trans (ih (RunState.isFinished_of_isRunning hrunning))
    | skip hrunning hstep hcustom => exact ih (RunState.isFinished_of_isRunning hrunning)
    | custom hhandler hrunning =>
      have hroot := ((hk _ _ hhandler _ _).1 hfinished).root
      exact hroot.trans (ih (RunState.isFinished_of_isRunning hrunning))
    | pause hrunning => exact ih (RunState.isFinished_of_isRunning hrunning)
    | wake hpaused => exact ih (RunState.isFinished_of_isPaused hpaused)
    | choose c index => exact ih hfinished
    | countDown c deltaMs =>
      rw [Scheduler.isFinished_countDown] at hfinished
      obtain ⟨state, hstate⟩ := Scheduler.exists_countDown_eq deltaMs c
      rw [hstate]
      exact ih hfinished

/-- **A context that never strays stays at home**, if its own event does not
call itself. -/
theorem home (he : e.Serves l) (hk : e.KeepsControl) (hp : e.KeepsParameters)
    (h : c₀.Life e trail c) (hstrays : ∀ x ∈ trail, ¬ x.Strays e)
    (hself : ¬ Relation.TransGen l.Calls c₀.root.event c₀.root.event) :
    c.UnlessFinished (Context.Home l c₀.ambient.parameters) := by
  induction h with
  | new h => exact fun _ => .of_isNew h
  | @move trail c c' h hmove ih =>
    obtain ⟨hnot, hstrays⟩ := List.forall_mem_cons.1 hstrays
    have ih := ih hstrays
    intro hfinished
    cases hmove with
    | turn hrunning hstep hturn =>
      have hlive := RunState.isFinished_of_isRunning hrunning
      have hroot : c.root = c₀.root := h.root_eq hk hlive
      exact (ih hlive).turn he (hroot ▸ hself) hnot hrunning hstep hturn hfinished
    | skip hrunning hstep hcustom =>
      exact (ih (RunState.isFinished_of_isRunning hrunning)).within rfl rfl rfl rfl rfl
    | custom hhandler hrunning =>
      have hcontrol := (hk _ _ hhandler _ _).1 hfinished
      exact (ih (RunState.isFinished_of_isRunning hrunning)).within hcontrol.root
        (by rw [hcontrol.place]) hcontrol.calls hcontrol.returns (hp _ _ hhandler _ _ hfinished)
    | pause hrunning =>
      exact (ih (RunState.isFinished_of_isRunning hrunning)).within rfl rfl rfl rfl rfl
    | wake hpaused =>
      exact (ih (RunState.isFinished_of_isPaused hpaused)).within rfl rfl rfl rfl rfl
    | choose c index => exact (ih hfinished).within rfl rfl rfl rfl rfl
    | countDown c deltaMs =>
      rw [Scheduler.isFinished_countDown] at hfinished
      obtain ⟨state, hstate⟩ := Scheduler.exists_countDown_eq deltaMs c
      rw [hstate]
      exact (ih hfinished).within rfl rfl rfl rfl rfl

end Context.Life

/-- **A callee's parameters do not leak into its caller.** Let custom handlers
leave control and parameters as they are. Then every context that executes a
step has a life, and whatever life it has: if it has strayed nowhere on the way,
the event that it was created for does not call itself, directly or through
others, and the step is one of that event, then its parameters are those that it
was created with. -/
theorem Scheduler.Reachable.parameters_of_life {e : Engine} {l : Library} (he : e.Serves l)
    (hl : l.Lawful) (hk : e.KeepsControl) (hp : e.KeepsParameters) {s : Scheduler}
    (hs : s.Reachable e) {op : Operation} {x : Machine} (hx : x ∈ op.visits s) :
    x.context.HasLife e ∧
    ∀ (c₀ : Context) (trail : List Context), c₀.Life e trail x.context →
      (∀ c ∈ trail, ¬ c.Strays e) →
      ¬ Relation.TransGen l.Calls x.context.root.event x.context.root.event →
      x.context.place.program.event = x.context.root.event →
      x.context.ambient.parameters = c₀.ambient.parameters := by
  refine ⟨hs.exists_life he hl hk hx, fun c₀ trail hlife hstrays hself hevent => ?_⟩
  have hlive : x.context.state.isFinished = false :=
    RunState.isFinished_of_isRunning (Operation.isRunning_of_mem_visits hx)
  have hroot : x.context.root = c₀.root := hlife.root_eq hk hlive
  exact (hlife.home he hk hp hstrays (hroot ▸ hself) hlive).parameters_eq hevent

/-- An instruction that calls an event as somebody. -/
def Instruction.callAs (event who : String) : Instruction :=
  let value : Json := .object [("type", .string "string"), ("value", .string who)]
  ⟨"callEvent", .object [("event", .string event), ("parameters", .object [("who", value)])]⟩

/-- An event that calls another as somebody else, which has a custom instruction
and pauses, and that then notes who it is. -/
def Library.lending : Library :=
  let who (type : String) : Json := .object [("type", .string type), ("key", .string "who")]
  let note : Json := .object [("variable", who "local"), ("operand", who "parameter")]
  { events := .ofList
      [("main", ⟨"main", [.callAs "ask" "ask", ⟨"setString", note⟩],
          .ofList [("who", .string "main")]⟩),
       ("ask", ⟨"ask", [⟨"custom", .null⟩, ⟨"pauseEvent", .null⟩], .empty⟩)] }

/-- The event called is paused and resumed: back in the caller, the parameters
are the caller's. -/
theorem Scheduler.Reachable.parameters_of_life_lending :
    Engine.Serves (.handling .lending .tells) .lending ∧ Library.lending.Lawful ∧
      (Engine.handling .lending .tells).KeepsControl ∧
      (Engine.handling .lending .tells).KeepsParameters ∧
      ∃ (s : Scheduler) (x : Machine) (c₀ : Context) (trail : List Context),
        s.Reachable (.handling .lending .tells) ∧ x ∈ (Operation.resume ⟨1⟩).visits s ∧
        c₀.Life (.handling .lending .tells) trail x.context ∧
        (∀ c ∈ trail, ¬ c.Strays (.handling .lending .tells)) ∧
        ¬ Relation.TransGen Library.lending.Calls x.context.root.event x.context.root.event ∧
        x.context.place.program.event = x.context.root.event ∧
        x.context.ambient.parameters = c₀.ambient.parameters := by
  have he : Engine.Serves (.handling .lending .tells) .lending := .ofLibrary .lending
  have hl : Library.lending.Lawful := by decide +kernel
  have hk := Engine.keepsControl_tells .lending
  have hp := Engine.keepsParameters_tells .lending
  have hjumps : ∀ b ∈ Library.lending.bodies, ∀ step ∈ b.program.steps.toList,
      step.isReturnJump = false := by
    decide +kernel
  have hself : ∀ event, ¬ Relation.TransGen Library.lending.Calls event event :=
    Library.not_transGen_calls "main" "ask" (by decide) (by decide +kernel)
  have hstrays : ∀ c : Context, ¬ c.Strays (.handling .lending .tells) := by
    rintro c ⟨-, hstep, -⟩
    obtain ⟨b, hb, -, hget⟩ := he.exists_step hstep
    have hmem := Array.mem_toList_iff.2 (Array.mem_of_getElem? hget)
    exact absurd (hjumps b (Library.holds_iff.1 hb) _ hmem) (by decide)
  have hstarted : ((Operation.start "main" .none).run (.fresh (.handling .lending .tells) 0)).any
      fun x => ((Operation.resume ⟨1⟩).visits x.2).any fun x =>
        x.context.place.program.event == x.context.root.event := by
    decide +kernel
  obtain ⟨⟨r, s⟩, hrun, hs⟩ := (Option.any_eq_true _ _).1 hstarted
  obtain ⟨x, hx, hevent⟩ := List.any_eq_true.1 hs
  rw [beq_iff_eq] at hevent
  have hreach : Scheduler.Reachable (.handling .lending .tells) s := .run (.fresh 0) hrun
  obtain ⟨⟨c₀, trail, hlife⟩, heq⟩ :=
    hreach.parameters_of_life he hl hk hp hx
  exact ⟨he, hl, hk, hp, s, x, c₀, trail, hreach, hx, hlife,
    fun c _ => hstrays c, hself _, hevent,
    heq c₀ trail hlife (fun c _ => hstrays c) (hself _) hevent⟩

/-- An event that keeps where it jumps from and calls another as somebody else,
which returns from the jump. -/
def Library.straying : Library :=
  let who (type : String) : Json := .object [("type", .string type), ("key", .string "who")]
  let note : Json := .object [("variable", who "local"), ("operand", who "parameter")]
  let jump : Json := .object [("operation", .string "save-jump"), ("label", .string "call")]
  { events := .ofList
      [("main", ⟨"main",
        [⟨"jumpTo", jump⟩, ⟨"setString", note⟩, ⟨"stopEvent", .null⟩,
         ⟨"label", .object [("name", .string "call")]⟩, .callAs "ask" "ask"],
        .ofList [("who", .string "main")]⟩),
       ("ask", ⟨"ask", [⟨"jumpTo", .object [("operation", .string "return")]⟩], .empty⟩)] }

/-- **A context that strays takes the callee's parameters along.** Started with
its own parameters, the event executes a step of its own with those of the event
that it called. -/
theorem Scheduler.Reachable.exists_strayed :
    Library.straying.Lawful ∧
    (∀ event, ¬ Relation.TransGen Library.straying.Calls event event) ∧
    ∃ event, (Engine.ofLibrary .straying).event? "main" = some event ∧
      ∃ x ∈ (Operation.start "main" .none).visits (.fresh (.ofLibrary .straying) 0),
        x.context.id = ⟨1⟩ ∧ x.context.root = .root "main" ∧
        x.context.place.program.event = "main" ∧
        x.context.ambient.parameters ≠ (Operation.startAmbient .none event).parameters := by
  have hl : Library.straying.Lawful := by decide +kernel
  have hself : ∀ event, ¬ Relation.TransGen Library.straying.Calls event event :=
    Library.not_transGen_calls "main" "ask" (by decide) (by decide +kernel)
  have hfound : ((Engine.ofLibrary .straying).event? "main").any fun event =>
      (Operation.startAmbient .none event).parameters.get? "who" == some (.string "main") := by
    decide +kernel
  have hvisited : ((Operation.start "main" .none).visits (.fresh (.ofLibrary .straying) 0)).any
      fun x => x.context.id == ⟨1⟩ && x.context.root == .root "main" &&
        x.context.place.program.event == "main" &&
        x.context.ambient.parameters.get? "who" != some (.string "main") := by
    decide +kernel
  obtain ⟨event, hevent, hwho⟩ := (Option.any_eq_true _ _).1 hfound
  obtain ⟨x, hx, hchecks⟩ := List.any_eq_true.1 hvisited
  simp only [Bool.and_eq_true, beq_iff_eq] at hchecks
  obtain ⟨⟨⟨hid, hroot⟩, hplace⟩, hdiffers⟩ := hchecks
  refine ⟨hl, hself, event, hevent, x, hx, hid, hroot, hplace, fun heq => ?_⟩
  rw [heq, bne, hwho] at hdiffers
  simp at hdiffers

end Cutscene
