import Cutscene.Proofs.Scheduler.Maintain
/-!
# Scheduler — places in range

A context keeps places: the start of its root, where it is, where its calls
return to and where its jumps return to (`Context.places`). For an engine that
serves a library the places that stand are those in range of their programs
(`Engine.Serves.stands_iff`), so a context that is placed finds a step wherever
it looks for one, and the terminal of a program sends it to a place in range or
finishes it. `Scheduler.Reachable.inRange` says so of every live context and of
every look-up that an operation makes: no advance runs past the end of a
program.
-/

namespace Cutscene

/-- The places that the context keeps. -/
def Context.places (c : Context) : List Place :=
  ⟨c.root, 0⟩ :: c.place :: (c.calls.map (·.place) ++ c.returns)

/-- The place is that of a step of its program. -/
def Engine.InRange (e : Engine) (p : Place) : Prop := p.index < e.length p.program

/-- The machines at which an operation looks for a step, in order. -/
def Operation.fetches (s : Scheduler) (op : Operation) : List Machine :=
  (op.advances s).flatMap (Machine.fetches s.engine)

/-! ## Ranges and places that stand -/

theorem Context.placed_iff {l : Library} {c : Context} :
    c.Placed l ↔ ∀ p ∈ c.places, l.Stands p := by
  simp only [places, List.forall_mem_cons, List.forall_mem_append, List.forall_mem_map]
  constructor
  · exact fun h => ⟨h.root, h.place, h.calls, h.returns⟩
  · exact fun ⟨hroot, hplace, hcalls, hreturns⟩ => ⟨hroot, hplace, hcalls, hreturns⟩

/-- A step is found at the places in range, and nowhere else. -/
theorem Engine.isSome_step?_iff {e : Engine} {p : Place} : (e.step? p).isSome ↔ e.InRange p := by
  rw [step?, InRange, length]
  cases e.program? p.program with
  | none => simp
  | some program => simp

namespace Engine.Serves

variable {e : Engine} {l : Library}

/-- The program of a body that is held has a step for every index up to the
terminal's. -/
theorem length_eq (he : e.Serves l) (hl : l.Lawful) {b : Body} (hb : l.Holds b) :
    e.length b.key = b.block.width + 1 := by
  rw [Engine.length, he.program? hl hb]
  exact b.size_program

/-- **The places that stand are those in range.** -/
theorem stands_iff (he : e.Serves l) (hl : l.Lawful) {p : Place} :
    l.Stands p ↔ e.InRange p := by
  constructor
  · rintro ⟨b, hb, hkey, hle⟩
    rw [InRange, ← hkey, he.length_eq hl hb]
    omega
  · intro hrange
    obtain ⟨step, hstep⟩ := Option.isSome_iff_exists.1 (isSome_step?_iff.2 hrange)
    obtain ⟨b, hb, hkey, -⟩ := he.exists_step hstep
    rw [InRange, ← hkey, he.length_eq hl hb] at hrange
    exact ⟨b, hb, hkey, by omega⟩

theorem placed_iff (he : e.Serves l) (hl : l.Lawful) {c : Context} :
    c.Placed l ↔ ∀ p ∈ c.places, e.InRange p := by
  rw [Context.placed_iff]
  exact forall₂_congr fun p _ => he.stands_iff hl

end Engine.Serves

/-! ## The last step of a program -/

/-- A terminal spawns nothing. -/
theorem Step.Turn.exists_flow {e : Engine} {id : EventId} {step : Step} {c c' : Context}
    {o : Outcome} (h : step.Turn e id c o c') (hterminal : step.isTerminal) :
    ∃ flow, o = .flow flow := by
  cases h with
  | spawn body => simp [isTerminal] at hterminal
  | callAsync params hevent vars => simp [isTerminal] at hterminal
  | _ => exact ⟨_, rfl⟩

/-- **The last step of a program finishes its context or sends it to a place in
range**, never to the index after it. -/
theorem Engine.Serves.exists_last {e : Engine} {l : Library} (he : e.Serves l) (hl : l.Lawful)
    {key : BodyKey} {program : Program} (hprogram : e.program? key = some program) :
    ∃ step, program.steps[program.steps.size - 1]? = some step ∧
      ∀ m : Machine, m.context.place = ⟨key, program.steps.size - 1⟩ →
        (∀ p ∈ m.context.places, e.InRange p) →
        ∃ flow m', step.run e (m.past step) = (.flow flow, m') ∧
          (m'.context.state.isFinished ∨ ∀ p ∈ m'.context.places, e.InRange p) := by
  obtain ⟨b, hb, rfl, rfl⟩ := he.exists_body hprogram
  have hlast : b.program.steps.size - 1 = b.block.width := by
    rw [b.size_program]
    rfl
  have hterminal := hb.terminal_lands.1
  have hcustom : b.terminal.isCustom = false := by
    cases hstep : b.terminal with
    | custom id arguments => simp [hstep, Step.isTerminal] at hterminal
    | _ => rfl
  refine ⟨b.terminal, by rw [hlast, b.step_terminal], fun m hplace hrange => ?_⟩
  have hstep : e.step? m.context.place = some b.terminal := by
    rw [hplace, he.step? hl hb, hlast, b.step_terminal]
  -- a terminal is no custom step, so it is effects and a turn, and turns land
  have hturns : Act.Turns False False e b.terminal (b.terminal.run e) :=
    b.terminal.turns hcustom False.elim False.elim
  obtain ⟨es, o, c', -, hturn, hrun, -⟩ := hturns (m.past b.terminal)
  obtain ⟨flow, rfl⟩ := hturn.exists_flow hterminal
  rw [Machine.context_after] at hturn
  have hplaced := (((he.placed_iff hl).2 hrange).turn he hl hstep hturn).1
  refine ⟨flow, _, hrun, ?_⟩
  cases hfinished : c'.state.isFinished with
  | true => exact .inl rfl
  | false => exact .inr ((he.placed_iff hl).1 (hplaced hfinished))

/-! ## Reachable schedulers -/

/-- Every context that looks for a step has what is maintained. -/
theorem Engine.Maintains.fetched {e : Engine} {C : Context → Prop} (h : e.Maintains C)
    {s : Scheduler} {op : Operation} {x : Machine} (he : s.engine = e)
    (hs : s.Has C (World.Spawned C)) (hstarts : op.Starts e C) (hx : x ∈ op.fetches s) :
    C x.context := by
  subst he
  obtain ⟨m, hm, hx⟩ := List.mem_flatMap.1 hx
  obtain ⟨hc, hw⟩ := h.sustains.operationAdvances hs.unlessFinished
    (fun ho hevent _ => hstarts ho hevent) hm
  obtain ⟨hrunning, hc, -⟩ := h.sustains.fetches hc hw hx
  exact hc (RunState.isFinished_of_isRunning hrunning)

/-- **Places are never out of range.** Let custom handlers leave contexts at
places that stand. Then in every reachable scheduler the places of a live
context are in range and come back from their pointers; wherever an operation
looks for a step, the places of that context are in range, so that there is
one; and the last step of a program finishes its context or sends it to a place
in range. -/
theorem Scheduler.Reachable.inRange {e : Engine} {l : Library} (he : e.Serves l) (hl : l.Lawful)
    (hk : e.KeepsPlaces l) {s : Scheduler} (hs : s.Reachable e) :
    (∀ c ∈ s.contexts, ∀ p ∈ c.places, e.InRange p ∧ e.place (e.pointer p) = .ok p) ∧
    (∀ op : Operation, ∀ x ∈ op.fetches s,
      (∀ p ∈ x.context.places, e.InRange p) ∧ (e.step? x.context.place).isSome) ∧
    ∀ key program, e.program? key = some program →
      ∃ step, program.steps[program.steps.size - 1]? = some step ∧
        ∀ m : Machine, m.context.place = ⟨key, program.steps.size - 1⟩ →
          (∀ p ∈ m.context.places, e.InRange p) →
          ∃ flow m', step.run e (m.past step) = (.flow flow, m') ∧
            (m'.context.state.isFinished ∨ ∀ p ∈ m'.context.places, e.InRange p) := by
  have hmaintains := he.maintains_placed hl hk
  obtain ⟨hengine, hhas⟩ :=
    hmaintains.reachable (he.starts_placed hl) (he.loads hl fun _ hc => hc) hs
  refine ⟨fun c hc p hp => ?_, fun op x hx => ?_, fun key program => he.exists_last hl⟩
  · have hstands : l.Stands p := Context.placed_iff.1 (hhas.1 c hc) p hp
    exact ⟨(he.stands_iff hl).1 hstands, he.place_pointer hl hstands⟩
  · have hplaced := hmaintains.fetched hengine hhas (he.starts_placed hl op) hx
    have hrange := (he.placed_iff hl).1 hplaced
    exact ⟨hrange, Engine.isSome_step?_iff.2 (hrange _ (by simp [Context.places]))⟩

/-- An event that jumps ahead, keeping where it came from, and calls an event
that has a custom instruction and pauses. -/
def Library.roving : Library :=
  let jump : Json := .object [("operation", .string "save-jump"), ("label", .string "ahead")]
  { events := .ofList
      [("main", ⟨"main",
        [⟨"jumpTo", jump⟩, ⟨"stopEvent", .null⟩, ⟨"label", .object [("name", .string "ahead")]⟩,
         ⟨"callEvent", .object [("event", .string "ask")]⟩,
         ⟨"jumpTo", .object [("operation", .string "return")]⟩], .empty⟩),
       ("ask", ⟨"ask", [⟨"custom", .null⟩, ⟨"pauseEvent", .null⟩], .empty⟩)] }

/-- The event started: the host was told of the custom instruction, and it is
paused in the event called, with one call and one jump to return to. -/
theorem Scheduler.Reachable.inRange_roving :
    Engine.Serves (.handling .roving .tells) .roving ∧ Library.roving.Lawful ∧
      (Engine.handling .roving .tells).KeepsPlaces .roving ∧
      ∃ s c, Scheduler.Reachable (.handling .roving .tells) s ∧ s.world.trace.length = 1 ∧
        c ∈ s.contexts ∧ c.calls.length = 1 ∧ c.returns.length = 1 ∧
        ∀ p ∈ c.places, (Engine.handling .roving .tells).InRange p := by
  have he : Engine.Serves (.handling .roving .tells) .roving := .ofLibrary .roving
  have hl : Library.roving.Lawful := by decide +kernel
  have hk := (Engine.keepsControl_tells .roving).keepsPlaces .roving
  have hstarted : ((Operation.start "main" .none).run (.fresh (.handling .roving .tells) 0)).any
      fun x => x.2.world.trace.length == 1 &&
        x.2.contexts.any fun c => c.calls.length == 1 && c.returns.length == 1 := by
    decide +kernel
  obtain ⟨⟨r, s⟩, hrun, hs⟩ := (Option.any_eq_true _ _).1 hstarted
  obtain ⟨htold, hs⟩ := Bool.and_eq_true_iff.1 hs
  obtain ⟨c, hc, hlengths⟩ := List.any_eq_true.1 hs
  rw [Bool.and_eq_true, beq_iff_eq, beq_iff_eq] at hlengths
  have hreach : Scheduler.Reachable (.handling .roving .tells) s := .run (.fresh 0) hrun
  obtain ⟨hplaces, -, -⟩ := hreach.inRange he hl hk
  exact ⟨he, hl, hk, s, c, hreach, beq_iff_eq.1 htold, hc, hlengths.1, hlengths.2,
    fun p hp => (hplaces c hc p hp).1⟩

end Cutscene
