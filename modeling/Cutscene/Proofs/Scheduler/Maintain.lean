import Cutscene.Proofs.Scheduler.Request
import Cutscene.Proofs.Scheduler.Saving
/-!
# Scheduler — invariants of contexts

Most invariants speak of one context at a time, and of it only until it
finishes. An engine retains such a property when turns, custom handlers and the
scheduler's bookkeeping keep it (`Engine.Retains`), and it maintains it when
making a choice keeps it too (`Engine.Maintains`). If the contexts that a
host starts have it too, then every live context of every reachable scheduler
has it (`Engine.Maintains.reachable`), and so has every context that is about
to execute a step (`Engine.Maintains.visited`).
-/

namespace Cutscene

/-- The property holds of the context unless that has finished. -/
def Context.UnlessFinished (C : Context → Prop) (c : Context) : Prop :=
  c.state.isFinished = false → C c

/-- Counting down finishes no context and brings none back. -/
theorem Scheduler.isFinished_countDown (deltaMs : Float) (c : Context) :
    (countDown deltaMs c).state.isFinished = c.state.isFinished := by
  unfold countDown
  split
  · rename_i remainingMs hstate
    rw [hstate]
    simp only
    split <;> rfl
  · rfl

/-- Counting down changes no more than the state. -/
theorem Scheduler.exists_countDown_eq (deltaMs : Float) (c : Context) :
    ∃ state, countDown deltaMs c = { c with state } := by
  unfold countDown
  split
  · exact ⟨_, rfl⟩
  · exact ⟨c.state, rfl⟩

/-- Every context that was spawned has the property. -/
def World.Spawned (C : Context → Prop) (w : World) : Prop := ∀ c ∈ w.spawned, C c

theorem HostEdit.spawned_run (w : World) (change : HostEdit) :
    (change.run w).2.spawned = w.spawned := by
  cases change with
  | create kind dataId parent key slot =>
    simp only [HostEdit.run, World.create]
    split <;> rfl
  | attach parent child =>
    simp only [HostEdit.run]
    split <;> rfl
  | drawUnit =>
    show ({ w with random := w.random.unit.2 } : World).spawned = w.spawned
    rfl
  | _ => rfl

/-- Turns, custom handlers and the scheduler's bookkeeping keep the property of
contexts that have not finished. -/
structure Engine.Retains (e : Engine) (C : Context → Prop) : Prop where
  turn : ∀ {c c' : Context} {step : Step} {id : EventId} {vars : Attributes} {o : Outcome},
    C c → c.state.isRunning → e.step? c.place = some step → step.isCustom = false →
    step.Turn e id { c.goto (c.place.plus 1) with attributes := vars } o c' →
    step.Executes e c o c' → c'.UnlessFinished C ∧ ∀ child, o = .spawn child → C child
  skip : ∀ {c : Context} {step : Step} {vars : Attributes}, C c → c.state.isRunning →
    e.step? c.place = some step → step.isCustom →
    C { c.goto (c.place.plus 1) with attributes := vars }
  custom : ∀ {m : Machine} {id : String} {arguments : Arguments} {handler : Handler},
    e.handlers.get? id = some handler → C m.context → m.context.state.isRunning →
    World.Spawned C m.world →
    (handler arguments m).2.context.UnlessFinished C ∧
      World.Spawned C (handler arguments m).2.world
  pause : ∀ {c : Context}, C c → c.state.isRunning → C (c.pause .signal)
  wake : ∀ {c : Context}, C c → c.state.isPaused →
    C { c with state := .running, boundary := none }
  countDown : ∀ {c : Context} {deltaMs : Float}, C c → C (Scheduler.countDown deltaMs c)

/-- The property is retained, and a choice that is made keeps it. -/
structure Engine.Maintains (e : Engine) (C : Context → Prop) : Prop extends e.Retains C where
  choose : ∀ {c : Context} {index : Nat}, C c → C { c with choice := some index }

/-- A context that the operation starts has the property. -/
def Operation.Starts (e : Engine) (C : Context → Prop) (op : Operation) : Prop :=
  ∀ {id : EventId} {name : String} {ambient : Ambient} {event : Compiled},
    op = .start name ambient → e.event? name = some event →
    C (.start id name (.root name) (startAmbient ambient event))

namespace Engine.Retains

variable {e : Engine} {C : Context → Prop}

/-- What is retained is carried, of spawned contexts as well. -/
theorem carries (h : e.Retains C) :
    e.Carries (Context.UnlessFinished C) (World.Spawned C) where
  turn := by
    intro c c' step id vars o hc hrunning hstep hcustom hturn hexecutes
    obtain ⟨hc', hchild⟩ :=
      h.turn (hc (RunState.isFinished_of_isRunning hrunning)) hrunning hstep hcustom hturn hexecutes
    exact ⟨hc', fun child ho _ => hchild child ho⟩
  skip := by
    intro c step hc hrunning hstep hcustom _
    have hskip : C { c.goto (c.place.plus 1) with attributes := c.attributes } :=
      h.skip (hc (RunState.isFinished_of_isRunning hrunning)) hrunning hstep hcustom
    exact hskip
  custom := by
    intro m id arguments handler hc hw hrunning hstep hhandler
    -- the handler runs in the context that the step has been passed in
    have hskip : C { m.context.goto (m.context.place.plus 1) with
        attributes := m.context.attributes } :=
      h.skip (hc (RunState.isFinished_of_isRunning hrunning)) hrunning hstep rfl
    refine h.custom (m := m.past (.custom id arguments)) hhandler hskip hrunning ?_
    intro c hc
    refine hw c ?_
    unfold Machine.past World.bind at hc
    simp only at hc
    split at hc <;> exact hc
  pause := fun hc hrunning _ => h.pause (hc (RunState.isFinished_of_isRunning hrunning)) hrunning
  finish := fun _ hfinished => by simp [Context.finish, RunState.isFinished] at hfinished
  effect := by
    intro m x hw c hc
    rw [(m.world_apply x).1] at hc
    exact hw c hc
  bind := by
    intro w step place hw c hc
    unfold World.bind at hc
    split at hc <;> exact hw c hc
  allocate := fun hw => hw
  adopt := by
    intro c w hc hw c' hc'
    unfold World.adopt at hc'
    split at hc'
    · exact hw c' hc'
    · rename_i hfinished
      rcases List.mem_cons.1 hc' with rfl | hc'
      · exact hc (by simpa using hfinished)
      · exact hw c' hc'
  wake := fun hc hpaused _ => h.wake (hc (RunState.isFinished_of_isPaused hpaused)) hpaused
  countDown := fun hc hfinished =>
    h.countDown (hc (by rwa [Scheduler.isFinished_countDown] at hfinished))
  spawned := fun hw c hc _ => hw c hc
  takeSpawned := fun _ c hc => by simp at hc
  resumes := fun hw => hw
  tick := fun hw => hw

/-- The sweep leaves no context that has finished. -/
theorem sweep {s : Scheduler} (hs : s.Has (Context.UnlessFinished C) (World.Spawned C)) :
    s.sweep.Has C (World.Spawned C) := by
  refine ⟨fun c hc => ?_, hs.2⟩
  obtain ⟨hc, -, hfinished⟩ := Scheduler.mem_sweep.1 hc
  exact hs.1 c hc hfinished

theorem reconcile (h : e.Retains C) {s s' : Scheduler} (he : s.engine = e)
    (hs : s.Has (Context.UnlessFinished C) (World.Spawned C)) (hrun : s.reconcile = some s') :
    s'.engine = e ∧ s'.Has C (World.Spawned C) := by
  subst he
  obtain ⟨s₁, hs₁, rfl⟩ := Scheduler.reconcile_eq hrun
  exact ⟨(h.carries.meetRounds hs hs₁).1, sweep (h.carries.beforeSweep hs hs₁)⟩

end Engine.Retains

theorem Scheduler.Has.unlessFinished {C : Context → Prop} {s : Scheduler}
    (hs : s.Has C (World.Spawned C)) : s.Has (Context.UnlessFinished C) (World.Spawned C) :=
  ⟨fun c hc _ => hs.1 c hc, hs.2⟩

/-- A context has the property again when it has been advanced with a choice
made. -/
def Engine.Rechooses (e : Engine) (C : Context → Prop) : Prop :=
  ∀ {s : Scheduler} {id : EventId} {index : Nat} {c : Context} {m : Machine}, s.engine = e →
    s.Has C (World.Spawned C) → s.chosen? id index = some c →
    Machine.advance s.engine ⟨c, s.world⟩ = some m →
    m.context.UnlessFinished C ∧ World.Spawned C m.world

theorem Engine.Rechooses.and {e : Engine} {C D : Context → Prop} (hC : e.Rechooses C)
    (hD : e.Rechooses D) : e.Rechooses fun c => C c ∧ D c := by
  intro s id index c m he hs hc hm
  obtain ⟨hmC, hwC⟩ := hC he ⟨fun c hc => (hs.1 c hc).1, fun c hc => (hs.2 c hc).1⟩ hc hm
  obtain ⟨hmD, hwD⟩ := hD he ⟨fun c hc => (hs.1 c hc).2, fun c hc => (hs.2 c hc).2⟩ hc hm
  exact ⟨fun hf => ⟨hmC hf, hmD hf⟩, fun c hc => ⟨hwC c hc, hwD c hc⟩⟩

namespace Engine.Retains

variable {e : Engine} {C : Context → Prop}

/-- Two properties that are retained are retained together. -/
theorem and {D : Context → Prop} (hC : e.Retains C) (hD : e.Retains D) :
    e.Retains fun c => C c ∧ D c where
  turn := by
    intro c c' step id vars o hc hrunning hstep hcustom hturn hexecutes
    obtain ⟨hC', hchildC⟩ := hC.turn hc.1 hrunning hstep hcustom hturn hexecutes
    obtain ⟨hD', hchildD⟩ := hD.turn hc.2 hrunning hstep hcustom hturn hexecutes
    exact ⟨fun hf => ⟨hC' hf, hD' hf⟩, fun child ho => ⟨hchildC child ho, hchildD child ho⟩⟩
  skip := fun hc hrunning hstep hcustom =>
    ⟨hC.skip hc.1 hrunning hstep hcustom, hD.skip hc.2 hrunning hstep hcustom⟩
  custom := by
    intro m id arguments handler hhandler hc hrunning hw
    obtain ⟨hC', hwC⟩ := hC.custom hhandler hc.1 hrunning fun c hc => (hw c hc).1
    obtain ⟨hD', hwD⟩ := hD.custom hhandler hc.2 hrunning fun c hc => (hw c hc).2
    exact ⟨fun hf => ⟨hC' hf, hD' hf⟩, fun c hc => ⟨hwC c hc, hwD c hc⟩⟩
  pause := fun hc hrunning => ⟨hC.pause hc.1 hrunning, hD.pause hc.2 hrunning⟩
  wake := fun hc hpaused => ⟨hC.wake hc.1 hpaused, hD.wake hc.2 hpaused⟩
  countDown := fun hc => ⟨hC.countDown hc.1, hD.countDown hc.2⟩

/-- Every operation keeps what is retained and had again after a choice. -/
theorem run (h : e.Retains C) (hchoose : e.Rechooses C) {s s' : Scheduler} {op : Operation}
    {r : Reply} (he : s.engine = e) (hs : s.Has C (World.Spawned C)) (hstarts : op.Starts e C)
    (hop : op.run s = some (r, s')) : s'.engine = e ∧ s'.Has C (World.Spawned C) := by
  rcases Operation.run_cases hop with rfl | ⟨change, rfl, rfl⟩ | ⟨s₁, hprep, hrun⟩
  · exact ⟨he, hs⟩
  · refine ⟨he, hs.1, ?_⟩
    intro c hc
    rw [HostEdit.spawned_run] at hc
    exact hs.2 c hc
  · subst he
    obtain ⟨he₁, hs₁⟩ := h.carries.prepares hs.unlessFinished
      (fun ho hevent _ => hstarts ho hevent) (fun _ hc hm => hchoose rfl hs hc hm) hprep
    exact h.reconcile he₁ hs₁ hrun

/-- In every scheduler that meets a request, the contexts that have not finished
have what is retained and had again after a choice. -/
theorem met (h : e.Retains C) (hchoose : e.Rechooses C) {s : Scheduler} {op : Operation}
    {x : EventId × Scheduler} (he : s.engine = e) (hs : s.Has C (World.Spawned C))
    (hstarts : op.Starts e C) (hx : x ∈ op.met s) :
    x.2.engine = e ∧ x.2.Has (Context.UnlessFinished C) (World.Spawned C) := by
  subst he
  exact h.carries.met hs.unlessFinished (fun ho hevent _ => hstarts ho hevent)
    (fun _ hc hm => hchoose rfl hs hc hm) hx

/-- Every live context of a reachable scheduler has what is retained and had
again after a choice, if every context that is started has it, and one that was
saved and loaded has it again. -/
theorem reachable (h : e.Retains C) (hchoose : e.Rechooses C)
    (hstarts : ∀ op : Operation, op.Starts e C)
    (hload : ∀ {c c' : Context} {saved : SavedContext}, C c → c.save e = .ok saved →
      saved.load e = .ok c' → C c')
    {s : Scheduler} (hs : s.Reachable e) : s.engine = e ∧ s.Has C (World.Spawned C) := by
  induction hs with
  | fresh seed => exact ⟨rfl, fun c hc => by simp [Scheduler.fresh] at hc,
      fun c hc => by simp [Scheduler.fresh, World.fresh] at hc⟩
  | run _ hop ih => exact h.run hchoose ih.1 ih.2 (hstarts _) hop
  | restore _ hsaved hr ih =>
    obtain ⟨rfl, hcontexts, -⟩ := ih
    -- the contexts rebuilt are those saved, one by one, and the world is a fresh one
    have hrestored := Scheduler.forall₂_restore hsaved hr
    obtain ⟨contexts, -, rfl⟩ := Scheduler.restore_eq hr
    exact ⟨rfl, forall_of_forall₂ (fun hc ⟨_, hsave, hx⟩ => hload hc hsave hx) hrestored hcontexts,
      fun c hc => by simp [World.fresh] at hc⟩

end Engine.Retains

namespace Engine.Maintains

variable {e : Engine} {C : Context → Prop}

/-- **What is maintained is sustained**, of spawned contexts as well. -/
theorem sustains (h : e.Maintains C) :
    e.Sustains (Context.UnlessFinished C) (World.Spawned C) where
  toCarries := h.carries
  choose := fun hc hfinished => h.choose (hc hfinished)

/-- What is maintained is had again after a choice. -/
theorem rechooses (h : e.Maintains C) : e.Rechooses C := by
  rintro s id index c m rfl hs hc hm
  exact h.sustains.advance (h.sustains.chosen hs.unlessFinished hc) hs.2 hm

/-- **Every operation keeps what is maintained.** -/
theorem run (h : e.Maintains C) {s s' : Scheduler} {op : Operation} {r : Reply}
    (he : s.engine = e) (hs : s.Has C (World.Spawned C)) (hstarts : op.Starts e C)
    (hop : op.run s = some (r, s')) : s'.engine = e ∧ s'.Has C (World.Spawned C) :=
  h.toRetains.run h.rechooses he hs hstarts hop

/-- **Every live context of a reachable scheduler has what is maintained**, if
every context that is started has it, and one that was saved and loaded has it
again. -/
theorem reachable (h : e.Maintains C) (hstarts : ∀ op : Operation, op.Starts e C)
    (hload : ∀ {c c' : Context} {saved : SavedContext}, C c → c.save e = .ok saved →
      saved.load e = .ok c' → C c')
    {s : Scheduler} (hs : s.Reachable e) : s.engine = e ∧ s.Has C (World.Spawned C) :=
  h.toRetains.reachable h.rechooses hstarts hload hs

/-- Every context that executes a step has what is maintained. -/
theorem visited (h : e.Maintains C) {s : Scheduler} {op : Operation} {x : Machine}
    (he : s.engine = e) (hs : s.Has C (World.Spawned C)) (hstarts : op.Starts e C)
    (hx : x ∈ op.visits s) : C x.context := by
  subst he
  obtain ⟨hrunning, hc, -⟩ := h.sustains.operationVisits hs.unlessFinished
    (fun ho hevent _ => hstarts ho hevent) hx
  exact hc (RunState.isFinished_of_isRunning hrunning)

theorem trivial (e : Engine) : e.Maintains fun _ => True where
  turn := fun _ _ _ _ _ _ => ⟨fun _ => .intro, fun _ _ => .intro⟩
  skip := fun _ _ _ _ => .intro
  custom := fun _ _ _ _ => ⟨fun _ => .intro, fun _ _ => .intro⟩
  pause := fun _ _ => .intro
  wake := fun _ _ => .intro
  choose := fun _ => .intro
  countDown := fun _ => .intro

end Engine.Maintains

/-- A context that executes a step is running. -/
theorem Operation.isRunning_of_mem_visits {s : Scheduler} {op : Operation} {x : Machine}
    (hx : x ∈ op.visits s) : x.context.state.isRunning :=
  ((Engine.Maintains.trivial s.engine).sustains.operationVisits
    ⟨fun _ _ _ => .intro, fun _ _ => .intro⟩ (fun _ _ _ => .intro) hx).1

/-- **The places that live contexts keep stand.** -/
theorem Engine.Serves.maintains_placed {e : Engine} {l : Library} (he : e.Serves l)
    (hl : l.Lawful) (hk : e.KeepsPlaces l) : e.Maintains (Context.Placed l) where
  turn := fun hc _ hstep _ hturn _ => hc.turn he hl hstep hturn
  skip := fun hc _ hstep hcustom => hc.skip he hstep hcustom
  custom := fun hhandler hc _ hw => hk _ _ hhandler _ _ hc hw
  pause := fun hc _ => hc.of_control ⟨rfl, rfl, rfl, rfl, rfl⟩
  wake := fun hc _ => hc.of_control ⟨rfl, rfl, rfl, rfl, rfl⟩
  choose := fun hc => hc.of_control ⟨rfl, rfl, rfl, rfl, rfl⟩
  countDown := by
    intro c deltaMs hc
    obtain ⟨state, hstate⟩ := Scheduler.exists_countDown_eq deltaMs c
    rw [hstate]
    exact hc.of_control ⟨rfl, rfl, rfl, rfl, rfl⟩

/-- What holds only of contexts whose places stand survives saving and loading. -/
theorem Engine.Serves.loads {e : Engine} {l : Library} (he : e.Serves l) (hl : l.Lawful)
    {C : Context → Prop} (hplaced : ∀ c, C c → c.Placed l) {c c' : Context} {saved : SavedContext}
    (hc : C c) (hsave : c.save e = .ok saved) (hload : saved.load e = .ok c') : C c' := by
  have hsame := (hplaced c hc).load_save he hl hsave
  rw [hload] at hsame
  rw [Except.ok.inj hsame]
  exact hc

theorem Engine.Serves.starts_placed {e : Engine} {l : Library} (he : e.Serves l) (hl : l.Lawful)
    (op : Operation) : op.Starts e (Context.Placed l) :=
  fun _ hevent => .start he hl hevent

end Cutscene
