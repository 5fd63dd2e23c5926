import Cutscene.Proofs.Scheduler.Maintain
/-!
# Calls — the life of a context

A context is created at the start of a body and is then moved: by the step at
its place, by a custom handler, and by the scheduler's bookkeeping
(`Context.Moves`). Its life is the row of what it was on the way
(`Context.Life`), the latest first. Saving and loading it again is no move,
since it comes back as it was. So laws about what a context has been since it
was created are inductions along lives, and `Scheduler.Reachable.exists_life`
says that every context that executes a step has one.
-/

namespace Cutscene

/-- The context is one just created. -/
def Context.IsNew (c : Context) : Prop :=
  ∃ id name root ambient, c = .start id name root ambient

/-- What can become of a context at once, while it has not finished. -/
inductive Context.Moves (e : Engine) : Context → Context → Prop
  | turn {c c' : Context} {step : Step} {id : EventId} {vars : Attributes} {o : Outcome}
      (hrunning : c.state.isRunning) (hstep : e.step? c.place = some step)
      (hturn : step.Turn e id { c.goto (c.place.plus 1) with attributes := vars } o c') :
    Moves e c c'
  /-- A custom step, before its handler. -/
  | skip {c : Context} {step : Step} {vars : Attributes} (hrunning : c.state.isRunning)
      (hstep : e.step? c.place = some step) (hcustom : step.isCustom) :
    Moves e c { c.goto (c.place.plus 1) with attributes := vars }
  | custom {m : Machine} {id : String} {arguments : Arguments} {handler : Handler}
      (hhandler : e.handlers.get? id = some handler) (hrunning : m.context.state.isRunning) :
    Moves e m.context (handler arguments m).2.context
  | pause {c : Context} (hrunning : c.state.isRunning) : Moves e c (c.pause .signal)
  | wake {c : Context} (hpaused : c.state.isPaused) :
    Moves e c { c with state := .running, boundary := none }
  | choose (c : Context) (index : Nat) : Moves e c { c with choice := some index }
  | countDown (c : Context) (deltaMs : Float) : Moves e c (Scheduler.countDown deltaMs c)

/-- The first context is new, and has become the last one by way of those of
the list. -/
inductive Context.Life (e : Engine) (c₀ : Context) : List Context → Context → Prop
  | new (h : c₀.IsNew) : Life e c₀ [] c₀
  | move {trail : List Context} {c c' : Context} (h : Life e c₀ trail c) (hmove : c.Moves e c') :
    Life e c₀ (c :: trail) c'

/-- A context that a turn spawns is new. -/
theorem Step.Turn.isNew {e : Engine} {id : EventId} {step : Step} {c c' child : Context}
    (h : step.Turn e id c (.spawn child) c') : child.IsNew := by
  cases h with
  | spawn body => exact ⟨_, _, _, _, rfl⟩
  | callAsync params hevent vars => exact ⟨_, _, _, _, rfl⟩

/-- The context has a life. -/
def Context.HasLife (e : Engine) (c : Context) : Prop :=
  ∃ (c₀ : Context) (trail : List Context), c₀.Life e trail c

namespace Context.HasLife

variable {e : Engine} {c c' : Context}

theorem of_isNew (h : c.IsNew) : c.HasLife e := ⟨c, [], .new h⟩

theorem move (h : c.HasLife e) (hmove : c.Moves e c') : c'.HasLife e := by
  obtain ⟨c₀, trail, hlife⟩ := h
  exact ⟨c₀, c :: trail, hlife.move hmove⟩

end Context.HasLife

/-- **Contexts keep their lives.** -/
theorem Engine.Serves.maintains_hasLife {e : Engine} {l : Library} (he : e.Serves l)
    (hl : l.Lawful) (hk : e.KeepsControl) :
    e.Maintains fun c => c.Placed l ∧ c.HasLife e := by
  have hplaced := he.maintains_placed hl (hk.keepsPlaces l)
  refine ⟨⟨?turn, ?skip, ?custom, ?pause, ?wake, ?countDown⟩, ?choose⟩
  case turn =>
    intro c c' step id vars o hc hrunning hstep hcustom hturn hexecutes
    obtain ⟨hplaced', hchild⟩ := hplaced.turn hc.1 hrunning hstep hcustom hturn hexecutes
    refine ⟨fun hf => ⟨hplaced' hf, hc.2.move (.turn hrunning hstep hturn)⟩, fun child ho => ?_⟩
    subst ho
    exact ⟨hchild child rfl, .of_isNew hturn.isNew⟩
  case skip =>
    intro c step vars hc hrunning hstep hcustom
    exact ⟨hplaced.skip hc.1 hrunning hstep hcustom, hc.2.move (.skip hrunning hstep hcustom)⟩
  case custom =>
    intro m id arguments handler hhandler hc hrunning hw
    obtain ⟨hcontrol, hkept⟩ := hk id handler hhandler arguments m
    refine ⟨fun hf => ⟨hc.1.of_control (hcontrol hf), hc.2.move (.custom hhandler hrunning)⟩,
      fun c hc => hw c (hkept ▸ hc)⟩
  case pause =>
    exact fun hc hrunning => ⟨hplaced.pause hc.1 hrunning, hc.2.move (.pause hrunning)⟩
  case wake => exact fun hc hpaused => ⟨hplaced.wake hc.1 hpaused, hc.2.move (.wake hpaused)⟩
  case choose => exact fun hc => ⟨hplaced.choose hc.1, hc.2.move (.choose _ _)⟩
  case countDown => exact fun hc => ⟨hplaced.countDown hc.1, hc.2.move (.countDown _ _)⟩

/-- **Every context that executes a step has a life.** -/
theorem Scheduler.Reachable.exists_life {e : Engine} {l : Library} (he : e.Serves l)
    (hl : l.Lawful) (hk : e.KeepsControl) {s : Scheduler} (hs : s.Reachable e) {op : Operation}
    {x : Machine} (hx : x ∈ op.visits s) : x.context.HasLife e := by
  have hstarts : ∀ op : Operation, op.Starts e fun c => c.Placed l ∧ c.HasLife e := by
    intro op id name ambient event ho hevent
    exact ⟨he.starts_placed hl op ho hevent, .of_isNew ⟨_, _, _, _, rfl⟩⟩
  -- a context that is placed is loaded as it was saved, so its life goes on
  have hplaced : ∀ c : Context, c.Placed l ∧ c.HasLife e → c.Placed l := fun _ hc => hc.1
  have hmaintains := he.maintains_hasLife hl hk
  obtain ⟨hengine, hhas⟩ := hmaintains.reachable hstarts (he.loads hl hplaced) hs
  exact (hmaintains.visited hengine hhas (hstarts op) hx).2

end Cutscene
