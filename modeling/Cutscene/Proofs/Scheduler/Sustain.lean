import Cutscene.Proofs.Run.Uphold
import Cutscene.Proofs.Scheduler.Operation
/-!
# Scheduler — invariants of operations

An engine carries a property of contexts and one of worlds when it upholds
them in an advance and the scheduler's own bookkeeping keeps them
(`Engine.Carries`): waking, counting down, taking in what was spawned. It
sustains them when making a choice keeps them too (`Engine.Sustains`). From this
follows what every operation keeps up to the sweep at its end.

`Operation.visits` lists the machines at which an operation executes a step,
and `Operation.advances` those that it advances: the first are the visits of
the second (`Operation.visits_eq`).
-/

namespace Cutscene

/-- Every context of the scheduler has a property, and the world has one. -/
def Scheduler.Has (C : Context → Prop) (W : World → Prop) (s : Scheduler) : Prop :=
  (∀ c ∈ s.contexts, C c) ∧ W s.world

/-- The engine upholds the properties, and the scheduler's bookkeeping keeps
them. -/
structure Engine.Carries (e : Engine) (C : Context → Prop) (W : World → Prop) : Prop
    extends e.Upholds C W where
  wake : ∀ {c : Context}, C c → c.state.isPaused →
    C { c with state := .running, boundary := none }
  countDown : ∀ {c : Context} {deltaMs : Float}, C c → C (Scheduler.countDown deltaMs c)
  spawned : ∀ {w : World}, W w → ∀ c ∈ w.spawned, C c
  takeSpawned : ∀ {w : World}, W w → W { w with spawned := [] }
  resumes : ∀ {w : World} {ids : List EventId}, W w → W { w with resumes := ids }
  tick : ∀ {w : World} {elapsedMs : Float} {frame : Nat}, W w → W { w with elapsedMs, frame }

/-- The engine carries the properties, and a choice that is made keeps them. -/
structure Engine.Sustains (e : Engine) (C : Context → Prop) (W : World → Prop) : Prop
    extends e.Carries C W where
  choose : ∀ {c : Context} {index : Nat}, C c → C { c with choice := some index }

/-! ## The scheduler's bookkeeping -/

namespace Scheduler

theorem mem_replaceIn {id : EventId} {c x : Context} {cs : List Context}
    (h : x ∈ replaceIn id c cs) : x = c ∨ x ∈ cs := by
  induction cs with
  | nil => simp [replaceIn] at h
  | cons old rest ih =>
    rw [replaceIn] at h
    split at h
    · rcases List.mem_cons.1 h with rfl | h
      · exact .inl rfl
      · exact .inr (List.mem_cons_of_mem _ h)
    · rcases List.mem_cons.1 h with rfl | h
      · exact .inr List.mem_cons_self
      · exact (ih h).imp_right (List.mem_cons_of_mem _)

theorem mem_of_context? {s : Scheduler} {id : EventId} {c : Context} (h : s.context? id = some c) :
    c ∈ s.contexts :=
  List.mem_of_find?_eq_some h

theorem wake?_eq {c c' : Context} (h : c.wake? = some c') :
    c.state.isPaused ∧ c' = { c with state := .running, boundary := none } := by
  unfold Context.wake? at h
  split at h
  · exact ⟨‹_›, (Option.some.inj h).symm⟩
  · simp at h

/-- A context is left by the sweep if it is not finished and its owner was not
destroyed. -/
theorem mem_sweep {s : Scheduler} {c : Context} :
    c ∈ s.sweep.contexts ↔
      c ∈ s.contexts ∧ isOrphan s.world.destroyed c = false ∧ c.state.isFinished = false := by
  simp only [sweep, List.mem_filter, List.mem_map, Bool.not_eq_true']
  constructor
  · rintro ⟨⟨x, hx, rfl⟩, hfinished⟩
    split at hfinished
    · simp [Context.finish, RunState.isFinished] at hfinished
    · rename_i horphan
      rw [if_neg horphan]
      exact ⟨hx, by simpa using horphan, hfinished⟩
  · rintro ⟨hc, horphan, hfinished⟩
    exact ⟨⟨c, hc, by simp [horphan]⟩, hfinished⟩

/-- The context with the choice made, if it waits for one with so many
options. -/
def chosen? (s : Scheduler) (id : EventId) (index : Nat) : Option Context :=
  (s.context? id).bind fun c =>
    match c.boundary with
    | some (.choice options) =>
      if options.length ≤ index then none
      else some ({ c with choice := some index }.wake?.getD { c with choice := some index })
    | _ => none

theorem chosen?_of {s : Scheduler} {id : EventId} {index : Nat} {c : Context}
    {options : List String} (hc : s.context? id = some c)
    (hb : c.boundary = some (.choice options)) (hi : index < options.length) :
    s.chosen? id index =
      some ({ c with choice := some index }.wake?.getD { c with choice := some index }) := by
  rw [chosen?, hc, Option.bind_some]
  simp only [hb, if_neg (Nat.not_le_of_lt hi)]

theorem chosen?_eq_some {s : Scheduler} {id : EventId} {index : Nat} {c' : Context}
    (h : s.chosen? id index = some c') :
    ∃ c options, s.context? id = some c ∧ c.boundary = some (.choice options) ∧
      index < options.length ∧
      c' = { c with choice := some index }.wake?.getD { c with choice := some index } := by
  obtain ⟨c, hc, h⟩ := Option.bind_eq_some_iff.1 h
  split at h
  · rename_i options hb
    split at h
    · simp at h
    · exact ⟨c, options, hc, hb, by omega, (Option.some.inj h).symm⟩
  · simp at h

/-- A choice that is accepted is that of the context, which goes on with it. -/
theorem choose_of_chosen {s : Scheduler} {id : EventId} {index : Nat} {c : Context}
    (h : s.chosen? id index = some c) :
    s.choose id index = ((s.advanceContext c).bind reconcile).map fun s => (.ok (), s) := by
  obtain ⟨x, options, hx, hb, hi, rfl⟩ := chosen?_eq_some h
  rw [choose, hx]
  simp only [hb, if_neg (Nat.not_le_of_lt hi)]

/-- Any other choice is refused, and nothing changes. -/
theorem choose_of_refused {s : Scheduler} {id : EventId} {index : Nat}
    (h : s.chosen? id index = none) : ∃ err, s.choose id index = some (.error err, s) := by
  rw [choose]
  cases hc : s.context? id with
  | none => exact ⟨_, rfl⟩
  | some c =>
    rw [chosen?, hc, Option.bind_some] at h
    simp only
    split
    · rename_i options hb
      simp only [hb] at h
      split
      · exact ⟨_, rfl⟩
      · rename_i hle
        rw [if_neg hle] at h
        simp at h
    · exact ⟨_, rfl⟩

/-- The scheduler as a round of requests finds it: what was spawned has joined,
and the requests are taken out. -/
def drained (s : Scheduler) : Scheduler :=
  { s.takeSpawned with world := { s.takeSpawned.world with resumes := [] } }

theorem meetRounds_succ (s : Scheduler) (rounds : Nat) :
    meetRounds (rounds + 1) s =
      if s.world.resumes.reverse.isEmpty then some s.drained
      else
        match meetRequests s.world.resumes.reverse s.drained with
        | none => none
        | some s => meetRounds rounds s :=
  rfl

/-- What a reconciliation makes: rounds of requests, and a sweep. -/
theorem reconcile_eq {s s' : Scheduler} (h : s.reconcile = some s') :
    ∃ s₁, meetRounds maxRounds s = some s₁ ∧
      s' = ({ s₁ with world := { s₁.world with resumes := [] } }.takeSpawned).sweep := by
  unfold reconcile at h
  split at h
  · simp at h
  · exact ⟨_, ‹_›, (Option.some.inj h).symm⟩

end Scheduler

/-- A scheduler keeps the properties when what it has advanced has them. -/
theorem Scheduler.Has.advanceContext {C : Context → Prop} {W : World → Prop} {s s' : Scheduler}
    (hs : s.Has C W) {c : Context}
    (hadvance : ∀ {m : Machine}, Machine.advance s.engine ⟨c, s.world⟩ = some m →
      C m.context ∧ W m.world)
    (hrun : s.advanceContext c = some s') : s'.engine = s.engine ∧ s'.Has C W := by
  unfold Scheduler.advanceContext at hrun
  split at hrun
  · simp at hrun
  rename_i m hm
  obtain rfl := Option.some.inj hrun
  obtain ⟨hc', hw'⟩ := hadvance hm
  refine ⟨rfl, fun x hx => ?_, hw'⟩
  rcases mem_replaceIn hx with rfl | hx
  · exact hc'
  · exact hs.1 x hx

namespace Engine.Carries

open Scheduler

variable {C : Context → Prop} {W : World → Prop} {s s' : Scheduler}

theorem advanceContext (h : s.engine.Carries C W) (hs : s.Has C W) {c : Context} (hc : C c)
    (hrun : s.advanceContext c = some s') : s'.engine = s.engine ∧ s'.Has C W :=
  hs.advanceContext (fun hm => h.advance hc hs.2 hm) hrun

theorem woken (h : s.engine.Carries C W) (hs : s.Has C W) {id : EventId} {c : Context}
    (hc : (s.context? id).bind Context.wake? = some c) : C c := by
  obtain ⟨x, hx, hwake⟩ := Option.bind_eq_some_iff.1 hc
  obtain ⟨hpaused, rfl⟩ := wake?_eq hwake
  exact h.wake (hs.1 x (mem_of_context? hx)) hpaused

theorem meetRequest (h : s.engine.Carries C W) (hs : s.Has C W) {id : EventId}
    (hrun : s.meetRequest id = some s') : s'.engine = s.engine ∧ s'.Has C W := by
  unfold Scheduler.meetRequest at hrun
  split at hrun
  · obtain rfl := Option.some.inj hrun
    exact ⟨rfl, hs⟩
  · exact h.advanceContext hs (h.woken hs ‹_›) hrun

theorem meetRequests {ids : List EventId} (h : s.engine.Carries C W) (hs : s.Has C W)
    (hrun : Scheduler.meetRequests ids s = some s') : s'.engine = s.engine ∧ s'.Has C W := by
  induction ids generalizing s with
  | nil =>
    obtain rfl := Option.some.inj hrun
    exact ⟨rfl, hs⟩
  | cons id ids ih =>
    rw [Scheduler.meetRequests] at hrun
    split at hrun
    · simp at hrun
    rename_i s₁ hs₁
    obtain ⟨he₁, hs₁⟩ := h.meetRequest hs hs₁
    obtain ⟨he', hs'⟩ := ih (he₁ ▸ h) hs₁ hrun
    exact ⟨he'.trans he₁, hs'⟩

theorem takenSpawned (h : s.engine.Carries C W) (hs : s.Has C W) : s.takeSpawned.Has C W := by
  refine ⟨fun c hc => ?_, h.takeSpawned hs.2⟩
  rcases List.mem_append.1 hc with hc | hc
  · exact hs.1 c hc
  · exact h.spawned hs.2 c (List.mem_reverse.1 hc)

theorem drained (h : s.engine.Carries C W) (hs : s.Has C W) : s.drained.Has C W :=
  ⟨(h.takenSpawned hs).1, h.resumes (h.takenSpawned hs).2⟩

theorem meetRounds {rounds : Nat} (h : s.engine.Carries C W) (hs : s.Has C W)
    (hrun : Scheduler.meetRounds rounds s = some s') : s'.engine = s.engine ∧ s'.Has C W := by
  induction rounds generalizing s with
  | zero =>
    obtain rfl := Option.some.inj hrun
    exact ⟨rfl, hs⟩
  | succ rounds ih =>
    rw [meetRounds_succ] at hrun
    split at hrun
    -- without requests the rounds end early
    · obtain rfl := Option.some.inj hrun
      exact ⟨rfl, h.drained hs⟩
    split at hrun
    · simp at hrun
    rename_i s₁ hs₁
    obtain ⟨he₁, hs₁⟩ := meetRequests (s := s.drained) h (h.drained hs) hs₁
    obtain ⟨he', hs'⟩ := ih (he₁ ▸ h) hs₁ hrun
    exact ⟨he'.trans he₁, hs'⟩

/-- **Up to the sweep, a reconciliation keeps the properties.** -/
theorem beforeSweep (h : s.engine.Carries C W) (hs : s.Has C W)
    (hrun : Scheduler.meetRounds maxRounds s = some s') :
    ({ s' with world := { s'.world with resumes := [] } }.takeSpawned).Has C W := by
  obtain ⟨he, hs'⟩ := h.meetRounds hs hrun
  exact takenSpawned (s := { s' with world := { s'.world with resumes := [] } }) (he ▸ h)
    ⟨hs'.1, h.resumes hs'.2⟩

theorem advanceAll {e : Engine} (h : e.Carries C W) {deltaMs : Float} {cs cs' : List Context}
    {w w' : World} (hcs : ∀ c ∈ cs, C c) (hw : W w)
    (hrun : Scheduler.advanceAll e deltaMs cs w = some (cs', w')) :
    (∀ c ∈ cs', C c) ∧ W w' := by
  induction cs generalizing w cs' w' with
  | nil =>
    obtain ⟨rfl, rfl⟩ := Prod.mk.inj (Option.some.inj hrun)
    exact ⟨hcs, hw⟩
  | cons c cs ih =>
    have hc : C (Scheduler.countDown deltaMs c) := h.countDown (hcs c List.mem_cons_self)
    have hrest : ∀ x ∈ cs, C x := fun x hx => hcs x (List.mem_cons_of_mem _ hx)
    rw [Scheduler.advanceAll] at hrun
    simp only at hrun
    split at hrun
    · split at hrun
      · simp at hrun
      rename_i m hm
      obtain ⟨hc', hw'⟩ := h.advance hc hw hm
      obtain ⟨⟨cs₁, w₁⟩, hmore, heq⟩ := Option.map_eq_some_iff.1 hrun
      obtain ⟨rfl, rfl⟩ := Prod.mk.inj heq
      obtain ⟨hcs₁, hw₁⟩ := ih hrest hw' hmore
      exact ⟨List.forall_mem_cons.2 ⟨hc', hcs₁⟩, hw₁⟩
    · obtain ⟨⟨cs₁, w₁⟩, hmore, heq⟩ := Option.map_eq_some_iff.1 hrun
      obtain ⟨rfl, rfl⟩ := Prod.mk.inj heq
      obtain ⟨hcs₁, hw₁⟩ := ih hrest hw hmore
      exact ⟨List.forall_mem_cons.2 ⟨hc, hcs₁⟩, hw₁⟩

/-- **What an operation prepares has the properties**, if the context that it
starts has them, and one that it makes a choice for when that has been
advanced. -/
theorem prepares (h : s.engine.Carries C W) (hs : s.Has C W) {op : Operation}
    (hstart : ∀ {name : String} {ambient : Ambient} {event : Compiled},
      op = .start name ambient → s.engine.event? name = some event →
      C (.start s.world.allocate.1 name (.root name) (Operation.startAmbient ambient event)))
    (hchoose : ∀ {id : EventId} {index : Nat} {c : Context} {m : Machine},
      op = .choose id index → s.chosen? id index = some c →
      Machine.advance s.engine ⟨c, s.world⟩ = some m → C m.context ∧ W m.world)
    (hprep : op.Prepares s s') : s'.engine = s.engine ∧ s'.Has C W := by
  cases hprep with
  | start hevent hm =>
    obtain ⟨hc, hw⟩ := h.advance (hstart rfl hevent) (h.allocate hs.2) hm
    refine ⟨rfl, fun c hc' => ?_, hw⟩
    rcases List.mem_append.1 hc' with hc' | hc'
    · exact hs.1 c hc'
    · rw [List.mem_singleton.1 hc']
      exact hc
  | update hrun => exact ⟨rfl, h.advanceAll hs.1 (h.tick hs.2) hrun⟩
  | resume hc hrun => exact h.advanceContext hs (h.woken hs hc) hrun
  | choose hc hb hi hrun =>
    exact hs.advanceContext (fun hm => hchoose rfl (chosen?_of hc hb hi) hm) hrun
  | stop hc =>
    refine ⟨rfl, fun x hx => ?_, hs.2⟩
    rcases mem_replaceIn hx with rfl | hx
    · exact h.finish (hs.1 _ (mem_of_context? hc))
    · exact hs.1 x hx
  | destroy id =>
    exact ⟨rfl, hs.1, h.effect (m := ⟨default, s.world⟩) (x := .destroy id) hs.2⟩

end Engine.Carries

namespace Engine.Sustains

open Scheduler

variable {C : Context → Prop} {W : World → Prop} {s s' : Scheduler}

theorem chosen (h : s.engine.Sustains C W) (hs : s.Has C W) {id : EventId} {index : Nat}
    {c : Context} (hc : s.chosen? id index = some c) : C c := by
  obtain ⟨x, options, hx, -, -, rfl⟩ := chosen?_eq_some hc
  have hchosen : C { x with choice := some index } := h.choose (hs.1 x (mem_of_context? hx))
  cases hwake : { x with choice := some index }.wake? with
  | none => exact hchosen
  | some c' =>
    obtain ⟨hpaused, rfl⟩ := wake?_eq hwake
    exact h.wake hchosen hpaused

/-- What an operation prepares has the properties, if the context that it starts
has them. -/
theorem prepares (h : s.engine.Sustains C W) (hs : s.Has C W) {op : Operation}
    (hstart : ∀ {name : String} {ambient : Ambient} {event : Compiled},
      op = .start name ambient → s.engine.event? name = some event →
      C (.start s.world.allocate.1 name (.root name) (Operation.startAmbient ambient event)))
    (hprep : op.Prepares s s') : s'.engine = s.engine ∧ s'.Has C W :=
  h.toCarries.prepares hs hstart (fun _ hc hm => h.advance (h.chosen hs hc) hs.2 hm) hprep

end Engine.Sustains

/-! ## The steps that an operation executes -/

namespace Scheduler

/-- The machines at which meeting a request executes a step. -/
def requestVisits (s : Scheduler) (id : EventId) : List Machine :=
  match (s.context? id).bind Context.wake? with
  | none => []
  | some c => Machine.visits s.engine ⟨c, s.world⟩

/-- The machines at which meeting requests executes a step. -/
def requestsVisits : List EventId → Scheduler → List Machine
  | [], _ => []
  | id :: rest, s =>
    s.requestVisits id ++
      match s.meetRequest id with
      | none => []
      | some s => requestsVisits rest s

/-- The machines at which rounds of requests execute a step. -/
def roundsVisits : Nat → Scheduler → List Machine
  | 0, _ => []
  | rounds + 1, s =>
    let s := s.takeSpawned
    let requests := s.world.resumes.reverse
    let s := { s with world := { s.world with resumes := [] } }
    if requests.isEmpty then []
    else
      requestsVisits requests s ++
        match meetRequests requests s with
        | none => []
        | some s => roundsVisits rounds s

/-- The machines at which reconciling executes a step. -/
def reconcileVisits : Option Scheduler → List Machine
  | none => []
  | some s => roundsVisits maxRounds s

/-- The machines at which a frame executes a step. -/
def frameVisits (e : Engine) (deltaMs : Float) : List Context → World → List Machine
  | [], _ => []
  | c :: rest, w =>
    let c := countDown deltaMs c
    if c.state.isRunning then
      Machine.visits e ⟨c, w⟩ ++
        match Machine.advance e ⟨c, w⟩ with
        | none => []
        | some m => frameVisits e deltaMs rest m.world
    else frameVisits e deltaMs rest w

end Scheduler

open Scheduler in
/-- The machines at which an operation executes a step, in order. -/
def Operation.visits (s : Scheduler) : Operation → List Machine
  | .start name ambient =>
    match s.engine.event? name with
    | none => []
    | some event =>
      let m : Machine := ⟨.start s.world.allocate.1 name (.root name) (startAmbient ambient event),
        s.world.allocate.2⟩
      m.visits s.engine ++ reconcileVisits ((Machine.advance s.engine m).map fun m =>
        { s with world := m.world, contexts := s.contexts ++ [m.context] })
  | .update deltaMs =>
    let world := { s.world with
      elapsedMs := s.world.elapsedMs + deltaMs, frame := s.world.frame + 1 }
    frameVisits s.engine deltaMs s.contexts world ++
      reconcileVisits ((advanceAll s.engine deltaMs s.contexts world).map fun (contexts, world) =>
        { s with contexts, world })
  | .resume id =>
    match (s.context? id).bind Context.wake? with
    | none => []
    | some c => Machine.visits s.engine ⟨c, s.world⟩ ++ reconcileVisits (s.advanceContext c)
  | .choose id index =>
    match s.context? id with
    | none => []
    | some c =>
      match c.boundary with
      | some (.choice options) =>
        if options.length ≤ index then []
        else
          let c := { c with choice := some index }
          let c := c.wake?.getD c
          Machine.visits s.engine ⟨c, s.world⟩ ++ reconcileVisits (s.advanceContext c)
      | _ => []
  | .stop id =>
    match s.context? id with
    | none => []
    | some c => reconcileVisits (some (s.replace id c.finish))
  | .destroy id => reconcileVisits (some { s with world := (s.world.destroyObject id).2 })
  | .edit _ => []
  | .snapshot => []

/-! ## The advances that an operation makes -/

namespace Scheduler

/-- The machine that meeting a request advances, if there is one. -/
def requestAdvances (s : Scheduler) (id : EventId) : List Machine :=
  match (s.context? id).bind Context.wake? with
  | none => []
  | some c => [⟨c, s.world⟩]

/-- The machines that meeting requests advances. -/
def requestsAdvances : List EventId → Scheduler → List Machine
  | [], _ => []
  | id :: rest, s =>
    s.requestAdvances id ++
      match s.meetRequest id with
      | none => []
      | some s => requestsAdvances rest s

/-- The machines that rounds of requests advance. -/
def roundsAdvances : Nat → Scheduler → List Machine
  | 0, _ => []
  | rounds + 1, s =>
    let s := s.takeSpawned
    let requests := s.world.resumes.reverse
    let s := { s with world := { s.world with resumes := [] } }
    if requests.isEmpty then []
    else
      requestsAdvances requests s ++
        match meetRequests requests s with
        | none => []
        | some s => roundsAdvances rounds s

/-- The machines that reconciling advances. -/
def reconcileAdvances : Option Scheduler → List Machine
  | none => []
  | some s => roundsAdvances maxRounds s

/-- The machines that a frame advances. -/
def frameAdvances (e : Engine) (deltaMs : Float) : List Context → World → List Machine
  | [], _ => []
  | c :: rest, w =>
    let c := countDown deltaMs c
    if c.state.isRunning then
      ⟨c, w⟩ ::
        match Machine.advance e ⟨c, w⟩ with
        | none => []
        | some m => frameAdvances e deltaMs rest m.world
    else frameAdvances e deltaMs rest w

end Scheduler

open Scheduler in
/-- The machines that an operation advances, in order. Those that a step of
them spawns are not among them. -/
def Operation.advances (s : Scheduler) : Operation → List Machine
  | .start name ambient =>
    match s.engine.event? name with
    | none => []
    | some event =>
      let m : Machine := ⟨.start s.world.allocate.1 name (.root name) (startAmbient ambient event),
        s.world.allocate.2⟩
      m :: reconcileAdvances ((Machine.advance s.engine m).map fun m =>
        { s with world := m.world, contexts := s.contexts ++ [m.context] })
  | .update deltaMs =>
    let world := { s.world with
      elapsedMs := s.world.elapsedMs + deltaMs, frame := s.world.frame + 1 }
    frameAdvances s.engine deltaMs s.contexts world ++
      reconcileAdvances ((advanceAll s.engine deltaMs s.contexts world).map
        fun (contexts, world) => { s with contexts, world })
  | .resume id =>
    match (s.context? id).bind Context.wake? with
    | none => []
    | some c => ⟨c, s.world⟩ :: reconcileAdvances (s.advanceContext c)
  | .choose id index =>
    match s.context? id with
    | none => []
    | some c =>
      match c.boundary with
      | some (.choice options) =>
        if options.length ≤ index then []
        else
          let c := { c with choice := some index }
          let c := c.wake?.getD c
          ⟨c, s.world⟩ :: reconcileAdvances (s.advanceContext c)
      | _ => []
  | .stop id =>
    match s.context? id with
    | none => []
    | some c => reconcileAdvances (some (s.replace id c.finish))
  | .destroy id => reconcileAdvances (some { s with world := (s.world.destroyObject id).2 })
  | .edit _ => []
  | .snapshot => []

namespace Scheduler

variable {s s' : Scheduler}

theorem engine_advanceContext {c : Context} (h : s.advanceContext c = some s') :
    s'.engine = s.engine := by
  unfold advanceContext at h
  split at h
  · simp at h
  · obtain rfl := Option.some.inj h
    rfl

theorem engine_meetRequest {id : EventId} (h : s.meetRequest id = some s') :
    s'.engine = s.engine := by
  unfold meetRequest at h
  split at h
  · obtain rfl := Option.some.inj h
    rfl
  · exact engine_advanceContext h

theorem engine_meetRequests {ids : List EventId} (h : meetRequests ids s = some s') :
    s'.engine = s.engine := by
  induction ids generalizing s with
  | nil =>
    obtain rfl := Option.some.inj h
    rfl
  | cons id ids ih =>
    rw [meetRequests] at h
    split at h
    · simp at h
    · exact (ih h).trans (engine_meetRequest ‹_›)

theorem roundsAdvances_succ (s : Scheduler) (rounds : Nat) :
    roundsAdvances (rounds + 1) s =
      if s.world.resumes.reverse.isEmpty then []
      else
        requestsAdvances s.world.resumes.reverse s.drained ++
          match meetRequests s.world.resumes.reverse s.drained with
          | none => []
          | some s => roundsAdvances rounds s :=
  rfl

theorem requestVisits_eq (s : Scheduler) (id : EventId) :
    s.requestVisits id = (s.requestAdvances id).flatMap (Machine.visits s.engine) := by
  unfold requestVisits requestAdvances
  split <;> simp

theorem requestsVisits_eq (ids : List EventId) (s : Scheduler) :
    requestsVisits ids s = (requestsAdvances ids s).flatMap (Machine.visits s.engine) := by
  induction ids generalizing s with
  | nil => rfl
  | cons id ids ih =>
    rw [requestsVisits, requestsAdvances, List.flatMap_append, requestVisits_eq]
    split
    · rfl
    · rename_i s₁ hs₁
      rw [ih, engine_meetRequest hs₁]

theorem roundsVisits_eq (rounds : Nat) (s : Scheduler) :
    roundsVisits rounds s = (roundsAdvances rounds s).flatMap (Machine.visits s.engine) := by
  induction rounds generalizing s with
  | zero => rfl
  | succ rounds ih =>
    simp only [roundsVisits, roundsAdvances]
    split
    · rfl
    rw [List.flatMap_append, requestsVisits_eq]
    split
    · rfl
    · rename_i s₁ hs₁
      rw [ih, engine_meetRequests hs₁]
      rfl

theorem frameVisits_eq (e : Engine) (deltaMs : Float) (cs : List Context) (w : World) :
    frameVisits e deltaMs cs w = (frameAdvances e deltaMs cs w).flatMap (Machine.visits e) := by
  induction cs generalizing w with
  | nil => rfl
  | cons c cs ih =>
    rw [frameVisits, frameAdvances]
    split
    · rw [List.flatMap_cons]
      split
      · rfl
      · rw [ih]
    · exact ih w

/-- What reconciling executes, of a scheduler that an advance left. -/
theorem reconcileVisits_eq {e : Engine} {o : Option Scheduler}
    (h : ∀ s, o = some s → s.engine = e) :
    reconcileVisits o = (reconcileAdvances o).flatMap (Machine.visits e) := by
  cases o with
  | none => rfl
  | some s => exact h s rfl ▸ roundsVisits_eq maxRounds s

end Scheduler

open Scheduler in
/-- **The steps that an operation executes are those of its advances.** -/
theorem Operation.visits_eq (s : Scheduler) (op : Operation) :
    op.visits s = (op.advances s).flatMap (Machine.visits s.engine) := by
  -- whatever is reconciled has the engine that the operation began with
  have hmap : ∀ {α : Type} {o : Option α} {f : α → Scheduler}, (∀ a, (f a).engine = s.engine) →
      reconcileVisits (o.map f) = (reconcileAdvances (o.map f)).flatMap
        (Machine.visits s.engine) := by
    refine fun {α o f} hf => reconcileVisits_eq fun s₁ hs₁ => ?_
    obtain ⟨a, -, rfl⟩ := Option.map_eq_some_iff.1 hs₁
    exact hf a
  have hadvanced : ∀ c, reconcileVisits (s.advanceContext c) =
      (reconcileAdvances (s.advanceContext c)).flatMap (Machine.visits s.engine) :=
    fun c => reconcileVisits_eq fun s₁ => engine_advanceContext
  cases op with
  | start name ambient =>
    simp only [Operation.visits, Operation.advances]
    split
    · rfl
    · rw [List.flatMap_cons, hmap]
      exact fun _ => rfl
  | update deltaMs =>
    simp only [Operation.visits, Operation.advances]
    rw [List.flatMap_append, frameVisits_eq, hmap]
    exact fun _ => rfl
  | resume id =>
    simp only [Operation.visits, Operation.advances]
    split
    · rfl
    · rw [List.flatMap_cons, hadvanced]
  | choose id index =>
    simp only [Operation.visits, Operation.advances]
    split
    · rfl
    split
    · split
      · rfl
      · rw [List.flatMap_cons, hadvanced]
    · rfl
  | stop id =>
    simp only [Operation.visits, Operation.advances]
    split
    · rfl
    · refine reconcileVisits_eq fun s₁ hs₁ => ?_
      obtain rfl := Option.some.inj hs₁
      rfl
  | destroy id =>
    simp only [Operation.visits, Operation.advances]
    refine reconcileVisits_eq fun s₁ hs₁ => ?_
    obtain rfl := Option.some.inj hs₁
    rfl
  | edit change => rfl
  | snapshot => rfl

namespace Engine.Carries

open Scheduler

variable {C : Context → Prop} {W : World → Prop} {s : Scheduler} {x : Machine}

theorem requestAdvances {id : EventId} (h : s.engine.Carries C W) (hs : s.Has C W)
    (hx : x ∈ s.requestAdvances id) : C x.context ∧ W x.world := by
  unfold Scheduler.requestAdvances at hx
  split at hx
  · simp at hx
  · obtain rfl := List.mem_singleton.1 hx
    exact ⟨h.woken hs ‹_›, hs.2⟩

theorem frameAdvances {e : Engine} (h : e.Carries C W) {deltaMs : Float} {cs : List Context}
    {w : World} (hcs : ∀ c ∈ cs, C c) (hw : W w)
    (hx : x ∈ Scheduler.frameAdvances e deltaMs cs w) : C x.context ∧ W x.world := by
  induction cs generalizing w with
  | nil => simp [Scheduler.frameAdvances] at hx
  | cons c cs ih =>
    have hc : C (Scheduler.countDown deltaMs c) := h.countDown (hcs c List.mem_cons_self)
    have hrest : ∀ x ∈ cs, C x := fun x hx => hcs x (List.mem_cons_of_mem _ hx)
    rw [Scheduler.frameAdvances] at hx
    split at hx
    · rcases List.mem_cons.1 hx with rfl | hx
      · exact ⟨hc, hw⟩
      · split at hx
        · simp at hx
        · rename_i m hm
          exact ih hrest (h.advance hc hw hm).2 hx
    · exact ih hrest hw hx

end Engine.Carries

end Cutscene
