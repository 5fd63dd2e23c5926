import Cutscene.Proofs.Scheduler.Prepare
/-!
# Scheduler — requests to resume

A request to resume is met while an operation reconciles, by a scheduler that
is neither the one before the operation nor the one after it. `Operation.met`
lists the requests that an operation meets, each with the scheduler that meets
it. An operation executes its own steps and then those of the requests
(`Operation.visits_eq_met`). What is carried holds of the schedulers that meet
them too (`Engine.Carries.met`), so what is sustained holds wherever an
operation executes a step (`Engine.Sustains.operationVisits`).
-/

namespace Cutscene

namespace Scheduler

/-- Requests met one after the other, each with the scheduler that meets it. -/
def requestsMet : List EventId → Scheduler → List (EventId × Scheduler)
  | [], _ => []
  | id :: rest, s =>
    (id, s) ::
      match s.meetRequest id with
      | none => []
      | some s => requestsMet rest s

/-- The requests met in rounds. -/
def roundsMet : Nat → Scheduler → List (EventId × Scheduler)
  | 0, _ => []
  | rounds + 1, s =>
    if s.world.resumes.reverse.isEmpty then []
    else
      requestsMet s.world.resumes.reverse s.drained ++
        match meetRequests s.world.resumes.reverse s.drained with
        | none => []
        | some s => roundsMet rounds s

end Scheduler

open Scheduler in
/-- **The requests that an operation meets**, in order, each with the scheduler
that meets it. -/
def Operation.met (s : Scheduler) (op : Operation) : List (EventId × Scheduler) :=
  (op.prepared s).elim [] (roundsMet maxRounds)

namespace Scheduler

/-- The machines that a request that is met advances. -/
def metAdvances (x : EventId × Scheduler) : List Machine := x.2.requestAdvances x.1

theorem requestsAdvances_eq (ids : List EventId) (s : Scheduler) :
    requestsAdvances ids s = (requestsMet ids s).flatMap metAdvances := by
  induction ids generalizing s with
  | nil => rfl
  | cons id ids ih =>
    rw [requestsAdvances, requestsMet, List.flatMap_cons, metAdvances]
    cases s.meetRequest id with
    | none => rfl
    | some s₁ => exact congrArg _ (ih s₁)

theorem roundsAdvances_eq (rounds : Nat) (s : Scheduler) :
    roundsAdvances rounds s = (roundsMet rounds s).flatMap metAdvances := by
  induction rounds generalizing s with
  | zero => rfl
  | succ rounds ih =>
    rw [roundsAdvances_succ, roundsMet]
    split
    · rfl
    rw [List.flatMap_append, requestsAdvances_eq]
    cases meetRequests s.world.resumes.reverse s.drained with
    | none => rfl
    | some s₁ => exact congrArg _ (ih s₁)

end Scheduler

namespace Operation

open Scheduler

/-- An operation advances its own machines, and then those of the requests. -/
theorem advances_eq_met (s : Scheduler) (op : Operation) :
    op.advances s = op.opening s ++ (op.met s).flatMap metAdvances := by
  rw [advances_eq, met]
  cases op.prepared s with
  | none => rfl
  | some s₁ => exact congrArg _ (roundsAdvances_eq maxRounds s₁)

/-- **An operation executes the steps of its own machines, and then those of the
requests that it meets.** -/
theorem visits_eq_met (s : Scheduler) (op : Operation) :
    op.visits s = (op.opening s).flatMap (Machine.visits s.engine) ++
      (op.met s).flatMap fun x => (metAdvances x).flatMap (Machine.visits s.engine) := by
  rw [visits_eq, advances_eq_met, List.flatMap_append, List.flatMap_assoc]

end Operation

/-! ## What the schedulers that meet requests have -/

namespace Engine.Carries

open Scheduler

variable {C : Context → Prop} {W : World → Prop} {s : Scheduler} {x : EventId × Scheduler}

theorem requestsMet {ids : List EventId} (h : s.engine.Carries C W) (hs : s.Has C W)
    (hx : x ∈ Scheduler.requestsMet ids s) : x.2.engine = s.engine ∧ x.2.Has C W := by
  induction ids generalizing s with
  | nil => simp [Scheduler.requestsMet] at hx
  | cons id ids ih =>
    rcases List.mem_cons.1 hx with rfl | hx
    · exact ⟨rfl, hs⟩
    split at hx
    · simp at hx
    · rename_i s₁ hs₁
      obtain ⟨he₁, hs₁⟩ := h.meetRequest hs hs₁
      obtain ⟨he, hhas⟩ := ih (he₁ ▸ h) hs₁ hx
      exact ⟨he.trans he₁, hhas⟩

/-- Every scheduler that meets a request has what is carried. -/
theorem roundsMet {rounds : Nat} (h : s.engine.Carries C W) (hs : s.Has C W)
    (hx : x ∈ Scheduler.roundsMet rounds s) : x.2.engine = s.engine ∧ x.2.Has C W := by
  induction rounds generalizing s with
  | zero => simp [Scheduler.roundsMet] at hx
  | succ rounds ih =>
    rw [Scheduler.roundsMet] at hx
    split at hx
    · simp at hx
    rcases List.mem_append.1 hx with hx | hx
    · exact requestsMet (s := s.drained) h (h.drained hs) hx
    split at hx
    · simp at hx
    · rename_i s₁ hs₁
      obtain ⟨he₁, hs₁⟩ := meetRequests (s := s.drained) h (h.drained hs) hs₁
      obtain ⟨he, hhas⟩ := ih (he₁ ▸ h) hs₁ hx
      exact ⟨he.trans he₁, hhas⟩

/-- Every scheduler that meets a request of an operation has what is carried, if
the context that the operation starts has it, and one that it makes a choice for
when that has been advanced. -/
theorem met (h : s.engine.Carries C W) (hs : s.Has C W) {op : Operation}
    (hstart : ∀ {name : String} {ambient : Ambient} {event : Compiled},
      op = .start name ambient → s.engine.event? name = some event →
      C (.start s.world.allocate.1 name (.root name) (Operation.startAmbient ambient event)))
    (hchoose : ∀ {id : EventId} {index : Nat} {c : Context} {m : Machine},
      op = .choose id index → s.chosen? id index = some c →
      Machine.advance s.engine ⟨c, s.world⟩ = some m → C m.context ∧ W m.world)
    (hx : x ∈ op.met s) : x.2.engine = s.engine ∧ x.2.Has C W := by
  rw [Operation.met] at hx
  cases hprep : op.prepared s with
  | none => simp [hprep] at hx
  | some s₁ =>
    rw [hprep] at hx
    obtain ⟨he₁, hs₁⟩ := h.prepares hs hstart hchoose (Operation.prepares_of_prepared hprep)
    obtain ⟨he, hhas⟩ := roundsMet (he₁ ▸ h) hs₁ hx
    exact ⟨he.trans he₁, hhas⟩

end Engine.Carries

/-! ## What the machines of an operation have -/

namespace Engine.Sustains

open Scheduler

variable {C : Context → Prop} {W : World → Prop} {s : Scheduler} {op : Operation} {x : Machine}

/-- **Whatever machine an operation advances, the properties hold of it**, if
they hold of the context that it starts. -/
theorem operationAdvances (h : s.engine.Sustains C W) (hs : s.Has C W)
    (hstart : ∀ {name : String} {ambient : Ambient} {event : Compiled},
      op = .start name ambient → s.engine.event? name = some event →
      C (.start s.world.allocate.1 name (.root name) (Operation.startAmbient ambient event)))
    (hx : x ∈ op.advances s) : C x.context ∧ W x.world := by
  rw [Operation.advances_eq_met] at hx
  rcases List.mem_append.1 hx with hx | hx
  · exact h.operationOpening hs hstart hx
  · obtain ⟨y, hy, hx⟩ := List.mem_flatMap.1 hx
    obtain ⟨he, hhas⟩ := h.toCarries.met hs hstart
      (fun _ hc hm => h.advance (h.chosen hs hc) hs.2 hm) hy
    exact Engine.Carries.requestAdvances (he ▸ h.toCarries) hhas hx

/-- **Wherever an operation executes a step, the properties hold**, if they
hold of the context that it starts. -/
theorem operationVisits (h : s.engine.Sustains C W) (hs : s.Has C W)
    (hstart : ∀ {name : String} {ambient : Ambient} {event : Compiled},
      op = .start name ambient → s.engine.event? name = some event →
      C (.start s.world.allocate.1 name (.root name) (Operation.startAmbient ambient event)))
    (hx : x ∈ op.visits s) : x.Runs C W := by
  rw [Operation.visits_eq] at hx
  obtain ⟨m, hm, hx⟩ := List.mem_flatMap.1 hx
  obtain ⟨hc, hw⟩ := h.operationAdvances hs hstart hm
  exact h.visits hc hw hx

end Engine.Sustains

end Cutscene
