import Cutscene.Proofs.Scheduler.Plan
/-!
# Scheduler — the course of an operation

An operation that is not refused goes through three stages: it advances some
contexts (`Operation.opening`) and leaves a prepared scheduler
(`Operation.prepared`), that one meets requests (`Scheduler.unswept`), and it
is swept. What an operation advances is what the first two stages do
(`Operation.advances_eq`), and its answer tells whether it went through them
(`Operation.run_stages`).
-/

namespace Cutscene

namespace Scheduler

variable {s s' : Scheduler}

/-- The scheduler that a reconciliation sweeps: requests are met and what was
spawned has joined. -/
def unswept (s : Scheduler) : Option Scheduler :=
  (meetRounds maxRounds s).map fun s =>
    { s with world := { s.world with resumes := [] } }.takeSpawned

theorem reconcile_eq_some (h : s.reconcile = some s') :
    ∃ s₁, s.unswept = some s₁ ∧ s' = s₁.sweep := by
  obtain ⟨s₁, hs₁, rfl⟩ := reconcile_eq h
  exact ⟨_, by rw [unswept, hs₁]; rfl, rfl⟩

end Scheduler

namespace Operation

open Scheduler

/-- The machines that an operation advances before it reconciles. -/
def opening (s : Scheduler) : Operation → List Machine
  | .start name ambient => (s.engine.event? name).toList.map (s.starting name ambient)
  | .update deltaMs => frameAdvances s.engine deltaMs s.contexts (s.ticked deltaMs)
  | .resume id => ((s.context? id).bind Context.wake?).toList.map (⟨·, s.world⟩)
  | .choose id index => (s.chosen? id index).toList.map (⟨·, s.world⟩)
  | .stop _ | .destroy _ | .edit _ | .snapshot => []

/-- The scheduler that an operation reconciles, if it is not refused. -/
def prepared (s : Scheduler) : Operation → Option Scheduler
  | .start name ambient =>
    (s.engine.event? name).bind fun event =>
      (Machine.advance s.engine (s.starting name ambient event)).map fun m =>
        s.holding (s.contexts ++ [m.context], m.world)
  | .update deltaMs =>
    (advanceAll s.engine deltaMs s.contexts (s.ticked deltaMs)).map s.holding
  | .resume id => ((s.context? id).bind Context.wake?).bind s.advanceContext
  | .choose id index => (s.chosen? id index).bind s.advanceContext
  | .stop id => (s.context? id).map fun c => s.replace id c.finish
  | .destroy id => some { s with world := (s.world.destroyObject id).2 }
  | .edit _ | .snapshot => none

/-- Does the answer tell that the operation was not refused and reconciled? -/
def reconciles : Operation → Reply → Bool
  | .start .., .started (.ok _) => true
  | .update _, _ => true
  | .resume _, .flag b => b
  | .choose .., .chosen (.ok _) => true
  | .stop _, .flag b => b
  | .destroy _, _ => true
  | _, _ => false

variable {s s' : Scheduler}

/-- **What an operation advances**: its own machines, and then those that
requests wake. -/
theorem advances_eq (s : Scheduler) (op : Operation) :
    op.advances s = op.opening s ++ reconcileAdvances (op.prepared s) := by
  cases op with
  | start name ambient =>
    simp only [advances, opening, prepared]
    cases s.engine.event? name with
    | none => rfl
    | some event => rfl
  | update deltaMs => rfl
  | resume id =>
    simp only [advances, opening, prepared]
    cases (s.context? id).bind Context.wake? with
    | none => rfl
    | some c => rfl
  | choose id index =>
    simp only [advances, opening, prepared, chosen?]
    cases s.context? id with
    | none => rfl
    | some c =>
      rw [Option.bind_some]
      simp only
      split
      · rename_i options hb
        simp only [hb]
        split <;> rfl
      · rfl
  | stop id =>
    simp only [advances, opening, prepared]
    cases s.context? id <;> rfl
  | _ => rfl

theorem prepares_of_prepared {op : Operation} (h : op.prepared s = some s') : op.Prepares s s' := by
  cases op with
  | start name ambient =>
    obtain ⟨event, hevent, h⟩ := Option.bind_eq_some_iff.1 h
    obtain ⟨m, hm, rfl⟩ := Option.map_eq_some_iff.1 h
    exact .start hevent hm
  | update deltaMs =>
    obtain ⟨left, hrun, rfl⟩ := Option.map_eq_some_iff.1 h
    exact .update hrun
  | resume id =>
    obtain ⟨c, hc, h⟩ := Option.bind_eq_some_iff.1 h
    exact .resume hc h
  | choose id index =>
    obtain ⟨c', hc', h⟩ := Option.bind_eq_some_iff.1 h
    obtain ⟨c, options, hc, hb, hi, rfl⟩ := chosen?_eq_some hc'
    exact .choose hc hb hi h
  | stop id =>
    obtain ⟨c, hc, rfl⟩ := Option.map_eq_some_iff.1 h
    exact .stop hc
  | destroy id =>
    obtain rfl := Option.some.inj h
    exact .destroy id
  | edit change => simp [prepared] at h
  | snapshot => simp [prepared] at h

theorem Prepares.engine {op : Operation} (h : op.Prepares s s') : s'.engine = s.engine := by
  cases h with
  | resume hc hrun => exact engine_advanceContext hrun
  | choose hc hb hi hrun => exact engine_advanceContext hrun
  | _ => rfl

/-- **The stages of an operation.** Its answer tells that what it has prepared
is reconciled; or it is refused, and then it advances nothing and no more than
edits the world. -/
theorem run_stages (s : Scheduler) (op : Operation) :
    (∃ r, op.reconciles r ∧ op.run s = ((op.prepared s).bind reconcile).map fun s' => (r, s')) ∨
      (op.prepared s = none ∧ op.opening s = [] ∧ ∃ r s', op.run s = some (r, s') ∧
        op.reconciles r = false ∧ (s' = s ∨ ∃ change, op = .edit change ∧
          s' = { s with world := (change.run s.world).2 })) := by
  cases op with
  | start name ambient =>
    rw [run]
    cases hevent : s.engine.event? name with
    | none =>
      rw [prepared, opening, hevent, Scheduler.start, hevent]
      exact .inr ⟨rfl, rfl, _, s, rfl, rfl, .inl rfl⟩
    | some event =>
      refine .inl ⟨.started (.ok s.world.allocate.1), rfl, ?_⟩
      rw [prepared, hevent, start_eq s hevent, Option.bind_some]
      cases Machine.advance s.engine (s.starting name ambient event) with
      | none => rfl
      | some m => exact Option.map_map ..
  | update deltaMs =>
    refine .inl ⟨.done, rfl, ?_⟩
    rw [run, prepared, update_eq]
    cases advanceAll s.engine deltaMs s.contexts (s.ticked deltaMs) <;> rfl
  | resume id =>
    rw [run, prepared, opening, Scheduler.resume]
    cases (s.context? id).bind Context.wake? with
    | none => exact .inr ⟨rfl, rfl, _, s, rfl, rfl, .inl rfl⟩
    | some c => exact .inl ⟨.flag true, rfl, Option.map_map ..⟩
  | choose id index =>
    rw [run, prepared, opening]
    cases hchosen : s.chosen? id index with
    | none =>
      obtain ⟨err, hrefused⟩ := choose_of_refused hchosen
      rw [hrefused]
      exact .inr ⟨rfl, rfl, _, s, rfl, rfl, .inl rfl⟩
    | some c =>
      rw [choose_of_chosen hchosen]
      exact .inl ⟨.chosen (.ok ()), rfl, Option.map_map ..⟩
  | stop id =>
    rw [run, prepared, opening, Scheduler.stop]
    cases s.context? id with
    | none => exact .inr ⟨rfl, rfl, _, s, rfl, rfl, .inl rfl⟩
    | some c => exact .inl ⟨.flag true, rfl, Option.map_map ..⟩
  | destroy id => exact .inl ⟨.removed (s.world.destroyObject id).1, rfl, Option.map_map ..⟩
  | edit change => exact .inr ⟨rfl, rfl, _, _, rfl, rfl, .inr ⟨change, rfl, rfl⟩⟩
  | snapshot => exact .inr ⟨rfl, rfl, _, s, rfl, rfl, .inl rfl⟩

/-- **The course of an operation.** As its answer tells, it reconciles what it
has prepared, or it runs nothing and no more than edits the world. -/
theorem run_course {op : Operation} {r : Reply} (h : op.run s = some (r, s')) :
    (op.reconciles r ∧ ∃ s₁, op.prepared s = some s₁ ∧ s₁.reconcile = some s') ∨
      (op.reconciles r = false ∧ op.prepared s = none ∧ op.opening s = [] ∧
        (s' = s ∨ ∃ change, op = .edit change ∧
          s' = { s with world := (change.run s.world).2 })) := by
  rcases op.run_stages s with ⟨r', hr, hrun⟩ | ⟨hprep, hopening, r', s₂, hrun, hr, hkept⟩
  · rw [hrun] at h
    obtain ⟨s₂, hs₂, heq⟩ := Option.map_eq_some_iff.1 h
    obtain ⟨rfl, rfl⟩ := Prod.mk.inj heq
    exact .inl ⟨hr, Option.bind_eq_some_iff.1 hs₂⟩
  · rw [hrun] at h
    obtain ⟨rfl, rfl⟩ := Prod.mk.inj (Option.some.inj h)
    exact .inr ⟨hr, hprep, hopening, hkept⟩

/-- **What an operation can do**: nothing, edit the world, or prepare a
scheduler and reconcile it. -/
theorem run_cases {op : Operation} {r : Reply} (h : op.run s = some (r, s')) :
    s' = s ∨ (∃ change, op = .edit change ∧ s' = { s with world := (change.run s.world).2 }) ∨
      ∃ s₁, op.Prepares s s₁ ∧ s₁.reconcile = some s' := by
  rcases run_course h with ⟨-, s₁, hprep, hrun⟩ | ⟨-, -, -, hkept⟩
  · exact .inr (.inr ⟨s₁, prepares_of_prepared hprep, hrun⟩)
  · exact hkept.imp_right .inl

/-- An operation executes the steps of its own machines, and then those of the
requests met while what it has prepared is reconciled. -/
theorem visits_eq_prepared (s : Scheduler) (op : Operation) :
    op.visits s = (op.opening s).flatMap (Machine.visits s.engine) ++
      reconcileVisits (op.prepared s) := by
  rw [visits_eq, advances_eq, List.flatMap_append,
    reconcileVisits_eq fun _ hprep => (prepares_of_prepared hprep).engine]

/-- The scheduler that an operation sweeps, if it is not refused. -/
def unswept (s : Scheduler) (op : Operation) : Option Scheduler :=
  (op.prepared s).bind Scheduler.unswept

end Operation

namespace Engine.Sustains

open Scheduler

variable {C : Context → Prop} {W : World → Prop} {s : Scheduler} {op : Operation} {x : Machine}

/-- What an operation advances before it reconciles has the properties, if the
context that it starts has them. -/
theorem operationOpening (h : s.engine.Sustains C W) (hs : s.Has C W)
    (hstart : ∀ {name : String} {ambient : Ambient} {event : Compiled},
      op = .start name ambient → s.engine.event? name = some event →
      C (.start s.world.allocate.1 name (.root name) (Operation.startAmbient ambient event)))
    (hx : x ∈ op.opening s) : C x.context ∧ W x.world := by
  cases op with
  | start name ambient =>
    obtain ⟨event, hevent, rfl⟩ := List.mem_map.1 hx
    exact ⟨hstart rfl (Option.mem_toList.1 hevent), h.allocate hs.2⟩
  | update deltaMs => exact h.frameAdvances hs.1 (h.tick hs.2) hx
  | resume id =>
    obtain ⟨c, hc, rfl⟩ := List.mem_map.1 hx
    exact ⟨h.woken hs (Option.mem_toList.1 hc), hs.2⟩
  | choose id index =>
    obtain ⟨c, hc, rfl⟩ := List.mem_map.1 hx
    exact ⟨h.chosen hs (Option.mem_toList.1 hc), hs.2⟩
  | _ => simp [Operation.opening] at hx

end Engine.Sustains

end Cutscene
