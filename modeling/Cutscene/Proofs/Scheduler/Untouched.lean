import Cutscene.Proofs.Scheduler.Request
import Cutscene.Proofs.Scheduler.Roll
/-!
# Scheduler — contexts that an operation does not touch

An operation advances some contexts and leaves all others where they are. A
context is followed here by its number: the scheduler finds it under that
before and after each stage of an operation, as long as no machine that is
advanced has the number (`Engine.KeepsIdentities.context?_run`). Only the time
of a frame is taken off a wait (`Operation.counted`).
-/

namespace Cutscene

namespace Scheduler

variable {s s' : Scheduler} {id : EventId} {x c : Context}

/-- Another context that is replaced by one of its number is not found. -/
theorem find?_replaceIn_of_ne {cs : List Context} (hc : c.id ≠ id) :
    (replaceIn c.id c cs).find? (·.id == id) = cs.find? (·.id == id) := by
  induction cs with
  | nil => rfl
  | cons old cs ih =>
    rw [replaceIn]
    split
    · rename_i hold
      have hold : old.id = c.id := by simpa using hold
      rw [List.find?_cons_of_neg (by simpa using hc),
        List.find?_cons_of_neg (by simpa [hold] using hc)]
    · simp only [List.find?_cons, ih]

theorem context?_append {more : List Context} {w : World} (h : s.context? id = some x) :
    ({ s with contexts := s.contexts ++ more, world := w } : Scheduler).context? id = some x := by
  rw [context?, List.find?_append]
  exact Option.or_eq_some_iff.2 (.inl h)

/-- The sweep leaves a context that has not finished and is no orphan. -/
theorem context?_sweep (h : s.context? id = some x) (hlive : x.state.isFinished = false)
    (horphan : isOrphan s.world.destroyed x = false) : s.sweep.context? id = some x := by
  unfold context? at h
  simp only [context?, sweep]
  generalize s.contexts = cs at h
  induction cs with
  | nil => simp at h
  | cons c cs ih =>
    rw [List.map_cons, List.filter_cons]
    by_cases hid : c.id = id
    · rw [List.find?_cons_of_pos (by simpa using hid)] at h
      obtain rfl := Option.some.inj h
      have hkept : (if isOrphan s.world.destroyed c then c.finish else c) = c :=
        if_neg (by simp [horphan])
      rw [hkept, if_pos (by simp [hlive]), List.find?_cons_of_pos (by simpa using hid)]
    · rw [List.find?_cons_of_neg (by simpa using hid)] at h
      -- finished or not, it is not the one that is looked for
      generalize hy : (if isOrphan s.world.destroyed c then c.finish else c) = y
      have hyid : y.id = c.id := by
        rw [← hy]
        split <;> rfl
      split
      · rw [List.find?_cons_of_neg (by simpa [hyid] using hid)]
        exact ih h
      · exact ih h

/-- The time of a frame leaves the number. -/
theorem id_countDown (deltaMs : Float) (c : Context) : (countDown deltaMs c).id = c.id := by
  obtain ⟨state, hstate⟩ := exists_countDown_eq deltaMs c
  rw [hstate]

/-- Meeting a request advances the context that it names, if that is paused. -/
theorem mem_requestAdvances {m : Machine} :
    m ∈ s.requestAdvances id ↔
      ∃ c, s.context? id = some c ∧ c.state.isPaused ∧
        m = ⟨{ c with state := .running, boundary := none }, s.world⟩ := by
  unfold requestAdvances
  constructor
  · intro hm
    split at hm
    · simp at hm
    · obtain rfl := List.mem_singleton.1 hm
      obtain ⟨x, hx, hwake⟩ := Option.bind_eq_some_iff.1 ‹_›
      obtain ⟨hpaused, rfl⟩ := wake?_eq hwake
      exact ⟨x, hx, hpaused, rfl⟩
  · rintro ⟨c, hc, hpaused, rfl⟩
    rw [hc, Option.bind_some, Context.wake?, if_pos hpaused]
    exact List.mem_singleton_self _

/-- A request leaves alone a context that is not paused. -/
theorem ne_of_mem_requestAdvances {id' : EventId} {m : Machine} (h : s.context? id = some x)
    (hpaused : x.state.isPaused = false) (hm : m ∈ s.requestAdvances id') : m.context.id ≠ id := by
  obtain ⟨c, hc, hcpaused, rfl⟩ := mem_requestAdvances.1 hm
  rintro rfl
  have hid : c.id = id' := by simpa using List.find?_some hc
  have hsame : s.context? id' = some x := hid ▸ h
  rw [hc] at hsame
  obtain rfl := Option.some.inj hsame
  rw [hpaused] at hcpaused
  simp at hcpaused

end Scheduler

namespace Engine.KeepsIdentities

open Scheduler

variable {s s' : Scheduler} {id : EventId} {x c : Context}

/-! ## What is not advanced -/

theorem id_advance {e : Engine} (hk : e.KeepsIdentities) {m m' : Machine}
    (hm : Machine.advance e m = some m') : m'.context.id = m.context.id :=
  congrArg Identity.id (hk.identity_advance hm)

theorem context?_advanceContext (hk : s.engine.KeepsIdentities) (h : s.context? id = some x)
    (hne : c.id ≠ id) (hrun : s.advanceContext c = some s') : s'.context? id = some x := by
  unfold Scheduler.advanceContext at hrun
  split at hrun
  · simp at hrun
  rename_i m hm
  obtain rfl := Option.some.inj hrun
  have hid : m.context.id = c.id := hk.id_advance hm
  show (replaceIn c.id m.context s.contexts).find? (·.id == id) = some x
  rw [← hid, find?_replaceIn_of_ne (by rw [hid]; exact hne)]
  exact h

theorem context?_meetRequest (hk : s.engine.KeepsIdentities) {id' : EventId}
    (h : s.context? id = some x) (hne : ∀ m ∈ s.requestAdvances id', m.context.id ≠ id)
    (hrun : s.meetRequest id' = some s') : s'.context? id = some x := by
  unfold Scheduler.meetRequest at hrun
  unfold requestAdvances at hne
  split at hrun
  · obtain rfl := Option.some.inj hrun
    exact h
  · simp only [‹(s.context? id').bind Context.wake? = some _›] at hne
    exact hk.context?_advanceContext h (hne _ (List.mem_singleton_self _)) hrun

theorem context?_meetRequests {ids : List EventId} (hk : s.engine.KeepsIdentities)
    (h : s.context? id = some x) (hne : ∀ m ∈ requestsAdvances ids s, m.context.id ≠ id)
    (hrun : Scheduler.meetRequests ids s = some s') : s'.context? id = some x := by
  induction ids generalizing s with
  | nil =>
    obtain rfl := Option.some.inj hrun
    exact h
  | cons id' ids ih =>
    rw [Scheduler.meetRequests] at hrun
    rw [requestsAdvances] at hne
    split at hrun
    · simp at hrun
    rename_i s₁ hs₁
    simp only [hs₁] at hne
    have hmet := hk.context?_meetRequest h (fun m hm => hne m (List.mem_append_left _ hm)) hs₁
    exact ih (engine_meetRequest hs₁ ▸ hk) hmet
      (fun m hm => hne m (List.mem_append_right _ hm)) hrun

theorem context?_meetRounds {rounds : Nat} (hk : s.engine.KeepsIdentities)
    (h : s.context? id = some x) (hne : ∀ m ∈ roundsAdvances rounds s, m.context.id ≠ id)
    (hrun : Scheduler.meetRounds rounds s = some s') : s'.context? id = some x := by
  induction rounds generalizing s with
  | zero =>
    obtain rfl := Option.some.inj hrun
    exact h
  | succ rounds ih =>
    have hdrained : s.drained.context? id = some x := context?_append h
    rw [meetRounds_succ] at hrun
    rw [roundsAdvances_succ] at hne
    split at hrun
    · obtain rfl := Option.some.inj hrun
      exact hdrained
    rw [if_neg ‹_›] at hne
    split at hrun
    · simp at hrun
    rename_i s₁ hs₁
    simp only [hs₁] at hne
    have hmet := context?_meetRequests (s := s.drained) hk hdrained
      (fun m hm => hne m (List.mem_append_left _ hm)) hs₁
    exact ih (engine_meetRequests (s := s.drained) hs₁ ▸ hk) hmet
      (fun m hm => hne m (List.mem_append_right _ hm)) hrun

theorem context?_unswept (hk : s.engine.KeepsIdentities) (h : s.context? id = some x)
    (hne : ∀ m ∈ reconcileAdvances (some s), m.context.id ≠ id) (hrun : s.unswept = some s') :
    s'.context? id = some x := by
  obtain ⟨s₁, hs₁, rfl⟩ := Option.map_eq_some_iff.1 hrun
  have hmet : s₁.context? id = some x := hk.context?_meetRounds h hne hs₁
  exact context?_append (s := s₁) hmet

/-- In a frame, a context that is not advanced has its wait counted down. -/
theorem find?_advanceAll {e : Engine} (hk : e.KeepsIdentities) {deltaMs : Float}
    {cs cs' : List Context} {w w' : World} (h : cs.find? (·.id == id) = some x)
    (hne : ∀ m ∈ frameAdvances e deltaMs cs w, m.context.id ≠ id)
    (hrun : Scheduler.advanceAll e deltaMs cs w = some (cs', w')) :
    cs'.find? (·.id == id) = some (countDown deltaMs x) := by
  induction cs generalizing w cs' w' with
  | nil => simp at h
  | cons c cs ih =>
    rw [Scheduler.advanceAll] at hrun
    rw [frameAdvances] at hne
    simp only at hrun
    have hcount := id_countDown deltaMs c
    -- a context that stands before the one looked for has another number, advanced or not
    have hpassed : ∀ {y : Context} {cs₁ : List Context} {w₁ w₂ : World}, y.id = c.id →
        c.id ≠ id → Scheduler.advanceAll e deltaMs cs w₁ = some (cs₁, w₂) →
        (∀ m ∈ frameAdvances e deltaMs cs w₁, m.context.id ≠ id) →
        (y :: cs₁).find? (·.id == id) = some (countDown deltaMs x) := by
      intro y cs₁ w₁ w₂ hy hid hmore hne
      rw [List.find?_cons_of_neg (by simpa using hid)] at h
      rw [List.find?_cons_of_neg (by simpa [hy] using hid)]
      exact ih h hne hmore
    split at hrun
    · rename_i hrunning
      rw [if_pos hrunning] at hne
      split at hrun
      · simp at hrun
      rename_i m hm
      obtain ⟨⟨cs₁, w₁⟩, hmore, heq⟩ := Option.map_eq_some_iff.1 hrun
      obtain ⟨rfl, rfl⟩ := Prod.mk.inj heq
      simp only [hm, List.forall_mem_cons, hcount] at hne
      exact hpassed ((hk.id_advance hm).trans hcount) hne.1 hmore hne.2
    · rename_i hrunning
      rw [if_neg hrunning] at hne
      obtain ⟨⟨cs₁, w₁⟩, hmore, heq⟩ := Option.map_eq_some_iff.1 hrun
      obtain ⟨rfl, rfl⟩ := Prod.mk.inj heq
      by_cases hid : c.id = id
      · rw [List.find?_cons_of_pos (by simpa using hid)] at h
        obtain rfl := Option.some.inj h
        rw [List.find?_cons_of_pos (by simpa [hcount] using hid)]
      · exact hpassed hcount hid hmore hne

end Engine.KeepsIdentities

/-- The context after the time of the operation: a frame is counted off a
wait. -/
def Operation.counted : Operation → Context → Context
  | .update deltaMs, c => Scheduler.countDown deltaMs c
  | _, c => c

theorem Operation.isFinished_counted (op : Operation) (c : Context) :
    (op.counted c).state.isFinished = c.state.isFinished := by
  cases op with
  | update deltaMs => exact Scheduler.isFinished_countDown deltaMs c
  | _ => rfl

/-- The time of an operation changes no more than the state. -/
theorem Operation.exists_counted_eq (op : Operation) (c : Context) :
    ∃ state, op.counted c = { c with state } := by
  cases op with
  | update deltaMs => exact Scheduler.exists_countDown_eq deltaMs c
  | _ => exact ⟨c.state, rfl⟩

namespace Engine.KeepsIdentities

open Scheduler

variable {s s' : Scheduler} {id : EventId} {x : Context}

/-- Before an operation reconciles, a context that it neither advances nor stops
has been counted down. -/
theorem context?_prepared (hk : s.engine.KeepsIdentities) {op : Operation}
    (h : s.context? id = some x) (hne : ∀ m ∈ op.opening s, m.context.id ≠ id)
    (hstop : op ≠ .stop id) (hprep : op.prepared s = some s') :
    s'.engine = s.engine ∧ s'.context? id = some (op.counted x) := by
  cases op with
  | start name ambient =>
    obtain ⟨event, hevent, hprep⟩ := Option.bind_eq_some_iff.1 hprep
    obtain ⟨m, hm, rfl⟩ := Option.map_eq_some_iff.1 hprep
    exact ⟨rfl, context?_append h⟩
  | update deltaMs =>
    obtain ⟨⟨cs, w⟩, hrun, rfl⟩ := Option.map_eq_some_iff.1 hprep
    exact ⟨rfl, hk.find?_advanceAll h hne hrun⟩
  | resume id' =>
    obtain ⟨c, hc, hrun⟩ := Option.bind_eq_some_iff.1 hprep
    rw [Operation.opening, hc, Option.toList_some, List.map_singleton] at hne
    exact ⟨engine_advanceContext hrun,
      hk.context?_advanceContext h (hne _ (List.mem_singleton_self _)) hrun⟩
  | choose id' index =>
    obtain ⟨c, hc, hrun⟩ := Option.bind_eq_some_iff.1 hprep
    rw [Operation.opening, hc, Option.toList_some, List.map_singleton] at hne
    exact ⟨engine_advanceContext hrun,
      hk.context?_advanceContext h (hne _ (List.mem_singleton_self _)) hrun⟩
  | stop id' =>
    obtain ⟨c, hc, rfl⟩ := Option.map_eq_some_iff.1 hprep
    have hid : c.id = id' := by simpa using List.find?_some hc
    have hne : c.finish.id ≠ id := by
      rintro rfl
      exact hstop (congrArg Operation.stop hid.symm)
    refine ⟨rfl, ?_⟩
    show (replaceIn id' c.finish s.contexts).find? (·.id == id) = some x
    rw [← hid]
    exact (find?_replaceIn_of_ne hne).trans h
  | destroy id' =>
    obtain rfl := Option.some.inj hprep
    exact ⟨rfl, h⟩
  | edit change => simp [Operation.prepared] at hprep
  | snapshot => simp [Operation.prepared] at hprep

/-- **An operation leaves a context that it does not touch where it is**: one
that it neither advances nor stops, and whose owner is not destroyed. -/
theorem context?_run (hk : s.engine.KeepsIdentities) {op : Operation} {r : Reply}
    (hop : op.run s = some (r, s')) (h : s.context? id = some x)
    (hne : ∀ m ∈ op.advances s, m.context.id ≠ id) (hlive : x.state.isFinished = false)
    (hstop : op ≠ .stop id)
    (horphan : ∀ s₁, op.unswept s = some s₁ → isOrphan s₁.world.destroyed x = false) :
    s'.context? id = some (op.counted x) := by
  rcases Operation.run_course hop with ⟨-, s₁, hprep, hrun⟩ | ⟨hrefused, hprep, -, hs'⟩
  · obtain ⟨s₂, hs₂, rfl⟩ := reconcile_eq_some hrun
    have hunswept : op.unswept s = some s₂ := by
      rw [Operation.unswept, hprep]
      exact hs₂
    rw [Operation.advances_eq, hprep] at hne
    obtain ⟨hengine, hprepared⟩ := hk.context?_prepared h
      (fun m hm => hne m (List.mem_append_left _ hm)) hstop hprep
    have hfound := (hengine ▸ hk : s₁.engine.KeepsIdentities).context?_unswept hprepared
      (fun m hm => hne m (List.mem_append_right _ hm)) hs₂
    refine context?_sweep hfound ((op.isFinished_counted x).trans hlive) ?_
    obtain ⟨state, hstate⟩ := op.exists_counted_eq x
    rw [hstate]
    exact horphan s₂ hunswept
  · -- what is refused is no frame
    have hcounted : op.counted x = x := by
      cases op with
      | update deltaMs => simp [Operation.reconciles] at hrefused
      | _ => rfl
    rw [hcounted]
    rcases hs' with rfl | ⟨change, -, rfl⟩ <;> exact h

/-! ## Requests -/

theorem context?_of_mem_requestsMet {ids : List EventId} (hk : s.engine.KeepsIdentities)
    (h : s.context? id = some x) (hpaused : x.state.isPaused = false) {y : EventId × Scheduler}
    (hy : y ∈ Scheduler.requestsMet ids s) : y.2.context? id = some x := by
  induction ids generalizing s with
  | nil => simp [Scheduler.requestsMet] at hy
  | cons id' ids ih =>
    rcases List.mem_cons.1 hy with rfl | hy
    · exact h
    split at hy
    · simp at hy
    · rename_i s₁ hs₁
      exact ih (engine_meetRequest hs₁ ▸ hk)
        (hk.context?_meetRequest h (fun m hm => ne_of_mem_requestAdvances h hpaused hm) hs₁) hy

theorem ne_of_mem_requestsAdvances {ids : List EventId} (hk : s.engine.KeepsIdentities)
    (h : s.context? id = some x) (hpaused : x.state.isPaused = false) {m : Machine}
    (hm : m ∈ requestsAdvances ids s) : m.context.id ≠ id := by
  rw [requestsAdvances_eq] at hm
  obtain ⟨y, hy, hm⟩ := List.mem_flatMap.1 hm
  exact ne_of_mem_requestAdvances (hk.context?_of_mem_requestsMet h hpaused hy) hpaused hm

/-- While requests are met, a context that is not paused stays as it is. -/
theorem context?_of_mem_roundsMet {rounds : Nat} (hk : s.engine.KeepsIdentities)
    (h : s.context? id = some x) (hpaused : x.state.isPaused = false) {y : EventId × Scheduler}
    (hy : y ∈ Scheduler.roundsMet rounds s) : y.2.context? id = some x := by
  induction rounds generalizing s with
  | zero => simp [Scheduler.roundsMet] at hy
  | succ rounds ih =>
    have hdrained : s.drained.context? id = some x := context?_append h
    rw [Scheduler.roundsMet] at hy
    split at hy
    · simp at hy
    rcases List.mem_append.1 hy with hy | hy
    · exact context?_of_mem_requestsMet (s := s.drained) hk hdrained hpaused hy
    split at hy
    · simp at hy
    · rename_i s₁ hs₁
      refine ih (engine_meetRequests (s := s.drained) hs₁ ▸ hk) ?_ hy
      exact context?_meetRequests (s := s.drained) hk hdrained
        (fun m hm => ne_of_mem_requestsAdvances (s := s.drained) hk hdrained hpaused hm) hs₁

/-- **No request reaches a context that is not paused**, unless the operation
itself has advanced it before. -/
theorem context?_of_mem_met (hk : s.engine.KeepsIdentities) {op : Operation}
    (h : s.context? id = some x) (hne : ∀ m ∈ op.opening s, m.context.id ≠ id)
    (hstop : op ≠ .stop id) (hpaused : (op.counted x).state.isPaused = false)
    {y : EventId × Scheduler} (hy : y ∈ op.met s) : y.2.context? id = some (op.counted x) := by
  rw [Operation.met] at hy
  cases hprep : op.prepared s with
  | none => simp [hprep] at hy
  | some s₁ =>
    rw [hprep] at hy
    obtain ⟨hengine, hprepared⟩ := hk.context?_prepared h hne hstop hprep
    exact (hengine ▸ hk : s₁.engine.KeepsIdentities).context?_of_mem_roundsMet hprepared hpaused hy

end Engine.KeepsIdentities

end Cutscene
