import Cutscene.Proofs.Scheduler.Roundtrip
import Cutscene.Proofs.Scheduler.Untouched
/-!
# Scheduler — surplus requests to resume

Requests to resume are met in order, one by one, each by the scheduler that the
ones before have left. A request for a context that does not wait to be resumed
does nothing (`meetRequest_of_idle`), and while requests are met no such context
comes to wait (`Idle.meetRequests`). So, once the first of several requests for
a context has been met, the others are surplus as long as the context has not
paused again. If it has, the next of them ends that pause too
(`reconcile_surplus`).
-/

namespace Cutscene

namespace Scheduler

/-- No context of the number waits to be resumed. -/
def Idle (s : Scheduler) (id : EventId) : Prop :=
  ∀ c, s.context? id = some c → c.state.isPaused = false

/-- The scheduler with these requests to be met. -/
def asking (s : Scheduler) (ids : List EventId) : Scheduler :=
  { s with world := { s.world with resumes := ids.reverse } }

variable {s s' : Scheduler} {id id' : EventId} {ids : List EventId}

theorem drained_asking (s : Scheduler) (ids : List EventId) : (s.asking ids).drained = s.drained :=
  rfl

theorem meetRequests_append (ids more : List EventId) (s : Scheduler) :
    meetRequests (ids ++ more) s = (meetRequests ids s).bind (meetRequests more) := by
  induction ids generalizing s with
  | nil => rfl
  | cons id ids ih =>
    rw [List.cons_append, meetRequests, meetRequests]
    cases s.meetRequest id with
    | none => rfl
    | some s => exact ih s

/-- A request for a context that does not wait does nothing. -/
theorem meetRequest_of_idle (h : s.Idle id) : s.meetRequest id = some s := by
  rw [meetRequest]
  cases hc : s.context? id with
  | none => rfl
  | some c => rw [Option.bind_some, Context.wake?, if_neg (by simp [h c hc])]

/-- A request for a context that waits advances it out of its pause. -/
theorem meetRequest_of_paused {c : Context} (hc : s.context? id = some c)
    (hpaused : c.state.isPaused) :
    s.meetRequest id = s.advanceContext { c with state := .running, boundary := none } := by
  rw [meetRequest, hc, Option.bind_some, Context.wake?, if_pos hpaused]

/-- Requests advance only the contexts that they name. -/
theorem id_of_mem_requestAdvances {m : Machine} (hm : m ∈ s.requestAdvances id) :
    m.context.id = id := by
  obtain ⟨c, hc, -, rfl⟩ := mem_requestAdvances.1 hm
  simpa using List.find?_some hc

theorem id_of_mem_requestsAdvances {m : Machine} (hm : m ∈ requestsAdvances ids s) :
    m.context.id ∈ ids := by
  induction ids generalizing s with
  | nil => simp [requestsAdvances] at hm
  | cons id ids ih =>
    rw [requestsAdvances] at hm
    rcases List.mem_append.1 hm with hm | hm
    · exact List.mem_cons.2 (.inl (id_of_mem_requestAdvances hm))
    split at hm
    · simp at hm
    · exact List.mem_cons_of_mem _ (ih hm)

/-- No number is new among the contexts after a request is met. -/
theorem context?_eq_none_of_meetRequest (hk : s.engine.KeepsIdentities) (h : s.context? id = none)
    (hrun : s.meetRequest id' = some s') : s'.context? id = none := by
  rw [context?, List.find?_eq_none] at h ⊢
  rw [Scheduler.meetRequest] at hrun
  split at hrun
  · obtain rfl := Option.some.inj hrun
    exact h
  rename_i c hwoken
  obtain ⟨x, hx, hwake⟩ := Option.bind_eq_some_iff.1 hwoken
  obtain ⟨-, rfl⟩ := wake?_eq hwake
  rw [Scheduler.advanceContext] at hrun
  split at hrun
  · simp at hrun
  rename_i m hm
  obtain rfl := Option.some.inj hrun
  intro y hy
  rcases mem_replaceIn hy with rfl | hy
  · rw [hk.id_advance hm]
    exact h x (mem_of_context? hx)
  · exact h y hy

theorem Idle.meetRequest (hk : s.engine.KeepsIdentities) (h : s.Idle id)
    (hrun : s.meetRequest id' = some s') : s'.Idle id := by
  intro c hc
  cases hx : s.context? id with
  | none =>
    rw [context?_eq_none_of_meetRequest hk hx hrun] at hc
    cases hc
  | some x =>
    have hpaused := h x hx
    have hkept := hk.context?_meetRequest hx
      (fun m hm => ne_of_mem_requestAdvances hx hpaused hm) hrun
    rw [hkept] at hc
    exact Option.some.inj hc ▸ hpaused

/-- **For a context that does not wait all requests are surplus.** -/
theorem Idle.meetRequests_filter (hk : s.engine.KeepsIdentities) (h : s.Idle id)
    (ids : List EventId) : meetRequests ids s = meetRequests (ids.filter (· ≠ id)) s := by
  induction ids generalizing s with
  | nil => rfl
  | cons id' ids ih =>
    by_cases hid : id' = id
    · subst hid
      rw [List.filter_cons_of_neg (by simp), meetRequests, meetRequest_of_idle h]
      exact ih hk h
    · rw [List.filter_cons_of_pos (by simpa using hid), meetRequests, meetRequests]
      cases hs : s.meetRequest id' with
      | none => rfl
      | some s₁ => exact ih (engine_meetRequest hs ▸ hk) (h.meetRequest hk hs)

theorem meetRounds_asking (s : Scheduler) (rounds : Nat) (hids : ids ≠ []) :
    meetRounds (rounds + 1) (s.asking ids) =
      (meetRequests ids s.drained).bind (meetRounds rounds) := by
  have hresumes : (s.asking ids).world.resumes.reverse = ids := List.reverse_reverse ids
  rw [meetRounds_succ, hresumes, if_neg (by simpa using hids), drained_asking]
  cases meetRequests ids s.drained <;> rfl

/-- Reconciling comes to the same when the requests that are there do. -/
theorem reconcile_asking_congr {more : List EventId} (hids : ids ≠ []) (hmore : more ≠ [])
    (h : meetRequests ids s.drained = meetRequests more s.drained) :
    (s.asking ids).reconcile = (s.asking more).reconcile := by
  have hrounds : meetRounds maxRounds (s.asking ids) = meetRounds maxRounds (s.asking more) := by
    rw [show maxRounds = 9999 + 1 from rfl, meetRounds_asking s _ hids,
      meetRounds_asking s _ hmore, h]
  rw [reconcile, reconcile, hrounds]

/-- **Requests after the first are surplus until the context pauses again.**
Where meeting the first of them leaves no context of the number paused, the
others may as well not be there. Where it leaves the context paused again, the
next of them, whatever others are met between, ends that pause. -/
theorem reconcile_surplus (hk : s.engine.KeepsIdentities) (before after : List EventId)
    (id : EventId) :
    ((∀ s₁, meetRequests (before ++ [id]) s.drained = some s₁ → s₁.Idle id) →
      (s.asking (before ++ id :: after)).reconcile =
        (s.asking (before ++ id :: after.filter (· ≠ id))).reconcile) ∧
    ∀ s₁ s₂ c between, meetRequests (before ++ [id]) s.drained = some s₁ →
      s₁.context? id = some c → c.state.isPaused → id ∉ between →
      meetRequests between s₁ = some s₂ →
      s₂.context? id = some c ∧
        meetRequests (before ++ id :: (between ++ [id])) s.drained =
          s₂.advanceContext { c with state := .running, boundary := none } := by
  have hcut (more : List EventId) : meetRequests (before ++ id :: more) s.drained =
      (meetRequests (before ++ [id]) s.drained).bind (meetRequests more) := by
    rw [← meetRequests_append, List.append_assoc, List.singleton_append]
  constructor
  · intro hidle
    refine reconcile_asking_congr (by simp) (by simp) ?_
    rw [hcut after, hcut (after.filter (· ≠ id))]
    cases hs₁ : meetRequests (before ++ [id]) s.drained with
    | none => rfl
    | some s₁ =>
      exact (hidle s₁ hs₁).meetRequests_filter
        (engine_meetRequests (s := s.drained) hs₁ ▸ hk) after
  · intro s₁ s₂ c between hs₁ hc hpaused hbetween hs₂
    have hk₁ : s₁.engine.KeepsIdentities := engine_meetRequests (s := s.drained) hs₁ ▸ hk
    have hkept : s₂.context? id = some c := hk₁.context?_meetRequests hc
      (fun m hm heq => hbetween (heq ▸ id_of_mem_requestsAdvances hm)) hs₂
    refine ⟨hkept, ?_⟩
    rw [hcut, hs₁, Option.bind_some, meetRequests_append, hs₂, Option.bind_some, meetRequests,
      meetRequest_of_paused hkept hpaused]
    cases s₂.advanceContext { c with state := .running, boundary := none } <;> rfl

end Scheduler

/-- An event that pauses twice before it calls the host, and two that ask for it
to be resumed, one once and one twice. -/
def Library.urging : Library :=
  let handle : Json := .object
    [("variable", .object [("type", .string "global"), ("key", .string "main")])]
  let pause : Instruction := ⟨"pauseEvent", handle⟩
  let urge : Instruction := ⟨"continueEvent", handle⟩
  { events := .ofList
      [("main", ⟨"main", [pause, pause, ⟨"log", .object [("message", .string "ran")]⟩], .empty⟩),
       ("once", ⟨"once", [urge], .empty⟩),
       ("twice", ⟨"twice", [urge, urge], .empty⟩)] }

namespace Scheduler

/-- At its last pause an event is resumed as well by two requests as by one; at
the first of two the second request ends the second pause. -/
theorem reconcile_surplus_urging :
    (∃ s, Reachable (.ofLibrary .urging) s ∧ (s.asking [⟨1⟩]).reconcile.isSome ∧
      (s.asking [⟨1⟩, ⟨1⟩]).reconcile = (s.asking [⟨1⟩]).reconcile) ∧
    ∃ s s₁ c, Reachable (.ofLibrary .urging) s ∧ meetRequests [⟨1⟩] s.drained = some s₁ ∧
      s₁.context? ⟨1⟩ = some c ∧ c.state.isPaused ∧
      meetRequests [⟨1⟩, ⟨1⟩] s.drained =
        s₁.advanceContext { c with state := .running, boundary := none } := by
  have hk {s : Scheduler} (hs : Reachable (.ofLibrary .urging) s) : s.engine.KeepsIdentities :=
    hs.engine_eq ▸ Engine.keepsIdentities_ofLibrary .urging
  constructor
  · have hreached : (Operation.runAll (.fresh (.ofLibrary .urging) 0)
        [.start "main" .none, .start "once" .none]).any fun x =>
          (x.2.asking [⟨1⟩]).reconcile.isSome &&
            (meetRequests [⟨1⟩] x.2.drained).all fun s₁ =>
              (s₁.context? ⟨1⟩).all fun c => !c.state.isPaused := by
      decide +kernel
    obtain ⟨⟨rs, s⟩, hrun, hs⟩ := (Option.any_eq_true _ _).1 hreached
    obtain ⟨hsome, hidle⟩ := Bool.and_eq_true_iff.1 hs
    have hreach := (Reachable.fresh 0).runAll hrun
    refine ⟨s, hreach, hsome, ((reconcile_surplus (hk hreach) [] [⟨1⟩] ⟨1⟩).1 ?_)⟩
    intro s₁ hs₁ c hc
    rw [show meetRequests [⟨1⟩] s.drained = some s₁ from hs₁, Option.all_some, hc,
      Option.all_some] at hidle
    simpa using hidle
  · have hreached : (Operation.runAll (.fresh (.ofLibrary .urging) 0)
        [.start "main" .none]).any fun x => (meetRequests [⟨1⟩] x.2.drained).any fun s₁ =>
          (s₁.context? ⟨1⟩).any (·.state.isPaused) := by
      decide +kernel
    obtain ⟨⟨rs, s⟩, hrun, hs⟩ := (Option.any_eq_true _ _).1 hreached
    obtain ⟨s₁, hs₁, hpaused⟩ := (Option.any_eq_true _ _).1 hs
    obtain ⟨c, hc, hpaused⟩ := (Option.any_eq_true _ _).1 hpaused
    have hreach := (Reachable.fresh 0).runAll hrun
    have hskip := (reconcile_surplus (hk hreach) [] [] ⟨1⟩).2 s₁ s₁ c [] hs₁ hc hpaused
    exact ⟨s, s₁, c, hreach, hs₁, hc, hpaused, (hskip (by simp) rfl).2⟩

/-- **A surplus request skips a later pause.** From where the event first
pauses, one request leads to its second pause, and two, by another event or by
the host, lead past that to the call. -/
theorem exists_skipped_pause :
    ∃ s, Reachable (.ofLibrary .urging) s ∧
      (∃ r s' c, (Operation.start "once" .none).run s = some (r, s') ∧ s'.world.trace = [] ∧
        s'.context? ⟨1⟩ = some c ∧ c.state.isPaused) ∧
      (∃ r s', (Operation.start "twice" .none).run s = some (r, s') ∧ s'.world.trace ≠ [] ∧
        s'.context? ⟨1⟩ = none) ∧
      (∃ rs s' c, Operation.runAll s [.edit (.requestResume ⟨1⟩), .update 0.0] = some (rs, s') ∧
        s'.world.trace = [] ∧ s'.context? ⟨1⟩ = some c ∧ c.state.isPaused) ∧
      ∃ rs s', Operation.runAll s
          [.edit (.requestResume ⟨1⟩), .edit (.requestResume ⟨1⟩), .update 0.0] = some (rs, s') ∧
        s'.world.trace ≠ [] ∧ s'.context? ⟨1⟩ = none := by
  have hreached : (Operation.start "main" .none).leads (.fresh (.ofLibrary .urging) 0) fun _ s =>
      ((Operation.start "once" .none).leads s fun _ s' =>
        s'.world.trace.isEmpty && (s'.context? ⟨1⟩).any (·.state.isPaused)) &&
      ((Operation.start "twice" .none).leads s fun _ s' =>
        !s'.world.trace.isEmpty && (s'.context? ⟨1⟩).isNone) &&
      ((Operation.runAll s [.edit (.requestResume ⟨1⟩), .update 0.0]).any fun x =>
        x.2.world.trace.isEmpty && (x.2.context? ⟨1⟩).any (·.state.isPaused)) &&
      ((Operation.runAll s
          [.edit (.requestResume ⟨1⟩), .edit (.requestResume ⟨1⟩), .update 0.0]).any fun x =>
        !x.2.world.trace.isEmpty && (x.2.context? ⟨1⟩).isNone) := by
    decide +kernel
  obtain ⟨r, s, hstart, hs⟩ := Operation.exists_of_leads hreached
  simp only [Bool.and_eq_true] at hs
  obtain ⟨⟨⟨honce, htwice⟩, hasked⟩, hurged⟩ := hs
  refine ⟨s, (Reachable.fresh 0).run hstart, ?_, ?_, ?_, ?_⟩
  · obtain ⟨r, s', hrun, hs'⟩ := Operation.exists_of_leads honce
    obtain ⟨htrace, hcontext⟩ := Bool.and_eq_true_iff.1 hs'
    obtain ⟨c, hc, hpaused⟩ := (Option.any_eq_true _ _).1 hcontext
    exact ⟨r, s', c, hrun, List.isEmpty_iff.1 htrace, hc, hpaused⟩
  · obtain ⟨r, s', hrun, hs'⟩ := Operation.exists_of_leads htwice
    obtain ⟨htrace, hcontext⟩ := Bool.and_eq_true_iff.1 hs'
    exact ⟨r, s', hrun, by simpa using htrace, by simpa using hcontext⟩
  · obtain ⟨⟨rs, s'⟩, hrun, hs'⟩ := (Option.any_eq_true _ _).1 hasked
    obtain ⟨htrace, hcontext⟩ := Bool.and_eq_true_iff.1 hs'
    obtain ⟨c, hc, hpaused⟩ := (Option.any_eq_true _ _).1 hcontext
    exact ⟨rs, s', c, hrun, List.isEmpty_iff.1 htrace, hc, hpaused⟩
  · obtain ⟨⟨rs, s'⟩, hrun, hs'⟩ := (Option.any_eq_true _ _).1 hurged
    obtain ⟨htrace, hcontext⟩ := Bool.and_eq_true_iff.1 hs'
    exact ⟨rs, s', hrun, by simpa using htrace, by simpa using hcontext⟩

end Scheduler

end Cutscene
