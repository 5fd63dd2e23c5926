import Mathlib.Algebra.Ring.Rat
import Cutscene.Proofs.Scheduler.Range
import Cutscene.Proofs.Scheduler.Rest
import Cutscene.Proofs.Scheduler.Untouched
/-!
# Scheduler — what wakes a context

A context executes a step in an operation just if something wakes it
(`Operation.Wakes`): a frame, if it runs or has waited long enough, or, while
it is paused, the host or a request that is met. Otherwise it stays as it is,
unless it is ended (`Operation.Ends`).

Along a course of operations a wait is counted down by the frames and by
nothing else, so it ends in the first frame that leaves nothing of it, and
frames alone do not move a context that is paused
(`Scheduler.Reachable.executes_iff_wakes`).

A context is followed by its number, so numbers have to be distinct
(`Operation.Distinct`). Once they have come round, a context that is resumed
may not be the one with the number that stands first
(`Scheduler.Reachable.exists_unwoken`).
-/

namespace Cutscene

namespace Operation

open Scheduler

/-- Some step that the operation executes is one of the context of the
number. -/
def Executes (s : Scheduler) (op : Operation) (id : EventId) : Prop :=
  ∃ x ∈ op.visits s, x.context.id = id

/-- The operation itself wakes the context. -/
inductive Rouses (op : Operation) (c : Context) : Prop
  /-- A frame, if the context runs or has waited long enough. -/
  | frame {deltaMs : Float} (hop : op = .update deltaMs)
      (hdue : c.state.isRunning ∨
        ∃ remainingMs, c.state = .waiting remainingMs ∧ remainingMs - deltaMs ≤ 0.0)
  /-- The host resumes it while it is paused. -/
  | resume (hop : op = .resume c.id) (hpaused : c.state.isPaused)
  /-- The host makes the choice that it waits for. -/
  | choose {index : Nat} {options : List String} (hop : op = .choose c.id index)
      (hboundary : c.boundary = some (.choice options)) (hindex : index < options.length)
      (hpaused : c.state.isPaused)

/-- **What wakes a context**: the operation itself, or a request to resume it
that is met while it is paused. -/
inductive Wakes (s : Scheduler) (op : Operation) (c : Context) : Prop
  | itself (h : op.Rouses c)
  | request {s₁ : Scheduler} {c₁ : Context} (hmet : (c.id, s₁) ∈ op.met s)
      (hcontext : s₁.context? c.id = some c₁) (hpaused : c₁.state.isPaused)

/-- The operation stops the context, or its owner is found destroyed at the end
of it. -/
def Ends (s : Scheduler) (op : Operation) (c : Context) : Prop :=
  op = .stop c.id ∨ ∃ s₁, op.unswept s = some s₁ ∧ isOrphan s₁.world.destroyed c

/-- No two contexts that are live before the operation or created in it have the
same number. -/
def Distinct (s : Scheduler) (op : Operation) : Prop :=
  ((s.contexts.map Context.identity ++ op.created s).map Identity.id).Nodup

variable {s s' : Scheduler} {op : Operation} {c : Context} {m : Machine}

/-- Only stopping it ends a context that nothing owns. -/
theorem not_ends (howner : c.ambient.owner = none) (hstop : op ≠ .stop c.id) : ¬ op.Ends s c := by
  rintro (h | ⟨s₁, -, horphan⟩)
  · exact hstop h
  · simp [isOrphan, howner] at horphan

namespace Distinct

theorem notMem_created (h : op.Distinct s) (hc : c ∈ s.contexts) {x : Identity}
    (hx : x ∈ op.created s) : x.id ≠ c.id := by
  rw [Distinct, List.map_append, List.nodup_append] at h
  exact (h.2.2 c.id (List.mem_map_of_mem (f := Identity.id) (List.mem_map_of_mem hc))
    x.id (List.mem_map_of_mem hx)).symm

/-- A live context is the only one of its number. -/
theorem eq_of_id (h : op.Distinct s) {x : Context} (hx : x ∈ s.contexts) (hc : c ∈ s.contexts)
    (hid : x.id = c.id) : x = c := by
  rw [Distinct, List.map_append, List.map_map, List.nodup_append] at h
  exact List.inj_on_of_nodup_map h.1 hx hc hid

/-- A live context is found by its number. -/
theorem context?_eq (h : op.Distinct s) (hc : c ∈ s.contexts) : s.context? c.id = some c := by
  cases hfound : s.context? c.id with
  | none => exact absurd (List.find?_eq_none.1 hfound c hc) (by simp)
  | some x =>
    have hid : x.id = c.id := by simpa using List.find?_some hfound
    rw [h.eq_of_id (mem_of_context? hfound) hc hid]

end Distinct

/-- Numbers are distinct as long as they have not come round. -/
theorem distinct_of_length_lt {e : Engine} (hk : e.KeepsIdentities) {past : List Identity}
    (hs : s.ReachableCreating e past) {r : Reply} (hop : op.run s = some (r, s'))
    (hsize : (past ++ op.created s).length < UInt64.size) : op.Distinct s := by
  have hincreasing := (hs.run hop).increasing hk hsize
  rw [List.length_append] at hsize
  obtain ⟨hnodup, hpast⟩ := hs.distinct hk (by omega)
  have hfresh : ((past ++ op.created s).map Identity.id).Nodup := by
    refine List.Nodup.of_map EventId.val ?_
    rw [List.map_map]
    exact hincreasing.imp Nat.ne_of_lt
  rw [List.map_append, List.nodup_append] at hfresh
  rw [Distinct, List.map_append, List.map_map, List.nodup_append]
  refine ⟨hnodup, hfresh.2.1, fun a ha b hb => ?_⟩
  obtain ⟨c, hc, rfl⟩ := List.mem_map.1 ha
  exact hfresh.2.2 _ (List.mem_map_of_mem (hpast c hc)) b hb

end Operation

/-! ## Frames -/

namespace Scheduler

variable {e : Engine} {deltaMs : Float} {cs : List Context} {w : World} {c : Context}

/-- A context runs in a frame if it ran before or has waited long enough. -/
theorem isRunning_countDown :
    (countDown deltaMs c).state.isRunning ↔ c.state.isRunning ∨
      ∃ remainingMs, c.state = .waiting remainingMs ∧ remainingMs - deltaMs ≤ 0.0 := by
  unfold countDown
  cases hstate : c.state with
  | waiting remainingMs =>
    simp only [RunState.isRunning, Bool.false_eq_true, false_or, RunState.waiting.injEq,
      exists_eq_left']
    by_cases hdue : remainingMs - deltaMs ≤ 0.0
    · simp only [hdue, if_true]
    · simp only [hdue, if_false, Bool.false_eq_true]
  | _ => simp [hstate, RunState.isRunning]

theorem countDown_eq_self (h : c.state.isPaused) : countDown deltaMs c = c := by
  unfold countDown
  cases hstate : c.state with
  | waiting remainingMs => simp [hstate, RunState.isPaused] at h
  | _ => rfl

theorem mem_frameAdvances {m : Machine} (hm : m ∈ frameAdvances e deltaMs cs w) :
    ∃ c ∈ cs, m.context = countDown deltaMs c ∧ m.context.state.isRunning := by
  induction cs generalizing w with
  | nil => simp [frameAdvances] at hm
  | cons c cs ih =>
    rw [frameAdvances] at hm
    have hrest : ∀ {w}, m ∈ frameAdvances e deltaMs cs w →
        ∃ x ∈ c :: cs, m.context = countDown deltaMs x ∧ m.context.state.isRunning := by
      intro w hm
      obtain ⟨x, hx, hrest⟩ := ih hm
      exact ⟨x, List.mem_cons_of_mem _ hx, hrest⟩
    split at hm
    · rename_i hrunning
      rcases List.mem_cons.1 hm with rfl | hm
      · exact ⟨c, List.mem_cons_self, rfl, hrunning⟩
      · split at hm
        · simp at hm
        · exact hrest hm
    · exact hrest hm

/-- Every context that runs in a frame is advanced. -/
theorem exists_mem_frameAdvances (hc : c ∈ cs) (hrunning : (countDown deltaMs c).state.isRunning)
    (hrun : (advanceAll e deltaMs cs w).isSome) :
    ∃ m ∈ frameAdvances e deltaMs cs w, m.context = countDown deltaMs c := by
  induction cs generalizing w with
  | nil => simp at hc
  | cons x cs ih =>
    rw [advanceAll] at hrun
    rw [frameAdvances]
    simp only at hrun
    split at hrun
    · rename_i hx
      rw [if_pos hx]
      rcases List.mem_cons.1 hc with rfl | hc
      · exact ⟨_, List.mem_cons_self, rfl⟩
      cases hm : Machine.advance e ⟨countDown deltaMs x, w⟩ with
      | none => simp [hm] at hrun
      | some m =>
        simp only [hm, Option.isSome_map] at hrun ⊢
        obtain ⟨y, hy, hcontext⟩ := ih hc hrun
        exact ⟨y, List.mem_cons_of_mem _ hy, hcontext⟩
    · rename_i hx
      rw [if_neg hx]
      rw [Option.isSome_map] at hrun
      rcases List.mem_cons.1 hc with rfl | hc
      · exact absurd hrunning hx
      · exact ih hc hrun

end Scheduler

namespace Operation

open Scheduler

variable {s s' : Scheduler} {op : Operation} {c : Context} {m : Machine} {r : Reply}

/-! ## What is advanced has been woken -/

/-- What an operation itself advances is a context that it starts or wakes. -/
theorem rouses_of_mem_opening (hdistinct : op.Distinct s) (hc : c ∈ s.contexts)
    (hchoice : ∀ options, c.boundary = some (.choice options) → c.state.isPaused)
    (hm : m ∈ op.opening s) (hid : m.context.id = c.id) : op.Rouses c := by
  have hfound := hdistinct.context?_eq hc
  -- the context that an operation finds is this one
  have hsame : ∀ {id : EventId} {x : Context}, s.context? id = some x → x.id = c.id →
      x = c ∧ id = c.id := by
    intro id x hx hxid
    have hid : x.id = id := by simpa using List.find?_some hx
    exact ⟨hdistinct.eq_of_id (mem_of_context? hx) hc hxid, hid.symm.trans hxid⟩
  cases op with
  | start name ambient =>
    obtain ⟨event, hevent, rfl⟩ := List.mem_map.1 hm
    have hcreated : (s.starting name ambient event).context.identity ∈
        (Operation.start name ambient).created s :=
      List.mem_append_left _ (List.mem_map_of_mem (f := fun event =>
        (s.starting name ambient event).context.identity) hevent)
    exact absurd hid (hdistinct.notMem_created hc hcreated)
  | update deltaMs =>
    obtain ⟨x, hx, hcontext, hrunning⟩ := mem_frameAdvances hm
    rw [hcontext, id_countDown] at hid
    obtain rfl := hdistinct.eq_of_id hx hc hid
    rw [hcontext] at hrunning
    exact .frame rfl (isRunning_countDown.1 hrunning)
  | resume id =>
    obtain ⟨x', hx', rfl⟩ := List.mem_map.1 hm
    obtain ⟨x, hx, hwake⟩ := Option.bind_eq_some_iff.1 (Option.mem_toList.1 hx')
    obtain ⟨hpaused, rfl⟩ := wake?_eq hwake
    obtain ⟨rfl, rfl⟩ := hsame hx hid
    exact .resume rfl hpaused
  | choose id index =>
    obtain ⟨x', hx', rfl⟩ := List.mem_map.1 hm
    obtain ⟨x, options, hx, hb, hi, rfl⟩ := chosen?_eq_some (Option.mem_toList.1 hx')
    obtain ⟨rfl, rfl⟩ := hsame hx ((x.chosen_live index).1.symm.trans hid)
    exact .choose rfl hb hi (hchoice options hb)
  | _ => simp [opening] at hm

/-- A context that executes a step has been woken. -/
theorem wakes_of_executes (hk : s.engine.KeepsIdentities) (hdistinct : op.Distinct s)
    (hc : c ∈ s.contexts) (hchoice : ∀ options, c.boundary = some (.choice options) →
      c.state.isPaused) (h : op.Executes s c.id) : op.Wakes s c := by
  obtain ⟨x, hx, hid⟩ := h
  rw [visits_eq] at hx
  obtain ⟨m, hm, hx⟩ := List.mem_flatMap.1 hx
  rw [Machine.visits_eq] at hx
  -- a context that is created has another number, so the step is of the machine advanced
  have hmid : m.context.id = c.id := by
    rcases hk.fetched (List.mem_filter.1 hx).1 with hsame | hcreated
    · exact (congrArg Identity.id hsame).symm.trans hid
    · exact absurd hid (hdistinct.notMem_created hc
        (List.mem_append_right _ (List.mem_flatMap.2 ⟨m, hm, hcreated⟩)))
  rw [advances_eq_met] at hm
  rcases List.mem_append.1 hm with hm | hm
  · exact .itself (rouses_of_mem_opening hdistinct hc hchoice hm hmid)
  · obtain ⟨⟨id, s₁⟩, hmet, hm⟩ := List.mem_flatMap.1 hm
    obtain ⟨c₁, hc₁, hpaused, rfl⟩ := mem_requestAdvances.1 hm
    have hid₁ : c₁.id = id := by simpa using List.find?_some hc₁
    have hsame : id = c.id := hid₁.symm.trans hmid
    exact .request (hsame ▸ hmet) (hsame ▸ hc₁) hpaused

theorem executes_of_mem_advances (hm : m ∈ op.advances s)
    (hvisits : ∃ rest, m.visits s.engine = m :: rest) : op.Executes s m.context.id := by
  obtain ⟨rest, hvisits⟩ := hvisits
  refine ⟨m, ?_, rfl⟩
  rw [visits_eq]
  exact List.mem_flatMap.2 ⟨m, hm, by rw [hvisits]; exact List.mem_cons_self⟩

/-- A context that is woken is advanced. -/
theorem exists_mem_advances_of_wakes (hop : op.run s = some (r, s'))
    (hfound : s.context? c.id = some c) (h : op.Wakes s c) :
    ∃ m ∈ op.advances s, m.context.id = c.id := by
  rw [advances_eq_met]
  rcases h with ⟨⟨rfl, hdue⟩ | ⟨rfl, hpaused⟩ | ⟨rfl, hb, hi, hpaused⟩⟩ | ⟨hmet, hc₁, hpaused⟩
  case itself.frame deltaMs =>
    have hrun : (advanceAll s.engine deltaMs s.contexts (s.ticked deltaMs)).isSome := by
      rcases run_course hop with ⟨-, s₁, hprep, -⟩ | ⟨hrefused, -⟩
      · obtain ⟨left, hrun, -⟩ := Option.map_eq_some_iff.1 hprep
        rw [hrun]
        rfl
      · simp [reconciles] at hrefused
    obtain ⟨m, hm, hcontext⟩ := exists_mem_frameAdvances (mem_of_context? hfound)
      (isRunning_countDown.2 hdue) hrun
    exact ⟨m, List.mem_append_left _ hm, by rw [hcontext, id_countDown]⟩
  case itself.resume =>
    refine ⟨⟨{ c with state := .running, boundary := none }, s.world⟩,
      List.mem_append_left _ ?_, rfl⟩
    rw [opening, hfound, Option.bind_some, Context.wake?, if_pos hpaused]
    exact List.mem_singleton_self _
  case itself.choose index options =>
    refine ⟨⟨{ c with choice := some index }.wake?.getD { c with choice := some index }, s.world⟩,
      List.mem_append_left _ ?_, (c.chosen_live index).1⟩
    rw [opening, chosen?_of hfound hb hi]
    exact List.mem_singleton_self _
  case request s₁ c₁ =>
    have hid : c₁.id = c.id := by simpa using List.find?_some hc₁
    exact ⟨_, List.mem_append_right _ (List.mem_flatMap.2
      ⟨_, hmet, mem_requestAdvances.2 ⟨c₁, hc₁, hpaused, rfl⟩⟩), hid⟩

/-- What an operation advances runs, if only paused contexts wait for a
choice. -/
theorem isRunning_of_mem_advances (hchoice : ∀ c ∈ s.contexts, ∀ options,
    c.boundary = some (.choice options) → c.state.isPaused) (hm : m ∈ op.advances s) :
    m.context.state.isRunning := by
  rw [advances_eq_met] at hm
  rcases List.mem_append.1 hm with hm | hm
  · cases op with
    | start name ambient =>
      obtain ⟨event, -, rfl⟩ := List.mem_map.1 hm
      rfl
    | update deltaMs =>
      obtain ⟨x, -, -, hrunning⟩ := mem_frameAdvances hm
      exact hrunning
    | resume id =>
      obtain ⟨x', hx', rfl⟩ := List.mem_map.1 hm
      obtain ⟨x, -, hwake⟩ := Option.bind_eq_some_iff.1 (Option.mem_toList.1 hx')
      obtain ⟨-, rfl⟩ := wake?_eq hwake
      rfl
    | choose id index =>
      obtain ⟨x', hx', rfl⟩ := List.mem_map.1 hm
      obtain ⟨x, options, hx, hb, -, rfl⟩ := chosen?_eq_some (Option.mem_toList.1 hx')
      have hpaused : ({ x with choice := some index } : Context).state.isPaused :=
        hchoice x (mem_of_context? hx) options hb
      rw [Context.wake?, if_pos hpaused]
      rfl
    | _ => simp [opening] at hm
  · obtain ⟨y, -, hm⟩ := List.mem_flatMap.1 hm
    obtain ⟨c₁, -, -, rfl⟩ := mem_requestAdvances.1 hm
    rfl

end Operation

/-! ## Courses of operations -/

/-- Operations one after the other, each with the scheduler that it finds. -/
inductive Scheduler.Course : Scheduler → List (Scheduler × Operation) → Scheduler → Prop
  | nil (s : Scheduler) : Course s [] s
  | cons {s s₁ s' : Scheduler} {op : Operation} {r : Reply} {later : List (Scheduler × Operation)}
      (hop : op.run s = some (r, s₁)) (h : Course s₁ later s') : Course s ((s, op) :: later) s'

/-- The times of the frames among operations. -/
def Operation.deltas (ops : List Operation) : List Float :=
  ops.filterMap fun
    | .update deltaMs => some deltaMs
    | _ => none

/-- What frames leave of a wait. -/
def remaining (ms : Float) (deltas : List Float) : Float := deltas.foldl (· - ·) ms

namespace Scheduler

variable {e : Engine} {s s' t : Scheduler} {course before after : List (Scheduler × Operation)}
  {op : Operation} {c : Context}

theorem Course.reachable (h : Course s course s') (hs : s.Reachable e) : s'.Reachable e := by
  induction h with
  | nil s => exact hs
  | cons hop _ ih => exact ih (hs.run hop)

/-- A course up to one of its operations. -/
theorem Course.split (h : Course s (before ++ (t, op) :: after) s') :
    Course s before t ∧ ∃ r t', op.run t = some (r, t') := by
  induction before generalizing s with
  | nil =>
    cases h with
    | cons hop h => exact ⟨.nil _, _, _, hop⟩
  | cons x before ih =>
    cases h with
    | cons hop h =>
      obtain ⟨hbefore, hrun⟩ := ih h
      exact ⟨.cons hop hbefore, hrun⟩

/-! ## Reachable schedulers -/

namespace Reachable

variable {l : Library}

section

variable (he : e.Serves l) (hl : l.Lawful) (hplaces : e.KeepsPlaces l) (hk : e.KeepsRest l)
  (hids : e.KeepsIdentities) (hbudget : 0 < e.stepBudget)

include he hl hplaces hk hbudget

theorem isPaused_of_choice (hs : s.Reachable e) (hc : c ∈ s.contexts) {options : List String}
    (hb : c.boundary = some (.choice options)) : c.state.isPaused :=
  ((hs.rest_placed he hl hplaces hk hbudget).1 c hc).2.isPaused hb

/-- Whatever an operation advances executes a step. -/
theorem exists_visits_cons (hs : s.Reachable e) {m : Machine} (hm : m ∈ op.advances s) :
    ∃ rest, m.visits e = m :: rest := by
  obtain rfl := hs.engine_eq
  have hhas := hs.rest_placed he hl hplaces hk hbudget
  have hrunning := Operation.isRunning_of_mem_advances
    (fun c hc options hb => (hhas.1 c hc).2.isPaused hb) hm
  have hplaced := ((he.maintains_placed hl hplaces).sustains.operationAdvances
    (Scheduler.Has.unlessFinished ⟨fun c hc => (hhas.1 c hc).1, fun c hc => (hhas.2 c hc).1⟩)
    (fun ho hevent _ => he.starts_placed hl op ho hevent) hm).1
    (RunState.isFinished_of_isRunning hrunning)
  obtain ⟨step, hstep⟩ := Option.isSome_iff_exists.1
    (Engine.isSome_step?_iff.2 ((he.stands_iff hl).1 hplaced.place))
  exact Machine.exists_visits_cons hrunning hstep hbudget

include hids

/-- A context executes a step just if it is woken. -/
theorem executes_iff (hs : s.Reachable e) {r : Reply} (hop : op.run s = some (r, s'))
    (hdistinct : op.Distinct s) (hc : c ∈ s.contexts) : op.Executes s c.id ↔ op.Wakes s c := by
  constructor
  · exact Operation.wakes_of_executes (hs.engine_eq ▸ hids) hdistinct hc
      fun options hb => hs.isPaused_of_choice he hl hplaces hk hbudget hc hb
  · intro hwakes
    obtain ⟨m, hm, hid⟩ :=
      Operation.exists_mem_advances_of_wakes hop (hdistinct.context?_eq hc) hwakes
    have hvisits := hs.exists_visits_cons he hl hplaces hk hbudget hm
    exact hid ▸ Operation.executes_of_mem_advances hm (hs.engine_eq.symm ▸ hvisits)

/-- A context that executes no step stays as it is, unless it is ended. -/
theorem context?_of_not_executes (hs : s.Reachable e) {r : Reply} (hop : op.run s = some (r, s'))
    (hfound : s.context? c.id = some c) (hends : ¬ op.Ends s c)
    (hnot : ¬ op.Executes s c.id) : s'.context? c.id = some (op.counted c) := by
  refine Engine.KeepsIdentities.context?_run (hs.engine_eq ▸ hids) hop hfound (fun m hm hid => ?_)
    (hs.unfinished c (mem_of_context? hfound)) (fun hstop => hends (.inl hstop)) fun s₁ hs₁ => ?_
  · have hvisits := hs.exists_visits_cons he hl hplaces hk hbudget hm
    exact hnot (hid ▸ Operation.executes_of_mem_advances hm (hs.engine_eq.symm ▸ hvisits))
  · cases horphan : isOrphan s₁.world.destroyed c with
    | false => rfl
    | true => exact absurd (.inr ⟨s₁, hs₁, horphan⟩) hends

/-- A context that waits and executes no step has its wait counted down. -/
theorem waiting_of_not_executes (hs : s.Reachable e) {r : Reply} (hop : op.run s = some (r, s'))
    (hdistinct : op.Distinct s) {ms : Float}
    (hfound : s.context? c.id = some { c with state := .waiting ms }) (hends : ¬ op.Ends s c)
    (hnot : ¬ op.Executes s c.id) :
    s'.context? c.id =
      some { c with state := .waiting (remaining ms (Operation.deltas [op])) } := by
  have hkept := hs.context?_of_not_executes (c := { c with state := .waiting ms }) he hl hplaces hk
    hids hbudget hop hfound hends hnot
  rw [hkept]
  cases op with
  | update deltaMs =>
    -- had nothing been left of the wait, the context would have run
    have hleft : ¬ ms - deltaMs ≤ 0.0 := fun hdue =>
      hnot ((hs.executes_iff (c := { c with state := .waiting ms }) he hl hplaces hk hids hbudget
        hop hdistinct (mem_of_context? hfound)).2 (.itself (.frame rfl (.inr ⟨ms, rfl, hdue⟩))))
    simp only [Operation.counted, countDown, if_neg hleft]
    rfl
  | _ => rfl

/-- As long as it executes no step, a context that waits has its wait counted
down by the frames. -/
theorem course_waiting (hs : s.Reachable e) (h : Course s course s') {ms : Float}
    (hfound : s.context? c.id = some { c with state := .waiting ms })
    (hall : ∀ x ∈ course, x.2.Distinct x.1 ∧ ¬ x.2.Ends x.1 c)
    (hnot : ∀ x ∈ course, ¬ x.2.Executes x.1 c.id) :
    s'.context? c.id = some { c with
      state := .waiting (remaining ms (Operation.deltas (course.map (·.2)))) } := by
  induction h generalizing ms with
  | nil s => exact hfound
  | @cons s s₁ s' op r later hop _ ih =>
    obtain ⟨⟨hdistinct, hends⟩, hall⟩ := List.forall_mem_cons.1 hall
    obtain ⟨hnotOp, hnot⟩ := List.forall_mem_cons.1 hnot
    have hnext := hs.waiting_of_not_executes he hl hplaces hk hids hbudget hop hdistinct hfound
      hends hnotOp
    have hrest := ih (hs.run hop) hnext hall hnot
    rw [hrest, remaining, remaining, remaining, ← List.foldl_append]
    rw [Operation.deltas, Operation.deltas, Operation.deltas, ← List.filterMap_append]
    rfl

/-- Frames do not move a paused context, if no request is met for it. -/
theorem course_paused (hs : s.Reachable e) (h : Course s course s')
    (hfound : s.context? c.id = some c) (hpaused : c.state.isPaused)
    (hall : ∀ x ∈ course, x.2.Distinct x.1 ∧ ¬ x.2.Ends x.1 c)
    (hframes : ∀ x ∈ course, (∃ deltaMs, x.2 = .update deltaMs) ∧
      ∀ s₁, (c.id, s₁) ∉ x.2.met x.1) : s'.context? c.id = some c := by
  induction h with
  | nil s => exact hfound
  | @cons s s₁ s' op r later hop _ ih =>
    obtain ⟨⟨hdistinct, hends⟩, hlater⟩ := List.forall_mem_cons.1 hall
    obtain ⟨⟨⟨deltaMs, hframe⟩, hmet⟩, hmore⟩ := List.forall_mem_cons.1 hframes
    obtain rfl : op = .update deltaMs := hframe
    have hnot : ¬ (Operation.update deltaMs).Executes s c.id := by
      rw [hs.executes_iff he hl hplaces hk hids hbudget hop hdistinct (mem_of_context? hfound)]
      rintro (hrouses | ⟨hmet', -, -⟩)
      · rcases hrouses with ⟨hop', hrunning | ⟨ms, hwaiting, -⟩⟩ | ⟨hop', -⟩ | ⟨hop', -⟩
        · cases hstate : c.state <;> simp_all [RunState.isRunning, RunState.isPaused]
        · simp [hwaiting, RunState.isPaused] at hpaused
        · simp at hop'
        · simp at hop'
      · exact hmet _ hmet'
    have hkept := hs.context?_of_not_executes he hl hplaces hk hids hbudget hop hfound hends hnot
    rw [show (Operation.update deltaMs).counted c = c from countDown_eq_self hpaused] at hkept
    exact ih (hs.run hop) hkept hlater hmore

/-- A context that waits is woken by a frame that leaves nothing of its wait,
and by nothing else. -/
theorem executes_iff_of_waiting (hs : s.Reachable e) {r : Reply} (hop : op.run s = some (r, s'))
    (hdistinct : op.Distinct s) (hc : c ∈ s.contexts) {ms : Float}
    (hwaiting : c.state = .waiting ms) (hends : ¬ op.Ends s c) :
    op.Executes s c.id ↔ ∃ deltaMs, op = .update deltaMs ∧ ms - deltaMs ≤ 0.0 := by
  have hfound := hdistinct.context?_eq hc
  have hids' : s.engine.KeepsIdentities := hs.engine_eq ▸ hids
  rw [hs.executes_iff he hl hplaces hk hids hbudget hop hdistinct hc]
  -- it is not paused, so the operation itself wakes it by a frame if at all
  have hrouses : op.Rouses c → ∃ deltaMs, op = .update deltaMs ∧ ms - deltaMs ≤ 0.0 := by
    rintro (⟨rfl, hrunning | ⟨ms', hwaiting', hdue⟩⟩ | ⟨-, hpaused⟩ | ⟨-, -, -, hpaused⟩)
    · simp [hwaiting, RunState.isRunning] at hrunning
    · obtain rfl := RunState.waiting.inj (hwaiting.symm.trans hwaiting')
      exact ⟨_, rfl, hdue⟩
    · simp [hwaiting, RunState.isPaused] at hpaused
    · simp [hwaiting, RunState.isPaused] at hpaused
  constructor
  · rintro (h | @⟨s₁, c₁, hmet, hc₁, hpaused⟩)
    · exact hrouses h
    · by_contra hnone
      -- not advanced before, it still waits when the request is met
      have hcounted : (op.counted c).state.isPaused = false := by
        cases op with
        | update deltaMs =>
          simp only [Operation.counted, countDown, hwaiting]
          split <;> rfl
        | _ => simp only [Operation.counted, hwaiting, RunState.isPaused]
      have hsame := hids'.context?_of_mem_met hfound
        (fun m hm hid => hnone (hrouses (Operation.rouses_of_mem_opening hdistinct hc
          (fun options hb => hs.isPaused_of_choice he hl hplaces hk hbudget hc hb) hm hid)))
        (fun hstop => hends (.inl hstop)) hcounted hmet
      rw [hc₁] at hsame
      obtain rfl := Option.some.inj hsame
      rw [hcounted] at hpaused
      simp at hpaused
  · rintro ⟨deltaMs, rfl, hdue⟩
    exact .itself (.frame rfl (.inr ⟨ms, hwaiting, hdue⟩))

/-- **Only what wakes it runs a context.** Let custom handlers leave contexts at
places that stand and at rest, keep what contexts keep and queue the contexts
that they spawn under numbers handed out for them, and let there be a budget. In
every reachable scheduler, where numbers are distinct:

* a live context executes a step in an operation just if it is woken
  (`Operation.Wakes`), and stays as it is, counted down by a frame, if it does
  not and is not ended;
* along a course of operations that do not end it, a context that waits first
  executes a step in the first frame that leaves nothing of its wait. Where
  counting down compares with zero as exact numbers do, that is the first frame
  at which the times of the frames add up to the wait;
* frames alone do not move a context that is paused, if no request is met for
  it. -/
theorem executes_iff_wakes (hs : s.Reachable e) :
    (∀ (op : Operation) (r : Reply) (s' : Scheduler) (c : Context), op.run s = some (r, s') →
      op.Distinct s → c ∈ s.contexts →
      (op.Executes s c.id ↔ op.Wakes s c) ∧
      (¬ op.Executes s c.id → ¬ op.Ends s c → s'.context? c.id = some (op.counted c))) ∧
    ∀ (course : List (Scheduler × Operation)) (s' : Scheduler) (c : Context),
      s.Course course s' → s.context? c.id = some c →
      (∀ x ∈ course, x.2.Distinct x.1 ∧ ¬ x.2.Ends x.1 c) →
      (∀ ms, c.state = .waiting ms → ∀ before t op after, course = before ++ (t, op) :: after →
        (∀ x ∈ before, ¬ x.2.Executes x.1 c.id) →
        (op.Executes t c.id ↔ ∃ deltaMs, op = .update deltaMs ∧
          remaining ms (Operation.deltas (before.map (·.2)) ++ [deltaMs]) ≤ 0.0) ∧
        ∀ (value : Float → ℚ) (exact : ℚ),
          (∀ deltas, deltas ≠ [] → deltas <+: Operation.deltas (course.map (·.2)) →
            (remaining ms deltas ≤ 0.0 ↔ exact ≤ (deltas.map value).sum)) →
          (op.Executes t c.id ↔ ∃ deltaMs, op = .update deltaMs ∧
            exact ≤ ((Operation.deltas (before.map (·.2)) ++ [deltaMs]).map value).sum)) ∧
      (c.state.isPaused →
        (∀ x ∈ course, (∃ deltaMs, x.2 = .update deltaMs) ∧ ∀ s₁, (c.id, s₁) ∉ x.2.met x.1) →
        s'.context? c.id = some c) := by
  refine ⟨fun op r s' c hop hdistinct hc =>
    ⟨hs.executes_iff he hl hplaces hk hids hbudget hop hdistinct hc, fun hnot hends =>
      hs.context?_of_not_executes he hl hplaces hk hids hbudget hop (hdistinct.context?_eq hc)
        hends hnot⟩,
    fun course s' c hcourse hfound hall => ⟨?_, fun hpaused hframes =>
      hs.course_paused he hl hplaces hk hids hbudget hcourse hfound hpaused hall hframes⟩⟩
  rintro ms hwaiting before t op after rfl hnot
  obtain ⟨hbefore, r, t', hop⟩ := hcourse.split
  obtain ⟨hdistinct, hends⟩ := hall (t, op) (by simp)
  -- up to the operation the context waits
  have hwait : s.context? c.id = some { c with state := .waiting ms } := by
    rw [hfound, ← hwaiting]
  have hreached := hs.course_waiting he hl hplaces hk hids hbudget hbefore hwait
    (fun x hx => hall x (List.mem_append_left _ hx)) hnot
  have hiff : op.Executes t c.id ↔ ∃ deltaMs, op = .update deltaMs ∧
      remaining ms (Operation.deltas (before.map (·.2)) ++ [deltaMs]) ≤ 0.0 := by
    have hdue := (hbefore.reachable hs).executes_iff_of_waiting he hl hplaces hk hids hbudget hop
      hdistinct (mem_of_context? hreached) rfl hends
    rw [hdue]
    simp only [remaining, List.foldl_append, List.foldl_cons, List.foldl_nil]
  refine ⟨hiff, fun value exact hexact => hiff.trans (exists_congr fun deltaMs =>
    and_congr_right ?_)⟩
  rintro rfl
  refine hexact _ (by simp) ⟨Operation.deltas (after.map (·.2)), ?_⟩
  rw [List.map_append, List.map_cons, Operation.deltas, Operation.deltas, Operation.deltas,
    List.filterMap_append, List.filterMap_cons, List.append_assoc, List.singleton_append]

end

end Reachable

end Scheduler

/-- An event that waits, and one that pauses after a custom instruction. What the
instruction spawns runs on the last, which pauses. -/
def Library.dozing : Library :=
  let wait : Json := .object [("duration", .float 32.0)]
  { events := .ofList
      [("doze", ⟨"doze", [⟨"wait", wait⟩], .empty⟩),
       ("ask", ⟨"ask", [⟨"custom", .null⟩, ⟨"pauseEvent", .null⟩], .empty⟩),
       ("post", ⟨"post", [⟨"pauseEvent", .null⟩], .empty⟩)] }

/-- Two frames of 16 ms count a wait of 32 ms down as exact numbers do. -/
theorem remaining_sixteens {deltas : List Float} (hne : deltas ≠ [])
    (hinitial : deltas <+: [16.0, 16.0]) :
    remaining 32.0 deltas ≤ 0.0 ↔ (32 : ℚ) ≤ (deltas.map fun _ => (16 : ℚ)).sum := by
  rw [List.prefix_cons_iff] at hinitial
  obtain rfl | ⟨later, rfl, hlater⟩ := hinitial
  · exact absurd rfl hne
  simp only [List.prefix_cons_iff, List.prefix_nil] at hlater
  obtain rfl | ⟨_, rfl, rfl⟩ := hlater
  · exact iff_of_false (by decide +kernel) (show ¬ (32 : ℚ) ≤ [16].sum by decide +kernel)
  · exact iff_of_true (by decide +kernel) (show (32 : ℚ) ≤ [16, 16].sum by decide +kernel)

/-- Both events started: of two frames the second wakes the one that waits, the
host wakes the one that is paused, and the frames do not. -/
theorem Scheduler.Reachable.executes_iff_wakes_dozing :
    let e := Engine.handling .dozing (.posts "post")
    e.Serves .dozing ∧ Library.dozing.Lawful ∧ e.KeepsPlaces .dozing ∧ e.KeepsRest .dozing ∧
      e.KeepsIdentities ∧ 0 < e.stepBudget ∧
      ∃ s s₁ s₂ r₁ r₂ dozing asking, Reachable e s ∧
        s.context? ⟨1⟩ = some dozing ∧ dozing.state = .waiting 32.0 ∧
        s.context? ⟨2⟩ = some asking ∧ asking.state.isPaused ∧
        (Operation.resume ⟨2⟩).Executes s ⟨2⟩ ∧
        (Operation.update 16.0).run s = some (r₁, s₁) ∧
        (Operation.update 16.0).run s₁ = some (r₂, s₂) ∧
        ¬ (Operation.update 16.0).Executes s ⟨1⟩ ∧
        s₁.context? ⟨1⟩ = some { dozing with state := .waiting (32.0 - 16.0) } ∧
        (Operation.update 16.0).Executes s₁ ⟨1⟩ ∧ s₂.context? ⟨2⟩ = some asking := by
  intro e
  have he : e.Serves .dozing := .ofLibrary .dozing
  have hl : Library.dozing.Lawful := by decide +kernel
  have hplaces : e.KeepsPlaces .dozing := Engine.keepsPlaces_posts hl (by decide +kernel)
  have hrest : e.KeepsRest .dozing := Engine.keepsRest_posts .dozing "post"
  have hids : e.KeepsIdentities := Engine.keepsIdentities_posts .dozing "post"
  have hbudget : 0 < e.stepBudget := by decide
  let doze := Operation.start "doze" .none
  let ask := Operation.start "ask" .none
  let frame := Operation.update 16.0
  have hstarted : doze.leads (.fresh e 0) fun _ t => ask.leads t fun _ s =>
      let past := doze.created (.fresh e 0) ++ ask.created t
      ((s.context? ⟨1⟩).any fun c =>
        c.ambient.owner.isNone && decide (c.state = .waiting 32.0)) &&
      ((s.context? ⟨2⟩).any fun c => c.ambient.owner.isNone && c.state.isPaused) &&
      ((Operation.resume ⟨2⟩).run s).isSome &&
      decide ((past ++ (Operation.resume ⟨2⟩).created s).length < UInt64.size) &&
      (frame.met s).isEmpty && frame.leads s fun _ s₁ =>
        decide ((past ++ frame.created s ++ frame.created s₁).length < UInt64.size) &&
          (frame.run s₁).isSome && (frame.met s₁).isEmpty := by
    decide +kernel
  obtain ⟨r₁, t, hdoze, hs⟩ := Operation.exists_of_leads hstarted
  obtain ⟨r₂, s, hask, hs⟩ := Operation.exists_of_leads hs
  simp only [Bool.and_eq_true, decide_eq_true_eq, List.isEmpty_iff] at hs
  obtain ⟨⟨⟨⟨⟨hdozing, hasking⟩, hresumed⟩, hsize⟩, hmet⟩, hs⟩ := hs
  obtain ⟨r, s₁, hframe, hs⟩ := Operation.exists_of_leads hs
  simp only [Bool.and_eq_true, decide_eq_true_eq, List.isEmpty_iff] at hs
  obtain ⟨⟨hsize', hframe'⟩, hmet'⟩ := hs
  obtain ⟨⟨r', s₂⟩, hframe'⟩ := Option.isSome_iff_exists.1 hframe'
  obtain ⟨⟨r'', s'⟩, hresumed⟩ := Option.isSome_iff_exists.1 hresumed
  obtain ⟨dozing, hdozing, hc⟩ := (Option.any_eq_true _ _).1 hdozing
  obtain ⟨asking, hasking, hc'⟩ := (Option.any_eq_true _ _).1 hasking
  simp only [Bool.and_eq_true, decide_eq_true_eq, Option.isNone_iff_eq_none] at hc hc'
  obtain ⟨howner, hwaiting⟩ := hc
  obtain ⟨howner', hpaused⟩ := hc'
  have hid : dozing.id = ⟨1⟩ := by simpa using List.find?_some hdozing
  have hid' : asking.id = ⟨2⟩ := by simpa using List.find?_some hasking
  -- numbers have not come round, so they are distinct
  have hcreating := ((ReachableCreating.fresh (e := e) 0).run hdoze).run hask
  rw [List.nil_append] at hcreating
  have hreach : Reachable e s := hcreating.reachable
  have hdistinct := Operation.distinct_of_length_lt hids hcreating hresumed hsize
  have hfirst := Operation.distinct_of_length_lt hids hcreating hframe
    (Nat.lt_of_le_of_lt (List.prefix_append ..).length_le hsize')
  have hsecond := Operation.distinct_of_length_lt hids (hcreating.run hframe) hframe' hsize'
  obtain ⟨hoperation, hcourse⟩ := hreach.executes_iff_wakes he hl hplaces hrest hids hbudget
  have hframes : s.Course [(s, frame), (s₁, frame)] s₂ := .cons hframe (.cons hframe' (.nil s₂))
  -- nothing owns the contexts, so the two frames end neither
  have hends : ∀ {c : Context}, c.ambient.owner = none →
      ∀ x ∈ [(s, frame), (s₁, frame)], x.2.Distinct x.1 ∧ ¬ x.2.Ends x.1 c := by
    intro c howner
    simp only [List.forall_mem_cons]
    exact ⟨⟨hfirst, Operation.not_ends howner (by simp [frame])⟩,
      ⟨hsecond, Operation.not_ends howner (by simp [frame])⟩, by simp⟩
  have hresumes := (hoperation _ _ _ asking hresumed hdistinct (mem_of_context? hasking)).1.2
    (.itself (.resume (by rw [hid']) hpaused))
  obtain ⟨hwait, -⟩ := hcourse _ _ dozing hframes (hid ▸ hdozing) (hends howner)
  obtain ⟨-, hstays⟩ := hcourse _ _ asking hframes (hid' ▸ hasking) (hends howner')
  have hfirst' : ¬ frame.Executes s dozing.id := by
    rw [(hwait _ hwaiting [] s _ [(s₁, frame)] rfl (by simp)).2 _ _ fun _ => remaining_sixteens]
    rintro ⟨deltaMs, -, hdue⟩
    exact absurd (show (32 : ℚ) ≤ [16].sum from hdue) (by decide +kernel)
  have hsecond' : frame.Executes s₁ dozing.id := by
    rw [(hwait _ hwaiting [(s, frame)] s₁ _ [] rfl (by simpa using hfirst')).2 _ _ fun _ =>
      remaining_sixteens]
    exact ⟨16.0, rfl, show (32 : ℚ) ≤ [16, 16].sum by decide +kernel⟩
  have hcounted := (hoperation _ _ _ dozing hframe hfirst (mem_of_context? hdozing)).2 hfirst'
    (Operation.not_ends howner (by simp [frame]))
  have hleft : frame.counted dozing = { dozing with state := .waiting (32.0 - 16.0) } := by
    have hmore : ¬ (32.0 - 16.0 : Float) ≤ 0.0 := by decide +kernel
    simp only [frame, Operation.counted, countDown, hwaiting, if_neg hmore]
  rw [hid] at hfirst' hsecond' hcounted
  rw [hleft] at hcounted
  rw [hid'] at hresumes hstays
  exact ⟨he, hl, hplaces, hrest, hids, hbudget, s, s₁, s₂, r, r', dozing, asking, hreach, hdozing,
    hwaiting, hasking, hpaused, hresumes, hframe, hframe', hfirst', hcounted, hsecond',
    hstays hpaused (by simp [frame, hmet, hmet'])⟩

/-- **A context that is resumed may execute nothing.** When numbers have come
round, another live context may have its number and stand before it: that one is
resumed. -/
theorem Scheduler.Reachable.exists_unwoken :
    Library.offering.Lawful ∧ ∃ s c r s', Scheduler.Reachable (.ofLibrary .offering) s ∧
      c ∈ s.contexts ∧ c.state.isPaused ∧ (Operation.resume c.id).run s = some (r, s') ∧
      ∀ x ∈ (Operation.resume c.id).visits s, x.context.name ≠ c.name := by
  have hl : Library.offering.Lawful := by decide +kernel
  obtain ⟨s, hreach, hs⟩ := Library.exists_recurring hl "nothing" "ask"
    (p := fun s => (Operation.start "offer" .none).leads s fun _ s' =>
      (s'.contexts.any fun c => c.id == ⟨1⟩ && c.state.isPaused && c.name == "offer") &&
        ((Operation.resume ⟨1⟩).run s').isSome &&
        ((Operation.resume ⟨1⟩).visits s').all fun x => x.context.name == "ask")
    (by decide +kernel) (by decide +kernel)
  obtain ⟨r₁, s', hrun, hs'⟩ := Operation.exists_of_leads hs
  simp only [Bool.and_eq_true, List.any_eq_true, List.all_eq_true, beq_iff_eq] at hs'
  obtain ⟨⟨⟨c, hc, ⟨hid, hpaused⟩, hname⟩, hresumed⟩, hvisits⟩ := hs'
  obtain ⟨⟨r, s''⟩, hresumed⟩ := Option.isSome_iff_exists.1 hresumed
  rw [← hid] at hresumed hvisits
  refine ⟨hl, s', c, r, s'', hreach.reachable.run hrun, hc, hpaused, hresumed, fun x hx => ?_⟩
  rw [hvisits x hx, hname]
  decide

end Cutscene
