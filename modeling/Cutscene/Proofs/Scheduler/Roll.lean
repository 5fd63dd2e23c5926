import Cutscene.Proofs.Run.Roll
import Cutscene.Proofs.Scheduler.Prepare
import Cutscene.Proofs.Scheduler.Maintain
/-!
# Scheduler — the roll of contexts

The roll of a scheduler lists its live contexts, those that wait to join
included (`Scheduler.roll`). Contexts move between three places while an
operation runs: the list, the queue of spawned ones, and the advance that is
under way. Wherever they are, they stay on the roll: each stage of an operation
moves it as the steps say that the stage executes, and so does the whole
operation (`Engine.KeepsIdentities.run`), which adds what it creates
(`Operation.created`) and takes off what ends in it (`Operation.ended`).
-/

namespace Cutscene

/-- The contexts that are live in the world and outside of it. -/
def World.roll (w : World) (cs : List Context) : Roll :=
  ⟨cs.flatMap Context.live ++ w.spawned.flatMap Context.live, ⟨w.nextEventId⟩⟩

/-- The contexts that are live in the scheduler, the spawned ones included. -/
def Scheduler.roll (s : Scheduler) : Roll := s.world.roll s.contexts

namespace Scheduler

variable {s s' : Scheduler}

/-- Where a context is replaced: all others stay where they are. -/
theorem exists_replaceIn {id : EventId} {c : Context} (h : s.context? id = some c) :
    c.id = id ∧ ∃ before after, s.contexts = before ++ c :: after ∧
      ∀ c', replaceIn id c' s.contexts = before ++ c' :: after := by
  obtain ⟨hid, before, after, heq, hbefore⟩ := List.find?_eq_some_iff_append.1 h
  refine ⟨by simpa using hid, before, after, heq, fun c' => ?_⟩
  rw [heq]
  clear heq
  induction before with
  | nil => rw [List.nil_append, replaceIn, if_pos hid, List.nil_append]
  | cons x before ih =>
    obtain ⟨hx, hbefore⟩ := List.forall_mem_cons.1 hbefore
    rw [List.cons_append, replaceIn, if_neg (by simpa using hx), ih hbefore, List.cons_append]

end Scheduler

namespace Engine.KeepsIdentities

open Scheduler

variable {s s' : Scheduler}

/-- Contexts that stand beside the one advanced stay. -/
theorem advance_beside {e : Engine} (hk : e.KeepsIdentities) {c old : Context} {w : World}
    {m : Machine} (hlt : w.nextEventId < UInt64.size) (hlive : c.live = old.live)
    (hm : Machine.advance e ⟨c, w⟩ = some m) (before after : List Context) :
    (w.roll (before ++ old :: after)).Moves (Machine.created e ⟨c, w⟩) (Machine.ended e ⟨c, w⟩)
      (m.world.roll (before ++ m.context :: after)) := by
  have hmoved := (hk.advance hlt hm).beside ((before ++ after).flatMap Context.live)
  have hbefore : (w.roll (before ++ old :: after)).held.Perm
      ((before ++ after).flatMap Context.live ++ (Machine.roll ⟨c, w⟩).held) := by
    refine List.perm_iff_count.2 fun x => ?_
    simp only [World.roll, Machine.roll, hlive, List.flatMap_append, List.flatMap_cons,
      List.count_append]
    omega
  have hafter : (m.world.roll (before ++ m.context :: after)).held.Perm
      ((before ++ after).flatMap Context.live ++ m.roll.held) := by
    refine List.perm_iff_count.2 fun x => ?_
    simp only [World.roll, Machine.roll, List.flatMap_append, List.flatMap_cons,
      List.count_append]
    omega
  exact hmoved.perm hbefore hafter

theorem advanceContext (hk : s.engine.KeepsIdentities)
    (hlt : s.world.nextEventId < UInt64.size) {c old : Context}
    (hold : s.context? c.id = some old) (hlive : c.live = old.live)
    (hrun : s.advanceContext c = some s') :
    s.roll.Moves (Machine.created s.engine ⟨c, s.world⟩) (Machine.ended s.engine ⟨c, s.world⟩)
      s'.roll := by
  unfold Scheduler.advanceContext at hrun
  split at hrun
  · simp at hrun
  rename_i m hm
  obtain rfl := Option.some.inj hrun
  obtain ⟨-, before, after, hcontexts, hreplaced⟩ := exists_replaceIn hold
  have hmoved := hk.advance_beside hlt hlive hm before after
  rw [← hcontexts, ← hreplaced] at hmoved
  exact hmoved

end Engine.KeepsIdentities

/-- A paused context that is woken is the same one, and as live. -/
theorem Context.wake?_live {c c' : Context} (h : c.wake? = some c') :
    c'.id = c.id ∧ c'.live = c.live := by
  obtain ⟨hpaused, rfl⟩ := Scheduler.wake?_eq h
  refine ⟨rfl, live_congr rfl ?_⟩
  rw [RunState.isFinished_of_isPaused hpaused]
  rfl

theorem Context.chosen_live (c : Context) (index : Nat) :
    ({ c with choice := some index }.wake?.getD { c with choice := some index }).id = c.id ∧
    ({ c with choice := some index }.wake?.getD { c with choice := some index }).live =
      c.live := by
  cases hwake : { c with choice := some index }.wake? with
  | none => exact ⟨rfl, rfl⟩
  | some c' => exact wake?_live (c := { c with choice := some index }) hwake

namespace Engine.KeepsIdentities

open Scheduler

variable {s s' : Scheduler}

theorem woken (hk : s.engine.KeepsIdentities) (hlt : s.world.nextEventId < UInt64.size)
    {id : EventId} {c : Context}
    (hc : (s.context? id).bind Context.wake? = some c) (hrun : s.advanceContext c = some s') :
    s.roll.Moves (Machine.created s.engine ⟨c, s.world⟩) (Machine.ended s.engine ⟨c, s.world⟩)
      s'.roll := by
  obtain ⟨old, hold, hwake⟩ := Option.bind_eq_some_iff.1 hc
  obtain ⟨hid, hlive⟩ := Context.wake?_live hwake
  obtain ⟨holdId, -⟩ := exists_replaceIn hold
  exact hk.advanceContext hlt (by rw [hid, holdId]; exact hold) hlive hrun

theorem meetRequest (hk : s.engine.KeepsIdentities) (hlt : s.world.nextEventId < UInt64.size)
    {id : EventId}
    (hrun : s.meetRequest id = some s') :
    s.roll.Moves ((s.requestAdvances id).flatMap (Machine.created s.engine))
      ((s.requestAdvances id).flatMap (Machine.ended s.engine)) s'.roll := by
  unfold Scheduler.meetRequest at hrun
  unfold requestAdvances
  cases hc : (s.context? id).bind Context.wake? with
  | none =>
    rw [hc] at hrun
    obtain rfl := Option.some.inj hrun
    exact .refl _
  | some c =>
    simp only [hc, List.flatMap_singleton] at hrun ⊢
    exact hk.woken hlt hc hrun

theorem meetRequests {ids : List EventId} (hk : s.engine.KeepsIdentities)
    (hlt : s.world.nextEventId < UInt64.size)
    (hrun : Scheduler.meetRequests ids s = some s') :
    s.roll.Moves ((requestsAdvances ids s).flatMap (Machine.created s.engine))
      ((requestsAdvances ids s).flatMap (Machine.ended s.engine)) s'.roll := by
  induction ids generalizing s with
  | nil =>
    obtain rfl := Option.some.inj hrun
    exact .refl _
  | cons id ids ih =>
    rw [Scheduler.meetRequests] at hrun
    rw [requestsAdvances, List.flatMap_append, List.flatMap_append]
    cases hs₁ : s.meetRequest id with
    | none => simp [hs₁] at hrun
    | some s₁ =>
      simp only [hs₁] at hrun ⊢
      have hengine := engine_meetRequest hs₁
      have hmet := hk.meetRequest hlt hs₁
      have hrest := ih (hengine ▸ hk) (hmet.next_lt hlt) hrun
      rw [hengine] at hrest
      exact hmet.trans hrest

/-- Spawned contexts that join are live as before. -/
theorem roll_takeSpawned (s : Scheduler) : s.roll.Moves [] [] s.takeSpawned.roll := by
  refine .of_perm ?_ rfl
  simp only [roll, World.roll, takeSpawned, List.flatMap_append, List.flatMap_nil,
    List.append_nil]
  exact ((List.reverse_perm _).flatMap_right _).append_left _

theorem meetRounds {rounds : Nat} (hk : s.engine.KeepsIdentities)
    (hlt : s.world.nextEventId < UInt64.size)
    (hrun : Scheduler.meetRounds rounds s = some s') :
    s.roll.Moves ((roundsAdvances rounds s).flatMap (Machine.created s.engine))
      ((roundsAdvances rounds s).flatMap (Machine.ended s.engine)) s'.roll := by
  induction rounds generalizing s with
  | zero =>
    obtain rfl := Option.some.inj hrun
    exact .refl _
  | succ rounds ih =>
    have hdrained : s.roll.Moves [] [] s.drained.roll := roll_takeSpawned s
    rw [meetRounds_succ] at hrun
    rw [roundsAdvances_succ]
    split at hrun
    · obtain rfl := Option.some.inj hrun
      rw [if_pos ‹_›]
      exact hdrained
    rw [if_neg ‹_›, List.flatMap_append, List.flatMap_append]
    split at hrun
    · simp at hrun
    rename_i s₁ hs₁
    have hengine : s₁.engine = s.engine := engine_meetRequests (s := s.drained) hs₁
    have hmet := meetRequests (s := s.drained) hk hlt hs₁
    have hrest := ih (hengine ▸ hk) (hmet.next_lt hlt) hrun
    rw [hengine] at hrest
    exact hdrained.trans (hmet.trans hrest)

/-- Up to the sweep, a reconciliation moves the roll as what it advances does. -/
theorem unswept (hk : s.engine.KeepsIdentities) (hlt : s.world.nextEventId < UInt64.size)
    (hrun : s.unswept = some s') :
    s.roll.Moves ((reconcileAdvances (some s)).flatMap (Machine.created s.engine))
      ((reconcileAdvances (some s)).flatMap (Machine.ended s.engine)) s'.roll := by
  obtain ⟨s₁, hs₁, rfl⟩ := Option.map_eq_some_iff.1 hrun
  have htaken := roll_takeSpawned { s₁ with world := { s₁.world with resumes := [] } }
  have hmoved := (hk.meetRounds hlt hs₁).trans htaken
  rw [List.append_nil, List.append_nil] at hmoved
  exact hmoved

theorem advanceAll {e : Engine} (hk : e.KeepsIdentities) {deltaMs : Float} {cs cs' : List Context}
    {w w' : World} (hlt : w.nextEventId < UInt64.size)
    (hrun : Scheduler.advanceAll e deltaMs cs w = some (cs', w')) :
    (w.roll cs).Moves ((frameAdvances e deltaMs cs w).flatMap (Machine.created e))
      ((frameAdvances e deltaMs cs w).flatMap (Machine.ended e)) (w'.roll cs') := by
  induction cs generalizing w cs' w' with
  | nil =>
    obtain ⟨rfl, rfl⟩ := Prod.mk.inj (Option.some.inj hrun)
    exact .refl _
  | cons c cs ih =>
    have hlive : (countDown deltaMs c).live = c.live := by
      obtain ⟨state, hstate⟩ := exists_countDown_eq deltaMs c
      refine Context.live_congr ?_ (isFinished_countDown deltaMs c)
      rw [hstate]
      rfl
    -- the contexts that follow are advanced with this one standing beside
    have hrest : ∀ {x : Context} {w w' : World} {cs' : List Context},
        w.nextEventId < UInt64.size → Scheduler.advanceAll e deltaMs cs w = some (cs', w') →
        (w.roll (x :: cs)).Moves ((frameAdvances e deltaMs cs w).flatMap (Machine.created e))
          ((frameAdvances e deltaMs cs w).flatMap (Machine.ended e)) (w'.roll (x :: cs')) := by
      intro x w w' cs' hlt hmore
      have hmoved := (ih hlt hmore).beside x.live
      simp only [World.roll, ← List.append_assoc] at hmoved
      exact hmoved
    rw [Scheduler.advanceAll] at hrun
    simp only at hrun
    rw [frameAdvances]
    split at hrun
    · rename_i hrunning
      rw [if_pos hrunning]
      cases hm : Machine.advance e ⟨countDown deltaMs c, w⟩ with
      | none => simp [hm] at hrun
      | some m =>
        simp only [hm, List.flatMap_cons] at hrun ⊢
        obtain ⟨⟨cs₁, w₁⟩, hmore, heq⟩ := Option.map_eq_some_iff.1 hrun
        obtain ⟨rfl, rfl⟩ := Prod.mk.inj heq
        have hmoved := hk.advance_beside hlt hlive hm [] cs
        exact hmoved.trans (hrest (hmoved.next_lt hlt) hmore)
    · rename_i hrunning
      rw [if_neg hrunning]
      obtain ⟨⟨cs₁, w₁⟩, hmore, heq⟩ := Option.map_eq_some_iff.1 hrun
      obtain ⟨rfl, rfl⟩ := Prod.mk.inj heq
      have hmoved := hrest (x := countDown deltaMs c) hlt hmore
      simp only [World.roll, List.flatMap_cons, hlive] at hmoved ⊢
      exact hmoved

end Engine.KeepsIdentities

namespace Scheduler

/-- The live contexts whose owners are recorded as destroyed. -/
def orphans (s : Scheduler) : List Identity :=
  (s.contexts.filter (isOrphan s.world.destroyed)).flatMap Context.live

/-- The sweep ends the contexts of owners that were destroyed. -/
theorem roll_sweep (s : Scheduler) : s.roll.Moves [] s.orphans s.sweep.roll := by
  refine .of_ends ?_ rfl
  simp only [roll, World.roll, orphans, sweep]
  generalize s.world.destroyed = destroyed
  refine List.perm_iff_count.2 fun x => ?_
  simp only [List.count_append]
  suffices h : ∀ cs : List Context,
      List.count x (((cs.map fun c => if isOrphan destroyed c then c.finish else c).filter
          fun c => !c.state.isFinished).flatMap Context.live) +
        List.count x ((cs.filter (isOrphan destroyed)).flatMap Context.live) =
      List.count x (cs.flatMap Context.live) by
    have hcs := h s.contexts
    omega
  intro cs
  induction cs with
  | nil => rfl
  | cons c cs ih =>
    -- an orphan is finished and dropped; any other context is dropped if it has finished
    have hdropped : (!c.finish.state.isFinished) = false := rfl
    cases horphan : isOrphan destroyed c with
    | true =>
      simp only [List.map_cons, List.filter_cons, horphan, if_true, hdropped, Bool.false_eq_true,
        if_false, List.flatMap_cons, List.count_append]
      omega
    | false =>
      cases hfinished : c.state.isFinished with
      | true =>
        simp only [List.map_cons, List.filter_cons, horphan, hfinished, Bool.not_true,
          Bool.false_eq_true, if_false, List.flatMap_cons, Context.live_eq_nil hfinished,
          List.nil_append]
        exact ih
      | false =>
        simp only [List.map_cons, List.filter_cons, horphan, hfinished, Bool.not_false, if_true,
          Bool.false_eq_true, if_false, List.flatMap_cons, List.count_append]
        omega

end Scheduler

theorem HostEdit.nextEventId_run (w : World) (change : HostEdit) :
    (change.run w).2.nextEventId = w.nextEventId := by
  cases change with
  | create kind dataId parent key slot =>
    simp only [HostEdit.run, World.create]
    split <;> rfl
  | attach parent child =>
    simp only [HostEdit.run]
    split <;> rfl
  | drawUnit =>
    show ({ w with random := w.random.unit.2 } : World).nextEventId = w.nextEventId
    rfl
  | _ => rfl

/-! ## Operations -/

namespace Operation

open Scheduler

/-- The context that an operation starts. -/
def started (s : Scheduler) : Operation → List Identity
  | .start name ambient =>
    (s.engine.event? name).toList.map fun event => (s.starting name ambient event).context.identity
  | _ => []

/-- The context that an operation stops. -/
def stopped (s : Scheduler) : Operation → List Identity
  | .stop id => (s.context? id).toList.flatMap Context.live
  | _ => []

/-- The contexts that an operation creates, in order: the one that it starts,
and those that steps spawn. -/
def created (s : Scheduler) (op : Operation) : List Identity :=
  op.started s ++ (op.advances s).flatMap (Machine.created s.engine)

/-- The contexts that end in an operation: the one that it stops, those that
finish, and those whose owners were destroyed. -/
def ended (s : Scheduler) (op : Operation) : List Identity :=
  op.stopped s ++ (op.advances s).flatMap (Machine.ended s.engine) ++
    (op.unswept s).toList.flatMap orphans

end Operation

namespace Engine.KeepsIdentities

open Scheduler

variable {s s' : Scheduler}

/-- What an operation makes of the roll before it reconciles. -/
theorem prepared (hk : s.engine.KeepsIdentities) (hlt : s.world.nextEventId < UInt64.size)
    {op : Operation}
    (hprep : op.prepared s = some s') :
    s'.engine = s.engine ∧
      s.roll.Moves (op.started s ++ (op.opening s).flatMap (Machine.created s.engine))
        (op.stopped s ++ (op.opening s).flatMap (Machine.ended s.engine)) s'.roll := by
  cases op with
  | start name ambient =>
    obtain ⟨event, hevent, hprep⟩ := Option.bind_eq_some_iff.1 hprep
    obtain ⟨m, hm, rfl⟩ := Option.map_eq_some_iff.1 hprep
    refine ⟨rfl, ?_⟩
    simp only [Operation.started, Operation.opening, Operation.stopped, hevent,
      Option.toList_some, List.map_cons, List.map_nil, List.flatMap_singleton, List.nil_append]
    have hadded : s.roll.Moves [(s.starting name ambient event).context.identity] []
        ((s.starting name ambient event).world.roll
          (s.contexts ++ [(s.starting name ambient event).context])) := by
      refine ⟨List.perm_iff_count.2 fun x => ?_, .cons (.nil _)⟩
      simp only [roll, World.roll, List.flatMap_append, List.flatMap_singleton, List.append_nil,
        List.count_append]
      rw [Context.live_eq_singleton rfl]
      show _ + _ + List.count x (s.world.spawned.flatMap Context.live) = _
      omega
    exact hadded.trans (hk.advance_beside (hadded.next_lt hlt) rfl hm s.contexts [])
  | update deltaMs =>
    obtain ⟨left, hrun, rfl⟩ := Option.map_eq_some_iff.1 hprep
    exact ⟨rfl, hk.advanceAll (w := s.ticked deltaMs) hlt hrun⟩
  | resume id =>
    obtain ⟨c, hc, hrun⟩ := Option.bind_eq_some_iff.1 hprep
    refine ⟨engine_advanceContext hrun, ?_⟩
    simp only [Operation.started, Operation.opening, Operation.stopped, hc, Option.toList_some,
      List.map_cons, List.map_nil, List.flatMap_singleton, List.nil_append]
    exact hk.woken hlt hc hrun
  | choose id index =>
    obtain ⟨c', hc', hrun⟩ := Option.bind_eq_some_iff.1 hprep
    obtain ⟨c, options, hc, -, -, heq⟩ := chosen?_eq_some hc'
    refine ⟨engine_advanceContext hrun, ?_⟩
    simp only [Operation.started, Operation.opening, Operation.stopped, hc', Option.toList_some,
      List.map_cons, List.map_nil, List.flatMap_singleton, List.nil_append]
    obtain ⟨hid, hlive⟩ := c.chosen_live index
    rw [← heq] at hid hlive
    obtain ⟨hcid, -⟩ := exists_replaceIn hc
    exact hk.advanceContext hlt (by rw [hid, hcid]; exact hc) hlive hrun
  | stop id =>
    obtain ⟨c, hc, rfl⟩ := Option.map_eq_some_iff.1 hprep
    obtain ⟨-, before, after, hcontexts, hreplaced⟩ := exists_replaceIn hc
    refine ⟨rfl, .of_ends (List.perm_iff_count.2 fun x => ?_) rfl⟩
    have hleft : (s.replace id c.finish).contexts = before ++ c.finish :: after := hreplaced _
    have hlive : c.finish.live = [] := Context.live_eq_nil rfl
    have hworld : (s.replace id c.finish).world = s.world := rfl
    simp only [roll, World.roll, Operation.stopped, Operation.opening, hc, hleft, hworld,
      hcontexts, hlive, Option.toList_some, List.flatMap_append, List.flatMap_cons,
      List.flatMap_nil, List.append_nil, List.count_append]
    rw [List.count_nil]
    omega
  | destroy id =>
    obtain rfl := Option.some.inj hprep
    exact ⟨rfl, .refl _⟩
  | edit change => simp [Operation.prepared] at hprep
  | snapshot => simp [Operation.prepared] at hprep

/-- An operation that is refused creates nothing, and nothing ends in it. -/
theorem created_of_refused {op : Operation} (hprep : op.prepared s = none)
    (hopening : op.opening s = []) : op.created s = [] ∧ op.ended s = [] := by
  have hadvances : op.advances s = [] := by
    rw [Operation.advances_eq, hopening, hprep]
    rfl
  have hunswept : op.unswept s = none := by
    rw [Operation.unswept, hprep]
    rfl
  rw [Operation.created, Operation.ended, hadvances, hunswept]
  cases op with
  | start name ambient =>
    have hevent : s.engine.event? name = none := by simpa [Operation.opening] using hopening
    simp [Operation.started, Operation.stopped, hevent]
  | stop id =>
    have hcontext : s.context? id = none := by simpa [Operation.prepared] using hprep
    simp [Operation.started, Operation.stopped, hcontext]
  | _ => exact ⟨rfl, rfl⟩

/-- **No context is lost or doubled.** An operation adds the contexts that it
creates and takes off those that end in it; all others stay. -/
theorem run (hk : s.engine.KeepsIdentities) (hlt : s.world.nextEventId < UInt64.size)
    {op : Operation} {r : Reply}
    (hop : op.run s = some (r, s')) : s.roll.Moves (op.created s) (op.ended s) s'.roll := by
  rcases Operation.run_course hop with ⟨-, s₁, hprep, hrun⟩ | ⟨-, hprep, hopening, hs'⟩
  · obtain ⟨s₂, hs₂, rfl⟩ := reconcile_eq_some hrun
    obtain ⟨hengine, hprepared⟩ := hk.prepared hlt hprep
    have hmet := unswept (hengine ▸ hk) (hprepared.next_lt hlt) hs₂
    have hmoved := (hprepared.trans hmet).trans (roll_sweep s₂)
    have hunswept : op.unswept s = some s₂ := by
      rw [Operation.unswept, hprep]
      exact hs₂
    rw [hengine] at hmoved
    rw [Operation.created, Operation.ended, Operation.advances_eq, hprep, hunswept,
      List.flatMap_append, List.flatMap_append, ← List.append_assoc, ← List.append_assoc,
      Option.toList_some, List.flatMap_singleton]
    rw [List.append_nil] at hmoved
    exact hmoved
  · obtain ⟨hcreated, hended⟩ := created_of_refused hprep hopening
    rw [hcreated, hended]
    rcases hs' with rfl | ⟨change, -, rfl⟩
    · exact .refl _
    · refine .of_perm ?_ (congrArg EventId.mk (HostEdit.nextEventId_run _ _))
      simp only [roll, World.roll, HostEdit.spawned_run]
      exact .refl _

end Engine.KeepsIdentities

end Cutscene
