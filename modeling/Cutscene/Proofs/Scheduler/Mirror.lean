import Cutscene.Proofs.Run.Mirror
import Cutscene.Proofs.Scheduler.Operation
/-!
# Scheduler — schedulers that mirror each other

Two schedulers mirror each other when they have the same contexts over worlds
that do (`Scheduler.Mirrors`). Under a still engine an operation that creates
no object answers the same in both and leaves them mirrored
(`Engine.IsStill.run`), and so do operations one after the other
(`Engine.IsStill.runAll`).
-/

namespace Cutscene

/-- The schedulers have the same contexts under the same engine, and their
worlds mirror each other. -/
structure Scheduler.Mirrors (e : Engine) (base base' : List HostCall) (s s' : Scheduler) :
    Prop where
  engine : s.engine = e
  engine' : s'.engine = e
  contexts : s'.contexts = s.contexts
  world : s.world.Mirrors base base' s'.world

/-- Does the host create an object? -/
def Operation.isCreate : Operation → Bool
  | .edit (.create ..) => true
  | _ => false

namespace Scheduler.Mirrors

variable {e : Engine} {base base' : List HostCall} {s s' : Scheduler}

theorem symm (h : s.Mirrors e base base' s') : s'.Mirrors e base' base s :=
  ⟨h.engine', h.engine, h.contexts.symm, h.world.symm⟩

theorem context? (h : s.Mirrors e base base' s') (id : EventId) :
    s'.context? id = s.context? id := by
  rw [Scheduler.context?, Scheduler.context?, h.contexts]

theorem takeSpawned (h : s.Mirrors e base base' s') :
    s.takeSpawned.Mirrors e base base' s'.takeSpawned := by
  refine ⟨h.engine, h.engine', ?_, { h.world with spawned := rfl }⟩
  show s'.contexts ++ s'.world.spawned.reverse = s.contexts ++ s.world.spawned.reverse
  rw [h.contexts, h.world.spawned]

theorem dropRequests (h : s.Mirrors e base base' s') :
    Scheduler.Mirrors e base base' { s with world := { s.world with resumes := [] } }
      { s' with world := { s'.world with resumes := [] } } :=
  ⟨h.engine, h.engine', h.contexts, { h.world with resumes := rfl }⟩

theorem sweep (h : s.Mirrors e base base' s') : s.sweep.Mirrors e base base' s'.sweep := by
  refine ⟨h.engine, h.engine', ?_, { h.world with destroyed := rfl }⟩
  simp only [Scheduler.sweep, h.contexts, h.world.destroyed]

theorem replace (h : s.Mirrors e base base' s') (id : EventId) (c : Context) :
    (s.replace id c).Mirrors e base base' (s'.replace id c) :=
  ⟨h.engine, h.engine', congrArg (replaceIn id c) h.contexts, h.world⟩

/-- A snapshot does not tell the two apart. -/
theorem snapshot (h : s.Mirrors e base base' s') : s'.snapshot = s.snapshot := by
  -- neither the clock nor the calls made are saved
  simp only [Scheduler.snapshot, h.engine, h.engine', h.contexts, h.world.globals,
    h.world.selfVars, h.world.random, h.world.nextEventId]

end Scheduler.Mirrors

namespace Engine.IsStill

open Scheduler

variable {e : Engine} {base base' : List HostCall} {s s' x : Scheduler}

/-! ## Reconciling -/

theorem advanceContext (he : e.IsStill) (h : s.Mirrors e base base' s') {c : Context}
    (hrun : s.advanceContext c = some x) :
    ∃ x', s'.advanceContext c = some x' ∧ x.Mirrors e base base' x' := by
  unfold Scheduler.advanceContext at hrun ⊢
  rw [h.engine] at hrun
  rw [h.engine']
  cases hm : Machine.advance e ⟨c, s.world⟩ with
  | none => simp [hm] at hrun
  | some m =>
    have hstart : Machine.Mirrors base base' ⟨c, s.world⟩ ⟨c, s'.world⟩ := ⟨rfl, h.world⟩
    obtain ⟨m', hm', hboth⟩ := he.advance hstart hm
    rw [hm] at hrun
    obtain rfl := Option.some.inj hrun
    have hmoved : Scheduler.Mirrors e base base' { s with world := m.world }
        { s' with world := m'.world } := ⟨h.engine, h.engine', h.contexts, hboth.world⟩
    rw [hm']
    refine ⟨_, rfl, ?_⟩
    rw [hboth.context]
    have hreplaced := hmoved.replace c.id m.context
    simp only [h.engine, h.engine'] at hreplaced
    exact hreplaced

theorem meetRequest (he : e.IsStill) (h : s.Mirrors e base base' s') {id : EventId}
    (hrun : s.meetRequest id = some x) :
    ∃ x', s'.meetRequest id = some x' ∧ x.Mirrors e base base' x' := by
  unfold Scheduler.meetRequest at hrun ⊢
  rw [h.context?]
  cases hc : (s.context? id).bind Context.wake? with
  | none =>
    rw [hc] at hrun
    obtain rfl := Option.some.inj hrun
    exact ⟨s', rfl, h⟩
  | some c =>
    rw [hc] at hrun
    exact he.advanceContext h hrun

theorem meetRequests (he : e.IsStill) {ids : List EventId} (h : s.Mirrors e base base' s')
    (hrun : Scheduler.meetRequests ids s = some x) :
    ∃ x', Scheduler.meetRequests ids s' = some x' ∧ x.Mirrors e base base' x' := by
  induction ids generalizing s s' with
  | nil =>
    obtain rfl := Option.some.inj hrun
    exact ⟨s', rfl, h⟩
  | cons id ids ih =>
    rw [Scheduler.meetRequests] at hrun ⊢
    cases hs : s.meetRequest id with
    | none => simp [hs] at hrun
    | some s₁ =>
      obtain ⟨s₁', hs', h₁⟩ := he.meetRequest h hs
      rw [hs] at hrun
      rw [hs']
      exact ih h₁ hrun

theorem meetRounds (he : e.IsStill) {rounds : Nat} (h : s.Mirrors e base base' s')
    (hrun : Scheduler.meetRounds rounds s = some x) :
    ∃ x', Scheduler.meetRounds rounds s' = some x' ∧ x.Mirrors e base base' x' := by
  induction rounds generalizing s s' with
  | zero =>
    obtain rfl := Option.some.inj hrun
    exact ⟨s', rfl, h⟩
  | succ rounds ih =>
    have htaken := h.takeSpawned
    have hdropped := htaken.dropRequests
    simp only [Scheduler.meetRounds] at hrun ⊢
    rw [htaken.world.resumes]
    split at hrun
    · rename_i hempty
      obtain rfl := Option.some.inj hrun
      rw [if_pos hempty]
      exact ⟨_, rfl, hdropped⟩
    · rename_i hempty
      rw [if_neg hempty]
      split at hrun
      · simp at hrun
      rename_i s₁ hs
      obtain ⟨s₁', hs', h₁⟩ := he.meetRequests hdropped hs
      rw [hs']
      exact ih h₁ hrun

theorem reconcile (he : e.IsStill) (h : s.Mirrors e base base' s')
    (hrun : s.reconcile = some x) :
    ∃ x', s'.reconcile = some x' ∧ x.Mirrors e base base' x' := by
  unfold Scheduler.reconcile at hrun ⊢
  cases hs : Scheduler.meetRounds maxRounds s with
  | none => simp [hs] at hrun
  | some s₁ =>
    obtain ⟨s₁', hs', h₁⟩ := he.meetRounds h hs
    rw [hs] at hrun
    obtain rfl := Option.some.inj hrun
    rw [hs']
    exact ⟨_, rfl, h₁.dropRequests.takeSpawned.sweep⟩

/-! ## Operations -/

theorem advanceAll (he : e.IsStill) {deltaMs : Float} {cs cs₁ : List Context} {w w' w₁ : World}
    (h : w.Mirrors base base' w') (hrun : Scheduler.advanceAll e deltaMs cs w = some (cs₁, w₁)) :
    ∃ w₁', Scheduler.advanceAll e deltaMs cs w' = some (cs₁, w₁') ∧ w₁.Mirrors base base' w₁' := by
  induction cs generalizing w w' cs₁ w₁ with
  | nil =>
    obtain ⟨rfl, rfl⟩ := Prod.mk.inj (Option.some.inj hrun)
    exact ⟨w', rfl, h⟩
  | cons c cs ih =>
    rw [Scheduler.advanceAll] at hrun ⊢
    simp only at hrun ⊢
    by_cases hrunning : (countDown deltaMs c).state.isRunning = true
    · rw [if_pos hrunning] at hrun ⊢
      cases hm : Machine.advance e ⟨countDown deltaMs c, w⟩ with
      | none => simp [hm] at hrun
      | some m =>
        have hstart : Machine.Mirrors base base' ⟨countDown deltaMs c, w⟩
            ⟨countDown deltaMs c, w'⟩ := ⟨rfl, h⟩
        obtain ⟨m', hm', hboth⟩ := he.advance hstart hm
        rw [hm] at hrun
        obtain ⟨⟨cs₂, w₂⟩, hmore, heq⟩ := Option.map_eq_some_iff.1 hrun
        obtain ⟨rfl, rfl⟩ := Prod.mk.inj heq
        obtain ⟨w₂', hmore', h₂⟩ := ih hboth.world hmore
        simp only [hm', hmore', hboth.context, Option.map_some]
        exact ⟨w₂', rfl, h₂⟩
    · rw [if_neg hrunning] at hrun ⊢
      obtain ⟨⟨cs₂, w₂⟩, hmore, heq⟩ := Option.map_eq_some_iff.1 hrun
      obtain ⟨rfl, rfl⟩ := Prod.mk.inj heq
      obtain ⟨w₂', hmore', h₂⟩ := ih h hmore
      simp only [hmore', Option.map_some]
      exact ⟨w₂', rfl, h₂⟩

theorem start (he : e.IsStill) (h : s.Mirrors e base base' s') {name : String} {ambient : Ambient}
    {r : Except SchedulerError EventId} (hrun : s.start name ambient = some (r, x)) :
    ∃ x', s'.start name ambient = some (r, x') ∧ x.Mirrors e base base' x' := by
  obtain ⟨hid, hallocated⟩ := h.world.allocate
  unfold Scheduler.start at hrun ⊢
  rw [h.engine] at hrun
  rw [h.engine']
  cases hevent : e.event? name with
  | none =>
    rw [hevent] at hrun
    obtain ⟨rfl, rfl⟩ := Prod.mk.inj (Option.some.inj hrun)
    exact ⟨s', rfl, h⟩
  | some event =>
    simp only [hevent] at hrun
    simp only [hid]
    split at hrun
    · simp at hrun
    rename_i m hm
    have hstart : Machine.Mirrors base base'
        ⟨.start s.world.allocate.1 name (.root name) (Operation.startAmbient ambient event),
          s.world.allocate.2⟩
        ⟨.start s.world.allocate.1 name (.root name) (Operation.startAmbient ambient event),
          s'.world.allocate.2⟩ := ⟨rfl, hallocated⟩
    obtain ⟨m', hm', hboth⟩ := he.advance hstart hm
    obtain ⟨x₁, hx₁, heq⟩ := Option.map_eq_some_iff.1 hrun
    obtain ⟨rfl, rfl⟩ := Prod.mk.inj heq
    -- what was started joins both, and both reconcile
    have hjoined : Scheduler.Mirrors e base base'
        ⟨e, m.world, s.contexts ++ [m.context]⟩ ⟨e, m'.world, s'.contexts ++ [m'.context]⟩ :=
      ⟨rfl, rfl, by rw [h.contexts, hboth.context], hboth.world⟩
    obtain ⟨x₁', hx₁', hx⟩ := he.reconcile hjoined hx₁
    refine ⟨x₁', ?_, hx⟩
    rw [Operation.startAmbient] at hm'
    rw [hm']
    exact Option.map_eq_some_iff.2 ⟨x₁', hx₁', rfl⟩

theorem update (he : e.IsStill) (h : s.Mirrors e base base' s') {deltaMs : Float}
    (hrun : s.update deltaMs = some x) :
    ∃ x', s'.update deltaMs = some x' ∧ x.Mirrors e base base' x' := by
  unfold Scheduler.update at hrun ⊢
  simp only at hrun ⊢
  rw [h.engine] at hrun
  rw [h.engine', h.contexts]
  split at hrun
  · simp at hrun
  rename_i cs w hall
  have hticked : World.Mirrors base base'
      { s.world with elapsedMs := s.world.elapsedMs + deltaMs, frame := s.world.frame + 1 }
      { s'.world with elapsedMs := s'.world.elapsedMs + deltaMs, frame := s'.world.frame + 1 } :=
    { h.world with }
  obtain ⟨w', hall', hw⟩ := he.advanceAll hticked hall
  rw [hall']
  exact he.reconcile (s := ⟨e, w, cs⟩) ⟨rfl, rfl, rfl, hw⟩ hrun

/-- A context is advanced, and the scheduler reconciles and answers. -/
theorem answer (he : e.IsStill) (h : s.Mirrors e base base' s') {α : Type} {a r : α} {c : Context}
    (hrun : ((s.advanceContext c).bind Scheduler.reconcile).map (fun s => (a, s)) = some (r, x)) :
    ∃ x', ((s'.advanceContext c).bind Scheduler.reconcile).map (fun s => (a, s)) = some (r, x') ∧
      x.Mirrors e base base' x' := by
  obtain ⟨x₁, hx₁, heq⟩ := Option.map_eq_some_iff.1 hrun
  obtain ⟨rfl, rfl⟩ := Prod.mk.inj heq
  obtain ⟨s₁, hs₁, hreconciled⟩ := Option.bind_eq_some_iff.1 hx₁
  obtain ⟨s₁', hs₁', h₁⟩ := he.advanceContext h hs₁
  obtain ⟨x₁', hx₁', hx⟩ := he.reconcile h₁ hreconciled
  refine ⟨x₁', ?_, hx⟩
  rw [hs₁', Option.bind_some, hx₁', Option.map_some]

theorem resume (he : e.IsStill) (h : s.Mirrors e base base' s') {id : EventId} {b : Bool}
    (hrun : s.resume id = some (b, x)) :
    ∃ x', s'.resume id = some (b, x') ∧ x.Mirrors e base base' x' := by
  unfold Scheduler.resume at hrun ⊢
  rw [h.context?]
  split at hrun
  · obtain ⟨rfl, rfl⟩ := Prod.mk.inj (Option.some.inj hrun)
    exact ⟨s', rfl, h⟩
  · exact he.answer h hrun

theorem choose (he : e.IsStill) (h : s.Mirrors e base base' s') {id : EventId} {index : Nat}
    {r : Except SchedulerError Unit} (hrun : s.choose id index = some (r, x)) :
    ∃ x', s'.choose id index = some (r, x') ∧ x.Mirrors e base base' x' := by
  unfold Scheduler.choose at hrun ⊢
  rw [h.context?]
  split at hrun
  · obtain ⟨rfl, rfl⟩ := Prod.mk.inj (Option.some.inj hrun)
    exact ⟨s', rfl, h⟩
  rename_i c hc
  simp only
  split at hrun
  · split at hrun
    · rename_i hindex
      obtain ⟨rfl, rfl⟩ := Prod.mk.inj (Option.some.inj hrun)
      rw [if_pos hindex]
      exact ⟨s', rfl, h⟩
    · rename_i hindex
      rw [if_neg hindex]
      exact he.answer h hrun
  · obtain ⟨rfl, rfl⟩ := Prod.mk.inj (Option.some.inj hrun)
    exact ⟨s', rfl, h⟩

theorem stop (he : e.IsStill) (h : s.Mirrors e base base' s') {id : EventId} {b : Bool}
    (hrun : s.stop id = some (b, x)) :
    ∃ x', s'.stop id = some (b, x') ∧ x.Mirrors e base base' x' := by
  unfold Scheduler.stop at hrun ⊢
  rw [h.context?]
  split at hrun
  · obtain ⟨rfl, rfl⟩ := Prod.mk.inj (Option.some.inj hrun)
    exact ⟨s', rfl, h⟩
  · rename_i c hc
    obtain ⟨x₁, hx₁, heq⟩ := Option.map_eq_some_iff.1 hrun
    obtain ⟨rfl, rfl⟩ := Prod.mk.inj heq
    obtain ⟨x₁', hx₁', hx⟩ := he.reconcile (h.replace id c.finish) hx₁
    exact ⟨x₁', Option.map_eq_some_iff.2 ⟨x₁', hx₁', rfl⟩, hx⟩

theorem destroyObject (he : e.IsStill) (h : s.Mirrors e base base' s') {id : ObjectId}
    {ids : List ObjectId} (hrun : s.destroyObject id = some (ids, x)) :
    ∃ x', s'.destroyObject id = some (ids, x') ∧ x.Mirrors e base base' x' := by
  unfold Scheduler.destroyObject at hrun ⊢
  rw [World.Mirrors.destroyObject_eq h.world.bare] at hrun
  rw [World.Mirrors.destroyObject_eq h.world.bare']
  obtain ⟨x₁, hx₁, heq⟩ := Option.map_eq_some_iff.1 hrun
  obtain ⟨rfl, rfl⟩ := Prod.mk.inj heq
  obtain ⟨x₁', hx₁', hx⟩ := he.reconcile h hx₁
  exact ⟨x₁', Option.map_eq_some_iff.2 ⟨x₁', hx₁', rfl⟩, hx⟩

end Engine.IsStill

/-- **An edit of the host that creates no object answers the same in both.** -/
theorem World.Mirrors.edit {base base' : List HostCall} {w w' : World}
    (h : w.Mirrors base base' w') {change : HostEdit}
    (hchange : (Operation.edit change).isCreate = false) :
    (change.run w').1 = (change.run w).1 ∧
      (change.run w).2.Mirrors base base' (change.run w').2 := by
  cases change with
  | requestResume id => exact ⟨rfl, h.requestResume id⟩
  | destroyLater id =>
    have hnone := destroyObject_eq h.bare id
    have hnone' := destroyObject_eq h.bare' id
    refine ⟨?_, ?_⟩
    · simp only [HostEdit.run, hnone, hnone']
    · simp only [HostEdit.run, hnone, hnone']
      exact h
  | drawUnit =>
    show Reply.unit w'.random.unit.1 = Reply.unit w.random.unit.1 ∧
      World.Mirrors base base' { w with random := w.random.unit.2 }
        { w' with random := w'.random.unit.2 }
    rw [h.random]
    exact ⟨rfl, h.draw _⟩
  | drawBelow bound =>
    show Reply.below (w'.random.below bound).1 = Reply.below (w.random.below bound).1 ∧
      World.Mirrors base base' { w with random := (w.random.below bound).2 }
        { w' with random := (w'.random.below bound).2 }
    rw [h.random]
    exact ⟨rfl, h.draw _⟩
  | setGlobal key value =>
    refine ⟨rfl, { h with globals := ?_ }⟩
    simp only [HostEdit.run, h.globals]
  | setAttribute id key value =>
    have hobjects := congrArg (Store.modify · id fun o =>
      { o with attributes := o.attributes.insert key value }) h.objects
    refine ⟨rfl, { h with objects := hobjects, bare := ?_ }⟩
    simp only [HostEdit.run, h.bare, Store.modify_empty]
  | create kind dataId parent key slot => simp [Operation.isCreate] at hchange
  | attach parent child =>
    -- there is neither of the two objects
    have hattach : w.objects.attach? parent child = none := by
      rw [h.bare]
      exact Store.attach?_empty parent child
    have hattach' : w'.objects.attach? parent child = none := by
      rw [h.objects, hattach]
    refine ⟨?_, ?_⟩
    · simp only [HostEdit.run, hattach, hattach']
    · simp only [HostEdit.run, hattach, hattach']
      exact h
  | joinParty actor =>
    refine ⟨rfl, { h with objects := congrArg (Store.joinParty · actor) h.objects, bare := ?_ }⟩
    simp only [HostEdit.run, h.bare, Store.joinParty_empty]

namespace Engine.IsStill

variable {e : Engine} {base base' : List HostCall} {s s' x : Scheduler}

/-- What an operation has as its result is what it answers. -/
theorem replies {α : Type} {r : Reply} (reply : α → Reply) {o o' : Option (α × Scheduler)}
    (h : ∀ {a x}, o = some (a, x) → ∃ x', o' = some (a, x') ∧ x.Mirrors e base base' x')
    (hrun : o.map (fun y => (reply y.1, y.2)) = some (r, x)) :
    ∃ x', o'.map (fun y => (reply y.1, y.2)) = some (r, x') ∧ x.Mirrors e base base' x' := by
  obtain ⟨⟨a, x₁⟩, ha, heq⟩ := Option.map_eq_some_iff.1 hrun
  obtain ⟨rfl, rfl⟩ := Prod.mk.inj heq
  obtain ⟨x', hx', hx⟩ := h ha
  exact ⟨x', Option.map_eq_some_iff.2 ⟨_, hx', rfl⟩, hx⟩

/-- **An operation that creates no object answers the same in both schedulers
and leaves them mirrored.** -/
theorem run (he : e.IsStill) (h : s.Mirrors e base base' s') {op : Operation} {r : Reply}
    (hop : op.isCreate = false) (hrun : op.run s = some (r, x)) :
    ∃ x', op.run s' = some (r, x') ∧ x.Mirrors e base base' x' := by
  cases op with
  | start name ambient => exact replies .started (fun hrun => he.start h hrun) hrun
  | update deltaMs =>
    obtain ⟨x₁, h₁, heq⟩ := Option.map_eq_some_iff.1 hrun
    obtain ⟨rfl, rfl⟩ := Prod.mk.inj heq
    obtain ⟨x', hx', hx⟩ := he.update h h₁
    exact ⟨x', Option.map_eq_some_iff.2 ⟨_, hx', rfl⟩, hx⟩
  | resume id => exact replies .flag (fun hrun => he.resume h hrun) hrun
  | choose id index => exact replies .chosen (fun hrun => he.choose h hrun) hrun
  | stop id => exact replies .flag (fun hrun => he.stop h hrun) hrun
  | destroy id => exact replies .removed (fun hrun => he.destroyObject h hrun) hrun
  | edit change =>
    obtain ⟨hreply, hedited⟩ := h.world.edit hop
    obtain ⟨rfl, rfl⟩ := Prod.mk.inj (Option.some.inj hrun)
    refine ⟨{ s' with world := (change.run s'.world).2 }, ?_, h.engine, h.engine', h.contexts,
      hedited⟩
    show some ((change.run s'.world).1, _) = _
    rw [hreply]
  | snapshot =>
    obtain ⟨rfl, rfl⟩ := Prod.mk.inj (Option.some.inj hrun)
    refine ⟨s', ?_, h⟩
    show some (Reply.snapshot s'.snapshot, s') = _
    rw [h.snapshot]

/-- **Operations one after the other answer the same in both.** -/
theorem runAll (he : e.IsStill) (h : s.Mirrors e base base' s') {ops : List Operation}
    {rs : List Reply} (hops : ∀ op ∈ ops, op.isCreate = false)
    (hrun : Operation.runAll s ops = some (rs, x)) :
    ∃ x', Operation.runAll s' ops = some (rs, x') ∧ x.Mirrors e base base' x' := by
  induction ops generalizing s s' rs with
  | nil =>
    obtain ⟨rfl, rfl⟩ := Prod.mk.inj (Option.some.inj hrun)
    exact ⟨s', rfl, h⟩
  | cons op ops ih =>
    obtain ⟨hop, hops⟩ := List.forall_mem_cons.1 hops
    rw [Operation.runAll] at hrun ⊢
    split at hrun
    · simp at hrun
    rename_i r s₁ hr
    obtain ⟨s₁', hr', h₁⟩ := he.run h hop hr
    obtain ⟨⟨rs₁, x₁⟩, hmore, heq⟩ := Option.map_eq_some_iff.1 hrun
    obtain ⟨rfl, rfl⟩ := Prod.mk.inj heq
    obtain ⟨x', hmore', hx⟩ := ih h₁ hops hmore
    rw [hr']
    exact ⟨x', Option.map_eq_some_iff.2 ⟨_, hmore', rfl⟩, hx⟩

end Engine.IsStill

end Cutscene
