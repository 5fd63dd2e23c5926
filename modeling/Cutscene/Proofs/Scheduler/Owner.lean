import Cutscene.Proofs.Scene.Removal
import Cutscene.Proofs.Scheduler.Maintain
/-!
# Scheduler — owners that are removed

A context belongs to the object that its circumstances name as its owner.
Removing the object does not stop the context at once. The removal is recorded
in the world (`World.Records`), and the next operation that runs contexts ends
by finishing those whose owners are recorded. From then on no context of the
object executes a step, in whatever operations follow, unless the host starts
another event for the object (`Scheduler.ReachableFor.rests`). A step that
deletes the owner of its own context finishes that context itself.

Two properties carry this. While an operation runs, every removal is recorded
(`World.Pending`), up to the sweep at the end. Once no context belongs to the
object, none ever does, because a spawned context has the owner of the one
that spawned it (`Context.Apart`).
-/

namespace Cutscene

/-! ## Recording removals -/

/-- From the first world to the second, objects keep their numbers, and every
object that was removed is recorded. -/
structure World.Records (w w' : World) : Prop where
  loses : w.objects.Keyed → ∃ ids, w.objects.Loses w'.objects ids ∧ ids ⊆ w'.destroyed
  destroyed : w.destroyed ⊆ w'.destroyed

namespace World.Records

variable {w w' : World}

theorem of_eq (ho : w'.objects = w.objects) (hd : w'.destroyed = w.destroyed) : w.Records w' :=
  ⟨fun hk => ⟨[], (Store.Loses.refl hk).of_eq (by rw [ho]) (by rw [ho]), by simp⟩,
    fun _ h => hd ▸ h⟩

/-- A change of objects that removes none. -/
theorem of_loses (h : w.objects.Keyed → w.objects.Loses w'.objects [])
    (hd : w'.destroyed = w.destroyed) : w.Records w' :=
  ⟨fun hk => ⟨[], h hk, by simp⟩, fun _ h => hd ▸ h⟩

theorem destroyObject (w : World) (id : ObjectId) : w.Records (w.destroyObject id).2 := by
  refine ⟨fun hk => ⟨_, Store.loses_remove hk id, fun k hk => ?_⟩, fun k hk => ?_⟩
  · exact List.mem_append_left _ (List.mem_reverse.2 hk)
  · exact List.mem_append_right _ hk

end World.Records

theorem Store.loses_grow {s : Store} (hs : s.Keyed) (kind : ObjectKind) (dataId : String)
    (parent : Option ObjectId) : s.Loses (s.grow kind dataId parent) [] := by
  cases parent with
  | none => exact loses_create hs kind dataId
  | some parent =>
    rw [grow]
    cases hchild : s.createChild? parent kind dataId with
    | none => exact .refl hs
    | some made => exact loses_createChild hs hchild

/-- **Every effect records what it removes.** -/
theorem Effect.records (m : Machine) (x : Effect) : m.world.Records (x.apply m).world := by
  cases x with
  | attributes id vars => exact .of_loses (fun hk => Store.loses_modify hk fun _ => rfl) rfl
  | label id key slot => exact .of_loses (fun hk => Store.loses_modify hk fun _ => rfl) rfl
  | create kind dataId parent =>
    exact .of_loses (fun hk => Store.loses_grow hk kind dataId parent) rfl
  | destroy id => exact .destroyObject _ id
  | selfVars id vars =>
    simp only [apply]
    split <;> exact .of_eq rfl rfl
  | _ => exact .of_eq rfl rfl

/-- **Every edit of the host records what it removes.** -/
theorem HostEdit.records (w : World) (change : HostEdit) : w.Records (change.run w).2 := by
  cases change with
  | destroyLater id => exact .destroyObject w id
  | setAttribute id key value => exact .of_loses (fun hk => Store.loses_modify hk fun _ => rfl) rfl
  | create kind dataId parent key slot =>
    have hmodify : ∀ {s s' : Store} {id : ObjectId}, s.Loses s' [] →
        s.Loses (s'.modify id fun o => { o with key, slot }) [] := by
      intro s s' id h
      have hlabel : s'.Loses (s'.modify id fun o => { o with key, slot }) [] :=
        Store.loses_modify h.keyed fun _ => rfl
      exact h.trans hlabel
    cases parent with
    | none => exact .of_loses (fun hk => hmodify (Store.loses_create hk kind dataId)) rfl
    | some parent =>
      simp only [HostEdit.run, World.create]
      cases hchild : w.objects.createChild? parent kind dataId with
      | none => exact .of_eq rfl rfl
      | some made => exact .of_loses (fun hk => hmodify (Store.loses_createChild hk hchild)) rfl
  | attach parent child =>
    simp only [HostEdit.run]
    split
    · exact .of_eq rfl rfl
    · exact .of_loses (fun hk => Store.loses_attach hk ‹_›) rfl
  | joinParty actor => exact .of_loses (fun hk => Store.loses_joinParty hk actor) rfl
  | drawUnit =>
    show w.Records { w with random := w.random.unit.2 }
    exact .of_eq rfl rfl
  | drawBelow bound => exact .of_eq rfl rfl
  | requestResume id => exact .of_eq rfl rfl
  | setGlobal key value => exact .of_eq rfl rfl

/-- The handler leaves its context's owner as it is, records what it removes,
and spawns no context. -/
def Handler.MindsOwners (h : Handler) : Prop :=
  ∀ arguments m,
    (h arguments m).2.context.ambient.owner = m.context.ambient.owner ∧
    m.world.Records (h arguments m).2.world ∧
    (h arguments m).2.world.spawned = m.world.spawned

/-- All custom handlers mind owners. -/
def Engine.MindsOwners (e : Engine) : Prop :=
  ∀ id handler, e.handlers.get? id = some handler → handler.MindsOwners

theorem Engine.mindsOwners_tells (l : Library) : (Engine.handling l .tells).MindsOwners := by
  intro id handler hhandler arguments m
  obtain rfl := Engine.eq_of_handling hhandler
  exact ⟨rfl, .of_eq rfl rfl, rfl⟩

theorem World.bind_eq (w : World) (step : Step) (place : Place) :
    (w.bind step place).objects = w.objects ∧ (w.bind step place).destroyed = w.destroyed ∧
      (w.bind step place).spawned = w.spawned := by
  unfold bind
  split <;> exact ⟨rfl, rfl, rfl⟩

/-- **What recording keeps is sustained.** -/
theorem Engine.MindsOwners.sustains {e : Engine} (hm : e.MindsOwners) {W : World → Prop}
    (h : ∀ {w w' : World}, W w → w.Records w' → W w') : e.Sustains (fun _ => True) W where
  turn := fun _ _ _ _ _ _ => ⟨trivial, fun _ _ => trivial⟩
  skip := fun _ _ _ _ => trivial
  custom := by
    intro m id arguments handler _ hw _ _ hhandler
    obtain ⟨-, hrecords, -⟩ := hm id handler hhandler arguments (m.past (.custom id arguments))
    obtain ⟨hobjects, hdestroyed, -⟩ := m.world.bind_eq (.custom id arguments) m.context.place
    exact ⟨trivial, h (h hw (.of_eq hobjects hdestroyed)) hrecords⟩
  pause := fun _ _ => trivial
  finish := fun _ => trivial
  effect := fun hw => h hw (Effect.records _ _)
  bind := by
    intro w step place hw
    obtain ⟨hobjects, hdestroyed, -⟩ := w.bind_eq step place
    exact h hw (.of_eq hobjects hdestroyed)
  allocate := fun hw => h hw (.of_eq rfl rfl)
  adopt := by
    intro c w _ hw
    unfold World.adopt
    split
    · exact hw
    · exact h hw (.of_eq rfl rfl)
  wake := fun _ _ => trivial
  choose := fun _ => trivial
  countDown := fun _ => trivial
  spawned := fun _ _ _ => trivial
  takeSpawned := fun hw => h hw (.of_eq rfl rfl)
  resumes := fun hw => h hw (.of_eq rfl rfl)
  tick := fun hw => h hw (.of_eq rfl rfl)

/-- Objects are under their own numbers, and if the object was removed, that is
recorded. -/
def World.Pending (o : ObjectId) (w : World) : Prop :=
  w.objects.Keyed ∧ (w.objects.Removed o → o ∈ w.destroyed)

theorem World.Pending.records {o : ObjectId} {w w' : World} (h : w.Pending o) (hr : w.Records w') :
    w'.Pending o := by
  obtain ⟨ids, hloses, hids⟩ := hr.loses h.1
  refine ⟨hloses.keyed, fun hremoved => ?_⟩
  rcases hloses.gone hremoved with hremoved | hid
  · exact hr.destroyed (h.2 hremoved)
  · exact hids hid

theorem World.keyed_of_records {w w' : World} (h : w.objects.Keyed) (hr : w.Records w') :
    w'.objects.Keyed := by
  obtain ⟨ids, hloses, -⟩ := hr.loses h
  exact hloses.keyed

/-! ## Contexts of other owners -/

/-- The context does not belong to the object. -/
def Context.Apart (o : ObjectId) (c : Context) : Prop := c.ambient.owner ≠ some o

/-- A turn keeps the owner, and a context that it spawns has the same. -/
theorem Step.Turn.owner {e : Engine} {id : EventId} {c c' : Context} {step : Step} {o : Outcome}
    (h : step.Turn e id c o c') : c'.ambient.owner = c.ambient.owner ∧
      ∀ child, o = .spawn child → child.ambient.owner = c.ambient.owner := by
  cases h with
  | halt a halt => rcases halt with _ | halt <;> [skip; cases halt] <;> exact ⟨rfl, by simp⟩
  | spawn body =>
    refine ⟨rfl, fun child hchild => ?_⟩
    obtain rfl := Outcome.spawn.inj hchild
    rfl
  | callAsync params hevent vars =>
    refine ⟨rfl, fun child hchild => ?_⟩
    obtain rfl := Outcome.spawn.inj hchild
    rfl
  | _ => exact ⟨rfl, by simp⟩

theorem Engine.MindsOwners.maintains_apart {e : Engine} (hm : e.MindsOwners) (o : ObjectId) :
    e.Maintains (Context.Apart o) where
  turn := by
    intro c c' step id vars outcome hc _ _ _ hturn _
    obtain ⟨howner, hchild⟩ := hturn.owner
    exact ⟨fun _ h => hc (howner ▸ h), fun child ho h => hc (hchild child ho ▸ h)⟩
  skip := fun hc _ _ _ => hc
  custom := by
    intro m id arguments handler hhandler hc _ hw
    obtain ⟨howner, -, hspawned⟩ := hm id handler hhandler arguments m
    exact ⟨fun _ h => hc (howner ▸ h), fun c hc => hw c (hspawned ▸ hc)⟩
  pause := fun hc _ => hc
  wake := fun hc _ => hc
  choose := fun hc => hc
  countDown := by
    intro c deltaMs hc
    obtain ⟨state, hstate⟩ := Scheduler.exists_countDown_eq deltaMs c
    rw [hstate]
    exact hc

/-! ## Runs -/

/-- The operation starts an event for the object. -/
def Operation.IsStartFor (o : ObjectId) : Operation → Prop
  | .start _ ambient => ambient.owner = some o
  | _ => False

instance (o : ObjectId) : (op : Operation) → Decidable (op.IsStartFor o)
  | .start _ ambient => inferInstanceAs (Decidable (ambient.owner = some o))
  | .update _ | .resume _ | .choose .. | .stop _ | .destroy _ | .edit _ | .snapshot =>
    inferInstanceAs (Decidable False)

/-- What a scheduler can come to over an engine if no event is started for the
object after that was removed. -/
inductive Scheduler.ReachableFor (e : Engine) (o : ObjectId) : Scheduler → Prop
  | fresh (seed : UInt32) : ReachableFor e o (.fresh e seed)
  | run {s s' : Scheduler} {op : Operation} {r : Reply} (h : ReachableFor e o s)
      (hstart : op.IsStartFor o → ¬ s.world.objects.Removed o) (hop : op.run s = some (r, s')) :
    ReachableFor e o s'
  | restore {s s' : Scheduler} {saved : Snapshot} (h : ReachableFor e o s)
      (hs : s.snapshot = .ok saved) (hr : Scheduler.restore e saved = .ok s') :
    ReachableFor e o s'

/-- The machines at which operations execute a step, in order. -/
def Operation.visitsAll (s : Scheduler) : List Operation → List Machine
  | [] => []
  | op :: ops => op.visits s ++
      match op.run s with
      | none => []
      | some (_, s) => visitsAll s ops

/-- Between operations nothing is spawned, and the removal of the object is
recorded or no context belongs to it. -/
structure Scheduler.Mourns (o : ObjectId) (s : Scheduler) : Prop where
  keyed : s.world.objects.Keyed
  spawned : s.world.spawned = []
  settled : (s.world.objects.Removed o → o ∈ s.world.destroyed) ∨ ∀ c ∈ s.contexts, c.Apart o

theorem Operation.starts_apart {e : Engine} {o : ObjectId} {op : Operation}
    (h : ¬ op.IsStartFor o) : op.Starts e (Context.Apart o) := by
  rintro id name ambient event rfl hevent
  exact h

/-- The sweep leaves no context whose owner is recorded. -/
theorem Scheduler.apart_of_mem_sweep {s : Scheduler} {o : ObjectId} {c : Context}
    (ho : o ∈ s.world.destroyed) (hc : c ∈ s.sweep.contexts) : c.Apart o := by
  intro howner
  have horphan := (mem_sweep.1 hc).2.1
  rw [isOrphan, howner, Option.any_some, List.contains_eq_mem, decide_eq_false_iff_not] at horphan
  exact horphan ho

namespace Engine.MindsOwners

variable {e : Engine} {o : ObjectId} {s s₁ s' : Scheduler} {op : Operation} {r : Reply}

/-- An operation that runs contexts keeps objects under their numbers and
leaves nothing spawned. -/
theorem tidy (hm : e.MindsOwners) (he : s.engine = e) (hs : s.world.objects.Keyed)
    (hprep : op.Prepares s s₁) (hrun : s₁.reconcile = some s') :
    s'.engine = e ∧ s'.world.objects.Keyed ∧ s'.world.spawned = [] := by
  subst he
  have hkept := hm.sustains (W := fun w => w.objects.Keyed) World.keyed_of_records
  obtain ⟨he₁, hs₁⟩ := hkept.prepares ⟨fun _ _ => trivial, hs⟩ (fun _ _ => trivial) hprep
  obtain ⟨s₂, hs₂, rfl⟩ := Scheduler.reconcile_eq hrun
  obtain ⟨he₂, -⟩ := (he₁ ▸ hkept).meetRounds hs₁ hs₂
  exact ⟨he₂.trans he₁, ((he₁ ▸ hkept).beforeSweep hs₁ hs₂).2, rfl⟩

/-- A removal that is recorded all along, up to the sweep, is acted on. -/
theorem apart_of_pending (hm : e.MindsOwners) (he : s.engine = e) (hs : s.world.Pending o)
    (hprep : op.Prepares s s₁) (hrun : s₁.reconcile = some s')
    (hremoved : s'.world.objects.Removed o) : ∀ c ∈ s'.contexts, c.Apart o := by
  subst he
  have hkept := hm.sustains (World.Pending.records (o := o))
  obtain ⟨he₁, hs₁⟩ := hkept.prepares ⟨fun _ _ => trivial, hs⟩ (fun _ _ => trivial) hprep
  obtain ⟨s₂, hs₂, rfl⟩ := Scheduler.reconcile_eq hrun
  have hbefore := ((he₁ ▸ hkept).beforeSweep hs₁ hs₂).2
  exact fun c hc => Scheduler.apart_of_mem_sweep (hbefore.2 hremoved) hc

/-- **An operation that runs contexts leaves none that belongs to an object
that was removed.** -/
theorem apart_of_fold (hm : e.MindsOwners) (he : s.engine = e) (hs : s.Mourns o)
    (hstart : op.IsStartFor o → ¬ s.world.objects.Removed o) (hprep : op.Prepares s s₁)
    (hrun : s₁.reconcile = some s') (hremoved : s'.world.objects.Removed o) :
    ∀ c ∈ s'.contexts, c.Apart o := by
  rcases hs.settled with hpending | hapart
  · exact hm.apart_of_pending he ⟨hs.keyed, hpending⟩ hprep hrun hremoved
  by_cases hfor : op.IsStartFor o
  -- the object is there when the event is started, so its removal is yet to be recorded
  · have hpending : s.world.Pending o := ⟨hs.keyed, fun h => absurd h (hstart hfor)⟩
    exact hm.apart_of_pending he hpending hprep hrun hremoved
  · subst he
    have hkept := hm.maintains_apart o
    have hspawned : World.Spawned (Context.Apart o) s.world := by
      intro c hc
      rw [hs.spawned] at hc
      simp at hc
    obtain ⟨he₁, hs₁⟩ := hkept.sustains.prepares (Scheduler.Has.unlessFinished ⟨hapart, hspawned⟩)
      (fun ho hevent _ => Operation.starts_apart hfor ho hevent) hprep
    exact (hkept.reconcile he₁ hs₁ hrun).2.1

/-- **Operations keep what holds between them.** -/
theorem mourns (hm : e.MindsOwners) (hs : s.ReachableFor e o) : s.engine = e ∧ s.Mourns o := by
  induction hs with
  | fresh seed =>
    exact ⟨rfl, Store.keyed_empty, rfl, .inl fun h => absurd h (Store.not_removed_empty o)⟩
  | @run s s' op r _ hstart hop ih =>
    obtain ⟨he, hs⟩ := ih
    rcases Operation.run_cases hop with rfl | ⟨change, rfl, rfl⟩ | ⟨s₁, hprep, hrun⟩
    · exact ⟨he, hs⟩
    -- an edit of the world runs no context, and records what it removes
    · refine ⟨he, World.keyed_of_records hs.keyed (HostEdit.records _ _), ?_, ?_⟩
      · exact (HostEdit.spawned_run _ _).trans hs.spawned
      · refine hs.settled.imp (fun hpending => ?_) id
        exact (World.Pending.records ⟨hs.keyed, hpending⟩ (HostEdit.records _ _)).2
    · obtain ⟨he', hkeyed, hspawned⟩ := hm.tidy he hs.keyed hprep hrun
      refine ⟨he', hkeyed, hspawned, ?_⟩
      by_cases hremoved : s'.world.objects.Removed o
      · exact .inr (hm.apart_of_fold he hs hstart hprep hrun hremoved)
      · exact .inl fun h => absurd h hremoved
  | restore _ hsaved hr ih =>
    obtain ⟨contexts, -, rfl⟩ := Scheduler.restore_eq hr
    exact ⟨rfl, Store.keyed_empty, rfl, .inl fun h => absurd h (Store.not_removed_empty o)⟩

/-- Once no context belongs to the object, none does that executes a step. -/
theorem apart_visitsAll (hm : e.MindsOwners) {ops : List Operation} (he : s.engine = e)
    (hs : s.Has (Context.Apart o) (World.Spawned (Context.Apart o)))
    (hops : ∀ op ∈ ops, ¬ op.IsStartFor o) {x : Machine} (hx : x ∈ Operation.visitsAll s ops) :
    x.context.Apart o := by
  induction ops generalizing s with
  | nil => simp [Operation.visitsAll] at hx
  | cons op ops ih =>
    obtain ⟨hop, hops⟩ := List.forall_mem_cons.1 hops
    have hkept := hm.maintains_apart o
    rw [Operation.visitsAll, List.mem_append] at hx
    rcases hx with hx | hx
    · exact hkept.visited he hs (Operation.starts_apart hop) hx
    · split at hx
      · simp at hx
      · rename_i r s' hrun
        obtain ⟨he', hs'⟩ := hkept.run he hs (Operation.starts_apart hop) hrun
        exact ih he' hs' hops hx

end Engine.MindsOwners

/-- **A step that deletes the owner of its context finishes the context.** -/
theorem Action.finished_of_deleteObject (deferred : HostCall → Bool) {m : Machine}
    {desc : ObjectDesc}
    {kind : ObjectKind} {o : ObjectId} (hk : m.world.objects.Keyed)
    (howner : m.context.ambient.owner = some o) (hthere : ¬ m.world.objects.Removed o)
    (hgone : ((Action.deleteObject desc kind).run deferred m).2.world.objects.Removed o) :
    ((Action.deleteObject desc kind).run deferred m).2.context.state.isFinished := by
  cases hid : m.resolve (some kind) desc with
  | none =>
    have hrun : (Action.deleteObject desc kind).run deferred m = (.next, m) := by
      simp only [Action.run]
      show Act.withSome (m.resolve (some kind) desc) _ m = _
      rw [hid]
      rfl
    rw [hrun] at hgone
    exact absurd hgone hthere
  | some id =>
    have hrun : (Action.deleteObject desc kind).run deferred m =
        if (m.world.destroyObject id).1.contains o then
          (.stop, { (m.destroyObject id).2 with context := m.context.finish })
        else (.next, (m.destroyObject id).2) := by
      simp only [Action.run]
      show Act.withSome (m.resolve (some kind) desc) _ m = _
      rw [hid]
      show (if (m.context.ambient.owner).any (m.world.destroyObject id).1.contains then Act.finish
        else Act.next : Act Flow) (m.destroyObject id).2 = _
      rw [howner, Option.any_some]
      split <;> rfl
    rw [hrun] at hgone ⊢
    split at hgone
    · rename_i hcontains
      rw [if_pos hcontains]
      rfl
    · rename_i hcontains
      have hlisted := (Store.loses_remove hk id).gone hgone
      exact absurd (List.contains_iff_mem.2 (hlisted.resolve_left hthere)) hcontains

/-- **A removed object's contexts rest.** In a run where no event is started
for an object after that was removed, a step that deletes the owner of its
context finishes that context; and after an operation, unless it leaves the
scheduler as it is or is an edit of the world, no context belongs to an object
that was removed, nor does any that executes a step in the operations that
follow, if none of them starts an event for the object. -/
theorem Scheduler.ReachableFor.rests {e : Engine} {o : ObjectId} {s s' : Scheduler}
    {op : Operation} {r : Reply} (hm : e.MindsOwners) (hs : s.ReachableFor e o)
    (hstart : op.IsStartFor o → ¬ s.world.objects.Removed o) (hop : op.run s = some (r, s')) :
    (∀ x ∈ op.visits s, ∀ desc kind,
      e.step? x.context.place = some (.action (.deleteObject desc kind)) →
      x.context.ambient.owner = some o → ¬ x.world.objects.Removed o →
      let step := Step.action (.deleteObject desc kind)
      (step.run e (x.past step)).2.world.objects.Removed o →
        (step.run e (x.past step)).2.context.state.isFinished) ∧
    (s' = s ∨ (∃ change, op = .edit change) ∨
      (s'.world.objects.Removed o →
        (∀ c ∈ s'.contexts, c.ambient.owner ≠ some o) ∧
        ∀ ops, (∀ op ∈ ops, ¬ Operation.IsStartFor o op) →
          ∀ x ∈ Operation.visitsAll s' ops, x.context.ambient.owner ≠ some o)) := by
  obtain ⟨he, hmourns⟩ := hm.mourns hs
  constructor
  · intro x hx desc kind _ howner hthere step hgone
    subst he
    have hkept := hm.sustains (W := fun w => w.objects.Keyed) World.keyed_of_records
    obtain ⟨-, -, hkeyed⟩ := hkept.operationVisits ⟨fun _ _ => trivial, hmourns.keyed⟩
      (fun _ _ => trivial) hx
    exact Action.finished_of_deleteObject s.engine.deferred hkeyed howner hthere hgone
  · rcases Operation.run_cases hop with rfl | ⟨change, rfl, -⟩ | ⟨s₁, hprep, hrun⟩
    · exact .inl rfl
    · exact .inr (.inl ⟨change, rfl⟩)
    · refine .inr (.inr fun hremoved => ?_)
      have hapart := hm.apart_of_fold he hmourns hstart hprep hrun hremoved
      obtain ⟨he', -, hspawned⟩ := hm.tidy he hmourns.keyed hprep hrun
      refine ⟨hapart, fun ops hops x hx => ?_⟩
      refine hm.apart_visitsAll he' ⟨hapart, fun c hc => ?_⟩ hops hx
      rw [hspawned] at hc
      simp at hc

/-- An event that pauses, after a custom instruction, and one that does not, each
with a message to log later, and one that wakes the first and deletes a box. -/
def Library.guarded : Library :=
  let guard : Json := .object [("variable", .object [("type", .string "global"),
    ("key", .string "guard")])]
  let log (message : String) : Instruction := ⟨"log", .object [("message", .string message)]⟩
  let box : Json := .object
    [("object", .object [("type", .string "by-id"), ("id", .string "box")]),
     ("kind", .string "item")]
  { events := .ofList
      [("guard", ⟨"guard", [⟨"custom", .null⟩, ⟨"pauseEvent", guard⟩, log "ran"], .empty⟩),
       ("watch", ⟨"watch", [log "on guard", log "ran"], .empty⟩),
       ("fall", ⟨"fall", [⟨"continueEvent", guard⟩, ⟨"deleteObject", box⟩], .empty⟩)] }

/-- The host makes a box. -/
def Operation.makeBox : Operation := .edit (.create .item "box" none none none)

/-- The host starts an event for the first object. -/
def Operation.startOwned (event : String) : Operation :=
  .start event { Ambient.none with owner := some ⟨1⟩ }

/-- A guard of a box pauses; the box is destroyed, and the guard is gone. -/
theorem Scheduler.ReachableFor.rests_guarded :
    (Engine.handling .guarded .tells).MindsOwners ∧
      ∃ s s' r, Scheduler.ReachableFor (.handling .guarded .tells) ⟨1⟩ s ∧
        ((Operation.destroy ⟨1⟩).IsStartFor ⟨1⟩ → ¬ s.world.objects.Removed ⟨1⟩) ∧
        (Operation.destroy ⟨1⟩).run s = some (r, s') ∧
        s.contexts.map (·.ambient.owner) = [some ⟨1⟩] ∧ s'.world.objects.Removed ⟨1⟩ ∧
        ∀ c ∈ s'.contexts, c.ambient.owner ≠ some ⟨1⟩ := by
  have hm := Engine.mindsOwners_tells .guarded
  have hcheck : (Operation.makeBox.run (.fresh (.handling .guarded .tells) 0)).any fun (_, s₁) =>
      !decide (s₁.world.objects.Removed ⟨1⟩) &&
        ((Operation.startOwned "guard").run s₁).any fun (_, s) =>
          s.contexts.map (·.ambient.owner) == [some ⟨1⟩] &&
            ((Operation.destroy ⟨1⟩).run s).any fun (_, s') =>
              decide (s'.world.objects.Removed ⟨1⟩) && s'.contexts.isEmpty := by
    decide +kernel
  obtain ⟨⟨r₁, s₁⟩, hrun₁, hcheck⟩ := (Option.any_eq_true _ _).1 hcheck
  simp only [Bool.and_eq_true, Bool.not_eq_true', decide_eq_false_iff_not] at hcheck
  obtain ⟨hthere, hcheck⟩ := hcheck
  obtain ⟨⟨r₂, s⟩, hrun₂, hcheck⟩ := (Option.any_eq_true _ _).1 hcheck
  simp only [Bool.and_eq_true, beq_iff_eq] at hcheck
  obtain ⟨howners, hcheck⟩ := hcheck
  obtain ⟨⟨r, s'⟩, hrun, hcheck⟩ := (Option.any_eq_true _ _).1 hcheck
  simp only [Bool.and_eq_true, decide_eq_true_eq, List.isEmpty_iff] at hcheck
  obtain ⟨hremoved, hempty⟩ := hcheck
  have hmake : ¬ Operation.makeBox.IsStartFor ⟨1⟩ := id
  have hbox : Scheduler.ReachableFor (.handling .guarded .tells) ⟨1⟩ s₁ :=
    .run (.fresh 0) (fun h => absurd h hmake) hrun₁
  have hs : Scheduler.ReachableFor (.handling .guarded .tells) ⟨1⟩ s :=
    .run hbox (fun _ => hthere) hrun₂
  have hstart : (Operation.destroy ⟨1⟩).IsStartFor ⟨1⟩ → ¬ s.world.objects.Removed ⟨1⟩ :=
    fun h => h.elim
  refine ⟨hm, s, s', r, hs, hstart, hrun, howners, hremoved, ?_⟩
  rcases (hs.rests hm hstart hrun).2 with rfl | ⟨change, hedit⟩ | hrests
  · rw [hempty] at howners
    simp at howners
  · simp at hedit
  · exact (hrests hremoved).1

/-! ## What happens before the sweep -/

/-- The operation executes a step of a context whose owner was removed. -/
def Operation.VisitsRemoved (s : Scheduler) (op : Operation) : Prop :=
  ∃ x ∈ op.visits s, ∃ o, x.context.ambient.owner = some o ∧ x.world.objects.Removed o

theorem Operation.visitsRemoved_of_check {e : Engine} {op : Operation} (before : List Operation)
    (o : ObjectId)
    (h : (Operation.runAll (.fresh e 0) before).any fun (_, s) =>
      (op.visits s).any fun x =>
        x.context.ambient.owner == some o && decide (x.world.objects.Removed o)) :
    ∃ s, s.Reachable e ∧ op.VisitsRemoved s := by
  obtain ⟨⟨rs, s⟩, hrun, hs⟩ := (Option.any_eq_true _ _).1 h
  obtain ⟨x, hx, hcheck⟩ := List.any_eq_true.1 hs
  rw [Bool.and_eq_true, beq_iff_eq, decide_eq_true_eq] at hcheck
  exact ⟨s, (Scheduler.Reachable.fresh 0).runAll hrun, x, hx, o, hcheck.1, hcheck.2⟩

/-- **Up to the sweep, contexts of removed objects do execute steps**: one
that is resumed after the host removed its owner, one that is advanced later in
a frame than the context that removed it, and one that is woken by a request in
the operation that removed it. -/
theorem Operation.exists_visitsRemoved :
    (∃ s, s.Reachable (.ofLibrary .guarded) ∧ (Operation.resume ⟨1⟩).VisitsRemoved s) ∧
    (∃ s, s.Reachable ((Engine.ofLibrary .guarded).withBudget 1) ∧
      (Operation.update 0.0).VisitsRemoved s) ∧
    (∃ s, s.Reachable (.ofLibrary .guarded) ∧ (Operation.start "fall" .none).VisitsRemoved s) := by
  refine ⟨?_, ?_, ?_⟩
  · refine visitsRemoved_of_check [makeBox, startOwned "guard", .edit (.destroyLater ⟨1⟩)] ⟨1⟩ ?_
    decide +kernel
  · refine visitsRemoved_of_check [makeBox, .start "fall" .none, startOwned "watch"] ⟨1⟩ ?_
    decide +kernel
  · refine visitsRemoved_of_check [makeBox, startOwned "guard"] ⟨1⟩ ?_
    decide +kernel

end Cutscene
