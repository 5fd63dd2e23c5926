import Cutscene.Proofs.Call.Life
import Cutscene.Proofs.Scene.Links
import Cutscene.Proofs.Scheduler.Owner
import Cutscene.Proofs.Scheduler.Prepare
import Cutscene.Proofs.Scheduler.Restore
/-!
# Scheduler — lineage and owners

The host starts an event, the context of that event spawns others, those spawn
more, and all of them move on, are kept between operations, saved and loaded.
So whatever context a scheduler holds comes down from one that the host started
in some earlier scheduler (`Scheduler.Lineage`), and has its owner.

Along a lineage the removal of an owner that was there at the start is recorded
or has been acted on (`Scheduler.Lineage.pending`): each operation that
reconciles ends by finishing every context whose owner is recorded, however
late in the operation it was spawned. `Scheduler.Reachable.owner_of_lineage`
draws the conclusion: after such an operation no context that is held has an
owner that was there when its lineage was started and is gone.
-/

namespace Cutscene

/-- The second context comes down from the first: it is what became of it, or
of a context that was spawned on the way. -/
inductive Context.Descends (e : Engine) (c₀ : Context) : Context → Prop
  | self : Descends e c₀ c₀
  | move {c c' : Context} (h : Descends e c₀ c) (hmove : c.Moves e c') : Descends e c₀ c'
  | spawn {c c' child : Context} {step : Step} {id : EventId} {vars : Attributes}
      (h : Descends e c₀ c) (hrunning : c.state.isRunning) (hstep : e.step? c.place = some step)
      (hturn : step.Turn e id { c.goto (c.place.plus 1) with attributes := vars }
        (.spawn child) c') : Descends e c₀ child

/-- The context is one that the operation starts. -/
def Operation.Begins (e : Engine) (op : Operation) (c : Context) : Prop :=
  ∃ id name ambient event, op = .start name ambient ∧ e.event? name = some event ∧
    c = .start id name (.root name) (startAmbient ambient event)

/-- The second scheduler holds the context, which comes down from one that the
host started in the first. -/
inductive Scheduler.Lineage (e : Engine) (t : Scheduler) : Scheduler → Context → Prop
  | start {s : Scheduler} {op : Operation} {r : Reply} {c₀ c : Context} (ht : t.Reachable e)
      (hbegins : op.Begins e c₀) (hop : op.run t = some (r, s)) (hc : c ∈ s.contexts)
      (hdescends : c₀.Descends e c) : Lineage e t s c
  | run {s s' : Scheduler} {op : Operation} {r : Reply} {c c' : Context} (h : Lineage e t s c)
      (hop : op.run s = some (r, s')) (hc' : c' ∈ s'.contexts) (hdescends : c.Descends e c') :
    Lineage e t s' c'
  | restore {s s' : Scheduler} {saved : Snapshot} {c c' : Context} {x : SavedContext}
      (h : Lineage e t s c) (hsaved : s.snapshot = .ok saved)
      (hr : Scheduler.restore e saved = .ok s') (hc' : c' ∈ s'.contexts)
      (hsave : c.save e = .ok x) (hload : x.load e = .ok c') : Lineage e t s' c'

/-! ## Every context has a lineage -/

section

variable {e : Engine} {s s' t : Scheduler}

/-- What comes down from contexts of a sort still does. -/
theorem Engine.MindsOwners.maintains_descends (hm : e.MindsOwners) (P : Context → Prop) :
    e.Maintains fun c => ∃ c₀, P c₀ ∧ c₀.Descends e c := by
  have hmove : ∀ {c c' : Context}, (∃ c₀, P c₀ ∧ c₀.Descends e c) → c.Moves e c' →
      ∃ c₀, P c₀ ∧ c₀.Descends e c' := by
    rintro c c' ⟨c₀, hc₀, hdescends⟩ hmoves
    exact ⟨c₀, hc₀, hdescends.move hmoves⟩
  refine ⟨⟨?turn, ?skip, ?custom, ?pause, ?wake, ?countDown⟩, ?choose⟩
  case turn =>
    intro c c' step id vars o hc hrunning hstep _ hturn _
    refine ⟨fun _ => hmove hc (.turn hrunning hstep hturn), ?_⟩
    rintro child rfl
    obtain ⟨c₀, hc₀, hdescends⟩ := hc
    exact ⟨c₀, hc₀, hdescends.spawn hrunning hstep hturn⟩
  case skip => exact fun hc hrunning hstep hcustom => hmove hc (.skip hrunning hstep hcustom)
  case custom =>
    intro m id arguments handler hhandler hc hrunning hw
    obtain ⟨-, -, hspawned⟩ := hm id handler hhandler arguments m
    exact ⟨fun _ => hmove hc (.custom hhandler hrunning), fun c hc => hw c (hspawned ▸ hc)⟩
  case pause => exact fun hc hrunning => hmove hc (.pause hrunning)
  case wake => exact fun hc hpaused => hmove hc (.wake hpaused)
  case countDown => exact fun hc => hmove hc (.countDown _ _)
  case choose => exact fun hc => hmove hc (.choose _ _)

/-- What is held after an operation comes down from what was held before it, or
from what it begins. -/
theorem Scheduler.Reachable.descends_of_run (hm : e.MindsOwners) (hs : s.Reachable e)
    {op : Operation} {r : Reply} (hop : op.run s = some (r, s')) {c' : Context}
    (hc' : c' ∈ s'.contexts) :
    ∃ c, (c ∈ s.contexts ∨ op.Begins e c) ∧ c.Descends e c' := by
  have hmaintains := hm.maintains_descends fun c => c ∈ s.contexts ∨ op.Begins e c
  refine (hmaintains.run hs.engine_eq ⟨fun c hc => ⟨c, .inl hc, .self⟩, fun c hc => ?_⟩
    (fun ho hevent => ⟨_, .inr ⟨_, _, _, _, ho, hevent, rfl⟩, .self⟩) hop).2.1 c' hc'
  rw [hs.spawned_eq_nil] at hc
  simp at hc

/-- **Every context that a reachable scheduler holds has a lineage.** -/
theorem Scheduler.Reachable.exists_lineage (hm : e.MindsOwners) (hs : s.Reachable e) :
    ∀ c ∈ s.contexts, ∃ t, Lineage e t s c := by
  induction hs with
  | fresh seed => exact fun c hc => by simp [Scheduler.fresh] at hc
  | run hs hop ih =>
    intro c' hc'
    obtain ⟨c, hc | hbegins, hdescends⟩ := hs.descends_of_run hm hop hc'
    · obtain ⟨t, ht⟩ := ih c hc
      exact ⟨t, ht.run hop hc' hdescends⟩
    · exact ⟨_, .start hs hbegins hop hc' hdescends⟩
  | @restore s s' saved hs hsaved hr ih =>
    intro c' hc'
    obtain rfl := hs.engine_eq
    -- what is loaded was saved, one by one
    have hrestored := Scheduler.forall₂_restore hsaved hr
    refine forall_of_forall₂ (p := fun c => ∃ t, Lineage s.engine t s c)
      (q := fun c => c ∈ s'.contexts → ∃ t, Lineage s.engine t s' c) ?_ hrestored ih c' hc' hc'
    rintro c c' ⟨t, ht⟩ ⟨x, hsave, hload⟩ hc'
    exact ⟨t, ht.restore hsaved hr hc' hsave hload⟩

end

/-! ## Owners along a lineage -/

section

variable {e : Engine} {s s' t : Scheduler} {c c' : Context} {o : ObjectId}

theorem Context.Moves.owner (hm : e.MindsOwners) (h : c.Moves e c') :
    c'.ambient.owner = c.ambient.owner := by
  cases h with
  | turn hrunning hstep hturn => exact hturn.owner.1
  | skip hrunning hstep hcustom => rfl
  | custom hhandler hrunning => exact (hm _ _ hhandler _ _).1
  | pause hrunning => rfl
  | wake hpaused => rfl
  | choose index => rfl
  | countDown =>
    obtain ⟨state, hstate⟩ := Scheduler.exists_countDown_eq _ c
    rw [hstate]

/-- **The owner is inherited.** -/
theorem Context.Descends.owner (hm : e.MindsOwners) (h : c.Descends e c') :
    c'.ambient.owner = c.ambient.owner := by
  induction h with
  | self => rfl
  | move _ hmove ih => exact (hmove.owner hm).trans ih
  | spawn _ _ _ hturn ih => exact (hturn.owner.2 _ rfl).trans ih

namespace Scheduler

/-- A scheduler that holds a context with a lineage is reachable. -/
theorem Lineage.reachable (h : Lineage e t s c) : s.Reachable e := by
  induction h with
  | start ht _ hop _ _ => exact .run ht hop
  | run _ hop _ _ ih => exact .run ih hop
  | restore _ hsaved hr _ _ _ ih => exact .restore ih hsaved hr

theorem Reachable.keyed (hm : e.MindsOwners) (hs : s.Reachable e) : s.world.objects.Keyed := by
  induction hs with
  | fresh seed => exact Store.keyed_empty
  | run hs hop ih =>
    rcases Operation.run_cases hop with rfl | ⟨change, rfl, rfl⟩ | ⟨s₁, hprep, hrun⟩
    · exact ih
    · exact World.keyed_of_records ih (HostEdit.records _ _)
    · exact (hm.tidy hs.engine_eq ih hprep hrun).2.1
  | restore _ _ hr _ =>
    obtain ⟨contexts, -, rfl⟩ := restore_eq hr
    exact Store.keyed_empty

/-- A removal that is recorded before an operation is recorded after it, as
long as a context of the owner is held: those that are swept leave none. -/
theorem pending_of_run (hm : e.MindsOwners) (he : s.engine = e) (hs : s.world.Pending o)
    {op : Operation} {r : Reply} (hop : op.run s = some (r, s')) (hc : c ∈ s'.contexts)
    (howner : c.ambient.owner = some o) : s'.world.Pending o := by
  rcases Operation.run_cases hop with rfl | ⟨change, rfl, rfl⟩ | ⟨s₁, hprep, hrun⟩
  · exact hs
  · exact hs.records (HostEdit.records _ _)
  · obtain ⟨-, hkeyed, -⟩ := hm.tidy he hs.1 hprep hrun
    refine ⟨hkeyed, fun hremoved => absurd howner ?_⟩
    exact hm.apart_of_pending he hs hprep hrun hremoved c hc

/-- **Along a lineage the removal of the owner is recorded**, if that was there
when the lineage was started: induction on the lineage, an operation at a
time. -/
theorem Lineage.pending (hm : e.MindsOwners) (h : Lineage e t s c)
    (howner : c.ambient.owner = some o) (hthere : t.world.objects.contains o) :
    s.world.Pending o := by
  induction h with
  | start ht _ hop hc _ =>
    refine pending_of_run hm ht.engine_eq ⟨ht.keyed hm, fun hremoved => ?_⟩ hop hc howner
    exact absurd hthere (Store.not_contains_iff.2 hremoved.2)
  | run h hop hc' hdescends ih =>
    have hs := ih ((hdescends.owner hm).symm.trans howner)
    exact pending_of_run hm h.reachable.engine_eq hs hop hc' howner
  | restore h hsaved hr hc' hsave hload ih =>
    obtain ⟨contexts, -, rfl⟩ := restore_eq hr
    exact ⟨Store.keyed_empty, fun hremoved => absurd hremoved (Store.not_removed_empty o)⟩

/-- The sweep has acted on all that was recorded. -/
theorem destroyed_of_reconciles {op : Operation} {r : Reply} (hop : op.run s = some (r, s'))
    (hreconciles : op.reconciles r) : s'.world.destroyed = [] := by
  rcases Operation.run_course hop with ⟨-, s₁, -, hrun⟩ | ⟨hrefused, -⟩
  · obtain ⟨s₂, -, rfl⟩ := reconcile_eq_some hrun
    rfl
  · rw [hreconciles] at hrefused
    simp at hrefused

/-- **No live context keeps an owner that was removed.** Let custom handlers
mind owners. After an operation that reconciles, every context held has a
lineage, and if its owner was there when the lineage was started, it has not
been removed since. -/
theorem Reachable.owner_of_lineage (hm : e.MindsOwners) (hs : s.Reachable e) {op : Operation}
    {r : Reply} (hop : op.run s = some (r, s')) (hreconciles : op.reconciles r) :
    ∀ c ∈ s'.contexts, (∃ t, Lineage e t s' c) ∧
      ∀ t o, Lineage e t s' c → c.ambient.owner = some o → t.world.objects.contains o →
        ¬ s'.world.objects.Removed o := by
  intro c hc
  have hs' : s'.Reachable e := .run hs hop
  refine ⟨hs'.exists_lineage hm c hc, fun t o hlineage howner hthere hremoved => ?_⟩
  have hrecorded := (hlineage.pending hm howner hthere).2 hremoved
  rw [destroyed_of_reconciles hop hreconciles] at hrecorded
  simp at hrecorded

end Scheduler

end

/-- An event that calls another without waiting for it; both pause, that one
after a custom instruction. -/
def Library.posted : Library :=
  let guard : Json := .object [("event", .string "guard"), ("mode", .string "async")]
  { events := .ofList
      [("post", ⟨"post", [⟨"callEvent", guard⟩, ⟨"pauseEvent", .null⟩], .empty⟩),
       ("guard", ⟨"guard", [⟨"custom", .null⟩, ⟨"pauseEvent", .null⟩], .empty⟩)] }

/-- The event started for a box: the host was told of the custom instruction, and
it and the event called have the box as their owner, both by a lineage that was
started when there was the box, and the box is there. -/
theorem Scheduler.Reachable.owner_of_lineage_posted :
    (Engine.handling .posted .tells).MindsOwners ∧
      ∃ s s' r, Scheduler.Reachable (.handling .posted .tells) s ∧
        (Operation.startOwned "post").run s = some (r, s') ∧
        (Operation.startOwned "post").reconciles r ∧ s'.world.trace.length = 1 ∧
        s'.contexts.map (fun c => (c.name, c.ambient.owner)) =
          [("post", some ⟨1⟩), ("guard", some ⟨1⟩)] ∧
        s.world.objects.contains ⟨1⟩ ∧
        (∀ c ∈ s'.contexts, Lineage (.handling .posted .tells) s s' c) ∧
        ¬ s'.world.objects.Removed ⟨1⟩ := by
  have hm := Engine.mindsOwners_tells .posted
  have hcheck : (Operation.makeBox.run (.fresh (.handling .posted .tells) 0)).any fun (_, s) =>
      s.contexts.isEmpty && s.world.objects.contains ⟨1⟩ &&
        ((Operation.startOwned "post").run s).any fun (r, s') =>
          (Operation.startOwned "post").reconciles r && s'.world.trace.length == 1 &&
            s'.contexts.map (fun c => (c.name, c.ambient.owner)) ==
              [("post", some ⟨1⟩), ("guard", some ⟨1⟩)] := by
    decide +kernel
  obtain ⟨⟨r₁, s⟩, hrun₁, hcheck⟩ := (Option.any_eq_true _ _).1 hcheck
  simp only [Bool.and_eq_true, List.isEmpty_iff] at hcheck
  obtain ⟨⟨hnone, hthere⟩, hcheck⟩ := hcheck
  obtain ⟨⟨r, s'⟩, hrun, hcheck⟩ := (Option.any_eq_true _ _).1 hcheck
  simp only [Bool.and_eq_true, beq_iff_eq] at hcheck
  obtain ⟨⟨hreconciles, htold⟩, howners⟩ := hcheck
  have hs : Scheduler.Reachable (.handling .posted .tells) s := .run (.fresh 0) hrun₁
  -- there was no context before, so all come down from the one that is started
  have hlineage : ∀ c ∈ s'.contexts, Lineage (.handling .posted .tells) s s' c := by
    intro c hc
    obtain ⟨c₀, hc₀ | hbegins, hdescends⟩ := hs.descends_of_run hm hrun hc
    · rw [hnone] at hc₀
      simp at hc₀
    · exact .start hs hbegins hrun hc hdescends
  refine ⟨hm, s, s', r, hs, hrun, hreconciles, htold, howners, hthere, hlineage, ?_⟩
  obtain ⟨c, hc, howner⟩ : ∃ c ∈ s'.contexts, (c.name, c.ambient.owner) = ("guard", some ⟨1⟩) := by
    rw [← List.mem_map, howners]
    simp
  exact (hs.owner_of_lineage hm hrun hreconciles c hc).2 s ⟨1⟩ (hlineage c hc)
    (Prod.mk.inj howner).2 hthere

end Cutscene
