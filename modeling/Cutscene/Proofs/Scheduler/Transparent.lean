import Cutscene.Proofs.Run.Spend
import Cutscene.Proofs.Scheduler.Maintain
import Cutscene.Proofs.Scheduler.Mirror
import Cutscene.Proofs.Scheduler.Plan
/-!
# Scheduler — snapshots are transparent

Where the host creates no objects and the engine is still, a scheduler keeps no
objects, nothing spawned and no finished context between operations
(`Scheduler.Bare`). So a snapshot of it can be taken, what is rebuilt from the
snapshot mirrors it (`Scheduler.Bare.restore`), and both answer every further
sequence of operations alike (`Scheduler.ReachableBare.transparent`).

The number of the next context is the exception: it is raised to one when a
scheduler is rebuilt, so one that has come round to zero is not kept.
-/

namespace Cutscene

/-! ## Libraries that are still -/

/-- No step of the library looks at the clock or creates an object. -/
def Library.IsStill (l : Library) : Prop :=
  ∀ b, l.Holds b → ∀ step ∈ b.program.steps.toList, step.isTimeless ∧ step.isCreate = false

instance (l : Library) : Decidable l.IsStill :=
  decidable_of_iff (∀ b ∈ l.bodies, ∀ step ∈ b.program.steps.toList,
      step.isTimeless ∧ step.isCreate = false)
    ⟨fun h b hb => h b (Library.holds_iff.1 hb), fun h b hb => h b (Library.holds_iff.2 hb)⟩

/-- All custom handlers read only the context, the variables and the random
state. -/
def Engine.ReadsVariables (e : Engine) : Prop :=
  ∀ id handler, e.handlers.get? id = some handler → handler.ReadsVariables

theorem Engine.readsVariables_ofLibrary (l : Library) : (Engine.ofLibrary l).ReadsVariables :=
  fun id handler h => by simp [Engine.ofLibrary] at h

theorem Engine.readsVariables_tells (l : Library) :
    (Engine.handling l .tells).ReadsVariables := by
  intro id handler hhandler
  obtain rfl := Engine.eq_of_handling hhandler
  exact ⟨fun _ c globals selfVars random =>
    ⟨.next, c, globals, selfVars, random, [.log "custom"], [], []⟩, fun _ _ _ => rfl⟩

theorem Engine.Serves.isStill {e : Engine} {l : Library} (he : e.Serves l) (hl : l.IsStill)
    (hreads : e.ReadsVariables) : e.IsStill where
  step := by
    intro place step hstep
    obtain ⟨b, hb, -, hget⟩ := he.exists_step hstep
    have hmem : step ∈ b.program.steps := Array.mem_of_getElem? hget
    exact hl b hb step (Array.mem_toList_iff.2 hmem)
  handler := hreads _ _

/-! ## Schedulers without objects -/

/-- What a scheduler can come to over an engine, by operations and by restoring
snapshots that were taken on the way, if the host creates no objects. -/
inductive Scheduler.ReachableBare (e : Engine) : Scheduler → Prop
  | fresh (seed : UInt32) : ReachableBare e (.fresh e seed)
  | run {s s' : Scheduler} {op : Operation} {r : Reply} (h : ReachableBare e s)
      (hcreate : op.isCreate = false) (hop : op.run s = some (r, s')) : ReachableBare e s'
  | restore {s s' : Scheduler} {saved : Snapshot} (h : ReachableBare e s)
      (hs : s.snapshot = .ok saved) (hr : Scheduler.restore e saved = .ok s') :
    ReachableBare e s'

/-- Between operations there are no objects, nothing is spawned, and no context
has finished. -/
structure Scheduler.Bare (e : Engine) (s : Scheduler) : Prop where
  engine : s.engine = e
  objects : s.world.objects = .empty
  spawned : s.world.spawned = []
  unfinished : ∀ c ∈ s.contexts, c.state.isFinished = false

namespace Scheduler

variable {e : Engine} {l : Library} {s s' : Scheduler}

theorem ReachableBare.reachable (hs : s.ReachableBare e) : s.Reachable e := by
  induction hs with
  | fresh seed => exact .fresh seed
  | run _ _ hop ih => exact ih.run hop
  | restore _ hsaved hr ih => exact ih.restore hsaved hr

theorem Bare.mirrors (h : s.Bare e) : s.Mirrors e s.world.trace s.world.trace s :=
  ⟨h.engine, h.engine, rfl, .refl h.objects⟩

/-- The sweep leaves no context that has finished, and nothing spawned. -/
theorem tidy_of_reconcile (h : s.reconcile = some s') :
    s'.world.spawned = [] ∧ ∀ c ∈ s'.contexts, c.state.isFinished = false := by
  obtain ⟨s₁, -, rfl⟩ := reconcile_eq h
  exact ⟨rfl, fun c hc => (mem_sweep.1 hc).2.2⟩

theorem unfinished_of_load {x : SavedContext} {c : Context} (h : x.load e = .ok c) :
    c.state.isFinished = false := by
  unfold SavedContext.load at h
  cases hroot : e.place x.root with
  | error err => simp [hroot, bind, Except.bind] at h
  | ok root =>
    cases hplace : e.place x.position with
    | error err => simp [hroot, hplace, bind, Except.bind] at h
    | ok place =>
      simp only [hroot, hplace, bind, Except.bind] at h
      split at h
      · simp at h
      split at h
      · simp at h
      obtain rfl := Except.ok.inj h
      cases x.state <;> rfl

theorem Bare.run (he : e.IsStill) (h : s.Bare e) {op : Operation} {r : Reply}
    (hcreate : op.isCreate = false) (hop : op.run s = some (r, s')) : s'.Bare e := by
  -- the scheduler mirrors itself, and mirrors hold no objects
  obtain ⟨x, -, hx⟩ := he.run h.mirrors hcreate hop
  have htidy : s'.world.spawned = [] ∧ ∀ c ∈ s'.contexts, c.state.isFinished = false := by
    rcases Operation.run_cases hop with rfl | ⟨change, rfl, rfl⟩ | ⟨s₁, -, hreconciled⟩
    · exact ⟨h.spawned, h.unfinished⟩
    · exact ⟨(HostEdit.spawned_run _ _).trans h.spawned, h.unfinished⟩
    · exact tidy_of_reconcile hreconciled
  exact ⟨hx.engine, hx.world.bare, htidy.1, htidy.2⟩

theorem ReachableBare.bare (he : e.IsStill) (hs : s.ReachableBare e) : s.Bare e := by
  induction hs with
  | fresh seed => exact ⟨rfl, rfl, rfl, fun c hc => by simp [Scheduler.fresh] at hc⟩
  | run _ hcreate hop ih => exact ih.run he hcreate hop
  | restore h hsaved hr ih =>
    -- what is rebuilt has a fresh world, and no context is loaded as finished
    have hloaded := forall₂_restore hsaved (ih.engine ▸ hr)
    obtain ⟨contexts, -, rfl⟩ := restore_eq hr
    refine ⟨rfl, rfl, rfl, forall_of_forall₂ (p := fun _ => True) ?_ hloaded fun _ _ => trivial⟩
    rintro c c' - ⟨x, -, hx⟩
    exact unfinished_of_load hx

/-- **What is rebuilt from a snapshot mirrors the scheduler.** -/
theorem Bare.restore (h : s.Bare e) (he : e.Serves l) (hl : l.Lawful)
    (hplaced : ∀ c ∈ s.contexts, c.Placed l) (hresumes : s.world.resumes = [])
    (hdestroyed : s.world.destroyed = []) (hnext : s.world.nextEventId ≠ 0) :
    ∃ saved r, s.snapshot = .ok saved ∧ Scheduler.restore e saved = .ok r ∧
      s.Mirrors e s.world.trace [] r := by
  obtain ⟨xs, hsaved, hloaded⟩ :=
    he.exists_saved hl fun c hc => ⟨hplaced c hc, h.unfinished c hc⟩
  have hsnapshot : s.snapshot = .ok ⟨Snapshot.schema, e.compilerVersion, s.world.globals,
      s.world.selfVars, s.world.random.state, s.world.nextEventId, xs⟩ := by
    rw [Scheduler.snapshot, h.engine, hsaved]
    rfl
  refine ⟨_, ⟨e, { World.fresh s.world.random.state with
    globals := s.world.globals
    selfVars := s.world.selfVars
    nextEventId := max s.world.nextEventId 1 }, s.contexts⟩, hsnapshot, ?_, ?_⟩
  · rw [Scheduler.restore]
    simp only [ne_eq, not_true_eq_false, if_false, hloaded]
    rfl
  · have hkept : max s.world.nextEventId 1 = s.world.nextEventId := by omega
    refine ⟨h.engine, rfl, rfl, ⟨?_, h.objects⟩⟩
    exact ⟨h.objects.symm, rfl, rfl, rfl, h.spawned.symm, hresumes.symm, hdestroyed.symm, hkept,
      [], rfl, rfl⟩

/-! ## Running on -/

/-- The schedulers have the same contexts under the same engine, over worlds
that resemble each other. -/
structure Resembles (base base' : List HostCall) (s s' : Scheduler) : Prop where
  engine : s'.engine = s.engine
  contexts : s'.contexts = s.contexts
  world : s.world.Resembles base base' s'.world

/-- The two schedulers answer every sequence of operations that creates no
object alike, make the same calls to the host from now on, and resemble each
other afterwards. -/
def RunsLike (s s' : Scheduler) : Prop :=
  ∀ ops, (∀ op ∈ ops, Operation.isCreate op = false) →
    Option.Rel (fun x y => x.1 = y.1 ∧ x.2.Resembles s.world.trace s'.world.trace y.2)
      (Operation.runAll s ops) (Operation.runAll s' ops)

theorem Mirrors.resembles {base base' : List HostCall} (h : s.Mirrors e base base' s') :
    s.Resembles base base' s' :=
  ⟨h.engine'.trans h.engine.symm, h.contexts, h.world.toResembles⟩

/-- Schedulers that mirror each other run alike. -/
theorem Mirrors.runsLike (he : e.IsStill) (h : s.Mirrors e s.world.trace s'.world.trace s') :
    s.RunsLike s' := by
  intro ops hops
  cases hrun : Operation.runAll s ops with
  | some x =>
    obtain ⟨rs, x⟩ := x
    obtain ⟨x', hrun', hx⟩ := he.runAll h hops hrun
    rw [hrun']
    exact .some ⟨rfl, hx.resembles⟩
  -- were there a result on the other side only, it would be mirrored back
  | none =>
    cases hrun' : Operation.runAll s' ops with
    | none => exact .none
    | some y =>
      obtain ⟨rs, y⟩ := y
      obtain ⟨y', hrun'', -⟩ := he.runAll h.symm hops hrun'
      rw [hrun] at hrun''
      simp at hrun''

end Scheduler

/-- **Snapshots are transparent.** Let no step of the library look at the clock
or create an object, and let custom handlers read only the context, the
variables and the random state and leave contexts at places that stand. Then a
scheduler that the host reaches without creating objects, with nothing queued
and a next number other than zero, can be saved and rebuilt, and what is
rebuilt runs on as the scheduler does. -/
theorem Scheduler.ReachableBare.transparent {e : Engine} {l : Library} (he : e.Serves l)
    (hl : l.Lawful) (hstill : l.IsStill) (hreads : e.ReadsVariables) (hplaces : e.KeepsPlaces l)
    {s : Scheduler} (hs : s.ReachableBare e) (hresumes : s.world.resumes = [])
    (hdestroyed : s.world.destroyed = []) (hnext : s.world.nextEventId ≠ 0) :
    ∃ saved r, s.snapshot = .ok saved ∧ Scheduler.restore e saved = .ok r ∧ s.RunsLike r := by
  have hquiet := he.isStill hstill hreads
  obtain ⟨-, hplaced, -⟩ :=
    (he.maintains_placed hl hplaces).reachable (he.starts_placed hl)
      (he.loads hl fun _ hc => hc) hs.reachable
  obtain ⟨saved, r, hsaved, hrestored, hmirrors⟩ :=
    (hs.bare hquiet).restore he hl hplaced hresumes hdestroyed hnext
  have htrace : r.world.trace = [] := by
    obtain ⟨contexts, -, rfl⟩ := Scheduler.restore_eq hrestored
    rfl
  refine ⟨saved, r, hsaved, hrestored, Scheduler.Mirrors.runsLike hquiet ?_⟩
  rw [htrace]
  exact hmirrors

/-- An event that calls another, which pauses, and one that notes whether there
is a box. -/
def Library.asking : Library :=
  let call : Json := .object [("event", .string "ask")]
  let note : Json := .object
    [("variable", .object [("type", .string "global"), ("key", .string "box")]),
     ("object", .object [("type", .string "by-id"), ("id", .string "box")]),
     ("kind", .string "item")]
  { events := .ofList
      [("main", ⟨"main", [⟨"callEvent", call⟩], .empty⟩),
       ("ask", ⟨"ask", [⟨"pauseEvent", .null⟩], .empty⟩),
       ("note", ⟨"note", [⟨"setObject", note⟩], .empty⟩),
       ("custom", ⟨"custom", [⟨"custom", .null⟩], .empty⟩),
       ("nothing", ⟨"nothing", [], .empty⟩)] }

/-- A custom instruction, and then the event started: it is paused in the event
called, and can be saved and rebuilt. -/
theorem Scheduler.ReachableBare.transparent_asking :
    Engine.Serves (.handling .asking .tells) .asking ∧ Library.asking.Lawful ∧
      Library.asking.IsStill ∧ (Engine.handling .asking .tells).ReadsVariables ∧
      (Engine.handling .asking .tells).KeepsPlaces .asking ∧
      ∃ s saved r, Scheduler.ReachableBare (.handling .asking .tells) s ∧ s.world.resumes = [] ∧
        s.world.destroyed = [] ∧ s.world.nextEventId ≠ 0 ∧ s.world.trace.length = 1 ∧
        s.contexts.map (fun c => c.calls.length) = [1] ∧ s.snapshot = .ok saved ∧
        Scheduler.restore (.handling .asking .tells) saved = .ok r ∧ s.RunsLike r := by
  have he : Engine.Serves (.handling .asking .tells) .asking := .ofLibrary .asking
  have hl : Library.asking.Lawful := by decide +kernel
  have hstill : Library.asking.IsStill := by decide +kernel
  have hreads := Engine.readsVariables_tells .asking
  have hplaces := (Engine.keepsControl_tells .asking).keepsPlaces .asking
  have hstarted : (Operation.start "custom" .none).leads (.fresh (.handling .asking .tells) 0)
      fun _ s => (Operation.start "main" .none).leads s fun _ s =>
        s.world.resumes.isEmpty && s.world.destroyed.isEmpty &&
          decide (s.world.nextEventId ≠ 0) && s.world.trace.length == 1 &&
          s.contexts.map (fun c => c.calls.length) == [1] := by
    decide +kernel
  obtain ⟨r₁, s₁, hcustom, hs⟩ := Operation.exists_of_leads hstarted
  obtain ⟨r, s, hmain, hs⟩ := Operation.exists_of_leads hs
  simp only [Bool.and_eq_true, List.isEmpty_iff, decide_eq_true_eq, beq_iff_eq] at hs
  obtain ⟨⟨⟨⟨hresumes, hdestroyed⟩, hnext⟩, htold⟩, hcalls⟩ := hs
  have hreach : Scheduler.ReachableBare (.handling .asking .tells) s :=
    .run (.run (.fresh 0) rfl hcustom) rfl hmain
  obtain ⟨saved, r, hsaved, hrestored, hruns⟩ :=
    hreach.transparent he hl hstill hreads hplaces hresumes hdestroyed hnext
  exact ⟨he, hl, hstill, hreads, hplaces, s, saved, r, hreach, hresumes, hdestroyed, hnext, htold,
    hcalls, hsaved, hrestored, hruns⟩

/-! ## What is not kept -/

namespace Scheduler

/-- Nothing is queued, and no context has finished. -/
structure Calm (s : Scheduler) : Prop where
  spawned : s.world.spawned = []
  resumes : s.world.resumes = []
  destroyed : s.world.destroyed = []
  unfinished : ∀ c ∈ s.contexts, c.state.isFinished = false

/-- The scheduler with another number for the next context. -/
def numbered (s : Scheduler) (next : Nat) : Scheduler :=
  { s with world := { s.world with nextEventId := next } }

theorem Calm.numbered {s : Scheduler} (h : s.Calm) (next : Nat) : (s.numbered next).Calm :=
  ⟨h.spawned, h.resumes, h.destroyed, h.unfinished⟩

/-- Where nothing is queued, a reconciliation drops the finished contexts. -/
theorem reconcile_of_unqueued {s : Scheduler} (hspawned : s.world.spawned = [])
    (hresumes : s.world.resumes = []) (hdestroyed : s.world.destroyed = []) :
    s.reconcile = some { s with contexts := s.contexts.filter fun c => !c.state.isFinished } := by
  have hdrained : s.drained = s := by
    obtain ⟨engine, world, contexts⟩ := s
    cases world
    simp only at hspawned hresumes
    simp only [drained, takeSpawned, hspawned, hresumes, List.reverse_nil, List.append_nil]
  have hmet : meetRounds maxRounds s = some s := by
    rw [show maxRounds = 9999 + 1 from rfl, meetRounds_succ, if_pos (by rw [hresumes]; rfl),
      hdrained]
  have horphan : ∀ c : Context, isOrphan [] c = false := by
    intro c
    cases hc : c.ambient.owner <;> simp [isOrphan, hc]
  obtain ⟨engine, world, contexts⟩ := s
  cases world
  simp only at hspawned hresumes hdestroyed
  rw [reconcile, hmet]
  simp [takeSpawned, sweep, hspawned, hresumes, hdestroyed, horphan]

/-- An event that is over at once takes a number and leaves nothing else. -/
theorem Calm.start {s : Scheduler} (h : s.Calm) {name : String} {event : Compiled}
    (hevent : s.engine.event? name = some event)
    (hstep : s.engine.step? ⟨.root name, 0⟩ = some .leave) (hbudget : 0 < s.engine.stepBudget) :
    s.start name .none =
      some (.ok ⟨s.world.nextEventId⟩, s.numbered ((s.world.nextEventId + 1) % UInt64.size)) := by
  have hadvance := Machine.advance_leave (m := s.starting name .none event) rfl rfl hstep hbudget
  rw [start_eq s hevent, hadvance]
  generalize hc : ((s.starting name .none event).context.goto
    ((s.starting name .none event).context.place.plus 1)).finish = c
  have hfinished : c.state.isFinished := by rw [← hc]; rfl
  -- the context ends in its advance, so the reconciliation drops it and no other one
  have hdropped : (s.contexts ++ [c]).filter (fun c => !c.state.isFinished) = s.contexts := by
    rw [List.filter_append, List.filter_eq_self.2 fun c hc => by simp [h.unfinished c hc],
      List.filter_cons_of_neg (by simp [hfinished]), List.filter_nil, List.append_nil]
  have hreconciled := reconcile_of_unqueued
    (s := s.holding (s.contexts ++ [c], (s.starting name .none event).world)) h.spawned h.resumes
    h.destroyed
  rw [show (s.holding (s.contexts ++ [c], (s.starting name .none event).world)).contexts =
    s.contexts ++ [c] from rfl, hdropped] at hreconciled
  simp only [hreconciled]
  rfl

/-- **The numbers of contexts come round.** -/
theorem ReachableBare.numbered {e : Engine} {s : Scheduler} (hs : s.ReachableBare e)
    (he : s.engine = e) (h : s.Calm) {name : String} {event : Compiled}
    (hevent : e.event? name = some event) (hstep : e.step? ⟨.root name, 0⟩ = some .leave)
    (hbudget : 0 < e.stepBudget) (hnext : s.world.nextEventId < UInt64.size) (n : Nat) :
    ReachableBare e (s.numbered ((s.world.nextEventId + n) % UInt64.size)) := by
  subst he
  induction n with
  | zero =>
    rw [Nat.add_zero, Nat.mod_eq_of_lt hnext]
    exact hs
  | succ n ih =>
    have hstart := (h.numbered ((s.world.nextEventId + n) % UInt64.size)).start hevent hstep hbudget
    have hrun : (Operation.start name .none).run
        (s.numbered ((s.world.nextEventId + n) % UInt64.size)) =
        some (.started (.ok ⟨(s.world.nextEventId + n) % UInt64.size⟩),
          s.numbered ((s.world.nextEventId + (n + 1)) % UInt64.size)) := by
      rw [Operation.run, hstart, Option.map_some]
      rw [show (s.numbered ((s.world.nextEventId + n) % UInt64.size)).world.nextEventId =
        (s.world.nextEventId + n) % UInt64.size from rfl, Nat.mod_add_mod]
      rfl
    exact ih.run rfl hrun

/-- A scheduler where nothing is under way, with the next number for a
context. -/
def idle (e : Engine) (next : Nat) : Scheduler :=
  ⟨e, { World.fresh 0 with nextEventId := next }, []⟩

theorem calm_idle (e : Engine) (next : Nat) : (idle e next).Calm :=
  ⟨rfl, rfl, rfl, fun c hc => by simp [idle] at hc⟩

theorem run_idle {e : Engine} {name : String} {event : Compiled}
    (hevent : e.event? name = some event) (hstep : e.step? ⟨.root name, 0⟩ = some .leave)
    (hbudget : 0 < e.stepBudget) (next : Nat) :
    (Operation.start name .none).run (idle e next) =
      some (.started (.ok ⟨next⟩), idle e ((next + 1) % UInt64.size)) :=
  Option.map_eq_some_iff.2 ⟨_, (calm_idle e next).start hevent hstep hbudget, rfl⟩

theorem reachableBare_idle {e : Engine} {name : String} {event : Compiled}
    (hevent : e.event? name = some event) (hstep : e.step? ⟨.root name, 0⟩ = some .leave)
    (hbudget : 0 < e.stepBudget) (n : Nat) :
    ReachableBare e (idle e ((1 + n) % UInt64.size)) :=
  (ReachableBare.fresh 0).numbered rfl (calm_idle e 1) hevent hstep hbudget
    (show 1 < UInt64.size by decide) n

/-- The numbers of contexts come round to zero. -/
theorem reachableBare_idle_zero {e : Engine} {name : String} {event : Compiled}
    (hevent : e.event? name = some event) (hstep : e.step? ⟨.root name, 0⟩ = some .leave)
    (hbudget : 0 < e.stepBudget) : ReachableBare e (idle e 0) := by
  have hreach := reachableBare_idle hevent hstep hbudget (UInt64.size - 1)
  rwa [show (1 + (UInt64.size - 1)) % UInt64.size = 0 from rfl] at hreach

theorem RunsLike.map_eq {α : Type} {s s' : Scheduler} (h : s.RunsLike s') {ops : List Operation}
    (hops : ∀ op ∈ ops, op.isCreate = false) (f : List Reply → Attributes → α) :
    (Operation.runAll s ops).map (fun x => f x.1 x.2.world.globals) =
      (Operation.runAll s' ops).map fun x => f x.1 x.2.world.globals := by
  have hrel := h ops hops
  generalize Operation.runAll s ops = a at hrel ⊢
  generalize Operation.runAll s' ops = b at hrel ⊢
  cases hrel with
  | none => rfl
  | some hxy =>
    obtain ⟨hreplies, hresembles⟩ := hxy
    rw [Option.map_some, Option.map_some, hreplies, hresembles.world.globals]

end Scheduler

/-- The first step of an event without instructions leaves it. -/
theorem Engine.Serves.step?_of_empty {e : Engine} {l : Library} (he : e.Serves l) (hl : l.Lawful)
    {name : String} {d : EventDef} (hd : l.get? name = some d) (hempty : d.commands = []) :
    e.step? ⟨.root name, 0⟩ = some .leave := by
  have hstep := he.step? hl (Library.Holds.event hd) 0
  have hblock : d.body l.environment = Block.unit (.root name) .nil := by
    rw [EventDef.body, hempty, hl.name_eq hd]
    rfl
  rw [hblock] at hstep
  exact hstep

/-- An event without instructions is over at once. -/
theorem Library.exists_event_of_isEmpty {l : Library} (hl : l.Lawful) {name : String}
    (h : (l.get? name).any fun d => d.commands.isEmpty) :
    ∃ event, (Engine.ofLibrary l).event? name = some event ∧
      (Engine.ofLibrary l).step? ⟨.root name, 0⟩ = some .leave := by
  obtain ⟨d, hd, hempty⟩ := (Option.any_eq_true _ _).1 h
  have he : Engine.Serves (.ofLibrary l) l := .ofLibrary l
  refine ⟨.ofEvent l.environment d, ?_, he.step?_of_empty hl hd (List.isEmpty_iff.1 hempty)⟩
  rw [he.event?, hd]
  rfl

/-- One of the asking events has no instructions. -/
theorem Library.exists_event_asking :
    ∃ event, (Engine.ofLibrary .asking).event? "nothing" = some event ∧
      (Engine.ofLibrary .asking).step? ⟨.root "nothing", 0⟩ = some .leave :=
  exists_event_of_isEmpty (by decide +kernel) (by decide +kernel)

/-- **A number is handed out again**: after an event was started, so many others
can be that its number is the next one. -/
theorem Library.exists_recurring {l : Library} (hl : l.Lawful) (nothing first : String)
    (hnothing : (l.get? nothing).any fun d => d.commands.isEmpty) {p : Scheduler → Bool}
    (hp : (Operation.start first .none).leads (.fresh (.ofLibrary l) 0) fun _ s =>
      s.world.spawned.isEmpty && s.world.resumes.isEmpty && s.world.destroyed.isEmpty &&
        s.world.nextEventId == 2 && p (s.numbered 1)) :
    ∃ s, Scheduler.ReachableBare (.ofLibrary l) s ∧ p s := by
  obtain ⟨r, s, hrun, hs⟩ := Operation.exists_of_leads hp
  simp only [Bool.and_eq_true, List.isEmpty_iff, beq_iff_eq] at hs
  obtain ⟨⟨⟨⟨hspawned, hresumes⟩, hdestroyed⟩, hnext⟩, hs⟩ := hs
  obtain ⟨event, hevent, hstep⟩ := exists_event_of_isEmpty hl hnothing
  have hreach : Scheduler.ReachableBare (.ofLibrary l) s := .run (.fresh 0) rfl hrun
  obtain ⟨hengine, -⟩ := (Engine.Maintains.trivial _).reachable (fun _ _ _ _ _ _ _ => .intro)
    (fun _ _ _ => .intro) hreach.reachable
  have hcalm : s.Calm := by
    refine ⟨hspawned, hresumes, hdestroyed, ?_⟩
    rcases Operation.run_cases hrun with rfl | ⟨change, hop, -⟩ | ⟨s₁, -, hreconciled⟩
    · exact fun c hc => by simp [Scheduler.fresh] at hc
    · simp at hop
    · exact (Scheduler.tidy_of_reconcile hreconciled).2
  have hrecurring := hreach.numbered hengine hcalm hevent hstep
    (show 0 < Engine.defaultBudget by decide) (by rw [hnext]; decide) (UInt64.size - 1)
  rw [hnext, show (2 + (UInt64.size - 1)) % UInt64.size = 1 from rfl] at hrecurring
  exact ⟨_, hrecurring, hs⟩

/-- A custom instruction that makes a box. -/
def Handler.makesBox : Handler := fun _ m =>
  (.next, { m with world.objects := (m.world.objects.create .item "box").2 })

/-- A custom instruction that sends its context nowhere, and stops it. -/
def Handler.strays : Handler := fun _ m => (.stop, { m with context.place.index := 99 })

/-- **A snapshot does not keep everything.** A next number of zero is not kept;
nor is an object that a custom instruction makes, though that reads nothing;
and a context that a custom instruction sends nowhere is saved but not loaded. -/
theorem Scheduler.ReachableBare.exists_not_runsLike :
    Library.asking.Lawful ∧ Library.asking.IsStill ∧
    (∃ s saved r, Scheduler.ReachableBare (.ofLibrary .asking) s ∧ s.world.resumes = [] ∧
      s.world.destroyed = [] ∧ s.snapshot = .ok saved ∧
      Scheduler.restore (.ofLibrary .asking) saved = .ok r ∧ ¬ s.RunsLike r) ∧
    (∃ s saved r, Scheduler.ReachableBare (.handling .asking .makesBox) s ∧ s.world.resumes = [] ∧
      s.world.destroyed = [] ∧ s.world.nextEventId ≠ 0 ∧ s.snapshot = .ok saved ∧
      Scheduler.restore (.handling .asking .makesBox) saved = .ok r ∧ ¬ s.RunsLike r) ∧
    (∃ s saved, Scheduler.ReachableBare (.handling .asking .strays) s ∧ s.world.resumes = [] ∧
      s.world.destroyed = [] ∧ s.world.nextEventId ≠ 0 ∧ s.snapshot = .ok saved ∧
      ∀ r, Scheduler.restore (.handling .asking .strays) saved ≠ .ok r) := by
  have hl : Library.asking.Lawful := by decide +kernel
  refine ⟨hl, by decide +kernel, ?_, ?_, ?_⟩
  · obtain ⟨event, hevent, hstep⟩ := Library.exists_event_asking
    have hbudget : 0 < (Engine.ofLibrary .asking).stepBudget := by decide
    have hreach := reachableBare_idle_zero hevent hstep hbudget
    -- the restore raises the number to one, so the next start answers with another one
    refine ⟨_, _, idle (.ofLibrary .asking) 1, hreach, rfl, rfl, rfl, rfl, fun hruns => ?_⟩
    have hops : ∀ op ∈ [Operation.start "nothing" .none], op.isCreate = false := by
      simp [Operation.isCreate]
    have hsame := hruns.map_eq hops fun replies _ => replies
    simp [Operation.runAll, run_idle hevent hstep hbudget] at hsame
  · have hcheck : ((Operation.start "custom" .none).run
        (.fresh (.handling .asking .makesBox) 0)).any fun x =>
          x.2.world.resumes.isEmpty && x.2.world.destroyed.isEmpty &&
          decide (x.2.world.nextEventId ≠ 0) && x.2.snapshot.toOption.any fun saved =>
            (Scheduler.restore (.handling .asking .makesBox) saved).toOption.any fun r =>
              (Operation.runAll x.2 [.start "note" .none]).map
                  (fun x => (x.2.world.globals.get? "box").isSome) !=
                (Operation.runAll r [.start "note" .none]).map
                  (fun x => (x.2.world.globals.get? "box").isSome) := by
      decide +kernel
    obtain ⟨⟨reply, s⟩, hrun, hs⟩ := (Option.any_eq_true _ _).1 hcheck
    simp only [Bool.and_eq_true, List.isEmpty_iff, decide_eq_true_eq] at hs
    obtain ⟨⟨⟨hresumes, hdestroyed⟩, hnext⟩, hs⟩ := hs
    obtain ⟨saved, hsaved, hs⟩ := (Option.any_eq_true _ _).1 hs
    obtain ⟨r, hr, hdiffer⟩ := (Option.any_eq_true _ _).1 hs
    refine ⟨s, saved, r, .run (.fresh 0) rfl hrun, hresumes, hdestroyed, hnext,
      Except.eq_ok_of_toOption hsaved, Except.eq_ok_of_toOption hr, fun hruns => ?_⟩
    have hops : ∀ op ∈ [Operation.start "note" .none], op.isCreate = false := by
      simp [Operation.isCreate]
    have hsame := hruns.map_eq hops fun _ globals => (globals.get? "box").isSome
    exact absurd hsame (bne_iff_ne.1 hdiffer)
  · have hcheck : ((Operation.start "custom" .none).run (.fresh (.handling .asking .strays) 0)).any
        fun x => x.2.world.resumes.isEmpty && x.2.world.destroyed.isEmpty &&
          decide (x.2.world.nextEventId ≠ 0) && x.2.snapshot.toOption.any fun saved =>
            (Scheduler.restore (.handling .asking .strays) saved).toOption.isNone := by
      decide +kernel
    obtain ⟨⟨reply, s⟩, hrun, hs⟩ := (Option.any_eq_true _ _).1 hcheck
    simp only [Bool.and_eq_true, List.isEmpty_iff, decide_eq_true_eq] at hs
    obtain ⟨⟨⟨hresumes, hdestroyed⟩, hnext⟩, hs⟩ := hs
    obtain ⟨saved, hsaved, hnone⟩ := (Option.any_eq_true _ _).1 hs
    refine ⟨s, saved, .run (.fresh 0) rfl hrun, hresumes, hdestroyed, hnext,
      Except.eq_ok_of_toOption hsaved, fun r hr => ?_⟩
    rw [hr] at hnone
    simp [Except.toOption] at hnone

end Cutscene
