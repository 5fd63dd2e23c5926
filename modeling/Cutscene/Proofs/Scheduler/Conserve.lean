import Cutscene.Proofs.Scheduler.Roll
import Cutscene.Proofs.Scheduler.Roundtrip
/-!
# Scheduler — no context is lost

Along a run of operations and restored snapshots the contexts created are those
of the operations, in order (`Scheduler.ReachableCreating`). Before the numbers
of contexts come round they increase by one from one on, so no number is used
twice. With the law of the roll this gives conservation: no context is lost,
doubled or taken for another (`Scheduler.ReachableCreating.conserves`).

Numbers have 64 bits. When they have come round, one that is handed out may be
that of a context that is still live (`Scheduler.Reachable.exists_doubled`).
-/

namespace Cutscene

/-- What a scheduler can come to, and the contexts created on the way, in
order. -/
inductive Scheduler.ReachableCreating (e : Engine) : List Identity → Scheduler → Prop
  | fresh (seed : UInt32) : ReachableCreating e [] (.fresh e seed)
  | run {past : List Identity} {s s' : Scheduler} {op : Operation} {r : Reply}
      (h : ReachableCreating e past s) (hop : op.run s = some (r, s')) :
    ReachableCreating e (past ++ op.created s) s'
  | restore {past : List Identity} {s s' : Scheduler} {saved : Snapshot}
      (h : ReachableCreating e past s) (hs : s.snapshot = .ok saved)
      (hr : Scheduler.restore e saved = .ok s') : ReachableCreating e past s'

/-- A context that is saved and loaded is the same one. -/
theorem Context.identity_of_load {e : Engine} {c c' : Context} {saved : SavedContext}
    (hsave : c.save e = .ok saved) (hload : saved.load e = .ok c') : c'.identity = c.identity := by
  have hsaved : saved.id = c.id ∧ saved.eventName = c.name := by
    unfold Context.save at hsave
    simp only at hsave
    split at hsave
    case h_4 => simp at hsave
    all_goals
      obtain rfl := Except.ok.inj hsave
      exact ⟨rfl, rfl⟩
  unfold SavedContext.load at hload
  cases hroot : e.place saved.root with
  | error err => simp [hroot, bind, Except.bind] at hload
  | ok root =>
    cases hplace : e.place saved.position with
    | error err => simp [hroot, hplace, bind, Except.bind] at hload
    | ok place =>
      simp only [hroot, hplace, bind, Except.bind] at hload
      split at hload
      · simp at hload
      split at hload
      · simp at hload
      obtain rfl := Except.ok.inj hload
      rw [identity, identity, hsaved.1, hsaved.2]

theorem Context.flatMap_live {cs : List Context} (h : ∀ c ∈ cs, c.state.isFinished = false) :
    cs.flatMap live = cs.map identity := by
  rw [List.map_eq_flatMap]
  exact List.flatMap_congr fun c hc => live_eq_singleton (h c hc)

namespace Scheduler

variable {e : Engine} {past : List Identity} {s s' : Scheduler}

theorem ReachableCreating.reachable (hs : s.ReachableCreating e past) : s.Reachable e := by
  induction hs with
  | fresh seed => exact .fresh seed
  | run _ hop ih => exact ih.run hop
  | restore _ hsaved hr ih => exact ih.restore hsaved hr

/-- The number that is handed out next has 64 bits. -/
theorem ReachableCreating.nextEventId_lt (hk : e.KeepsIdentities)
    (hs : s.ReachableCreating e past) : s.world.nextEventId < UInt64.size := by
  induction hs with
  | fresh seed => exact (by decide : 1 < UInt64.size)
  | run hs hop ih =>
    exact (Engine.KeepsIdentities.run (hs.reachable.engine_eq ▸ hk) ih hop).next_lt ih
  | restore hs hsaved hr ih =>
    obtain ⟨xs, -, rfl⟩ := snapshot_eq hsaved
    obtain ⟨cs, -, rfl⟩ := restore_eq hr
    exact Nat.max_lt.2 ⟨ih, by decide⟩

/-- What an operation creates and what ends in it. -/
theorem ReachableCreating.moves (hk : e.KeepsIdentities) (hs : s.ReachableCreating e past)
    {op : Operation} {r : Reply} (hop : op.run s = some (r, s')) :
    s.roll.Moves (op.created s) (op.ended s) s'.roll :=
  Engine.KeepsIdentities.run (hs.reachable.engine_eq ▸ hk) (hs.nextEventId_lt hk) hop

/-- Between operations the live contexts are those of the scheduler. -/
theorem Reachable.roll_eq (hs : s.Reachable e) :
    s.roll = ⟨s.contexts.map Context.identity, ⟨s.world.nextEventId⟩⟩ := by
  rw [roll, World.roll, hs.spawned_eq_nil, Context.flatMap_live hs.unfinished,
    List.flatMap_nil, List.append_nil]

/-- A snapshot keeps every context that is live. -/
theorem map_identity_restore {saved : Snapshot} (he : s.engine = e) (hs : s.snapshot = .ok saved)
    (hr : Scheduler.restore e saved = .ok s') :
    s'.contexts.map Context.identity = s.contexts.map Context.identity := by
  subst he
  have hloaded := forall₂_restore hs hr
  have hsame : ∀ {cs cs' : List Context}, List.Forall₂ (fun c c' => ∃ x,
      c.save s.engine = .ok x ∧ x.load s.engine = .ok c') cs cs' →
      cs'.map Context.identity = cs.map Context.identity := by
    intro cs cs' h
    induction h with
    | nil => rfl
    | cons hc _ ih =>
      obtain ⟨x, hsave, hload⟩ := hc
      rw [List.map_cons, List.map_cons, Context.identity_of_load hsave hload, ih]
  exact hsame hloaded

/-- Before the numbers come round, the contexts created so far have those from
one on. -/
theorem ReachableCreating.counted (hk : e.KeepsIdentities) (hs : s.ReachableCreating e past)
    (hsize : past.length < UInt64.size) :
    past.map Identity.id = (List.range' 1 past.length).map EventId.mk ∧
      (past.length + 1 < UInt64.size → s.world.nextEventId = past.length + 1) := by
  induction hs with
  | fresh seed => exact ⟨rfl, fun _ => rfl⟩
  | @run past s s' op r hs hop ih =>
    have hmoved := hs.moves hk hop
    have hnext := hmoved.next
    rw [List.length_append] at hsize ⊢
    obtain ⟨hpast, hcount⟩ := ih (by omega)
    cases hcreated : op.created s with
    | nil =>
      rw [hcreated] at hnext
      have hsame : s'.world.nextEventId = s.world.nextEventId :=
        EventId.mk.inj hnext.eq_of_nil
      rw [List.append_nil, List.length_nil, Nat.add_zero, hsame]
      exact ⟨hpast, hcount⟩
    | cons first rest =>
      rw [← hcreated]
      have hfirst : s.world.nextEventId = past.length + 1 := by
        refine hcount ?_
        rw [hcreated, List.length_cons] at hsize
        omega
      have hstart : s.roll.next = ⟨past.length + 1⟩ := congrArg EventId.mk hfirst
      rw [hstart] at hnext
      obtain ⟨hids, hlast⟩ := hnext.eq_range' (by rw [List.length_map]; omega)
      rw [List.length_map] at hids hlast
      refine ⟨?_, fun hlt => ?_⟩
      · rw [List.map_append, hpast, hids, ← List.map_append, Nat.add_comm past.length 1,
          List.range'_append_1]
      · have hval := congrArg EventId.val (hlast (by omega))
        show s'.roll.next.val = _
        rw [hval]
        show past.length + 1 + (op.created s).length = _
        omega
  | @restore past s s' saved hs hsaved hr ih =>
    obtain ⟨hpast, hcount⟩ := ih hsize
    obtain ⟨xs, -, rfl⟩ := snapshot_eq hsaved
    obtain ⟨cs, -, rfl⟩ := restore_eq hr
    refine ⟨hpast, fun hlt => ?_⟩
    show max s.world.nextEventId 1 = past.length + 1
    rw [hcount hlt]
    omega

theorem ReachableCreating.increasing (hk : e.KeepsIdentities) (hs : s.ReachableCreating e past)
    (hsize : past.length < UInt64.size) : (past.map fun x => x.id.val).Pairwise (· < ·) := by
  have hvals : (past.map fun x => x.id.val) = List.range' 1 past.length := by
    have hids := congrArg (List.map EventId.val) (hs.counted hk hsize).1
    rw [List.map_map, List.map_map] at hids
    refine hids.trans ?_
    rw [show EventId.val ∘ EventId.mk = id from rfl, List.map_id]
  rw [hvals]
  exact List.pairwise_lt_range'

/-- Before the numbers come round, live contexts have different ones. -/
theorem ReachableCreating.distinct (hk : e.KeepsIdentities) (hs : s.ReachableCreating e past)
    (hsize : past.length < UInt64.size) :
    (s.contexts.map Context.id).Nodup ∧ ∀ c ∈ s.contexts, c.identity ∈ past := by
  have hids : ∀ cs : List Context,
      cs.map Context.id = (cs.map Context.identity).map Identity.id := by
    intro cs
    rw [List.map_map]
    rfl
  induction hs with
  | fresh seed => exact ⟨.nil, fun c hc => by simp [Scheduler.fresh] at hc⟩
  | @run past s s' op r hs hop ih =>
    have hmoved := (hs.moves hk hop).held
    rw [hs.reachable.roll_eq, (hs.reachable.run hop).roll_eq] at hmoved
    have hincreasing := (hs.run hop).increasing hk hsize
    rw [List.length_append] at hsize
    obtain ⟨hnodup, hpast⟩ := ih (by omega)
    -- what is created has numbers that no context had before
    have hfresh : ((past ++ op.created s).map Identity.id).Nodup := by
      refine List.Nodup.of_map EventId.val ?_
      rw [List.map_map]
      exact hincreasing.imp Nat.ne_of_lt
    rw [List.map_append, List.nodup_append] at hfresh
    have hboth : ((s.contexts.map Context.identity ++ op.created s).map Identity.id).Nodup := by
      rw [List.map_append, ← hids, List.nodup_append]
      refine ⟨hnodup, hfresh.2.1, fun a ha b hb => ?_⟩
      obtain ⟨c, hc, rfl⟩ := List.mem_map.1 ha
      exact hfresh.2.2 _ (List.mem_map_of_mem (hpast c hc)) b hb
    have hleft : ((s'.contexts.map Context.identity ++ op.ended s).map Identity.id).Nodup :=
      ((hmoved.map Identity.id).nodup_iff).2 hboth
    rw [List.map_append, ← hids] at hleft
    refine ⟨(List.nodup_append.1 hleft).1, fun c hc => ?_⟩
    have hmem := hmoved.mem_iff.1 (List.mem_append_left _ (List.mem_map_of_mem hc))
    rcases List.mem_append.1 hmem with hmem | hmem
    · obtain ⟨c', hc', heq⟩ := List.mem_map.1 hmem
      exact List.mem_append_left _ (heq ▸ hpast c' hc')
    · exact List.mem_append_right _ hmem
  | @restore past s s' saved hs hsaved hr ih =>
    obtain ⟨hnodup, hpast⟩ := ih hsize
    have hsame := map_identity_restore hs.reachable.engine_eq hsaved hr
    rw [hids, hsame, ← hids]
    refine ⟨hnodup, fun c hc => ?_⟩
    have hmem : c.identity ∈ s.contexts.map Context.identity := hsame ▸ List.mem_map_of_mem hc
    obtain ⟨c', hc', heq⟩ := List.mem_map.1 hmem
    exact heq ▸ hpast c' hc'

/-- A reconciliation leaves nothing queued. -/
theorem unqueued_of_reconcile (h : s.reconcile = some s') :
    s'.world.spawned = [] ∧ s'.world.resumes = [] ∧ s'.world.destroyed = [] := by
  obtain ⟨s₁, -, rfl⟩ := reconcile_eq h
  exact ⟨rfl, rfl, rfl⟩

/-- **No context is lost, doubled or taken for another.** Let custom handlers
keep the number and the name of their context, and let the contexts that they
spawn and that have not ended be queued, each under a number of its own that
was handed out for it. In every reachable scheduler, whatever operation follows:

* it holds every context that was live before or that the operation created,
  except those that ended in it, and none that has finished;
* if it reconciled, nothing is left queued;
* before the numbers of contexts come round, every number that is handed out is
  greater than all those before it, no two live contexts have the same, and
  every live context is the one that was created under its number.

A snapshot that is taken and restored keeps the live contexts. -/
theorem ReachableCreating.conserves (hk : e.KeepsIdentities) (hs : s.ReachableCreating e past) :
    (∀ (op : Operation) (r : Reply) (s' : Scheduler), op.run s = some (r, s') →
      (s'.contexts.map Context.identity ++ op.ended s).Perm
        (s.contexts.map Context.identity ++ op.created s) ∧
      (∀ c ∈ s'.contexts, c.state.isFinished = false) ∧
      (op.reconciles r →
        s'.world.spawned = [] ∧ s'.world.resumes = [] ∧ s'.world.destroyed = []) ∧
      ((past ++ op.created s).length < UInt64.size →
        ((past ++ op.created s).map fun x => x.id.val).Pairwise (· < ·) ∧
        (s'.contexts.map Context.id).Nodup ∧
        ∀ c ∈ s'.contexts, c.identity ∈ past ++ op.created s)) ∧
    ∀ saved s', s.snapshot = .ok saved → Scheduler.restore e saved = .ok s' →
      s'.contexts.map Context.identity = s.contexts.map Context.identity := by
  have hengine := hs.reachable.engine_eq
  refine ⟨fun op r s' hop => ⟨?_, (hs.reachable.run hop).unfinished, fun hreconciles => ?_,
    fun hsize => ⟨(hs.run hop).increasing hk hsize, (hs.run hop).distinct hk hsize⟩⟩,
    fun saved s' => map_identity_restore hengine⟩
  · have hmoved := (hs.moves hk hop).held
    rw [hs.reachable.roll_eq, (hs.reachable.run hop).roll_eq] at hmoved
    exact hmoved
  · rcases Operation.run_course hop with ⟨-, s₁, -, hrun⟩ | ⟨hrefused, -⟩
    · exact unqueued_of_reconcile hrun
    · rw [hrefused] at hreconciles
      exact absurd hreconciles (by decide)

end Scheduler

/-- An event that pauses, then calls another asynchronously and has a custom
instruction. The one called starts a block of its own, and both of these
pause. -/
def Library.spawning : Library :=
  let call : Json := .object [("event", .string "child"), ("mode", .string "async")]
  let pause : Instruction := ⟨"pauseEvent", .null⟩
  let block : Json := .object [("commands", .array [pause.encode])]
  { events := .ofList
      [("main", ⟨"main", [pause, ⟨"callEvent", call⟩, ⟨"custom", .null⟩], .empty⟩),
       ("child", ⟨"child", [⟨"independent", block⟩, pause], .empty⟩)] }

/-- The event started and resumed: it has ended, and three contexts are live, two
that were created at two depths, and one by the custom instruction, which also
created one that has ended. -/
theorem Scheduler.ReachableCreating.conserves_spawning :
    let e := Engine.handling .spawning (.posts "child")
    e.KeepsIdentities ∧
      ∃ past s r s', ReachableCreating e past s ∧
        (Operation.resume ⟨1⟩).run s = some (r, s') ∧
        (Operation.resume ⟨1⟩).reconciles r ∧
        past = [⟨⟨1⟩, "main"⟩] ∧
        (Operation.resume ⟨1⟩).created s =
          [⟨⟨2⟩, "child"⟩, ⟨⟨3⟩, "child"⟩, ⟨⟨4⟩, ""⟩, ⟨⟨5⟩, "child"⟩] ∧
        (Operation.resume ⟨1⟩).ended s = [⟨⟨4⟩, ""⟩, ⟨⟨1⟩, "main"⟩] ∧
        (s'.contexts.map Context.identity).Perm [⟨⟨2⟩, "child"⟩, ⟨⟨3⟩, "child"⟩, ⟨⟨5⟩, "child"⟩] ∧
        (s'.contexts.map Context.id).Nodup ∧
        s'.world.spawned = [] ∧ s'.world.resumes = [] ∧ s'.world.destroyed = [] := by
  intro e
  have hk : e.KeepsIdentities := Engine.keepsIdentities_posts .spawning "child"
  have hcheck : (Operation.start "main" .none).leads (.fresh e 0) fun _ s =>
      (Operation.start "main" .none).created (.fresh e 0) == [⟨⟨1⟩, "main"⟩] &&
        s.contexts.map Context.identity == [⟨⟨1⟩, "main"⟩] &&
        (Operation.resume ⟨1⟩).created s ==
          [⟨⟨2⟩, "child"⟩, ⟨⟨3⟩, "child"⟩, ⟨⟨4⟩, ""⟩, ⟨⟨5⟩, "child"⟩] &&
        (Operation.resume ⟨1⟩).ended s == [⟨⟨4⟩, ""⟩, ⟨⟨1⟩, "main"⟩] &&
        (Operation.resume ⟨1⟩).leads s fun r _ => (Operation.resume ⟨1⟩).reconciles r := by
    decide +kernel
  obtain ⟨r₁, s, hstart, hcheck⟩ := Operation.exists_of_leads hcheck
  simp only [Bool.and_eq_true, beq_iff_eq] at hcheck
  obtain ⟨⟨⟨⟨hpast, hlive⟩, hcreated⟩, hended⟩, hresumed⟩ := hcheck
  obtain ⟨r, s', hrun, hreconciles⟩ := Operation.exists_of_leads hresumed
  have hreach : ReachableCreating e [⟨⟨1⟩, "main"⟩] s := by
    have hstarted := (ReachableCreating.fresh (e := e) 0).run hstart
    rwa [List.nil_append, hpast] at hstarted
  obtain ⟨hconserved, -⟩ := hreach.conserves hk
  obtain ⟨hperm, -, hempty, hdistinct⟩ := hconserved _ r s' hrun
  rw [hlive, hcreated, hended] at hperm
  rw [hcreated] at hdistinct
  obtain ⟨-, hnodup, -⟩ := hdistinct (by decide)
  refine ⟨hk, _, s, r, s', hreach, hrun, hreconciles, rfl, hcreated, hended,
    (List.perm_append_right_iff [⟨⟨4⟩, ""⟩, ⟨⟨1⟩, "main"⟩]).1 (hperm.trans ?_), hnodup,
    hempty hreconciles⟩
  decide

/-- A custom instruction that queues the context that it runs in, paused, twice. -/
def Handler.doubles : Handler := fun _ m =>
  let copy := m.context.pause .signal
  (.next, { m with world := (m.world.adopt copy).adopt copy })

/-- **A number may be that of two live contexts.** After as many events as there
are numbers, one that is started has the number of another that is still
paused, and a smaller one than those handed out before. A handler that queues
contexts under a number that was not handed out for them needs no such time. -/
theorem Scheduler.Reachable.exists_doubled :
    Library.asking.Lawful ∧ (∃ s r s', Scheduler.Reachable (.ofLibrary .asking) s ∧
      (Operation.start "ask" .none).run s = some (r, s') ∧
      (Operation.start "ask" .none).reconciles r ∧
      s.contexts.map Context.id = [⟨1⟩] ∧
      (Operation.start "ask" .none).created s = [⟨⟨1⟩, "ask"⟩] ∧
      s'.contexts.map Context.id = [⟨1⟩, ⟨1⟩]) ∧
    ∃ r s, (Operation.start "custom" .none).run (.fresh (.handling .asking .doubles) 0) =
        some (r, s) ∧
      s.contexts.map Context.id = [⟨1⟩, ⟨1⟩] := by
  have hl : Library.asking.Lawful := by decide +kernel
  obtain ⟨s, hreach, hs⟩ := Library.exists_recurring hl "nothing" "ask"
    (p := fun s => s.contexts.map Context.id == [⟨1⟩] &&
      (Operation.start "ask" .none).created s == [⟨⟨1⟩, "ask"⟩] &&
      (Operation.start "ask" .none).leads s fun r s' =>
        (Operation.start "ask" .none).reconciles r &&
          s'.contexts.map Context.id == [⟨1⟩, ⟨1⟩])
    (by decide +kernel) (by decide +kernel)
  simp only [Bool.and_eq_true, beq_iff_eq] at hs
  obtain ⟨⟨hids, hcreated⟩, hrun⟩ := hs
  obtain ⟨r, s', hrun, hs'⟩ := Operation.exists_of_leads hrun
  simp only [Bool.and_eq_true, beq_iff_eq] at hs'
  have hdoubles : (Operation.start "custom" .none).leads (.fresh (.handling .asking .doubles) 0)
      fun _ s => s.contexts.map Context.id == [⟨1⟩, ⟨1⟩] := by
    decide +kernel
  obtain ⟨r₂, s₂, hrun₂, hs₂⟩ := Operation.exists_of_leads hdoubles
  exact ⟨hl, ⟨s, r, s', hreach.reachable, hrun, hs'.1, hids, hcreated, hs'.2⟩, r₂, s₂, hrun₂,
    by simpa using hs₂⟩

end Cutscene
