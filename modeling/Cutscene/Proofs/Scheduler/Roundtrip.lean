import Cutscene.Proofs.Scheduler.Range
import Cutscene.Proofs.Scheduler.Transparent
/-!
# Scheduler — saving and rebuilding exactly

Between operations no live context has finished
(`Scheduler.Reachable.unfinished`) and all their places stand, so every
reachable scheduler can be saved. Pointers depend only on the programs of an
engine (`Engine.Serves.save_congr`), so any engine that serves the same library
rebuilds the same contexts, over a fresh world that holds the saved variables,
random state and next number. `Scheduler.Reachable.restore_snapshot` says that
nothing has run then, and that a snapshot of what is rebuilt is the one taken;
only a next number of zero is raised to one.
-/

namespace Cutscene

namespace Engine.Serves

variable {e e' : Engine} {l : Library}

/-- Engines that serve one library have the same programs. -/
theorem program?_congr (he : e.Serves l) (he' : e'.Serves l) : e'.program? = e.program? := by
  have hevents : e'.events = e.events := he'.trans he.symm
  funext key
  rw [Engine.program?, Engine.program?, Engine.event?, Engine.event?, hevents]

/-- Engines that serve one library save a context alike. -/
theorem save_congr (he : e.Serves l) (he' : e'.Serves l) : Context.save e' = Context.save e := by
  have hpointer : e'.pointer = e.pointer := by
    funext p
    rw [pointer, pointer, length, length, he.program?_congr he']
  funext c
  rw [Context.save, Context.save, hpointer]

/-- Engines that serve one library load a context alike. -/
theorem load_congr (he : e.Serves l) (he' : e'.Serves l) :
    SavedContext.load e' = SavedContext.load e := by
  have hevents : e'.events = e.events := he'.trans he.symm
  have hplace : e'.place = e.place := by
    funext p
    rw [place, place, Engine.programOfText?, Engine.programOfText?, Engine.event?, Engine.event?,
      hevents]
  funext c
  rw [SavedContext.load, SavedContext.load, hplace]

end Engine.Serves

namespace Scheduler

variable {e e' : Engine} {l : Library} {s : Scheduler}

/-- **Between operations no live context has finished.** -/
theorem Reachable.unfinished (hs : s.Reachable e) :
    ∀ c ∈ s.contexts, c.state.isFinished = false := by
  induction hs with
  | fresh seed => exact fun c hc => by simp [Scheduler.fresh] at hc
  | run _ hop ih =>
    rcases Operation.run_cases hop with rfl | ⟨change, rfl, rfl⟩ | ⟨s₁, -, hreconciled⟩
    · exact ih
    · exact ih
    · exact (tidy_of_reconcile hreconciled).2
  | restore _ _ hr _ =>
    -- whatever is loaded has not finished, since no saved state says so
    obtain ⟨contexts, hloaded, rfl⟩ := restore_eq hr
    have hcontexts := Except.mapM_eq_ok.1 hloaded
    exact forall_of_forall₂ (p := fun _ => True) (fun _ hx => unfinished_of_load hx) hcontexts
      fun _ _ => trivial

/-- Between operations nothing is spawned. -/
theorem Reachable.spawned_eq_nil (hs : s.Reachable e) : s.world.spawned = [] := by
  induction hs with
  | fresh seed => rfl
  | run _ hop ih =>
    rcases Operation.run_cases hop with rfl | ⟨change, rfl, rfl⟩ | ⟨s₁, -, hreconciled⟩
    · exact ih
    · exact (HostEdit.spawned_run _ _).trans ih
    · exact (tidy_of_reconcile hreconciled).1
  | restore _ _ hr _ =>
    obtain ⟨contexts, -, rfl⟩ := restore_eq hr
    rfl

/-- A scheduler that an engine reaches is one over it. -/
theorem Reachable.engine_eq (hs : s.Reachable e) : s.engine = e :=
  ((Engine.Maintains.trivial e).reachable (fun _ _ _ _ _ _ _ => .intro)
    (fun _ _ _ => .intro) hs).1

/-- **Every reachable scheduler is saved and rebuilt exactly.** Let custom
handlers leave contexts at places that stand. Then a snapshot of a reachable
scheduler can be taken, and any engine over the same library with the same
version rebuilds it: the contexts are those saved, over a fresh world with the
variables, the random state and the next number, so no step has run and no call
was made to the host; and a snapshot of what is rebuilt is the one taken, but
for a next number of zero, which is raised to one. -/
theorem Reachable.restore_snapshot (he : e.Serves l) (he' : e'.Serves l) (hl : l.Lawful)
    (hversion : e'.compilerVersion = e.compilerVersion) (hk : e.KeepsPlaces l)
    (hs : s.Reachable e) :
    ∃ saved r, s.snapshot = .ok saved ∧ Scheduler.restore e' saved = .ok r ∧
      r = ⟨e', { World.fresh s.world.random.state with
        globals := s.world.globals
        selfVars := s.world.selfVars
        nextEventId := max s.world.nextEventId 1 }, s.contexts⟩ ∧
      r.snapshot = .ok { saved with nextEventId := max saved.nextEventId 1 } := by
  obtain ⟨hengine, hplaced, -⟩ :=
    (he.maintains_placed hl hk).reachable (he.starts_placed hl) (he.loads hl fun _ hc => hc) hs
  obtain ⟨xs, hsaved, hloaded⟩ :=
    he.exists_saved hl fun c hc => ⟨hplaced c hc, hs.unfinished c hc⟩
  have hsnapshot : s.snapshot = .ok ⟨Snapshot.schema, e.compilerVersion, s.world.globals,
      s.world.selfVars, s.world.random.state, s.world.nextEventId, xs⟩ := by
    rw [Scheduler.snapshot, hengine, hsaved]
    rfl
  refine ⟨_, _, hsnapshot, ?_, rfl, ?_⟩
  · rw [Scheduler.restore]
    simp only [ne_eq, not_true_eq_false, if_false, hversion, he.load_congr he', hloaded]
    rfl
  · rw [Scheduler.snapshot]
    simp only [he.save_congr he', hsaved, hversion]
    rfl

/-- A custom instruction, and then the asking event started: it is saved in the
event called, and rebuilt by an engine with another budget of steps and no
handler. -/
theorem Reachable.restore_snapshot_asking :
    Engine.Serves (.handling .asking .tells) .asking ∧
      Engine.Serves ((Engine.ofLibrary .asking).withBudget 1) .asking ∧ Library.asking.Lawful ∧
      ((Engine.ofLibrary .asking).withBudget 1).compilerVersion =
        (Engine.handling .asking .tells).compilerVersion ∧
      (Engine.handling .asking .tells).KeepsPlaces .asking ∧
      ∃ s saved r, Scheduler.Reachable (.handling .asking .tells) s ∧
        s.world.trace.length = 1 ∧ s.contexts.map (fun c => c.calls.length) = [1] ∧
        s.snapshot = .ok saved ∧
        Scheduler.restore ((Engine.ofLibrary .asking).withBudget 1) saved = .ok r ∧
        r.contexts = s.contexts ∧ r.world.trace = [] ∧ r.snapshot = .ok saved := by
  have he : Engine.Serves (.handling .asking .tells) .asking := .ofLibrary .asking
  have he' : Engine.Serves ((Engine.ofLibrary .asking).withBudget 1) .asking :=
    Engine.Serves.ofLibrary .asking
  have hl : Library.asking.Lawful := by decide +kernel
  have hk := (Engine.keepsControl_tells .asking).keepsPlaces .asking
  have hstarted : (Operation.start "custom" .none).leads (.fresh (.handling .asking .tells) 0)
      fun _ s => (Operation.start "main" .none).leads s fun _ s => s.world.trace.length == 1 &&
        s.contexts.map (fun c => c.calls.length) == [1] &&
        decide (s.world.nextEventId ≠ 0) := by
    decide +kernel
  obtain ⟨r₁, s₁, hcustom, hs⟩ := Operation.exists_of_leads hstarted
  obtain ⟨reply, s, hmain, hs⟩ := Operation.exists_of_leads hs
  simp only [Bool.and_eq_true, beq_iff_eq, decide_eq_true_eq] at hs
  obtain ⟨⟨htold, hcalls⟩, hnext⟩ := hs
  have hreach : Scheduler.Reachable (.handling .asking .tells) s :=
    .run (.run (.fresh 0) hcustom) hmain
  obtain ⟨saved, r, hsaved, hrestored, rfl, hagain⟩ := hreach.restore_snapshot he he' hl rfl hk
  refine ⟨he, he', hl, rfl, hk, s, saved, _, hreach, htold, hcalls, hsaved, hrestored, rfl, rfl,
    ?_⟩
  obtain ⟨contexts, -, rfl⟩ := snapshot_eq hsaved
  rw [hagain, max_eq_left (Nat.one_le_iff_ne_zero.2 hnext)]

/-- **A next number of zero is not kept.** When the numbers of contexts have
come round to zero, the snapshot of what is rebuilt differs from the one
taken. -/
theorem Reachable.exists_restore_snapshot_ne :
    Library.asking.Lawful ∧ ∃ s saved r, Scheduler.Reachable (.ofLibrary .asking) s ∧
      s.snapshot = .ok saved ∧ Scheduler.restore (.ofLibrary .asking) saved = .ok r ∧
      r.snapshot ≠ .ok saved := by
  have hl : Library.asking.Lawful := by decide +kernel
  obtain ⟨event, hevent, hstep⟩ := Library.exists_event_asking
  have hbudget : 0 < (Engine.ofLibrary .asking).stepBudget := by decide
  have hreach := reachableBare_idle_zero hevent hstep hbudget
  have hsnapshot : ∀ next, (idle (.ofLibrary .asking) next).snapshot = .ok ⟨Snapshot.schema,
      Engine.defaultVersion, .empty, .empty, 0, next, []⟩ := fun next => rfl
  refine ⟨hl, idle (.ofLibrary .asking) 0, _, idle (.ofLibrary .asking) 1, hreach.reachable,
    hsnapshot 0, rfl, fun hsame => ?_⟩
  rw [hsnapshot] at hsame
  have hnext := congrArg Snapshot.nextEventId (Except.ok.inj hsame)
  exact absurd hnext (by decide)

end Scheduler

end Cutscene
