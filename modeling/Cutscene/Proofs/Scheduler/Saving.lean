import Cutscene.Proofs.Outcome
import Cutscene.Proofs.Run.Placed
import Cutscene.Proofs.Scheduler.Operation
/-!
# Scheduler — saving and loading

A place that stands comes back from its pointer (`Engine.Serves.place_pointer`),
since the text of a key finds the one program under it. So a context whose
places stand is loaded as it was saved (`Context.Placed.load_save`), and what
is rebuilt from a snapshot has the contexts saved, each loaded
(`Scheduler.forall₂_restore`).
-/

namespace Cutscene

/-! ## Places and contexts -/

section

variable {e : Engine} {l : Library} {c : Context}

/-- **A place that stands comes back from its pointer.** -/
theorem Engine.Serves.place_pointer (he : e.Serves l) (hl : l.Lawful) {p : Place}
    (h : l.Stands p) : e.place (e.pointer p) = .ok p := by
  obtain ⟨b, hb, hkey, hle⟩ := h
  have hlength : e.length p.program = b.program.steps.size := by
    rw [Engine.length, ← hkey, he.program? hl hb]
    rfl
  have hsize := b.size_program
  rw [Engine.place, Engine.pointer, ← hkey, he.programOfText? hl hb]
  simp only
  rw [if_neg (by rw [hkey, hlength]; omega), Body.program_key, hkey]

/-- A context that has not finished can be saved. -/
theorem Context.exists_save (h : c.state.isFinished = false) : ∃ saved, c.save e = .ok saved := by
  unfold Context.save
  split
  all_goals first | exact ⟨_, rfl⟩ | skip
  rename_i hstate
  rw [hstate] at h
  simp [RunState.isFinished] at h

/-- **A context whose places stand is loaded as it was saved.** -/
theorem Context.Placed.load_save (h : c.Placed l) (he : e.Serves l) (hl : l.Lawful)
    {saved : SavedContext} (hsave : c.save e = .ok saved) : saved.load e = .ok c := by
  have hcalls : (c.calls.reverse.map fun call =>
      (⟨e.pointer call.place, call.parameters⟩ : SavedCall)).mapM (fun call => do
        pure (⟨← e.place call.position, call.parameters⟩ : CallFrame)) = .ok c.calls.reverse :=
    Except.mapM_map fun call hcall => by
      rw [he.place_pointer hl (h.calls call (List.mem_reverse.1 hcall))]
      rfl
  have hreturns : (c.returns.reverse.map e.pointer).mapM e.place = .ok c.returns.reverse :=
    Except.mapM_map fun place hplace =>
      he.place_pointer hl (h.returns place (List.mem_reverse.1 hplace))
  unfold Context.save at hsave
  simp only at hsave
  split at hsave
  -- a context that has finished is not saved; in the other states the fields go through
  case h_4 => simp at hsave
  all_goals
    rename_i hstate
    obtain rfl := Except.ok.inj hsave
    rw [SavedContext.load]
    simp only [he.place_pointer hl h.root, he.place_pointer hl h.place, hcalls, hreturns]
    simp only [bind, Except.bind, pure, Except.pure, List.reverse_reverse, ← hstate]

/-- Contexts that have not finished, at places that stand, are all saved, and
all loaded as they were. -/
theorem Engine.Serves.exists_saved (he : e.Serves l) (hl : l.Lawful) {cs : List Context}
    (h : ∀ c ∈ cs, c.Placed l ∧ c.state.isFinished = false) :
    ∃ xs, cs.mapM (Context.save e) = .ok xs ∧ xs.mapM (SavedContext.load e) = .ok cs := by
  -- saving and loading list by list, since the loads follow the saves one by one
  suffices hs : ∃ xs, List.Forall₂ (fun c x => Context.save e c = .ok x) cs xs ∧
      List.Forall₂ (fun x c => SavedContext.load e x = .ok c) xs cs by
    obtain ⟨xs, hsaved, hloaded⟩ := hs
    exact ⟨xs, Except.mapM_eq_ok.2 hsaved, Except.mapM_eq_ok.2 hloaded⟩
  induction cs with
  | nil => exact ⟨[], .nil, .nil⟩
  | cons c cs ih =>
    obtain ⟨⟨hplaced, hfinished⟩, hrest⟩ := List.forall_mem_cons.1 h
    obtain ⟨xs, hsaved, hloaded⟩ := ih hrest
    obtain ⟨x, hx⟩ := Context.exists_save hfinished
    exact ⟨x :: xs, .cons hx hsaved, .cons (hplaced.load_save he hl hx) hloaded⟩

end

/-! ## Schedulers -/

namespace Scheduler

theorem snapshot_eq {s : Scheduler} {saved : Snapshot} (h : s.snapshot = .ok saved) :
    ∃ contexts, s.contexts.mapM (Context.save s.engine) = .ok contexts ∧
      saved = ⟨Snapshot.schema, s.engine.compilerVersion, s.world.globals, s.world.selfVars,
        s.world.random.state, s.world.nextEventId, contexts⟩ := by
  unfold snapshot at h
  cases hcs : s.contexts.mapM (Context.save s.engine) with
  | error err => rw [hcs] at h; simp [bind, Except.bind] at h
  | ok contexts =>
    rw [hcs] at h
    exact ⟨contexts, rfl, (Except.ok.inj h).symm⟩

theorem restore_eq {e : Engine} {s : Scheduler} {saved : Snapshot} (h : restore e saved = .ok s) :
    ∃ contexts, saved.contexts.mapM (SavedContext.load e) = .ok contexts ∧
      s = ⟨e, { World.fresh saved.rngState with
        globals := saved.globals
        selfVars := saved.selfVars
        nextEventId := max saved.nextEventId 1 }, contexts⟩ := by
  unfold restore at h
  split at h
  · simp at h
  split at h
  · simp at h
  cases hcs : saved.contexts.mapM (SavedContext.load e) with
  | error err => rw [hcs] at h; simp [bind, Except.bind] at h
  | ok contexts =>
    rw [hcs] at h
    exact ⟨contexts, rfl, (Except.ok.inj h).symm⟩

/-- The contexts rebuilt are the saved ones, loaded. -/
theorem forall₂_restore {s s' : Scheduler} {saved : Snapshot} (h : s.snapshot = .ok saved)
    (hr : restore s.engine saved = .ok s') :
    List.Forall₂ (fun c c' => ∃ x, c.save s.engine = .ok x ∧ x.load s.engine = .ok c')
      s.contexts s'.contexts := by
  obtain ⟨xs, hxs, rfl⟩ := snapshot_eq h
  obtain ⟨cs, hcs, rfl⟩ := restore_eq hr
  have hcomp : ∀ {as : List Context} {bs : List SavedContext} {cs : List Context},
      List.Forall₂ (fun c x => c.save s.engine = .ok x) as bs →
      List.Forall₂ (fun x c' => x.load s.engine = .ok c') bs cs →
      List.Forall₂ (fun c c' => ∃ x, c.save s.engine = .ok x ∧ x.load s.engine = .ok c') as cs := by
    intro as bs cs hab hbc
    induction hab generalizing cs with
    | nil =>
      cases hbc
      exact .nil
    | cons hx _ ih =>
      cases hbc with
      | cons hc hbc => exact .cons ⟨_, hx, hc⟩ (ih hbc)
  exact hcomp (Except.mapM_eq_ok.1 hxs) (Except.mapM_eq_ok.1 hcs)

end Scheduler

end Cutscene
