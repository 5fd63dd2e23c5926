import Cutscene.Proofs.Program.Outline
import Cutscene.Proofs.Scheduler.Roundtrip
/-!
# Scheduler — the snapshots that can be rebuilt

A snapshot need not be one that was taken: it may have been edited, or the
events it was taken over may have changed. Of its parts only the two versions
and the pointers are examined. A pointer fits a library when it tells a program
that its event is made into, with the length that it has, and one of its
places or the one behind the last (`Pointer.Fits`).

`Engine.Serves.restore_iff_fits` says that the snapshots rebuilt are those of
the supported form, of the engine's version, with pointers that fit. What is
rebuilt is saved as it was, since a pointer that fits comes back from the place
it is loaded as (`Engine.Serves.pointer_of_place`); of a root only the program
is kept, and a next number of zero is raised to one (`Snapshot.again`). What
cannot be rebuilt is refused for the first of the three that is wrong.
-/

namespace Cutscene

/-! ## Pointers -/

/-- The pointer tells a program that its event is made into, as long as it is,
and an index that is not behind its end. -/
def Pointer.Fits (l : Library) (p : Pointer) : Prop :=
  ∃ d, l.get? (BodyKey.eventOfText p.program) = some d ∧
    ∃ program ∈ (Compiled.ofEvent l.environment d).programs,
      program.key.text = p.program ∧ program.steps.size = p.length ∧ p.index ≤ p.length

/-- The pointers of a context: to its root, to where it is, to where its calls
return to and to where its jumps do. -/
def SavedContext.pointers (c : SavedContext) : List Pointer :=
  c.root :: c.position :: (c.callStack.map (·.position) ++ c.jumpReturns)

/-- The context as it is saved again: its root points to the first step. -/
def SavedContext.again (c : SavedContext) : SavedContext :=
  { c with root := { c.root with index := 0 } }

/-- The snapshot as it is taken again: roots point to first steps, and the next
number is not zero. -/
def Snapshot.again (s : Snapshot) : Snapshot :=
  { s with contexts := s.contexts.map SavedContext.again, nextEventId := max s.nextEventId 1 }

/-- The snapshot is of the supported form and of the engine's version, and its
pointers fit. -/
structure Snapshot.Fits (e : Engine) (l : Library) (s : Snapshot) : Prop where
  schema : s.schemaVersion = Snapshot.schema
  version : s.compilerVersion = e.compilerVersion
  pointers : ∀ c ∈ s.contexts, ∀ p ∈ c.pointers, p.Fits l

/-- The errors of places are of one code. -/
theorem Engine.code_of_place {e : Engine} {p : Pointer} {err : SnapshotError}
    (h : e.place p = .error err) : err.report.code = "SNAPSHOT_PROGRAM_MISMATCH" := by
  unfold Engine.place at h
  split at h
  · obtain rfl := Except.error.inj h
    rfl
  split at h
  · obtain rfl := Except.error.inj h
    rfl
  · simp at h

theorem Engine.place_eq_ok_iff {e : Engine} {p : Pointer} {place : Place} :
    e.place p = .ok place ↔ ∃ program, e.programOfText? p.program = some program ∧
      program.steps.size = p.length ∧ p.index ≤ p.length ∧ place = ⟨program.key, p.index⟩ := by
  unfold Engine.place
  cases e.programOfText? p.program with
  | none => simp
  | some program =>
    simp only [Option.some.injEq, exists_eq_left']
    split
    · rename_i hbad
      refine iff_of_false (by simp) fun ⟨hlength, hindex, _⟩ => ?_
      omega
    · rename_i hgood
      rw [Except.ok.injEq]
      constructor
      · rintro rfl
        exact ⟨by omega, by omega, rfl⟩
      · exact fun ⟨_, _, hplace⟩ => hplace.symm

namespace Engine.Serves

variable {e : Engine} {l : Library}

/-- A text leads to the program of its event that has it. -/
theorem programOfText?_iff (he : e.Serves l) (hl : l.Lawful) {text : String} {program : Program} :
    e.programOfText? text = some program ↔
      ∃ d, l.get? (BodyKey.eventOfText text) = some d ∧
        program ∈ (Compiled.ofEvent l.environment d).programs ∧ program.key.text = text := by
  rw [Engine.programOfText?, he.event?]
  cases hd : l.get? (BodyKey.eventOfText text) with
  | none => simp
  | some d =>
    rw [Option.map_some, Option.bind_some, hl.programOfText?_iff hd]
    simp

/-- **A pointer fits exactly when it is loaded as a place.** -/
theorem fits_iff (he : e.Serves l) (hl : l.Lawful) {p : Pointer} :
    p.Fits l ↔ ∃ place, e.place p = .ok place := by
  simp only [Engine.place_eq_ok_iff, he.programOfText?_iff hl]
  constructor
  · rintro ⟨d, hd, program, hprogram, htext, hlength, hindex⟩
    exact ⟨_, program, ⟨d, hd, hprogram, htext⟩, hlength, hindex, rfl⟩
  · rintro ⟨_, program, ⟨d, hd, hprogram, htext⟩, hlength, hindex, _⟩
    exact ⟨d, hd, program, hprogram, htext, hlength, hindex⟩

/-- **A pointer that is loaded comes back from its place**, and with another
index from that place of the program. -/
theorem pointer_of_place (he : e.Serves l) (hl : l.Lawful) {p : Pointer} {place : Place}
    (h : e.place p = .ok place) :
    e.pointer place = p ∧ e.pointer ⟨place.program, 0⟩ = { p with index := 0 } := by
  obtain ⟨program, hprogram, hlength, -, rfl⟩ := Engine.place_eq_ok_iff.1 h
  obtain ⟨d, hd, hmem, htext⟩ := (he.programOfText?_iff hl).1 hprogram
  obtain ⟨b, hb, rfl⟩ := Body.mem_programs_iff.1 (programs_ofEvent l.environment d ▸ hmem)
  have hheld : e.length b.key = p.length := by
    rw [Engine.length, he.program? hl ⟨_, d, hd, hb⟩, ← hlength]
    rfl
  have hpointer : ∀ i, e.pointer ⟨b.program.key, i⟩ = { p with index := i } := fun i => by
    rw [Engine.pointer, ← htext, ← hheld, Body.program_key]
  exact ⟨hpointer p.index, hpointer 0⟩

end Engine.Serves

/-! ## Contexts -/

section

variable {e : Engine} {l : Library} {c : SavedContext}

/-- The call with its place found. -/
def SavedCall.load (e : Engine) (c : SavedCall) : Except SnapshotError CallFrame := do
  pure ⟨← e.place c.position, c.parameters⟩

theorem SavedCall.load_eq_ok_iff {call : SavedCall} {frame : CallFrame} :
    call.load e = .ok frame ↔
      ∃ place, e.place call.position = .ok place ∧ frame = ⟨place, call.parameters⟩ := by
  unfold SavedCall.load
  cases e.place call.position with
  | error err => simp [bind, Except.bind]
  | ok place => simp [bind, Except.bind, pure, Except.pure, eq_comm]

/-- The context over the places that its pointers are loaded as. -/
def SavedContext.over (c : SavedContext) (root place : Place) (calls : List CallFrame)
    (returns : List Place) : Context where
  id := c.id
  name := c.eventName
  root := root.program
  place
  calls := calls.reverse
  returns := returns.reverse
  attributes := c.attributes
  iterations := c.forEach.reverse
  state := match c.state with
    | .running => .running
    | .paused => .paused
    | .waiting remainingMs => .waiting remainingMs
  ambient := c.ambient
  boundary := c.boundary
  choice := c.choice

theorem SavedContext.load_eq (c : SavedContext) : c.load e = (do
    let root ← e.place c.root
    let place ← e.place c.position
    let calls ← c.callStack.mapM (SavedCall.load e)
    let returns ← c.jumpReturns.mapM e.place
    pure (c.over root place calls returns)) := rfl

theorem SavedContext.load_eq_ok_iff {x : Context} : c.load e = .ok x ↔
    ∃ root place calls returns, e.place c.root = .ok root ∧ e.place c.position = .ok place ∧
      c.callStack.mapM (SavedCall.load e) = .ok calls ∧ c.jumpReturns.mapM e.place = .ok returns ∧
      x = c.over root place calls returns := by
  rw [load_eq]
  simp only [Except.bind_eq_ok_iff, pure, Except.pure, Except.ok.injEq, eq_comm (a := x)]
  constructor
  · rintro ⟨root, hroot, place, hplace, calls, hcalls, returns, hreturns, hx⟩
    exact ⟨root, place, calls, returns, hroot, hplace, hcalls, hreturns, hx⟩
  · rintro ⟨root, place, calls, returns, hroot, hplace, hcalls, hreturns, hx⟩
    exact ⟨root, hroot, place, hplace, calls, hcalls, returns, hreturns, hx⟩

/-- A context is refused for one of its pointers. -/
theorem SavedContext.exists_pointer_of_load {err : SnapshotError} (h : c.load e = .error err) :
    ∃ p ∈ c.pointers, e.place p = .error err := by
  rw [load_eq] at h
  rcases Except.bind_eq_error_iff.1 h with hroot | ⟨root, -, h⟩
  · exact ⟨c.root, by simp [pointers], hroot⟩
  rcases Except.bind_eq_error_iff.1 h with hplace | ⟨place, -, h⟩
  · exact ⟨c.position, by simp [pointers], hplace⟩
  rcases Except.bind_eq_error_iff.1 h with hcalls | ⟨calls, -, h⟩
  · obtain ⟨call, hcall, herr⟩ := Except.exists_mem_of_mapM hcalls
    refine ⟨call.position, ?_, ?_⟩
    · simp only [pointers, List.mem_cons, List.mem_append, List.mem_map]
      exact .inr (.inr (.inl ⟨call, hcall, rfl⟩))
    · rcases Except.bind_eq_error_iff.1 herr with herr | ⟨place, -, herr⟩
      · exact herr
      · simp [pure, Except.pure] at herr
  rcases Except.bind_eq_error_iff.1 h with hreturns | ⟨returns, -, h⟩
  · obtain ⟨p, hp, herr⟩ := Except.exists_mem_of_mapM hreturns
    refine ⟨p, ?_, herr⟩
    simp only [pointers, List.mem_cons, List.mem_append]
    exact .inr (.inr (.inr hp))
  · simp [pure, Except.pure] at h

/-- A context that is loaded has pointers that are all loaded. -/
theorem SavedContext.exists_place_of_load {x : Context} (h : c.load e = .ok x) :
    ∀ p ∈ c.pointers, ∃ place, e.place p = .ok place := by
  obtain ⟨root, place, calls, returns, hroot, hplace, hcalls, hreturns, -⟩ := load_eq_ok_iff.1 h
  simp only [pointers, List.forall_mem_cons, List.forall_mem_append, List.forall_mem_map]
  refine ⟨⟨root, hroot⟩, ⟨place, hplace⟩, fun call hcall => ?_,
    Except.exists_ok_of_mapM hreturns⟩
  obtain ⟨frame, hframe⟩ := Except.exists_ok_of_mapM hcalls call hcall
  obtain ⟨place, hplace, -⟩ := SavedCall.load_eq_ok_iff.1 hframe
  exact ⟨place, hplace⟩

/-- **What is loaded is saved as it was**, but for the index of its root. -/
theorem Engine.Serves.save_load (he : e.Serves l) (hl : l.Lawful) {x : Context}
    (h : c.load e = .ok x) : x.save e = .ok c.again := by
  obtain ⟨root, place, calls, returns, hroot, hplace, hcalls, hreturns, rfl⟩ :=
    SavedContext.load_eq_ok_iff.1 h
  have hcalls : calls.map (fun call => (⟨e.pointer call.place, call.parameters⟩ : SavedCall)) =
      c.callStack := by
    refine Except.map_of_mapM (fun {call frame} hframe => ?_) hcalls
    obtain ⟨place, hplace, rfl⟩ := SavedCall.load_eq_ok_iff.1 hframe
    rw [(he.pointer_of_place hl hplace).1]
  have hreturns : returns.map e.pointer = c.jumpReturns :=
    Except.map_of_mapM (fun hplace => (he.pointer_of_place hl hplace).1) hreturns
  have hroot := (he.pointer_of_place hl hroot).2
  have hplace := (he.pointer_of_place hl hplace).1
  -- no saved state is that of a context that has finished
  cases hstate : c.state <;>
    simp [Context.save, SavedContext.over, SavedContext.again, hstate, hroot, hplace, hcalls,
      hreturns]

end

/-! ## Snapshots -/

namespace Scheduler

variable {e : Engine} {l : Library} {s : Snapshot}

/-- What is refused is refused for the first of schema, version and programs
that is wrong. -/
theorem code_of_restore {err : SnapshotError} (h : restore e s = .error err) :
    err.report.code =
      if s.schemaVersion ≠ Snapshot.schema then "SNAPSHOT_SCHEMA"
      else if s.compilerVersion ≠ e.compilerVersion then "SNAPSHOT_COMPILER_VERSION"
      else "SNAPSHOT_PROGRAM_MISMATCH" := by
  unfold restore at h
  split at h
  · rename_i hschema
    obtain rfl := Except.error.inj h
    rw [if_pos hschema]
    rfl
  rename_i hschema
  rw [if_neg hschema]
  split at h
  · rename_i hversion
    obtain rfl := Except.error.inj h
    rw [if_pos hversion]
    rfl
  rename_i hversion
  rw [if_neg hversion]
  rcases Except.bind_eq_error_iff.1 h with h | ⟨contexts, -, h⟩
  · obtain ⟨c, -, hload⟩ := Except.exists_mem_of_mapM h
    obtain ⟨p, -, hplace⟩ := SavedContext.exists_pointer_of_load hload
    exact Engine.code_of_place hplace
  · simp [pure, Except.pure] at h

/-- What is rebuilt had the right versions. -/
theorem versions_of_restore {r : Scheduler} (h : restore e s = .ok r) :
    s.schemaVersion = Snapshot.schema ∧ s.compilerVersion = e.compilerVersion := by
  unfold restore at h
  split at h
  · simp at h
  rename_i hschema
  split at h
  · simp at h
  rename_i hversion
  exact ⟨not_not.1 hschema, not_not.1 hversion⟩

end Scheduler

namespace Engine.Serves

variable {e : Engine} {l : Library}

/-- What is rebuilt fits, and is saved as it was. -/
theorem snapshot_restore (he : e.Serves l) (hl : l.Lawful) {s : Snapshot} {r : Scheduler}
    (h : Scheduler.restore e s = .ok r) : s.Fits e l ∧ r.snapshot = .ok s.again := by
  obtain ⟨hschema, hversion⟩ := Scheduler.versions_of_restore h
  obtain ⟨contexts, hcontexts, rfl⟩ := Scheduler.restore_eq h
  refine ⟨⟨hschema, hversion, fun c hc p hp => ?_⟩, ?_⟩
  · obtain ⟨x, hx⟩ := Except.exists_ok_of_mapM hcontexts c hc
    exact (he.fits_iff hl).2 (SavedContext.exists_place_of_load hx p hp)
  · have hsaved : contexts.mapM (Context.save e) = .ok (s.contexts.map SavedContext.again) := by
      rw [Except.mapM_eq_ok, List.forall₂_map_right_iff]
      exact (Except.mapM_eq_ok.1 hcontexts).flip.imp fun _ _ hload => he.save_load hl hload
    rw [Scheduler.snapshot]
    simp only [hsaved]
    rw [Snapshot.again, hschema, hversion]
    rfl

/-- A snapshot that fits is rebuilt. -/
theorem exists_restore (he : e.Serves l) (hl : l.Lawful) {s : Snapshot} (h : s.Fits e l) :
    ∃ r, Scheduler.restore e s = .ok r := by
  cases hrestored : Scheduler.restore e s with
  | ok r => exact ⟨r, rfl⟩
  | error err =>
    -- the versions are right, so a context was refused, for a pointer that fits
    rw [Scheduler.restore, if_neg (not_not.2 h.schema), if_neg (not_not.2 h.version)] at hrestored
    rcases Except.bind_eq_error_iff.1 hrestored with hfailed | ⟨contexts, -, hfailed⟩
    · obtain ⟨c, hc, hload⟩ := Except.exists_mem_of_mapM hfailed
      obtain ⟨p, hp, herr⟩ := SavedContext.exists_pointer_of_load hload
      obtain ⟨place, hplace⟩ := (he.fits_iff hl).1 (h.pointers c hc p hp)
      rw [hplace] at herr
      simp at herr
    · simp [pure, Except.pure] at hfailed

/-- **The snapshots that are rebuilt are those that fit**: of the supported
form, of the engine's version, and with pointers, all of them, to programs that
their events are made into. A snapshot of what is rebuilt is the one that it
was rebuilt from, but for the indices of roots, which become zero, and for a
next number of zero, which becomes one. Any other snapshot is refused for the
first of the three that it lacks. -/
theorem restore_iff_fits (he : e.Serves l) (hl : l.Lawful) (s : Snapshot) :
    ((∃ r, Scheduler.restore e s = .ok r) ↔ s.Fits e l) ∧
    (∀ r, Scheduler.restore e s = .ok r → r.snapshot = .ok s.again) ∧
    ∀ err, Scheduler.restore e s = .error err → err.report.code =
      if s.schemaVersion ≠ Snapshot.schema then "SNAPSHOT_SCHEMA"
      else if s.compilerVersion ≠ e.compilerVersion then "SNAPSHOT_COMPILER_VERSION"
      else "SNAPSHOT_PROGRAM_MISMATCH" :=
  ⟨⟨fun ⟨_, h⟩ => (he.snapshot_restore hl h).1, he.exists_restore hl⟩,
    fun _ h => (he.snapshot_restore hl h).2, fun _ => Scheduler.code_of_restore⟩

end Engine.Serves

/-- A snapshot that was written by hand: one context, in an event that another
one called. The length given is the one that it has of the event called. -/
def Snapshot.byHand (length : Nat) : Snapshot where
  schemaVersion := Snapshot.schema
  compilerVersion := Engine.defaultVersion
  globals := .empty
  selfVars := .empty
  rngState := 0
  nextEventId := 0
  contexts :=
    [{ id := ⟨1⟩
       eventName := "main"
       root := ⟨"main", 2, 2⟩
       position := ⟨"ask", length, 1⟩
       callStack := [⟨⟨"main", 2, 1⟩, .empty⟩]
       jumpReturns := [⟨"main", 2, 0⟩]
       attributes := .empty
       forEach := []
       state := .paused
       boundary := some .signal
       choice := none
       ambient := .none }]

/-- With the right length it is rebuilt, and saved again with its root at the
first step and the next number one; with another length it is refused. -/
theorem Engine.Serves.restore_iff_fits_byHand :
    Engine.Serves (.ofLibrary .asking) .asking ∧ Library.asking.Lawful ∧
      ((Snapshot.byHand 2).Fits (.ofLibrary .asking) .asking ∧
        ∃ r, Scheduler.restore (.ofLibrary .asking) (.byHand 2) = .ok r ∧
          r.snapshot = .ok (Snapshot.byHand 2).again) ∧
      (Snapshot.byHand 2).again.contexts.map (·.root) = [⟨"main", 2, 0⟩] ∧
      (Snapshot.byHand 2).again.nextEventId = 1 ∧
      (¬ (Snapshot.byHand 3).Fits (.ofLibrary .asking) .asking ∧
        ∃ err, Scheduler.restore (.ofLibrary .asking) (.byHand 3) = .error err ∧
          err.report.code = "SNAPSHOT_PROGRAM_MISMATCH") := by
  have hl : Library.asking.Lawful := by decide +kernel
  have hright := (Engine.Serves.ofLibrary .asking).restore_iff_fits hl (.byHand 2)
  have hwrong := (Engine.Serves.ofLibrary .asking).restore_iff_fits hl (.byHand 3)
  have hrebuilt : (Scheduler.restore (.ofLibrary .asking) (.byHand 2)).isOk := by decide +kernel
  have hrefused : (Scheduler.restore (.ofLibrary .asking) (.byHand 3)).isOk = false := by
    decide +kernel
  refine ⟨.ofLibrary .asking, hl, ?_, rfl, rfl, ?_⟩
  · cases hr : Scheduler.restore (.ofLibrary .asking) (.byHand 2) with
    | error err => simp [hr, Except.isOk, Except.toBool] at hrebuilt
    | ok r => exact ⟨hright.1.1 ⟨r, hr⟩, r, rfl, hright.2.1 r hr⟩
  · cases hr : Scheduler.restore (.ofLibrary .asking) (.byHand 3) with
    | ok r => simp [hr, Except.isOk, Except.toBool] at hrefused
    | error err =>
      refine ⟨fun hfits => ?_, err, rfl, hwrong.2.2 err hr⟩
      obtain ⟨r, hr'⟩ := hwrong.1.2 hfits
      rw [hr] at hr'
      simp at hr'

end Cutscene
