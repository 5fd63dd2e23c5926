import Cutscene.Player.Command
import Cutscene.Proofs.Player.Play
import Cutscene.Proofs.Program.Held
/-!
# Player — commands

What the player starts from source texts and goes on with from saved states are
plays without a limit (`Player.startAndPlay_eq_some_iff`,
`Player.resumeAndPlay_eq_some_iff`), and where the files are there each command
answers with its play.
-/

namespace Cutscene

namespace Player

open Scheduler

variable {scripts : Script.Language} {project : SourceProject} {entry : Option String}
  {limits : FrameLimits} {choices : List Nat} {p : Played}

/-! ## Plays -/

theorem start_eq_some_iff {q : Project} {settings : Settings} {seed : UInt32} {ambient : Ambient}
    {id : EventId} {s : Scheduler} :
    q.start settings seed ambient = some (.ok (id, s)) ↔
      (Scheduler.fresh (settings.engine q.library) seed).start q.entry ambient =
        some (.ok id, s) := by
  rw [Project.start, Option.map_eq_some_iff]
  constructor
  · rintro ⟨⟨r, s'⟩, hrun, heq⟩
    cases r with
    | error e => simp at heq
    | ok id' =>
      obtain ⟨rfl, rfl⟩ := Prod.mk.inj (Except.ok.inj heq)
      exact hrun
  · exact fun hrun => ⟨_, hrun, rfl⟩

theorem ofSources_eq_some_iff {sources : Sources} {id : EventId} {s : Scheduler} :
    Scheduler.ofSources sources entry .default defaultSeed .none scripts = some (.ok (id, s)) ↔
      ∃ l name, Library.ofSources sources scripts = .ok l ∧ l.entry entry = .ok name ∧
        (Scheduler.fresh (.ofLibrary l) defaultSeed).start name .none = some (.ok id, s) := by
  rw [Scheduler.ofSources, Project.ofSources]
  cases hl : Library.ofSources sources scripts with
  | error e => simp
  | ok l =>
    cases hentry : l.entry entry with
    | error e => simp [hentry]
    | ok name =>
      -- the settings that are not told otherwise are those of the library's engine
      have hstart : Project.start ⟨l, name⟩ .default defaultSeed .none = some (.ok (id, s)) ↔
          (Scheduler.fresh (.ofLibrary l) defaultSeed).start name .none = some (.ok id, s) :=
        start_eq_some_iff
      simp only [hentry, hstart]
      constructor
      · exact fun hrun => ⟨l, name, rfl, hentry, hrun⟩
      · rintro ⟨l', name', heq, hentry', hrun⟩
        obtain rfl := Except.ok.inj heq
        obtain rfl := Except.ok.inj (hentry.symm.trans hentry')
        exact hrun

/-- What is started is settled. -/
theorem exists_settled {sources : Sources} {id : EventId} {s : Scheduler}
    (hs : Scheduler.ofSources sources entry .default defaultSeed .none scripts =
      some (.ok (id, s))) :
    ∃ l, Library.ofSources sources scripts = .ok l ∧ s.Settled (.ofLibrary l) := by
  obtain ⟨l, name, hl, -, hstart⟩ := ofSources_eq_some_iff.1 hs
  have hop : (Operation.start name .none).run (.fresh (.ofLibrary l) defaultSeed) =
      some (.started (.ok id), s) :=
    Option.map_eq_some_iff.2 ⟨_, hstart, rfl⟩
  exact ⟨l, hl, (ReachableBare.fresh defaultSeed).settled rfl rfl hop⟩

theorem playWith_eq_some_iff {s : Scheduler} :
    playWith s limits choices = some (.ok p) ↔ s.play limits choices = some (.ok p) := by
  rw [playWith, Option.map_eq_some_iff]
  constructor
  · rintro ⟨r, hr, heq⟩
    cases r with
    | error e => simp at heq
    | ok q => rw [hr, Except.ok.inj heq]
  · exact fun h => ⟨_, h, rfl⟩

/-- **A project is started and played to a stop** as its scheduler is played. -/
theorem startAndPlay_eq_some_iff :
    (startAndPlay scripts project entry limits choices = some (.ok p) ∧ p.stop ≠ .pending) ↔
      ∃ id s, Scheduler.ofSources project.sources entry .default defaultSeed .none scripts =
          some (.ok (id, s)) ∧
        Plays limits.frameMs choices s p ∧ p.frames ≤ limits.maxFrames := by
  rw [startAndPlay]
  cases hs : Scheduler.ofSources project.sources entry .default defaultSeed .none scripts with
  | none => simp
  | some r =>
    cases r with
    | error e => simp
    | ok started =>
      obtain ⟨id, s⟩ := started
      simp only [playWith_eq_some_iff, play_eq_some_iff]
      constructor
      · exact fun h => ⟨id, s, rfl, h⟩
      · rintro ⟨id', s', heq, h⟩
        obtain ⟨-, rfl⟩ := Prod.mk.inj (Except.ok.inj (Option.some.inj heq))
        exact h

theorem resumeSources_eq_ok_iff {sources : Sources} {l : Library} {saved : Snapshot}
    {r : Scheduler} (hl : Library.ofSources sources scripts = .ok l) :
    Scheduler.resumeSources sources
        { Settings.default with compilerVersion := some Engine.defaultVersion } saved scripts =
          .ok r ↔
      Scheduler.restore (.ofLibrary l) saved = .ok r := by
  have hengine : Settings.engine { Settings.default with
      compilerVersion := some Engine.defaultVersion } l = .ofLibrary l := rfl
  simp only [Scheduler.resumeSources, hl, hengine]
  cases Scheduler.restore (.ofLibrary l) saved <;> simp

/-- **A saved state is gone on from and played to a stop** as the scheduler
that is rebuilt is played, and the choice is used up. -/
theorem resumeAndPlay_eq_some_iff {state : PlayerState} {l : Library} {index : Nat}
    (hl : Library.ofSources project.sources scripts = .ok l)
    (hversion : state.compilerVersion = Engine.defaultVersion) :
    (resumeAndPlay scripts project state limits (some index) = some (.ok p) ∧ p.stop ≠ .pending) ↔
      ∃ r, Scheduler.restore (.ofLibrary l) state.snapshot = .ok r ∧
        (Plays limits.frameMs [index] r p ∧ p.frames ≤ limits.maxFrames) ∧ p.choices = [] := by
  rw [resumeAndPlay, hversion]
  simp only [← resumeSources_eq_ok_iff hl]
  cases hr : Scheduler.resumeSources project.sources { Settings.default with
      compilerVersion := some Engine.defaultVersion } state.snapshot scripts with
  | error e => simp
  | ok r =>
    simp only [Except.ok.injEq, exists_eq_left', ← play_eq_some_iff, ← playWith_eq_some_iff]
    cases hq : playWith r limits (some index).toList with
    | none => simp [show playWith r limits [index] = none from hq]
    | some o =>
      have hplay : playWith r limits [index] = some o := hq
      cases o with
      | error e => simp [hplay]
      | ok q =>
        simp only [hplay, Option.some.injEq, Except.ok.injEq]
        -- a choice that is left is an error
        constructor
        · rintro ⟨h, hstop⟩
          by_cases hempty : q.choices.isEmpty = true
          · rw [if_pos hempty] at h
            obtain rfl := Except.ok.inj h
            exact ⟨⟨rfl, hstop⟩, List.isEmpty_iff.1 hempty⟩
          · simp [hempty] at h
        · rintro ⟨⟨rfl, hstop⟩, hempty⟩
          rw [if_pos (List.isEmpty_iff.2 hempty)]
          exact ⟨rfl, hstop⟩

/-- What is saved after a play is a snapshot of its scheduler, the frames added
up. -/
theorem stateAfter_eq {id version : String} {frames : Nat} {state : PlayerState}
    (h : stateAfter id version frames p = .ok state) :
    p.scheduler.snapshot = .ok state.snapshot ∧ state.compilerVersion = version ∧
      state.frame = frames + p.frames := by
  rw [stateAfter] at h
  cases hs : p.scheduler.snapshot with
  | error e => simp [hs] at h
  | ok snapshot =>
    simp only [hs] at h
    obtain rfl := Except.ok.inj h
    exact ⟨rfl, rfl, rfl⟩

/-! ## What is answered -/

section

variable {σ : Type} {d : Disk (StateM σ)} {w w₁ w₂ w₃ : σ} {path stateIn stateOut : String}
  {state next : PlayerState}

theorem StateM.bind_apply {α β : Type} (act : StateM σ α) (f : α → StateM σ β) (w : σ) :
    (act >>= f) w = f (act w).1 (act w).2 := rfl

theorem StateM.pure_apply {α : Type} (a : α) (w : σ) : (pure a : StateM σ α) w = (a, w) := rfl

theorem saveAndAnswer_eq {id version : String} {frames : Nat}
    (hsaved : stateAfter id version frames p = .ok next)
    (hsave : next.save d stateOut w = (.ok (), w₁)) :
    saveAndAnswer d stateOut id version frames p w = (.played p (some stateOut), w₁) := by
  simp only [saveAndAnswer, hsaved, StateM.bind_apply, hsave]
  rfl

/-- A run answers with its play. -/
theorem execute_run (hfiles : SourceProject.ofDirectory d path w = (.ok project, w₁))
    (hplay : startAndPlay scripts project entry limits choices = some (.ok p)) :
    execute scripts d (.run path entry limits choices) w = (some (.played p none), w₁) := by
  simp only [execute, StateM.bind_apply, hfiles, hplay]
  rfl

/-- A start answers with its play, when the state after it is saved. -/
theorem execute_start (hfiles : SourceProject.ofDirectory d path w = (.ok project, w₁))
    (hplay : startAndPlay scripts project entry limits [] = some (.ok p))
    (hsaved : stateAfter project.id Engine.defaultVersion 0 p = .ok next)
    (hsave : next.save d stateOut w₁ = (.ok (), w₂)) :
    execute scripts d (.start path entry limits stateOut) w =
      (some (.played p (some stateOut)), w₂) := by
  simp only [execute, StateM.bind_apply, hfiles, hplay]
  exact congrArg (fun x => (some x.1, x.2)) (saveAndAnswer_eq hsaved hsave)

/-- A resumption answers with its play, when the state after it is saved. -/
theorem execute_resume {choice : Option Nat}
    (hreads : PlayerState.load d stateIn w = (.ok state, w₁))
    (hfiles : SourceProject.ofId d state.projectId w₁ = (.ok project, w₂))
    (hplay : resumeAndPlay scripts project state limits choice = some (.ok p))
    (hsaved : stateAfter state.projectId state.compilerVersion state.frame p = .ok next)
    (hsave : next.save d stateOut w₂ = (.ok (), w₃)) :
    execute scripts d (.resume stateIn choice limits stateOut) w =
      (some (.played p (some stateOut)), w₃) := by
  simp only [execute, StateM.bind_apply, hreads, hfiles, hplay]
  exact congrArg (fun x => (some x.1, x.2)) (saveAndAnswer_eq hsaved hsave)

end

end Player

end Cutscene
