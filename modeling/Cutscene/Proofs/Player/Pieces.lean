import Cutscene.Proofs.Player.Sources
import Cutscene.Proofs.Run.Spend
/-!
# Player — playing in pieces

An agent starts a project, saves where the play stopped, and goes on from what
was saved with one choice at a time (`Player.Session`). What a saved state is
rebuilt to mirrors the scheduler of one play with all the choices, so the
pieces together are that play (`Player.Session.straight`): they make the same
calls to the host, stop for the same reason and take the same frames.

As in `Scheduler.ReachableBare.transparent` the number of the next context is
the exception: one that has come round to zero is raised to one when the agent
goes on.
-/

namespace Cutscene

namespace Player

open Scheduler

variable {scripts : Script.Language} {project : SourceProject} {entry : Option String}
  {choices : List Nat} {p : Played}

/-! ## Sessions -/

/-- A piece of a play: how it went, and the state saved after it. -/
structure Piece where
  played : Played
  saved : PlayerState

/-- How an agent plays a project in pieces, none of which fails or stops for
want of frames: it starts the project and then goes on from the state saved
last with one choice at a time. -/
inductive Session (scripts : Script.Language) (project : SourceProject) (entry : Option String)
    (frameMs : Float) : List Nat → List Piece → Piece → Prop
  | start {maxFrames : Nat} {x : Piece}
      (hplay : startAndPlay scripts project entry ⟨frameMs, maxFrames⟩ [] = some (.ok x.played))
      (hstop : x.played.stop ≠ .pending)
      (hsaved : stateAfter project.id Engine.defaultVersion 0 x.played = .ok x.saved) :
      Session scripts project entry frameMs [] [] x
  | resume {maxFrames index : Nat} {choices : List Nat} {before : List Piece} {last x : Piece}
      (h : Session scripts project entry frameMs choices before last)
      (hplay : resumeAndPlay scripts project last.saved ⟨frameMs, maxFrames⟩ (some index) =
        some (.ok x.played))
      (hstop : x.played.stop ≠ .pending)
      (hsaved : stateAfter last.saved.projectId last.saved.compilerVersion last.saved.frame
        x.played = .ok x.saved) :
      Session scripts project entry frameMs (choices ++ [index]) (before ++ [last]) x

variable {frameMs : Float} {before : List Piece} {last : Piece}

/-- **What an agent is answered**: wherever the files are there, the state to go
on from can be read and the one after it can be written, the last command of a
session answers with its piece. -/
theorem Session.answers (h : Session scripts project entry frameMs choices before last) :
    ∃ maxFrames, ∀ {σ : Type} (d : Disk (StateM σ)) (w₁ w₂ : σ) (stateOut : String),
      last.saved.save d stateOut w₁ = (.ok (), w₂) →
      match before.getLast? with
      | none => ∀ path w, SourceProject.ofDirectory d path w = (.ok project, w₁) →
          execute scripts d (.start path entry ⟨frameMs, maxFrames⟩ stateOut) w =
            (some (.played last.played (some stateOut)), w₂)
      | some x => ∀ stateIn w₀ w, PlayerState.load d stateIn w₀ = (.ok x.saved, w) →
          SourceProject.ofId d x.saved.projectId w = (.ok project, w₁) →
          execute scripts d (.resume stateIn choices.getLast? ⟨frameMs, maxFrames⟩ stateOut) w₀ =
            (some (.played last.played (some stateOut)), w₂) := by
  cases h with
  | @start maxFrames _ hplay hstop hsaved =>
    exact ⟨maxFrames, fun d w₁ w₂ stateOut hsave path w hfiles =>
      execute_start hfiles hplay hsaved hsave⟩
  | @resume maxFrames index choices before x _ h hplay hstop hsaved =>
    refine ⟨maxFrames, fun d w₁ w₂ stateOut hsave => ?_⟩
    rw [List.getLast?_concat, List.getLast?_concat]
    exact fun stateIn w₀ w hreads hfiles => execute_resume hreads hfiles hplay hsaved hsave

/-! ## Sessions of choices -/

/-- The piece that takes no frame and stops at a choice. -/
def Piece.offered (projectId : String) (s : Scheduler) (id : EventId) (options : List String)
    (saved : Snapshot) : Piece :=
  ⟨⟨.choices id options, 0, [], s⟩,
    ⟨PlayerState.schema, projectId, Engine.defaultVersion, 0, saved⟩⟩

section

variable {l : Library} {name : String} {r s : Scheduler} {id id' : EventId}
  {options options' : List String} {saved saved' : Snapshot} {index : Nat}

theorem plays_of_start (frameMs : Float) (hl : Library.ofSources project.sources scripts = .ok l)
    (hentry : l.entry entry = .ok name)
    (hstart : (Scheduler.fresh (.ofLibrary l) defaultSeed).start name .none = some (.ok id, s))
    (hplays : Plays frameMs choices s p) (hframes : p.frames = 0) :
    startAndPlay scripts project entry ⟨frameMs, 0⟩ choices = some (.ok p) ∧ p.stop ≠ .pending :=
  startAndPlay_eq_some_iff.2 ⟨id, s, ofSources_eq_some_iff.2 ⟨l, name, hl, hentry, hstart⟩, hplays,
    hframes.le⟩

/-- An agent starts a project that offers a choice at once. -/
theorem Session.of_start (frameMs : Float) (hl : Library.ofSources project.sources scripts = .ok l)
    (hentry : l.entry entry = .ok name)
    (hstart : (Scheduler.fresh (.ofLibrary l) defaultSeed).start name .none = some (.ok id, s))
    (hpending : s.pendingChoice? = some (id', options)) (hsaved : s.snapshot = .ok saved) :
    Session scripts project entry frameMs [] [] (.offered project.id s id' options saved) := by
  have hplay := plays_of_start frameMs hl hentry hstart (.choices hpending) rfl
  refine .start hplay.1 hplay.2 ?_
  rw [stateAfter, Piece.offered, hsaved]
  rfl

/-- An agent makes a choice after which there is another one at once. -/
theorem Session.of_choose {projectId : String}
    (hl : Library.ofSources project.sources scripts = .ok l)
    (h : Session scripts project entry frameMs choices before
      (.offered projectId s id options saved))
    (hr : Scheduler.restore (.ofLibrary l) saved = .ok r)
    (hpending : r.pendingChoice? = some (id, options))
    {s' : Scheduler} (hrun : r.choose id index = some (.ok (), s'))
    (hpending' : s'.pendingChoice? = some (id', options')) (hsaved : s'.snapshot = .ok saved') :
    Session scripts project entry frameMs (choices ++ [index])
      (before ++ [.offered projectId s id options saved])
      (.offered projectId s' id' options' saved') := by
  have hplay : resumeAndPlay scripts project (Piece.offered projectId s id options saved).saved
      ⟨frameMs, 0⟩ (some index) = some (.ok ⟨.choices id' options', 0, [], s'⟩) ∧
        Stop.choices id' options' ≠ .pending :=
    (resumeAndPlay_eq_some_iff hl rfl).2
      ⟨r, hr, ⟨.choose hpending hrun (.choices hpending'), le_rfl⟩, rfl⟩
  refine .resume h hplay.1 hplay.2 ?_
  rw [stateAfter, Piece.offered, hsaved]
  rfl

end

/-! ## The pieces and the whole -/

/-- **One play with all the choices goes as the pieces do**: it stops where the
last piece stops, with the same calls and frames, and what was saved last is a
snapshot of its scheduler. -/
theorem Session.exists_whole (h : Session scripts project entry frameMs choices before last)
    (hstill : ∀ l, Library.ofSources project.sources scripts = .ok l → l.IsStill)
    (hnext : ∀ x ∈ before, x.saved.snapshot.nextEventId ≠ 0) :
    ∃ id s whole, Scheduler.ofSources project.sources entry .default defaultSeed .none scripts =
        some (.ok (id, s)) ∧
      Plays frameMs choices s whole ∧ whole.choices = [] ∧
      whole.calls = (before ++ [last]).flatMap (·.played.calls) ∧
      whole.stop = last.played.stop ∧ whole.frames = last.saved.frame ∧
      whole.scheduler.snapshot = .ok last.saved.snapshot ∧
      last.saved.compilerVersion = Engine.defaultVersion := by
  induction h with
  | @start maxFrames x hplay hstop hsaved =>
    obtain ⟨id, s, hs, hplays, -⟩ := startAndPlay_eq_some_iff.1 ⟨hplay, hstop⟩
    obtain ⟨hsnapshot, hversion, hframe⟩ := stateAfter_eq hsaved
    have hchoices : x.played.choices = [] := List.suffix_nil.1 hplays.choices_suffix
    exact ⟨id, s, x.played, hs, hplays, hchoices, by simp, rfl, by rw [hframe, Nat.zero_add],
      hsnapshot, hversion⟩
  | @resume maxFrames index choices before last x h hplay hstop hsaved ih =>
    obtain ⟨id, s, whole, hs, hplays, hchoices, hcalls, -, hframes, hsnapshot, hversion⟩ :=
      ih fun y hy => hnext y (List.mem_append_left _ hy)
    obtain ⟨l, hl, hstarted⟩ := exists_settled hs
    have hsettled := hplays.settled hstarted
    have hlawful := Library.lawful_ofSources hl
    have he : Engine.Serves (.ofLibrary l) l := .ofLibrary l
    have hquiet := he.isStill (hstill l hl) (Engine.readsVariables_ofLibrary l)
    obtain ⟨hsnapshot', hversion', hframe⟩ := stateAfter_eq hsaved
    obtain ⟨r, hr, ⟨hmore, -⟩, hused⟩ :=
      (resumeAndPlay_eq_some_iff hl hversion).1 ⟨hplay, hstop⟩
    -- what is rebuilt mirrors the scheduler of the play so far
    have hplaces := (Engine.keepsControl_ofLibrary l).keepsPlaces l
    obtain ⟨-, hplaced, -⟩ := (he.maintains_placed hlawful hplaces).reachable
      (he.starts_placed hlawful) (he.loads hlawful fun _ hc => hc) hsettled.reachable.reachable
    have hkept : whole.scheduler.world.nextEventId ≠ 0 := by
      obtain ⟨contexts, -, heq⟩ := snapshot_eq hsnapshot
      have hsaved := hnext last (List.mem_append_right _ (List.mem_singleton_self _))
      rwa [heq] at hsaved
    obtain ⟨saved, r', hsaved', hr', hmirrors⟩ :=
      (hsettled.reachable.bare hquiet).restore he hlawful hplaced hsettled.resumes
        hsettled.destroyed hkept
    rw [hsnapshot] at hsaved'
    obtain rfl := Except.ok.inj hsaved'
    rw [hr] at hr'
    obtain rfl := Except.ok.inj hr'
    -- and so the piece is played on from there as well
    obtain ⟨y, hy, hboth⟩ := hquiet.plays hmirrors.symm hmore
    refine ⟨id, s, _, hs, hplays.append hchoices hy, hused, ?_, rfl, ?_,
      hboth.snapshot.trans hsnapshot', hversion'.trans hversion⟩
    · rw [Played.calls_after, hboth.calls_eq, List.flatMap_append, ← hcalls, List.flatMap_singleton]
      rfl
    · rw [Played.frames_after, hframes, hframe]

/-- **Playing in pieces is playing straight through.** Let no step of the
project look at the clock or create an object. When an agent plays it in
pieces, and no state that it goes on from has a next number of zero, then there
is one play that makes the calls of the pieces one after the other, stops as
the last piece does, and takes as many frames as are saved last. Wherever the
files are those of the project, a run with all the choices answers with that
play if its frames do not run out; and if they do it does not come to a stop. -/
theorem Session.straight (h : Session scripts project entry frameMs choices before last)
    (hstill : ∀ l, Library.ofSources project.sources scripts = .ok l → l.IsStill)
    (hnext : ∀ x ∈ before, x.saved.snapshot.nextEventId ≠ 0) :
    ∃ whole : Played, whole.calls = (before ++ [last]).flatMap (·.played.calls) ∧
      whole.stop = last.played.stop ∧ whole.frames = last.saved.frame ∧
      ∀ {σ : Type} (d : Disk (StateM σ)) (w : σ) (path : String) (maxFrames : Nat),
        (SourceProject.ofDirectory d path w).1 = .ok project →
        (last.saved.frame ≤ maxFrames →
          (execute scripts d (.run path entry ⟨frameMs, maxFrames⟩ choices) w).1 =
            some (.played whole none)) ∧
        ∀ p, startAndPlay scripts project entry ⟨frameMs, maxFrames⟩ choices = some (.ok p) →
          p.stop ≠ .pending → p = whole ∧ last.saved.frame ≤ maxFrames := by
  obtain ⟨id, s, whole, hs, hplays, -, hcalls, hstop, hframes, -⟩ :=
    h.exists_whole hstill hnext
  refine ⟨whole, hcalls, hstop, hframes, fun d w path maxFrames hfiles => ⟨fun hle => ?_, ?_⟩⟩
  · have hplay : startAndPlay scripts project entry ⟨frameMs, maxFrames⟩ choices =
        some (.ok whole) :=
      (startAndPlay_eq_some_iff.2 ⟨id, s, hs, hplays, hframes ▸ hle⟩).1
    have hread : SourceProject.ofDirectory d path w =
        (.ok project, (SourceProject.ofDirectory d path w).2) := Prod.ext hfiles rfl
    rw [execute_run hread hplay]
  · intro p hplay hstop'
    obtain ⟨id', s', hs', hplays', hle⟩ := startAndPlay_eq_some_iff.1 ⟨hplay, hstop'⟩
    rw [hs] at hs'
    obtain ⟨-, rfl⟩ := Prod.mk.inj (Except.ok.inj (Option.some.inj hs'))
    obtain rfl := hplays'.unique hplays
    exact ⟨rfl, hframes ▸ hle⟩

/-- One choice after the other. -/
def offering : List EventDef :=
  [⟨"main", [.offer "a" [.offer "b" [.offer "c" []]]], .empty⟩]

/-- Two choices are made: three calls to the host, in three pieces. -/
theorem Session.straight_offering :
    ∃ before last, Session Script.basic (.ofEvents offering) none 16.0 [0, 0] before last ∧
      (∀ l, Library.ofSources (SourceProject.ofEvents offering).sources = .ok l →
        l.IsStill) ∧
      (∀ x ∈ before, x.saved.snapshot.nextEventId ≠ 0) ∧ before.length = 2 ∧
      ∃ whole : Played, whole.calls = (before ++ [last]).flatMap (·.played.calls) ∧
        whole.calls.length = 3 ∧ whole.stop = .choices ⟨1⟩ ["c"] ∧ whole.frames = 0 := by
  have hlegible : Json.legible Json.maxDepth (Json.ofList EventDef.encode offering) := by
    decide +kernel
  have hcheck : (Library.reread offering).any fun l =>
      !l.events.entries.isEmpty && decide l.IsStill && (l.entry none).toOption == some "main" &&
      ((Scheduler.fresh (.ofLibrary l) defaultSeed).start "main" .none).any fun x =>
        x.1.toOption.isSome && x.2.offers ⟨1⟩ "a" && x.2.world.trace.length == 1 &&
        x.2.rebuilds (.ofLibrary l) fun saved r =>
          saved.nextEventId != 0 && r.offers ⟨1⟩ "a" && r.chooses ⟨1⟩ fun s₁ =>
            s₁.offers ⟨1⟩ "b" && s₁.world.trace.length == 1 &&
            s₁.rebuilds (.ofLibrary l) fun saved₁ r₁ =>
              saved₁.nextEventId != 0 && r₁.offers ⟨1⟩ "b" && r₁.chooses ⟨1⟩ fun s₂ =>
                s₂.offers ⟨1⟩ "c" && s₂.world.trace.length == 1 &&
                s₂.rebuilds (.ofLibrary l) fun _ _ => true := by
    decide +kernel
  obtain ⟨l, hreread, h⟩ := (Option.any_eq_true _ _).1 hcheck
  simp only [Bool.and_eq_true, Bool.not_eq_true', decide_eq_true_eq, beq_iff_eq] at h
  obtain ⟨⟨⟨hne, hstill⟩, hentry⟩, h⟩ := h
  have hl := Library.ofSources_ofEvents hlegible hreread hne
  obtain ⟨⟨a, s⟩, hstart, h⟩ := (Option.any_eq_true _ _).1 h
  simp only [Bool.and_eq_true, beq_iff_eq] at h
  obtain ⟨⟨⟨ha, hoffers⟩, htrace⟩, h⟩ := h
  obtain ⟨id, hid⟩ := Option.isSome_iff_exists.1 ha
  obtain rfl := Except.eq_ok_of_toOption hid
  obtain ⟨saved, r, hsaved, hr, h⟩ := exists_of_rebuilds h
  simp only [Bool.and_eq_true, bne_iff_ne] at h
  obtain ⟨⟨hnext, hroffers⟩, h⟩ := h
  obtain ⟨s₁, hrun₁, h⟩ := exists_of_chooses h
  simp only [Bool.and_eq_true, beq_iff_eq] at h
  obtain ⟨⟨hoffers₁, htrace₁⟩, h⟩ := h
  obtain ⟨saved₁, r₁, hsaved₁, hr₁, h⟩ := exists_of_rebuilds h
  simp only [Bool.and_eq_true, bne_iff_ne] at h
  obtain ⟨⟨hnext₁, hroffers₁⟩, h⟩ := h
  obtain ⟨s₂, hrun₂, h⟩ := exists_of_chooses h
  simp only [Bool.and_eq_true, beq_iff_eq] at h
  obtain ⟨⟨hoffers₂, htrace₂⟩, h⟩ := h
  obtain ⟨saved₂, r₂, hsaved₂, -, -⟩ := exists_of_rebuilds h
  have hsession := Session.of_choose hl (Session.of_choose hl
    (Session.of_start 16.0 hl (Except.eq_ok_of_toOption hentry) hstart (beq_iff_eq.1 hoffers)
      hsaved)
    hr (beq_iff_eq.1 hroffers) hrun₁ (beq_iff_eq.1 hoffers₁) hsaved₁)
    hr₁ (beq_iff_eq.1 hroffers₁) hrun₂ (beq_iff_eq.1 hoffers₂) hsaved₂
  have hstills : ∀ l', Library.ofSources (SourceProject.ofEvents offering).sources =
      .ok l' → l'.IsStill := by
    intro l' hl'
    obtain rfl := Except.ok.inj (hl.symm.trans hl')
    exact hstill
  have hnexts : ∀ x ∈ ([] ++ [Piece.offered (SourceProject.ofEvents offering).id s ⟨1⟩
      ["a"] saved] ++ [.offered (SourceProject.ofEvents offering).id s₁ ⟨1⟩ ["b"] saved₁] :
        List Piece), x.saved.snapshot.nextEventId ≠ 0 := by
    simp only [List.nil_append, List.cons_append, List.forall_mem_cons]
    exact ⟨hnext, hnext₁, List.forall_mem_nil _⟩
  obtain ⟨whole, hcalls, hstop, hframes, -⟩ := hsession.straight hstills hnexts
  refine ⟨_, _, hsession, hstills, hnexts, rfl, whole, hcalls, ?_, hstop, hframes⟩
  rw [hcalls]
  simp [Piece.offered, Played.calls, htrace, htrace₁, htrace₂]

/-! ## A number that comes round -/

/-- An event that uses up the numbers before it offers a choice, after which
another event offers one. -/
def doubling : List EventDef :=
  ⟨"main", [.launch (toString 62), .launch (toString 62), .offer "on" [.launch "last"]], .empty⟩ ::
    ⟨"last", [.offer "on" []], .empty⟩ :: ⟨toString 0, [], .empty⟩ ::
    (List.range 62).map fun k =>
      ⟨toString (k + 1), [.launch (toString k), .launch (toString k)], .empty⟩

/-- The machine of the event after its first two steps, when they have used up
the numbers. -/
def spent (event : Compiled) : Machine :=
  ⟨((Context.start ⟨1⟩ "main" (.root "main") (Operation.startAmbient .none event)).goto
    ⟨.root "main", 1⟩).goto ⟨.root "main", 2⟩, { World.fresh defaultSeed with nextEventId := 0 }⟩

/-- The scheduler that comes of starting the event. -/
def launched (e : Engine) (event : Compiled) : Option Scheduler :=
  (Machine.steps e (Machine.advanceWithin e 999999) 9998 (spent event)).bind fun m =>
    ((Scheduler.fresh e defaultSeed).holding ([m.context], m.world)).reconcile

/-- Starting it takes more steps than there are numbers, so that what comes of
it is told by how many numbers are taken. -/
theorem start_eq_launched {l : Library} {event : Compiled}
    (hevent : (Engine.ofLibrary l).event? "main" = some event)
    (hfirst : (Engine.ofLibrary l).starts ⟨.root "main", 0⟩ (toString 62))
    (hsecond : (Engine.ofLibrary l).starts ⟨.root "main", 1⟩ (toString 62))
    (hlast : (Engine.ofLibrary l).leaves ⟨.root (toString 0), 0⟩)
    (hdoubles : ∀ k < 62, (Engine.ofLibrary l).doubles (toString (k + 1)) (toString k)) :
    (Scheduler.fresh (.ofLibrary l) defaultSeed).start "main" .none =
      (launched (.ofLibrary l) event).map fun s => (.ok ⟨1⟩, s) := by
  have hspends : Machine.Spends (Machine.advanceWithin (.ofLibrary l) 999999) (toString 62)
      (2 ^ 63 - 2) :=
    Machine.spends_chain (fun k => toString k) (show 3 ≤ Engine.defaultBudget by decide) hlast
      hdoubles 999937 le_rfl
  have hround : World.spend^[2 * (2 ^ 63 - 2 + 1)] (World.fresh defaultSeed).spend =
      { World.fresh defaultSeed with nextEventId := 0 } :=
    World.spend_iterate _ (by decide)
  have hadvance : Machine.advance (.ofLibrary l)
      ((Scheduler.fresh (.ofLibrary l) defaultSeed).starting "main" .none event) =
        Machine.steps (.ofLibrary l) (Machine.advanceWithin (.ofLibrary l) 999999) 9998
          (spent event) := by
    rw [spent, ← hround]
    exact Machine.steps_starts_starts
      (m := (Scheduler.fresh (.ofLibrary l) defaultSeed).starting "main" .none event)
      rfl hfirst hsecond hspends
  rw [start_eq _ hevent, show (Scheduler.fresh (.ofLibrary l) defaultSeed).engine = .ofLibrary l
    from rfl, hadvance, launched]
  cases Machine.steps (.ofLibrary l) (Machine.advanceWithin (.ofLibrary l) 999999) 9998
    (spent event) <;> rfl

/-- The second piece starts with a next number that was raised from zero, and
one play does not. -/
theorem Session.exists_not_straight :
    ∃ before last whole, Session Script.basic (.ofEvents doubling) none 16.0 [0] before last ∧
      (∀ l, Library.ofSources (SourceProject.ofEvents doubling).sources = .ok l → l.IsStill) ∧
      startAndPlay Script.basic (.ofEvents doubling) none ⟨16.0, 0⟩ [0] = some (.ok whole) ∧
      last.played.stop = .choices ⟨1⟩ ["on"] ∧ whole.stop = .choices ⟨0⟩ ["on"] := by
  have hlegible : Json.legible Json.maxDepth (Json.ofList EventDef.encode doubling) := by
    decide +kernel
  have hcheck : (Library.reread doubling).any fun l =>
      !l.events.entries.isEmpty && decide l.IsStill && (l.entry none).toOption == some "main" &&
      (Engine.ofLibrary l).starts ⟨.root "main", 0⟩ (toString 62) &&
      (Engine.ofLibrary l).starts ⟨.root "main", 1⟩ (toString 62) &&
      (Engine.ofLibrary l).leaves ⟨.root (toString 0), 0⟩ &&
      ((List.range 62).all fun k =>
        (Engine.ofLibrary l).doubles (toString (k + 1)) (toString k)) &&
      ((Engine.ofLibrary l).event? "main").any fun event =>
        (launched (.ofLibrary l) event).any fun s =>
          s.offers ⟨1⟩ "on" && s.chooses ⟨1⟩ (fun s' => s'.offers ⟨0⟩ "on") &&
          s.rebuilds (.ofLibrary l) fun _ r => r.offers ⟨1⟩ "on" && r.chooses ⟨1⟩ fun s' =>
            s'.offers ⟨1⟩ "on" && s'.rebuilds (.ofLibrary l) fun _ _ => true := by
    decide +kernel
  obtain ⟨l, hreread, h⟩ := (Option.any_eq_true _ _).1 hcheck
  simp only [Bool.and_eq_true, Bool.not_eq_true', decide_eq_true_eq, beq_iff_eq, List.all_eq_true,
    List.mem_range] at h
  obtain ⟨⟨⟨⟨⟨⟨⟨hne, hstill⟩, hentry⟩, hfirst⟩, hsecond⟩, hlast⟩, hdoubles⟩, h⟩ := h
  have hl := Library.ofSources_ofEvents hlegible hreread hne
  obtain ⟨event, hevent, h⟩ := (Option.any_eq_true _ _).1 h
  obtain ⟨s, hlaunched, h⟩ := (Option.any_eq_true _ _).1 h
  have hstart : (Scheduler.fresh (.ofLibrary l) defaultSeed).start "main" .none =
      some (.ok ⟨1⟩, s) := by
    rw [start_eq_launched hevent hfirst hsecond hlast hdoubles, hlaunched]
    rfl
  simp only [Bool.and_eq_true] at h
  obtain ⟨⟨hoffers, hchooses⟩, hrebuilds⟩ := h
  -- played straight through, what is started by the choice has number zero
  obtain ⟨s₁, hrun₁, hoffers₁⟩ := exists_of_chooses hchooses
  have hwhole := (plays_of_start 16.0 hl (Except.eq_ok_of_toOption hentry) hstart
    (.choose (beq_iff_eq.1 hoffers) hrun₁ (.choices (beq_iff_eq.1 hoffers₁))) rfl).1
  -- but in pieces it has number one
  obtain ⟨saved, r, hsaved, hr, h⟩ := exists_of_rebuilds hrebuilds
  obtain ⟨hroffers, h⟩ := Bool.and_eq_true_iff.1 h
  obtain ⟨s₂, hrun₂, h⟩ := exists_of_chooses h
  obtain ⟨hoffers₂, h⟩ := Bool.and_eq_true_iff.1 h
  obtain ⟨saved₂, r₂, hsaved₂, -, -⟩ := exists_of_rebuilds h
  have hsession := Session.of_choose hl
    (Session.of_start 16.0 hl (Except.eq_ok_of_toOption hentry) hstart (beq_iff_eq.1 hoffers)
      hsaved)
    hr (beq_iff_eq.1 hroffers) hrun₂ (beq_iff_eq.1 hoffers₂) hsaved₂
  refine ⟨_, _, _, hsession, fun l' hl' => ?_, hwhole, rfl, rfl⟩
  obtain rfl := Except.ok.inj (hl.symm.trans hl')
  exact hstill

end Player

end Cutscene
