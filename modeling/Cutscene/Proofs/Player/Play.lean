import Cutscene.Player.Play
import Cutscene.Proofs.Scheduler.Conserve
import Cutscene.Proofs.Scheduler.Transparent
/-!
# Player — plays without a limit

`Scheduler.Plays` says how a scheduler is played with choices to a stop, as if
there were frames enough. The player does just that as long as the frames do
not run out (`Scheduler.play_eq_some_iff`), so a play does not depend on its
limit. Where a play stopped and no choice is left it can be gone on with
(`Scheduler.Plays.append`), and mirrored schedulers are played alike
(`Scheduler.Plays.mirrors`).
-/

namespace Cutscene

/-- The play after frames that went before it. -/
def Played.after (n : Nat) (p : Played) : Played := { p with frames := n + p.frames }

namespace Played

variable {n k : Nat} {p : Played}

@[simp] theorem stop_after : (p.after n).stop = p.stop := rfl

@[simp] theorem frames_after : (p.after n).frames = n + p.frames := rfl

@[simp] theorem choices_after : (p.after n).choices = p.choices := rfl

@[simp] theorem scheduler_after : (p.after n).scheduler = p.scheduler := rfl

@[simp] theorem calls_after : (p.after n).calls = p.calls := rfl

@[simp] theorem after_zero : p.after 0 = p := by rw [after, Nat.zero_add]

@[simp] theorem after_after : (p.after n).after k = p.after (k + n) := by
  simp only [after, Nat.add_assoc]

end Played

namespace Scheduler

/-- How a scheduler is played with choices, a frame or a choice at a time, if
there are frames enough. -/
inductive Plays (frameMs : Float) : List Nat → Scheduler → Played → Prop
  | choices {s : Scheduler} {id : EventId} {options : List String}
      (hpending : s.pendingChoice? = some (id, options)) :
      Plays frameMs [] s ⟨.choices id options, 0, [], s⟩
  | ended {s : Scheduler} {choices : List Nat} (hpending : s.pendingChoice? = none)
      (hcontexts : s.contexts = []) : Plays frameMs choices s ⟨.ended, 0, choices, s⟩
  | choose {s s' : Scheduler} {id : EventId} {options : List String} {index : Nat}
      {choices : List Nat} {p : Played} (hpending : s.pendingChoice? = some (id, options))
      (hrun : s.choose id index = some (.ok (), s')) (h : Plays frameMs choices s' p) :
      Plays frameMs (index :: choices) s p
  | frame {s s' : Scheduler} {choices : List Nat} {p : Played}
      (hpending : s.pendingChoice? = none) (hcontexts : s.contexts ≠ [])
      (hrun : s.nextFrame frameMs = some s') (h : Plays frameMs choices s' p) :
      Plays frameMs choices s (p.after 1)

variable {frameMs : Float} {limits : FrameLimits} {choices more : List Nat} {frames : Nat}
  {s s' : Scheduler} {p q : Played}

/-! ## Limits -/

/-- What the player plays to a stop is played without a limit. -/
theorem plays_of_playFrom (h : playFrom limits choices frames s = some (.ok p))
    (hstop : p.stop ≠ .pending) :
    ∃ q, Plays limits.frameMs choices s q ∧ p = q.after frames ∧
      p.frames ≤ max frames limits.maxFrames := by
  -- along the rounds of the player
  fun_induction playFrom limits choices frames s with
  | case1 frames s id options hpending =>
    obtain rfl := Except.ok.inj (Option.some.inj h)
    exact ⟨_, .choices hpending, rfl, le_max_left _ _⟩
  | case2 | case3 => simp at h
  | case4 frames s id options hpending index rest u s' hrun ih =>
    obtain ⟨q, hq, hp, hle⟩ := ih h
    exact ⟨q, .choose hpending hrun hq, hp, hle⟩
  | case5 choices frames s hpending hcontexts =>
    obtain rfl := Except.ok.inj (Option.some.inj h)
    exact ⟨_, .ended hpending (List.isEmpty_iff.1 hcontexts), rfl, le_max_left _ _⟩
  | case6 choices frames s hpending hcontexts hlimit =>
    obtain rfl := Except.ok.inj (Option.some.inj h)
    exact absurd rfl hstop
  | case7 => simp at h
  | case8 choices frames s hpending hcontexts hlimit s' hrun ih =>
    obtain ⟨q, hq, rfl, hle⟩ := ih h
    have hcontexts' : s.contexts ≠ [] := fun heq => hcontexts (by rw [heq]; rfl)
    refine ⟨q.after 1, .frame hpending hcontexts' hrun hq, by rw [Played.after_after], ?_⟩
    omega

theorem Plays.playFrom (h : Plays limits.frameMs choices s p)
    (hle : frames + p.frames ≤ limits.maxFrames) :
    playFrom limits choices frames s = some (.ok (p.after frames)) := by
  induction h generalizing frames with
  | choices hpending => rw [Scheduler.playFrom, hpending]; rfl
  | ended hpending hcontexts => rw [Scheduler.playFrom, hpending]; simp [hcontexts, Played.after]
  | choose hpending hrun _ ih =>
    rw [Scheduler.playFrom, hpending]
    simp only [hrun]
    exact ih hle
  | @frame s s' choices p hpending hcontexts hrun _ ih =>
    rw [Played.frames_after] at hle
    rw [Scheduler.playFrom, hpending]
    have hlimit : ¬ limits.maxFrames ≤ frames := by omega
    simp only [List.isEmpty_iff, hcontexts, if_false, hrun, dif_neg hlimit]
    rw [ih (by omega), Played.after_after]

/-- **A play does not depend on its limit**: the player plays to a stop just as
one does with frames enough, unless they run out. -/
theorem play_eq_some_iff :
    (s.play limits choices = some (.ok p) ∧ p.stop ≠ .pending) ↔
      Plays limits.frameMs choices s p ∧ p.frames ≤ limits.maxFrames := by
  constructor
  · rintro ⟨h, hstop⟩
    obtain ⟨q, hq, rfl, hle⟩ := plays_of_playFrom h hstop
    rw [Played.after_zero] at hle ⊢
    exact ⟨hq, by simpa using hle⟩
  · rintro ⟨h, hle⟩
    have hle' : 0 + p.frames ≤ limits.maxFrames := by rwa [Nat.zero_add]
    have hrun := h.playFrom hle'
    rw [Played.after_zero] at hrun
    refine ⟨hrun, ?_⟩
    clear hrun hle hle'
    induction h with
    | choices | ended => simp
    | choose _ _ _ ih | frame _ _ _ _ ih => exact ih

/-- There is one way to play with given choices. -/
theorem Plays.unique (hp : Plays frameMs choices s p) (hq : Plays frameMs choices s q) : p = q := by
  -- the player plays both, if it has as many frames as either takes
  let limits : FrameLimits := ⟨frameMs, max p.frames q.frames⟩
  have hplay : s.play limits choices = some (.ok p) :=
    (play_eq_some_iff.2 ⟨hp, le_max_left _ _⟩).1
  have hplay' : s.play limits choices = some (.ok q) :=
    (play_eq_some_iff.2 ⟨hq, le_max_right _ _⟩).1
  rw [hplay] at hplay'
  exact Except.ok.inj (Option.some.inj hplay')

/-! ## Going on -/

/-- The choices that are left are the last ones. -/
theorem Plays.choices_suffix (h : Plays frameMs choices s p) : p.choices <:+ choices := by
  induction h with
  | choices | ended => exact List.suffix_refl _
  | choose _ _ _ ih => exact ih.trans (List.suffix_cons _ _)
  | frame _ _ _ _ ih => exact ih

/-- **A play that used up its choices can be gone on with.** -/
theorem Plays.append (h : Plays frameMs choices s p) (hchoices : p.choices = [])
    (hmore : Plays frameMs more p.scheduler q) :
    Plays frameMs (choices ++ more) s (q.after p.frames) := by
  induction h with
  | choices hpending => simpa using hmore
  | @ended s choices hpending hcontexts =>
    obtain rfl : choices = [] := hchoices
    simpa using hmore
  | choose hpending hrun _ ih => exact .choose hpending hrun (ih hchoices hmore)
  | frame hpending hcontexts hrun _ ih =>
    rw [Played.frames_after, ← Played.after_after]
    exact .frame hpending hcontexts hrun (ih hchoices hmore)

/-! ## Mirrors -/

variable {e : Engine} {base base' : List HostCall}

theorem Mirrors.pendingChoice? (h : s.Mirrors e base base' s') :
    s'.pendingChoice? = s.pendingChoice? := by
  rw [Scheduler.pendingChoice?, Scheduler.pendingChoice?, h.contexts]

/-- In a mirror the calls made since come after those made before. -/
theorem Mirrors.calls_eq (h : p.scheduler.Mirrors e [] base s) :
    ({ p with scheduler := s } : Played).calls = base.reverse ++ p.calls := by
  obtain ⟨calls, hcalls, hcalls'⟩ := h.world.calls
  rw [Played.calls, Played.calls, hcalls, hcalls', List.append_nil, List.reverse_append]

theorem Mirrors.pausedOn (h : s.Mirrors e base base' s') (test : Boundary → Bool) :
    s'.pausedOn test = s.pausedOn test := by
  rw [Scheduler.pausedOn, Scheduler.pausedOn, h.contexts]

end Scheduler

namespace Engine.IsStill

open Scheduler

variable {e : Engine} {base base' : List HostCall} {s s' x : Scheduler} {frameMs : Float}

theorem resumeAll (he : e.IsStill) {ids : List EventId} (h : s.Mirrors e base base' s')
    (hrun : Scheduler.resumeAll ids s = some x) :
    ∃ x', Scheduler.resumeAll ids s' = some x' ∧ x.Mirrors e base base' x' := by
  induction ids generalizing s s' with
  | nil =>
    obtain rfl := Option.some.inj hrun
    exact ⟨s', rfl, h⟩
  | cons id ids ih =>
    rw [Scheduler.resumeAll] at hrun ⊢
    cases hs : s.resume id with
    | none => simp [hs] at hrun
    | some y =>
      obtain ⟨x₁, hs', hx⟩ := he.resume h hs
      simp only [hs] at hrun
      rw [hs']
      exact ih hx hrun

theorem nextFrame (he : e.IsStill) (h : s.Mirrors e base base' s')
    (hrun : s.nextFrame frameMs = some x) :
    ∃ x', s'.nextFrame frameMs = some x' ∧ x.Mirrors e base base' x' := by
  rw [Scheduler.nextFrame] at hrun ⊢
  rw [h.pausedOn]
  cases hs : Scheduler.resumeAll (s.pausedOn Boundary.isText) s with
  | none => simp [hs] at hrun
  | some s₁ =>
    obtain ⟨s₁', hs', h₁⟩ := he.resumeAll h hs
    simp only [hs] at hrun
    rw [hs']
    exact he.update h₁ hrun

/-- **Schedulers that mirror each other are played alike**, and the same calls
are made to the host. -/
theorem plays (he : e.IsStill) (h : s.Mirrors e base base' s') {choices : List Nat} {p : Played}
    (hplays : Plays frameMs choices s p) :
    ∃ x, Plays frameMs choices s' { p with scheduler := x } ∧
      p.scheduler.Mirrors e base base' x := by
  induction hplays generalizing s' with
  | choices hpending => exact ⟨s', .choices (h.pendingChoice?.trans hpending), h⟩
  | ended hpending hcontexts =>
    exact ⟨s', .ended (h.pendingChoice?.trans hpending) (h.contexts.trans hcontexts), h⟩
  | choose hpending hrun _ ih =>
    obtain ⟨s₁', hrun', h₁⟩ := he.choose h hrun
    obtain ⟨x, hx, hmirrors⟩ := ih h₁
    exact ⟨x, .choose (h.pendingChoice?.trans hpending) hrun' hx, hmirrors⟩
  | frame hpending hcontexts hrun _ ih =>
    obtain ⟨s₁', hrun', h₁⟩ := he.nextFrame h hrun
    obtain ⟨x, hx, hmirrors⟩ := ih h₁
    exact ⟨x, .frame (h.pendingChoice?.trans hpending) (h.contexts ▸ hcontexts) hrun' hx, hmirrors⟩

end Engine.IsStill

namespace Scheduler

variable {e : Engine} {s s' : Scheduler} {frameMs : Float} {choices : List Nat} {p : Played}

/-! ## Between pieces -/

/-- The scheduler is reached without creating objects, and nothing is queued. -/
structure Settled (e : Engine) (s : Scheduler) : Prop where
  reachable : s.ReachableBare e
  resumes : s.world.resumes = []
  destroyed : s.world.destroyed = []

/-- An operation that reconciles settles the scheduler. -/
theorem ReachableBare.settled {op : Operation} {r : Reply} (h : s.ReachableBare e)
    (hcreate : op.isCreate = false) (hreconciles : op.reconciles r)
    (hop : op.run s = some (r, s')) : s'.Settled e := by
  rcases Operation.run_course hop with ⟨-, s₁, -, hrun⟩ | ⟨hrefused, -⟩
  · obtain ⟨-, hresumes, hdestroyed⟩ := unqueued_of_reconcile hrun
    exact ⟨h.run hcreate hop, hresumes, hdestroyed⟩
  · rw [hrefused] at hreconciles
    exact absurd hreconciles (by decide)

theorem ReachableBare.resumeAll {ids : List EventId} (h : s.ReachableBare e)
    (hrun : Scheduler.resumeAll ids s = some s') : s'.ReachableBare e := by
  induction ids generalizing s with
  | nil =>
    obtain rfl := Option.some.inj hrun
    exact h
  | cons id ids ih =>
    rw [Scheduler.resumeAll] at hrun
    cases hs : s.resume id with
    | none => simp [hs] at hrun
    | some y =>
      simp only [hs] at hrun
      have hop : (Operation.resume id).run s = some (.flag y.1, y.2) := by
        rw [Operation.run, hs, Option.map_some]
      exact ih (h.run rfl hop) hrun

theorem ReachableBare.nextFrame (h : s.ReachableBare e) (hrun : s.nextFrame frameMs = some s') :
    s'.Settled e := by
  rw [Scheduler.nextFrame] at hrun
  cases hs : Scheduler.resumeAll (s.pausedOn Boundary.isText) s with
  | none => simp [hs] at hrun
  | some s₁ =>
    simp only [hs] at hrun
    have hop : (Operation.update frameMs).run s₁ = some (.done, s') := by
      rw [Operation.run, hrun, Option.map_some]
    exact (h.resumeAll hs).settled rfl rfl hop

/-- **A play leaves the scheduler settled.** -/
theorem Plays.settled (h : Plays frameMs choices s p) (hs : s.Settled e) :
    p.scheduler.Settled e := by
  induction h with
  | choices | ended => exact hs
  | @choose s s' id options index choices p hpending hrun _ ih =>
    have hop : (Operation.choose id index).run s = some (.chosen (.ok ()), s') := by
      rw [Operation.run, hrun, Option.map_some]
    exact ih (hs.reachable.settled rfl rfl hop)
  | frame hpending hcontexts hrun _ ih => exact ih (hs.reachable.nextFrame hrun)

end Scheduler

end Cutscene
