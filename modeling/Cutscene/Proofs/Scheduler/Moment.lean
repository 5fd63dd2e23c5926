import Mathlib.Data.List.Chain
import Cutscene.Proofs.Scheduler.Prepare
/-!
# Scheduler — the moments of a run

A run goes through moments: those between two operations, and those at which a
context executes a step (`Operation.moments`). From one moment to the next,
objects and variables of instances are changed by the step of the context, or
by the host where no context runs, and by nothing else that a scheduler does
(`Moment.Next`, `Operation.isChain_moments`). So what a step and an edit of the
host keep is kept all along a run, with no more to be said of the scheduler.

Every function of the scheduler is told by the trail that it leaves in a world
(`World.Trail`): the machines at which a step is executed, and the world in the
end if there is a result. The trails of functions that follow one another are
put together (`World.Trail.append`).
-/

namespace Cutscene

/-- Objects and the variables of instances stay as they are. -/
structure World.Undisturbed (w w' : World) : Prop where
  objects : w'.objects = w.objects
  selfVars : w'.selfVars = w.selfVars

namespace World.Undisturbed

variable {w w' w'' : World}

theorem refl (w : World) : w.Undisturbed w := ⟨rfl, rfl⟩

theorem trans (h : w.Undisturbed w') (h' : w'.Undisturbed w'') : w.Undisturbed w'' :=
  ⟨h'.objects.trans h.objects, h'.selfVars.trans h.selfVars⟩

theorem bind (w : World) (step : Step) (place : Place) : w.Undisturbed (w.bind step place) := by
  unfold World.bind
  split <;> exact ⟨rfl, rfl⟩

theorem adopt (w : World) (c : Context) : w.Undisturbed (w.adopt c) := by
  unfold World.adopt
  split <;> exact ⟨rfl, rfl⟩

end World.Undisturbed

/-! ## Moments -/

/-- A moment of a run: the world, and the context that executes a step, if it
is not one between operations. -/
structure Moment where
  context : Option Context
  world : World

/-- The moment at which the machine executes a step. -/
def Machine.moment (m : Machine) : Moment := ⟨some m.context, m.world⟩

/-- What can become of the world after a moment, before the next step is
executed or the operation ends. -/
inductive Moment.Leads (e : Engine) : Moment → World → Prop
  | step {c : Context} {w w' : World} {step : Step} (hrunning : c.state.isRunning)
      (hstep : e.step? c.place = some step)
      (h : (step.run e (Machine.past ⟨c, w⟩ step)).2.world.Undisturbed w') : Leads e ⟨some c, w⟩ w'
  | rest {w w' : World} (h : w.Undisturbed w') : Leads e ⟨none, w⟩ w'
  | edit {w w' : World} (change : HostEdit) (h : (change.run w).2.Undisturbed w') :
    Leads e ⟨none, w⟩ w'

/-- From the first moment the second can come next. -/
def Moment.Next (e : Engine) (a b : Moment) : Prop := a.Leads e b.world

theorem Moment.Leads.after {e : Engine} {a : Moment} {w w' : World} (h : a.Leads e w)
    (hw : w.Undisturbed w') : a.Leads e w' := by
  cases h with
  | step hrunning hstep h => exact .step hrunning hstep (h.trans hw)
  | rest h => exact .rest (h.trans hw)
  | edit change h => exact .edit change (h.trans hw)

/-! ## Trails -/

namespace World

/-- From the world steps are executed at the machines, in order, and then the
result is left, if there is one. -/
inductive Trail (e : Engine) : World → List Machine → Option World → Prop
  | stuck (w : World) : Trail e w [] none
  | rest {w w' : World} (h : w.Undisturbed w') : Trail e w [] (some w')
  | step {w w' : World} {x : Machine} {xs : List Machine} {result : Option World}
      (h : w.Undisturbed x.world) (hx : x.moment.Leads e w') (htrail : Trail e w' xs result) :
    Trail e w (x :: xs) result

namespace Trail

variable {e : Engine} {w w' : World} {xs ys : List Machine} {result : Option World}

theorem before (h : w.Undisturbed w') (htrail : Trail e w' xs result) : Trail e w xs result := by
  cases htrail with
  | stuck => exact .stuck w
  | rest h' => exact .rest (h.trans h')
  | step h' hx htrail => exact .step (h.trans h') hx htrail

/-- **Trails that follow one another are one trail.** -/
theorem append (h : Trail e w xs (some w')) (h' : Trail e w' ys result) :
    Trail e w (xs ++ ys) result := by
  generalize hend : some w' = last at h
  induction h with
  | stuck => simp at hend
  | rest h =>
    obtain rfl := Option.some.inj hend
    exact h'.before h
  | step h hx _ ih => exact .step h hx (ih hend)

theorem append_nil (h : Trail e w xs none) : Trail e w (xs ++ []) none := by
  rwa [List.append_nil]

/-- What a result is made into leaves objects and variables of instances. -/
theorem map {α β : Type} {o : Option α} {world : α → World} {f : α → β} {world' : β → World}
    (h : Trail e w xs (o.map world)) (hf : ∀ a, (world a).Undisturbed (world' (f a))) :
    Trail e w xs ((o.map f).map world') := by
  cases o with
  | none => exact h
  | some a =>
    have hjoined : Trail e w (xs ++ []) (some (world' (f a))) := append h (.rest (hf a))
    rwa [List.append_nil] at hjoined

/-- **A trail is a chain of moments.** -/
theorem isChain (h : Trail e w xs result) {a : Moment} (ha : a.Leads e w) {rest : List Moment}
    (hrest : rest.IsChain (Moment.Next e))
    (hnext : ∀ b ∈ rest.head?, ∃ w', result = some w' ∧ w'.Undisturbed b.world) :
    (a :: (xs.map Machine.moment ++ rest)).IsChain (Moment.Next e) := by
  induction h generalizing a with
  | stuck w =>
    cases rest with
    | nil => exact List.isChain_singleton a
    | cons b rest =>
      obtain ⟨w', hnone, -⟩ := hnext b rfl
      simp at hnone
  | rest h =>
    cases rest with
    | nil => exact List.isChain_singleton a
    | cons b rest =>
      obtain ⟨w', hw', hb⟩ := hnext b rfl
      obtain rfl := Option.some.inj hw'
      exact List.isChain_cons_cons.2 ⟨ha.after (h.trans hb), hrest⟩
  | step h hx _ ih => exact List.isChain_cons_cons.2 ⟨ha.after h, ih hx hnext⟩

end Trail

end World

open World

/-! ## The trail of an advance -/

namespace Machine

variable {e : Engine}

theorem trail_steps {spawn : Machine → Option Machine} {inner : Machine → List Machine}
    (hinner : ∀ m, Trail e m.world (inner m) ((spawn m).map (·.world))) (budget : Nat)
    (m : Machine) :
    Trail e m.world (visitsWith e spawn inner budget m)
      ((steps e spawn budget m).map (·.world)) := by
  induction budget generalizing m with
  | zero => exact .rest (.refl _)
  | succ budget ih =>
    rw [visitsWith, steps]
    split
    · exact .rest (.refl _)
    rename_i hrunning
    cases hstep : e.step? m.context.place with
    | none => exact .rest (.refl _)
    | some step =>
      refine .step (.refl _) (.step (by simpa using hrunning) hstep (.refl _)) ?_
      show Trail e (step.run e (m.past step)).2.world _ _
      rcases hrun : step.run e (m.past step) with ⟨o, m₁⟩
      simp only [hrun]
      cases o with
      | flow flow =>
        have hsettle : (m₁.settle flow).world = m₁.world := by
          cases flow with
          | next => rfl
          | stop =>
            rw [settle]
            split <;> rfl
        exact hsettle ▸ ih (m₁.settle flow)
      | spawn child =>
        have hchild := hinner ⟨child, m₁.world⟩
        simp only
        cases hspawn : spawn ⟨child, m₁.world⟩ with
        | none =>
          rw [hspawn] at hchild
          exact hchild.append_nil
        | some done =>
          rw [hspawn] at hchild
          have hrest := ih ⟨m₁.context, done.world.adopt done.context⟩
          exact hchild.append (hrest.before (.adopt done.world done.context))

/-- **An advance leaves a trail of the steps that it executes.** -/
theorem trail_advance (e : Engine) (m : Machine) :
    Trail e m.world (m.visits e) ((m.advance e).map (·.world)) := by
  suffices h : ∀ depth m, Trail e m.world (visitsWithin e depth m)
      ((advanceWithin e depth m).map (·.world)) from h _ m
  intro depth
  induction depth with
  | zero => exact trail_steps (fun m => .stuck m.world) _
  | succ depth ih => exact trail_steps ih _

end Machine

/-! ## The trail of an operation -/

namespace Scheduler

variable {s s' : Scheduler}

theorem trail_advanceContext (s : Scheduler) (c : Context) :
    Trail s.engine s.world (Machine.visits s.engine ⟨c, s.world⟩)
      ((s.advanceContext c).map (·.world)) := by
  have hadvance := Machine.trail_advance s.engine ⟨c, s.world⟩
  unfold advanceContext
  split <;> rename_i hm <;> rw [hm] at hadvance <;> exact hadvance

theorem trail_meetRequest (s : Scheduler) (id : EventId) :
    Trail s.engine s.world (s.requestVisits id) ((s.meetRequest id).map (·.world)) := by
  unfold requestVisits meetRequest
  cases (s.context? id).bind Context.wake? with
  | none => exact .rest (.refl _)
  | some c => exact s.trail_advanceContext c

theorem trail_meetRequests (ids : List EventId) (s : Scheduler) :
    Trail s.engine s.world (requestsVisits ids s) ((meetRequests ids s).map (·.world)) := by
  induction ids generalizing s with
  | nil => exact .rest (.refl _)
  | cons id ids ih =>
    have hfirst := s.trail_meetRequest id
    rw [requestsVisits, meetRequests]
    cases hs₁ : s.meetRequest id with
    | none =>
      rw [hs₁] at hfirst
      exact hfirst.append_nil
    | some s₁ =>
      rw [hs₁] at hfirst
      exact hfirst.append (engine_meetRequest hs₁ ▸ ih s₁)

theorem undisturbed_drained (s : Scheduler) : s.world.Undisturbed s.drained.world := ⟨rfl, rfl⟩

theorem roundsVisits_succ (s : Scheduler) (rounds : Nat) :
    roundsVisits (rounds + 1) s =
      if s.world.resumes.reverse.isEmpty then []
      else
        requestsVisits s.world.resumes.reverse s.drained ++
          match meetRequests s.world.resumes.reverse s.drained with
          | none => []
          | some s => roundsVisits rounds s :=
  rfl

theorem trail_meetRounds (rounds : Nat) (s : Scheduler) :
    Trail s.engine s.world (roundsVisits rounds s) ((meetRounds rounds s).map (·.world)) := by
  induction rounds generalizing s with
  | zero => exact .rest (.refl _)
  | succ rounds ih =>
    rw [roundsVisits_succ, meetRounds_succ]
    split
    · exact .rest s.undisturbed_drained
    refine .before s.undisturbed_drained ?_
    have hfirst := trail_meetRequests s.world.resumes.reverse s.drained
    cases hs₁ : meetRequests s.world.resumes.reverse s.drained with
    | none =>
      rw [hs₁] at hfirst
      exact hfirst.append_nil
    | some s₁ =>
      rw [hs₁] at hfirst
      have hengine : s₁.engine = s.engine := engine_meetRequests (s := s.drained) hs₁
      exact hfirst.append (hengine ▸ ih s₁)

theorem trail_reconcile (s : Scheduler) :
    Trail s.engine s.world (roundsVisits maxRounds s) (s.reconcile.map (·.world)) := by
  have hrounds := trail_meetRounds maxRounds s
  have hmap : s.reconcile = (meetRounds maxRounds s).map fun s =>
      { s with world := { s.world with resumes := [] } }.takeSpawned.sweep := by
    unfold reconcile
    cases meetRounds maxRounds s <;> rfl
  rw [hmap]
  -- the sweep finishes and drops contexts only
  exact hrounds.map fun _ => ⟨rfl, rfl⟩

theorem trail_advanceAll (e : Engine) (deltaMs : Float) (cs : List Context) (w : World) :
    Trail e w (frameVisits e deltaMs cs w) ((advanceAll e deltaMs cs w).map (·.2)) := by
  induction cs generalizing w with
  | nil => exact .rest (.refl _)
  | cons c cs ih =>
    have hmap : ∀ {w : World} (c : Context), Trail e w (frameVisits e deltaMs cs w)
        (((advanceAll e deltaMs cs w).map fun left => (c :: left.1, left.2)).map (·.2)) :=
      fun _ => (ih _).map fun _ => .refl _
    rw [frameVisits, advanceAll]
    simp only
    split
    · have hfirst := Machine.trail_advance e ⟨countDown deltaMs c, w⟩
      cases hm : Machine.advance e ⟨countDown deltaMs c, w⟩ with
      | none =>
        rw [hm] at hfirst
        exact hfirst.append_nil
      | some m =>
        rw [hm] at hfirst
        exact hfirst.append (hmap m.context)
    · exact hmap (countDown deltaMs c)

/-- What is prepared with a trail is reconciled with one. -/
theorem trail_reconciled {e : Engine} {w : World} {xs : List Machine} {o : Option Scheduler}
    (h : Trail e w xs (o.map (·.world))) (he : ∀ s, o = some s → s.engine = e) :
    Trail e w (xs ++ reconcileVisits o) ((o.bind reconcile).map (·.world)) := by
  cases o with
  | none => exact h.append_nil
  | some s =>
    obtain rfl := he s rfl
    exact h.append s.trail_reconcile

end Scheduler

namespace Operation

open Scheduler

/-- An operation leaves a trail of the steps of its own machines, up to what it
has prepared. -/
theorem trail_opening (s : Scheduler) (op : Operation) :
    ∃ w, Moment.Leads s.engine ⟨none, s.world⟩ w ∧
      Trail s.engine w ((op.opening s).flatMap (Machine.visits s.engine))
        ((op.prepared s).map (·.world)) := by
  have hrest : Moment.Leads s.engine ⟨none, s.world⟩ s.world := .rest (.refl _)
  have hadvanced : ∀ c : Option Context,
      Trail s.engine s.world ((c.toList.map (⟨·, s.world⟩)).flatMap (Machine.visits s.engine))
        ((c.bind s.advanceContext).map (·.world)) := by
    rintro (- | c)
    · exact .stuck _
    · rw [Option.toList_some, List.map_singleton, List.flatMap_singleton]
      exact s.trail_advanceContext c
  cases op with
  | start name ambient =>
    refine ⟨_, hrest, ?_⟩
    rw [opening, prepared]
    cases s.engine.event? name with
    | none => exact .stuck _
    | some event =>
      have hallocated : s.world.Undisturbed (s.starting name ambient event).world := ⟨rfl, rfl⟩
      rw [Option.toList_some, List.map_singleton, List.flatMap_singleton]
      exact ((Machine.trail_advance s.engine (s.starting name ambient event)).before
        hallocated).map fun _ => .refl _
  | update deltaMs =>
    have hticked : s.world.Undisturbed (s.ticked deltaMs) := ⟨rfl, rfl⟩
    refine ⟨_, hrest, ?_⟩
    rw [opening, ← frameVisits_eq]
    exact ((trail_advanceAll s.engine deltaMs s.contexts (s.ticked deltaMs)).before
      hticked).map fun _ => .refl _
  | resume id => exact ⟨_, hrest, hadvanced _⟩
  | choose id index => exact ⟨_, hrest, hadvanced _⟩
  | stop id =>
    refine ⟨_, hrest, ?_⟩
    rw [prepared]
    cases s.context? id with
    | none => exact .stuck _
    | some c => exact .rest (.refl _)
  | destroy id => exact ⟨_, .edit (.destroyLater id) (.refl _), .rest (.refl _)⟩
  | edit change => exact ⟨_, hrest, .stuck _⟩
  | snapshot => exact ⟨_, hrest, .stuck _⟩

/-- **An operation leaves a trail of the steps that it executes.** -/
theorem trail (s : Scheduler) (op : Operation) :
    ∃ w, Moment.Leads s.engine ⟨none, s.world⟩ w ∧
      Trail s.engine w (op.visits s) ((op.run s).map (·.2.world)) := by
  rw [visits_eq_prepared]
  rcases op.run_stages s with ⟨r, -, hrun⟩ | ⟨hprep, hopening, r, s', hrun, -, hkept⟩
  · obtain ⟨w, hleads, htrail⟩ := op.trail_opening s
    refine ⟨w, hleads, ?_⟩
    rw [hrun]
    have hreconciled := trail_reconciled htrail fun _ hprep => (prepares_of_prepared hprep).engine
    exact hreconciled.map fun _ => .refl _
  · -- an operation that is refused executes nothing
    rw [hprep, hopening, hrun]
    rcases hkept with rfl | ⟨change, -, rfl⟩
    · exact ⟨_, .rest (.refl _), .rest (.refl _)⟩
    · exact ⟨_, .edit change (.refl _), .rest (.refl _)⟩

end Operation

/-! ## The moments of a run -/

namespace Scheduler

variable {s s' : Scheduler}

theorem engine_meetRounds {rounds : Nat} (h : meetRounds rounds s = some s') :
    s'.engine = s.engine := by
  induction rounds generalizing s with
  | zero =>
    obtain rfl := Option.some.inj h
    rfl
  | succ rounds ih =>
    rw [meetRounds_succ] at h
    split at h
    · obtain rfl := Option.some.inj h
      rfl
    split at h
    · simp at h
    · exact (ih h).trans (engine_meetRequests (s := s.drained) ‹_›)

theorem engine_reconcile (h : s.reconcile = some s') : s'.engine = s.engine := by
  obtain ⟨s₁, hs₁, rfl⟩ := reconcile_eq h
  have hengine : s₁.engine = s.engine := engine_meetRounds hs₁
  exact hengine

end Scheduler

namespace Operation

open Scheduler

variable {s s' : Scheduler}

theorem engine_run {op : Operation} {r : Reply} (h : op.run s = some (r, s')) :
    s'.engine = s.engine := by
  rcases run_cases h with rfl | ⟨change, -, rfl⟩ | ⟨s₁, hprep, hrun⟩
  · rfl
  · rfl
  · exact (engine_reconcile hrun).trans hprep.engine

/-- **The moments of a run**: between its operations, before the first and
after the last, and wherever an operation executes a step. -/
def moments (s : Scheduler) : List Operation → List Moment
  | [] => [⟨none, s.world⟩]
  | op :: ops =>
    ⟨none, s.world⟩ :: ((op.visits s).map Machine.moment ++
      match op.run s with
      | none => []
      | some (_, s) => moments s ops)

theorem exists_moments_cons (s : Scheduler) (ops : List Operation) :
    ∃ rest, moments s ops = ⟨none, s.world⟩ :: rest := by
  cases ops with
  | nil => exact ⟨[], rfl⟩
  | cons op ops => exact ⟨_, rfl⟩

/-- **A run is a chain of moments.** -/
theorem isChain_moments (s : Scheduler) (ops : List Operation) :
    (moments s ops).IsChain (Moment.Next s.engine) := by
  induction ops generalizing s with
  | nil => exact List.isChain_singleton _
  | cons op ops ih =>
    obtain ⟨w, hleads, htrail⟩ := op.trail s
    rw [moments]
    cases hrun : op.run s with
    | none =>
      rw [hrun] at htrail
      exact htrail.isChain hleads List.isChain_nil fun _ h => by simp at h
    | some result =>
      obtain ⟨r, s'⟩ := result
      rw [hrun] at htrail
      refine htrail.isChain hleads (engine_run hrun ▸ ih s') fun b hb => ?_
      obtain ⟨rest, hrest⟩ := exists_moments_cons s' ops
      simp only [hrest] at hb
      obtain rfl := Option.some.inj hb
      exact ⟨s'.world, rfl, .refl _⟩

end Operation

end Cutscene
