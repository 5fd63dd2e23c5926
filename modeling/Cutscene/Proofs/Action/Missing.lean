import Cutscene.Proofs.Scheduler.Sustain
/-!
# Actions — operands that come to nothing

An action names objects, texts and numbers that may not be there when it runs.
It then goes on to the next step and leaves everything as it is, but for the
numbers it has drawn: `Action.Misses` says when, `Action.Misses.idles` that it
does, and `Machine.steps_of_missing` what that is for a whole step.

Two actions are an exception. A sound to stop and a target to cast at may be
left out, and one that is given but missing is taken for one left out:
everything is silenced, and the skill is cast at nobody
(`exists_missing_heard`).
-/

namespace Cutscene

namespace Machine

variable {m : Machine} {α : Type} {operand : Machine → Draw α}

/-! ## Drawing -/

/-- The machine after an operand has been computed. -/
def drawn (m : Machine) (operand : Machine → Draw α) : Machine :=
  m.rolled (operand m m.world.random).2

/-- The operand comes to nothing. -/
def Lacks (m : Machine) (operand : Machine → Draw (Option α)) : Prop :=
  (operand m m.world.random).1 = none

/-- Whether an object is found does not depend on what is drawn. -/
theorem resolveWithin_rolled (m : Machine) (random : Random) (nesting : Nat) :
    (m.rolled random).resolveWithin nesting = m.resolveWithin nesting := by
  induction nesting with
  | zero => rfl
  | succ nesting ih =>
    funext kind desc
    cases desc with
    | among trait text owner =>
      rw [resolveWithin, resolveWithin, ih]
      rfl
    | «variable» ref =>
      rw [resolveWithin, resolveWithin, ih]
      cases ref <;> rfl
    | _ => rfl

theorem resolve_rolled (m : Machine) (random : Random) :
    (m.rolled random).resolve = m.resolve :=
  resolveWithin_rolled m random maxNesting

end Machine

/-- The object that has the variable is not there. -/
def VariableRef.Homeless (m : Machine) : VariableRef → Prop
  | .ofContext _ => False
  | .ofWorld _ => False
  | .ofOwner _ => m.owner? = none
  | .ofObject scope object _ => m.resolve (some scope.kind) object = none

namespace VariableRef.Homeless

variable {m : Machine} {ref : VariableRef}

/-- Drawing does not bring the object back. -/
theorem rolled (h : ref.Homeless m) (random : Random) : ref.Homeless (m.rolled random) := by
  cases ref with
  | ofContext key => exact h
  | ofWorld key => exact h
  | ofOwner key => exact h
  | ofObject scope object key =>
    rw [Homeless, Machine.resolve_rolled]
    exact h

/-- Such a variable cannot be set. -/
theorem write_eq (h : ref.Homeless m) (v : Value) : m.write ref v = m := by
  cases ref with
  | ofContext key => exact h.elim
  | ofWorld key => exact h.elim
  | ofOwner key =>
    rw [Homeless] at h
    simp only [Machine.write, Machine.modifyAt, Machine.modifyVars, h]
  | ofObject scope object key =>
    rw [Homeless] at h
    simp only [Machine.write, Machine.modifyAt, h]

end VariableRef.Homeless

/-! ## Actions that do nothing -/

/-- The computation goes on and changes nothing but the random generator. -/
def Act.Idles (act : Act Flow) (m : Machine) : Prop := ∃ random, act m = (.next, m.rolled random)

namespace Act

variable {m : Machine} {α : Type}

theorem idles_next (m : Machine) : next.Idles m := ⟨m.world.random, rfl⟩

/-- Without a result there is nothing to go on with. -/
theorem idles_withSome {a : Option α} (h : a = none) (body : α → Act Flow) :
    (withSome a body).Idles m := by
  rw [h]
  exact idles_next m

/-- A change that changes nothing. -/
theorem idles_change {f : Machine → Machine} (h : f m = m) :
    Idles (do change f; next) m :=
  ⟨m.world.random, congrArg (Flow.next, ·) h⟩

/-- Computing an operand only draws. -/
theorem Idles.draw {operand : Machine → Draw α} {rest : α → Act Flow}
    (h : (rest (operand m m.world.random).1).Idles (m.drawn operand)) :
    Idles (do rest (← Act.draw operand)) m := h

/-- Looking changes nothing. -/
theorem Idles.look {f : Machine → α} {rest : α → Act Flow} (h : (rest (f m)).Idles m) :
    Idles (do rest (← Act.look f)) m := h

end Act

/-- **The action misses an operand**: something that it cannot do without, or
that it was given all the same, is not there at the moment it is looked at. -/
def Action.Misses (m : Machine) : Action → Prop
  | .setBoolean ref _ operand => operand.compute m = none ∨ ref.Homeless m
  | .setNumber ref _ operand =>
    m.Lacks (fun m => operand.compute (NumberInput.compute m)) ∨ ref.Homeless m
  | .setText ref _ operand => m.Lacks operand.compute ∨ ref.Homeless m
  | .setObject ref desc kind => m.resolve (some kind) desc = none ∨ ref.Homeless m
  | .playAudio _ track _ => m.Lacks track.compute
  | .playAnimation target kind animation _ =>
    m.Lacks animation.compute ∨ ∃ desc, target = some desc ∧ m.resolve (some kind) desc = none
  | .moveActor actor x y _ =>
    m.resolve (some .actor) actor = none ∨ m.Lacks x.compute ∨ (m.drawn x.compute).Lacks y.compute
  | .castSkill caster skill _ _ =>
    m.resolve (some .actor) caster = none ∨ m.resolve (some .skill) skill = none
  | .createObject _ _ parent _ _ _ => ∃ desc, parent = some desc ∧ m.resolve none desc = none
  | .deleteObject desc kind => m.resolve (some kind) desc = none
  | .addState actor _ => m.resolve (some .actor) actor = none
  | .removeState actor _ => m.resolve (some .actor) actor = none
  | _ => False

instance (m : Machine) (operand : Machine → Draw (Option α)) : Decidable (m.Lacks operand) :=
  inferInstanceAs (Decidable (_ = none))

instance (m : Machine) : (ref : VariableRef) → Decidable (ref.Homeless m)
  | .ofContext _ | .ofWorld _ => inferInstanceAs (Decidable False)
  | .ofOwner _ => inferInstanceAs (Decidable (m.owner? = none))
  | .ofObject scope object _ =>
    inferInstanceAs (Decidable (m.resolve (some scope.kind) object = none))

instance (m : Machine) : (a : Action) → Decidable (a.Misses m)
  | .setBoolean ref _ operand =>
    inferInstanceAs (Decidable (operand.compute m = none ∨ ref.Homeless m))
  | .setNumber ref _ operand => inferInstanceAs (Decidable
      (m.Lacks (fun m => operand.compute (NumberInput.compute m)) ∨ ref.Homeless m))
  | .setText ref _ operand =>
    inferInstanceAs (Decidable (m.Lacks operand.compute ∨ ref.Homeless m))
  | .setObject ref desc kind =>
    inferInstanceAs (Decidable (m.resolve (some kind) desc = none ∨ ref.Homeless m))
  | .playAudio _ track _ => inferInstanceAs (Decidable (m.Lacks track.compute))
  | .playAnimation target kind animation _ => inferInstanceAs (Decidable
      (m.Lacks animation.compute ∨ ∃ desc ∈ target, m.resolve (some kind) desc = none))
  | .moveActor actor x y _ => inferInstanceAs (Decidable
      (m.resolve (some .actor) actor = none ∨ m.Lacks x.compute ∨
        (m.drawn x.compute).Lacks y.compute))
  | .castSkill caster skill _ _ => inferInstanceAs (Decidable
      (m.resolve (some .actor) caster = none ∨ m.resolve (some .skill) skill = none))
  | .createObject _ _ parent _ _ _ =>
    inferInstanceAs (Decidable (∃ desc ∈ parent, m.resolve none desc = none))
  | .deleteObject desc kind => inferInstanceAs (Decidable (m.resolve (some kind) desc = none))
  | .addState actor _ | .removeState actor _ =>
    inferInstanceAs (Decidable (m.resolve (some .actor) actor = none))
  | .setList .. | .pushItem .. | .removeItem .. | .deleteVariable .. | .showText .. | .stopAudio ..
  | .log .. | .script .. | .wait .. | .pauseEvent .. | .continueEvent .. | .stopEvent =>
    inferInstanceAs (Decidable False)

namespace Act

variable {m : Machine} {α : Type} {ref : VariableRef}

/-- **Setting a variable** that has no object, whatever it is set to: the
changes that an operand may make leave the machine. -/
theorem idles_withSome_of_homeless {f : α → Machine → Machine} (a : Option α)
    (h : ∀ x, f x m = m) : (withSome a fun x => do change (f x); next).Idles m := by
  cases a with
  | none => exact idles_next m
  | some x => exact idles_change (h x)

end Act

/-- **An action that misses an operand does nothing.** -/
theorem Action.Misses.idles {m : Machine} {a : Action} (h : a.Misses m)
    (deferred : HostCall → Bool) : (a.run deferred).Idles m := by
  cases a with
  | setBoolean ref update operand =>
    refine .look ?_
    rcases h with h | h
    · exact Act.idles_withSome h _
    · exact Act.idles_withSome_of_homeless _ fun x => h.write_eq _
  | setNumber ref update operand =>
    refine .draw ?_
    rcases h with h | h
    · exact Act.idles_withSome h _
    · refine Act.idles_withSome_of_homeless _ fun x => ?_
      simp only [(h.rolled _).write_eq, ite_self, Machine.drawn]
  | setText ref update operand =>
    refine .draw ?_
    rcases h with h | h
    · exact Act.idles_withSome h _
    · exact Act.idles_withSome_of_homeless _ fun x => (h.rolled _).write_eq _
  | setObject ref desc kind =>
    refine .look ?_
    rcases h with h | h
    · exact Act.idles_withSome h _
    · exact Act.idles_withSome_of_homeless _ fun x => h.write_eq _
  | playAudio channel track volume => exact .draw (Act.idles_withSome h _)
  | playAnimation target kind animation wait =>
    refine .draw ?_
    rcases h with h | ⟨desc, rfl, h⟩
    · exact Act.idles_withSome h _
    · cases (animation.compute m m.world.random).1 with
      | none => exact Act.idles_next _
      | some animation =>
        refine .look (Act.idles_withSome ?_ _)
        rw [Machine.drawn, Machine.resolve_rolled]
        exact h
  | moveActor actor x y wait =>
    refine .look (.draw (.draw ?_))
    rcases h with h | h | h
    · exact Act.idles_withSome h _
    · cases m.resolve (some .actor) actor with
      | none => exact Act.idles_next _
      | some actor => exact Act.idles_withSome h _
    · cases m.resolve (some .actor) actor with
      | none => exact Act.idles_next _
      | some actor =>
        cases (x.compute m m.world.random).1 with
        | none => exact Act.idles_next _
        | some x => exact Act.idles_withSome h _
  | castSkill caster skill target wait =>
    refine .look (.look ?_)
    rcases h with h | h
    · exact Act.idles_withSome h _
    · cases m.resolve (some .actor) caster with
      | none => exact Act.idles_next _
      | some caster => exact Act.idles_withSome h _
  | createObject kind dataId parent key slot ref =>
    obtain ⟨desc, rfl, h⟩ := h
    refine .look ?_
    rw [Option.bind_some, h]
    exact Act.idles_next m
  | deleteObject desc kind => exact .look (Act.idles_withSome h _)
  | addState actor state => exact .look (Act.idles_withSome h _)
  | removeState actor state => exact .look (Act.idles_withSome h _)
  | _ => exact h.elim

/-! ## Two actions that act all the same -/

/-- A sound that is given but missing silences everything. -/
theorem Action.run_stopAudio_of_lacks {m : Machine} {track : StringInput}
    (h : m.Lacks track.compute) (deferred : HostCall → Bool) :
    (Action.stopAudio (some track)).run deferred m =
      (.next, { m.drawn track.compute with
        world := (m.drawn track.compute).world.call (.stopAudio none) }) := by
  have silent : (track.compute m m.world.random).1 = none := h
  change (Flow.next, { m.drawn track.compute with
    world := (m.drawn track.compute).world.call
      (.stopAudio (track.compute m m.world.random).1) }) = _
  rw [silent]

theorem Act.await_apply (deferred : HostCall → Bool) (wait : Bool) (c : HostCall) (m : Machine) :
    Act.await deferred wait c m =
      (if wait && deferred c then .stop else .next,
        { context := if wait && deferred c then m.context.pause .signal else m.context
          world := m.world.call c }) := by
  change (if wait && deferred c then Act.pause .signal else Act.next)
    { m with world := m.world.call c } = _
  cases wait && deferred c <;> rfl

/-- At a target that is given but missing the skill is cast as at nobody. -/
theorem Action.run_castSkill_of_missing {m : Machine} {caster skill target : ObjectDesc}
    {actor cast : ObjectId} (hactor : m.resolve (some .actor) caster = some actor)
    (hcast : m.resolve (some .skill) skill = some cast) (h : m.resolve none target = none)
    (deferred : HostCall → Bool) (wait : Bool) :
    (Action.castSkill caster skill (some target) wait).run deferred m =
      Act.await deferred wait (.castSkill actor cast none) m := by
  change Act.withSome (m.resolve (some .actor) caster) _ m = _
  rw [hactor]
  change Act.withSome (m.resolve (some .skill) skill) _ m = _
  rw [hcast]
  change Act.await deferred wait (.castSkill actor cast (m.resolve none target)) m = _
  rw [h]

/-! ## The step of an action -/

namespace Machine

variable {e : Engine} {m m' : Machine} {a : Action} {flow : Flow}

/-- A step that is an action runs the action, and the rest goes on from there. -/
theorem steps_action (running : m.context.state.isRunning)
    (here : e.step? m.context.place = some (.action a))
    (run : a.run e.deferred m.onward = (flow, m')) (spawn : Machine → Option Machine)
    (budget : Nat) : steps e spawn (budget + 1) m = steps e spawn budget (m'.settle flow) := by
  refine steps_of_run running here ?_ spawn budget
  change (Outcome.flow (a.run e.deferred m.onward).1, (a.run e.deferred m.onward).2) = _
  rw [run]

/-- **A step that misses an operand only goes on.** What it misses is looked at
when the step runs. It leaves the context at the next step and all else as it
was, apart from the random generator: no call to the host, no variable, no
object, nothing spawned, asked to resume or destroyed. The two exceptions make
the call that they would make without the operand. -/
theorem steps_of_missing (running : m.context.state.isRunning)
    (here : e.step? m.context.place = some (.action a)) :
    (a.Misses m.onward → ∃ random, ∀ spawn budget,
      steps e spawn (budget + 1) m = steps e spawn budget (m.onward.rolled random)) ∧
    (∀ track, a = .stopAudio (some track) → m.onward.Lacks track.compute →
      ∃ random, ∀ spawn budget, steps e spawn (budget + 1) m =
        steps e spawn budget
          { m.onward.rolled random with
            world := (m.onward.rolled random).world.call (.stopAudio none) }) ∧
    ∀ caster skill target wait actor cast, a = .castSkill caster skill (some target) wait →
      m.onward.resolve (some .actor) caster = some actor →
      m.onward.resolve (some .skill) skill = some cast → m.onward.resolve none target = none →
      ∀ spawn budget, steps e spawn (budget + 1) m =
        steps e spawn budget
          { context := if wait && e.deferred (.castSkill actor cast none) then
                m.onward.context.pause .signal
              else m.onward.context
            world := m.onward.world.call (.castSkill actor cast none) } := by
  refine ⟨fun misses => ?_, ?_, ?_⟩
  · obtain ⟨random, idles⟩ := misses.idles e.deferred
    exact ⟨random, steps_action running here idles⟩
  · rintro track rfl lacks
    exact ⟨_, steps_action running here (Action.run_stopAudio_of_lacks lacks e.deferred)⟩
  · rintro caster skill target wait actor cast rfl hactor hcast missing
    have run := (Action.run_castSkill_of_missing hactor hcast missing e.deferred wait).trans
      (Act.await_apply ..)
    -- whether the call is awaited decides how the step ends, not what it calls
    cases hwait : wait && e.deferred (.castSkill actor cast none) with
    | false =>
      rw [hwait] at run
      exact steps_action running here run
    | true =>
      rw [hwait] at run
      exact steps_action running here run

end Machine

/-- An event that sets a variable of nobody, stops a sound that is not there,
and casts at nobody a skill that is. -/
def Library.wanting : Library :=
  let missing : Json := .object [("type", .string "none")]
  let latest : Json := .object [("type", .string "latest")]
  let song : Json := .object [("type", .string "global"), ("key", .string "song")]
  let create (kind : String) : Instruction :=
    ⟨"createObject", .object [("kind", .string kind), ("dataId", .string kind)]⟩
  { events := .ofList
      [("main", ⟨"main",
        [⟨"setString", .object
          [("variable", .object
            [("type", .string "actor"), ("actor", missing), ("key", .string "title")]),
           ("operand", .string "king")]⟩,
         ⟨"stopAudio", .object
          [("track", .object [("type", .string "variable"), ("variable", song)])]⟩,
         create "actor", create "skill",
         ⟨"castSkill", .object [("caster", latest), ("skill", latest), ("target", missing)]⟩],
        .empty⟩)] }

/-- The action that the step is. -/
def Step.action? : Step → Option Action
  | .action a => some a
  | _ => none

theorem Step.eq_of_action? {step : Step} {a : Action} (h : step.action? = some a) :
    step = .action a := by
  cases step <;> simp [action?] at h
  rw [h]

/-- The step of an action, found as one. -/
theorem Step.eq_of_bind_action? {o : Option Step} {a : Action} (h : o.bind action? = some a) :
    o = some (.action a) := by
  obtain ⟨step, here, action⟩ := Option.bind_eq_some_iff.1 h
  rw [here, eq_of_action? action]

/-- The sound that the action is given to stop. -/
def Action.silenced? : Action → Option StringInput
  | .stopAudio track => track
  | _ => none

theorem Action.eq_of_silenced? {a : Action} {track : StringInput} (h : a.silenced? = some track) :
    a = .stopAudio (some track) := by
  cases a <;> simp [silenced?] at h
  rw [h]

/-- Who casts which skill, at the target that the action is given. -/
def Action.cast? : Action → Option (ObjectDesc × ObjectDesc × ObjectDesc)
  | .castSkill caster skill (some target) false => some (caster, skill, target)
  | _ => none

theorem Action.eq_of_cast? {a : Action} {x : ObjectDesc × ObjectDesc × ObjectDesc}
    (h : a.cast? = some x) : a = .castSkill x.1 x.2.1 (some x.2.2) false := by
  unfold cast? at h
  split at h
  · rw [← Option.some.inj h]
  · simp at h

/-- Nobody is titled king. -/
theorem Machine.steps_of_missing_wanting :
    ∃ m ∈ (Operation.start "main" .none).visits (.fresh (.ofLibrary .wanting) 0),
    ∃ a, m.context.state.isRunning ∧
      (Engine.ofLibrary .wanting).step? m.context.place = some (.action a) ∧ a.Misses m.onward ∧
      ∃ random, ∀ spawn budget, steps (.ofLibrary .wanting) spawn (budget + 1) m =
        steps (.ofLibrary .wanting) spawn budget (m.onward.rolled random) := by
  have visited : ((Operation.start "main" .none).visits (.fresh (.ofLibrary .wanting) 0)).any
      fun m => m.context.state.isRunning &&
        (((Engine.ofLibrary .wanting).step? m.context.place).bind Step.action?).any
          fun a => decide (a.Misses m.onward) := by
    decide +kernel
  obtain ⟨m, hm, checks⟩ := List.any_eq_true.1 visited
  obtain ⟨running, misses⟩ := Bool.and_eq_true_iff.1 checks
  obtain ⟨a, action, misses⟩ := (Option.any_eq_true _ _).1 misses
  have here := Step.eq_of_bind_action? action
  replace misses := of_decide_eq_true misses
  exact ⟨m, hm, a, running, here, misses, (steps_of_missing running here).1 misses⟩

/-- **What is missing is heard.** The sound to stop and the target to cast at are
given and come to nothing, and the host is called all the same. -/
theorem Machine.exists_missing_heard :
    (∃ m ∈ (Operation.start "main" .none).visits (.fresh (.ofLibrary .wanting) 0), ∃ track n,
      m.context.state.isRunning ∧ (Engine.ofLibrary .wanting).step? m.context.place =
        some (.action (.stopAudio (some track))) ∧ m.onward.Lacks track.compute ∧
      steps (.ofLibrary .wanting) (fun _ => none) 1 m = some n ∧
      n.world.trace = .stopAudio none :: m.world.trace) ∧
    ∃ m ∈ (Operation.start "main" .none).visits (.fresh (.ofLibrary .wanting) 0),
      ∃ caster skill target wait actor cast n,
      m.context.state.isRunning ∧ (Engine.ofLibrary .wanting).step? m.context.place =
        some (.action (.castSkill caster skill (some target) wait)) ∧
      m.onward.resolve none target = none ∧
      steps (.ofLibrary .wanting) (fun _ => none) 1 m = some n ∧
      n.world.trace = .castSkill actor cast none :: m.world.trace := by
  constructor
  · have visited : ((Operation.start "main" .none).visits (.fresh (.ofLibrary .wanting) 0)).any
        fun m => m.context.state.isRunning &&
          (((Engine.ofLibrary .wanting).step? m.context.place).bind Step.action?).any
            fun a => a.silenced?.any fun track => decide (m.onward.Lacks track.compute) := by
      decide +kernel
    obtain ⟨m, hm, checks⟩ := List.any_eq_true.1 visited
    obtain ⟨running, found⟩ := Bool.and_eq_true_iff.1 checks
    obtain ⟨a, action, found⟩ := (Option.any_eq_true _ _).1 found
    obtain ⟨track, silenced, lacks⟩ := (Option.any_eq_true _ _).1 found
    have here := Step.eq_of_bind_action? action
    rw [Action.eq_of_silenced? silenced] at here
    replace lacks := of_decide_eq_true lacks
    exact ⟨m, hm, track, _, running, here, lacks,
      steps_action running here (Action.run_stopAudio_of_lacks lacks _) _ 0, rfl⟩
  · have visited : ((Operation.start "main" .none).visits (.fresh (.ofLibrary .wanting) 0)).any
        fun m => m.context.state.isRunning &&
          (((Engine.ofLibrary .wanting).step? m.context.place).bind Step.action?).any
            fun a => a.cast?.any fun x => (m.onward.resolve (some .actor) x.1).isSome &&
              (m.onward.resolve (some .skill) x.2.1).isSome &&
              (m.onward.resolve none x.2.2).isNone := by
      decide +kernel
    obtain ⟨m, hm, checks⟩ := List.any_eq_true.1 visited
    obtain ⟨running, found⟩ := Bool.and_eq_true_iff.1 checks
    obtain ⟨a, action, found⟩ := (Option.any_eq_true _ _).1 found
    obtain ⟨x, cast, found⟩ := (Option.any_eq_true _ _).1 found
    have here := Step.eq_of_bind_action? action
    rw [Action.eq_of_cast? cast] at here
    simp only [Bool.and_eq_true, Option.isSome_iff_exists, Option.isNone_iff_eq_none] at found
    obtain ⟨⟨⟨actor, hactor⟩, cast, hcast⟩, missing⟩ := found
    have run := Action.run_castSkill_of_missing hactor hcast missing (fun _ => false) false
    exact ⟨m, hm, _, _, _, false, actor, cast, _, running, here, missing,
      steps_action running here run _ 0, rfl⟩

end Cutscene
