import Cutscene.Proofs.Run.Timeless
/-!
# Running — computations by their effects

A computation is traced when it has a row of effects from every machine
(`Act.Traced`). Looking, drawing, writing a variable and running a script are
traced, sequences of what is traced are, and so is every tester
(`Tester.traced`).
-/

namespace Cutscene

/-! ## Conditions that do not look at the clock -/

def Condition.isTimeless : Condition → Bool
  | .number _ _ value => value.isTimeless
  | .string _ _ value => value.isTimeless
  | .list _ _ value => value.isTimeless
  | _ => true

def Tester.isTimeless (t : Tester) : Bool := t.conditions.all Condition.isTimeless

/-! ## Traced computations -/

namespace Act

/-- From every machine the computation is a row of effects that its context
may have; if it is timeless, it is the same row, with the same result, from
every machine that is alike. -/
def Traced {α : Type} (timeless rootless : Prop) (act : Act α) : Prop :=
  ∀ m, ∃ es, (∀ x ∈ es, x.Fits rootless m.context.ambient.owner) ∧ (act m).2 = m.after es ∧
    (timeless → ∀ m', m.Alike m' → act m' = ((act m).1, m'.after es))

variable {α β : Type} {timeless rootless : Prop}

theorem traced_pure (a : α) : Traced timeless rootless (pure a) := fun _ =>
  ⟨[], fun _ h => by simp at h, rfl, fun _ _ _ => rfl⟩

theorem Traced.bind {act : Act α} {next : α → Act β} (h : Traced timeless rootless act)
    (hnext : ∀ a, Traced timeless rootless (next a)) :
    Traced timeless rootless (act >>= next) := by
  intro m
  obtain ⟨es, hfits, hact, hsame⟩ := h m
  obtain ⟨es', hfits', hact', hsame'⟩ := hnext (act m).1 (m.after es)
  rw [m.ambient_after] at hfits'
  refine ⟨es ++ es', List.forall_mem_append.2 ⟨hfits, hfits'⟩, ?_, fun ht m' hm => ?_⟩
  · show (next (act m).1 (act m).2).2 = _
    rw [hact, hact', Machine.after_append]
  · show next (act m').1 (act m').2 = ((next (act m).1 (act m).2).1, _)
    rw [hsame ht m' hm, hact, hsame' ht _ (hm.after es), Machine.after_append]

theorem traced_look {f : Machine → α}
    (h : timeless → ∀ {m m' : Machine}, m.Alike m' → f m = f m') :
    Traced timeless rootless (look f) := fun m =>
  ⟨[], fun _ hx => by simp at hx, rfl, fun ht m' hm => by rw [look, look, ← h ht hm]; rfl⟩

theorem traced_draw {operand : Machine → Draw α}
    (h : timeless → ∀ {m m' : Machine}, m.Alike m' → operand m = operand m') :
    Traced timeless rootless (draw operand) := fun m =>
  ⟨[.random (operand m m.world.random).2],
    fun x hx => by rw [List.mem_singleton.1 hx]; trivial, rfl,
    fun ht m' hm => by
      show ((operand m' m'.world.random).1, _) = _
      rw [← h ht hm, ← hm.random]
      rfl⟩

/-- A change that is a row of effects, the same on machines that are alike. -/
theorem traced_change {f : Machine → Machine} (effects : Machine → List Effect)
    (hfits : ∀ m, ∀ x ∈ effects m, x.Fits rootless m.context.ambient.owner)
    (hf : ∀ m, f m = m.after (effects m))
    (h : timeless → ∀ {m m' : Machine}, m.Alike m' → effects m = effects m') :
    Traced timeless rootless (change f) := fun m =>
  ⟨effects m, hfits m, hf m, fun ht m' hm => by
    show ((), f m') = _
    rw [hf m', ← h ht hm]⟩

theorem traced_call (c : HostCall) : Traced timeless rootless (call c) :=
  traced_change (fun _ => [.call c]) (fun _ x hx => by rw [List.mem_singleton.1 hx]; trivial)
    (fun _ => rfl) (fun _ _ _ _ => rfl)

end Act

/-! ## Writing variables -/

namespace Machine

/-- The effects of changing the variables that a reference belongs to. -/
def changeEffects (m : Machine) (change : String → Attributes → Attributes) :
    VariableRef → List Effect
  | .ofContext key => [.locals (change key m.context.attributes)]
  | .ofWorld key => [.globals (change key m.world.globals)]
  | .ofOwner key =>
    match m.context.ambient.owner with
    | none => []
    | some id =>
      match m.world.objects.get? id with
      | none => []
      | some o =>
        [.selfVars id (change key ((m.world.selfVars.get? o.instanceKey).getD .empty))]
  | .ofObject scope object key =>
    match m.resolve (some scope.kind) object with
    | none => []
    | some id =>
      match m.world.objects.get? id with
      | none => []
      | some o => [.attributes id (change key o.attributes)]

theorem modifyAt_eq (m : Machine) (change : String → Attributes → Attributes) (ref : VariableRef) :
    m.modifyAt change ref = m.after (m.changeEffects change ref) := by
  cases ref with
  | ofContext key => rfl
  | ofWorld key => rfl
  | ofOwner key =>
    simp only [modifyAt, modifyVars, changeEffects, owner?]
    cases m.context.ambient.owner with
    | none => rfl
    | some id =>
      simp only [Option.bind_some]
      cases ho : m.world.objects.get? id with
      | none => rfl
      | some o => simp [Effect.apply, ho]
  | ofObject scope object key =>
    simp only [modifyAt, changeEffects]
    cases m.resolve (some scope.kind) object with
    | none => rfl
    | some id =>
      simp only [Store.modify]
      cases ho : m.world.objects.get? id with
      | none => rfl
      | some o => simp [Effect.apply, Store.modify, ho]

theorem fits_changeEffects {rootless : Prop} (m : Machine)
    (change : String → Attributes → Attributes) (ref : VariableRef) :
    ∀ x ∈ m.changeEffects change ref, x.Fits rootless m.context.ambient.owner := by
  intro x hx
  cases ref <;> simp only [changeEffects] at hx
  case ofContext key => rw [List.mem_singleton.1 hx]; trivial
  case ofWorld key => rw [List.mem_singleton.1 hx]; trivial
  case ofOwner key =>
    split at hx
    · simp at hx
    · rename_i howner
      split at hx
      · simp at hx
      · rw [List.mem_singleton.1 hx]
        exact howner
  case ofObject scope object key =>
    split at hx
    · simp at hx
    · split at hx
      · simp at hx
      · rw [List.mem_singleton.1 hx]; trivial

theorem Alike.changeEffects {m m' : Machine} (h : m.Alike m')
    (change : String → Attributes → Attributes) (ref : VariableRef) :
    m.changeEffects change ref = m'.changeEffects change ref := by
  cases ref with
  | ofContext key => simp only [Machine.changeEffects, h.attributes]
  | ofWorld key => simp only [Machine.changeEffects, h.globals]
  | ofOwner key => simp only [Machine.changeEffects, h.ambient, h.objects, h.selfVars]
  | ofObject scope object key => simp only [Machine.changeEffects, h.resolve, h.objects]

end Machine

/-! ## Conditions -/

section Conditions

open Act

variable {timeless rootless : Prop}

theorem traced_runScript (code : Script) :
    Traced timeless rootless (Machine.runScript code) := fun m => by
  -- a script reads its scope and the random state, and changes nothing else
  let done := code.run ⟨Script.scopeOf m, m.world.random⟩
  refine ⟨[.locals (Script.localsAfter m.context.attributes done.2.scope),
    .globals (Script.globalsAfter m.world.globals done.2.scope), .random done.2.random],
    fun x hx => ?_, rfl, fun _ m' hm => ?_⟩
  · simp only [List.mem_cons, List.not_mem_nil, or_false] at hx
    rcases hx with rfl | rfl | rfl <;> trivial
  · have hscope : Script.scopeOf m' = Script.scopeOf m := by
      rw [Script.scopeOf, Script.scopeOf, hm.attributes, hm.globals]
    simp only [Machine.runScript, hscope, ← hm.random, ← hm.attributes, ← hm.globals]
    rfl

theorem Condition.traced (c : Condition) (h : timeless → c.isTimeless) :
    Traced timeless rootless c.holds := by
  cases c with
  | boolean ref wanted value =>
    exact traced_look fun _ _ _ hm => by rw [hm.readBool, hm.booleanInput]
  | number ref comparison value =>
    refine (traced_look fun _ _ _ hm => hm.readNumber ref).bind fun a => ?_
    exact (traced_draw fun ht _ _ hm => hm.numberInput (h ht)).bind fun b => traced_pure _
  | string ref comparison value =>
    refine (traced_look fun _ _ _ hm => hm.readText ref).bind fun a => ?_
    exact (traced_draw fun ht _ _ hm => hm.stringInput (h ht)).bind fun b => traced_pure _
  | object ref wanted desc kind =>
    exact traced_look fun _ _ _ hm => by rw [hm.readObject, hm.resolve]
  | list ref wanted value =>
    refine (traced_look fun _ _ _ hm => hm.readList ref).bind fun items => ?_
    cases items with
    | none => exact traced_pure _
    | some items =>
      exact (traced_draw fun ht _ _ hm => hm.valueOperand (h ht)).bind fun v => traced_pure _
  | «exists» desc kind => exact traced_look fun _ _ _ hm => by rw [hm.resolve]
  | script code =>
    cases code with
    | none => exact traced_pure _
    | some code =>
      refine (traced_runScript code).bind fun result => ?_
      cases result with
      | none => exact traced_pure _
      | some d => cases d <;> exact traced_pure _

theorem traced_allHold : (cs : List Condition) → (timeless → cs.all Condition.isTimeless) →
    Traced timeless rootless (allHold cs)
  | [], _ => traced_pure _
  | c :: cs, h => by
    simp only [List.all_cons, Bool.and_eq_true] at h
    refine (c.traced fun ht => (h ht).1).bind fun b => ?_
    cases b with
    | false => exact traced_pure _
    | true => exact traced_allHold cs fun ht => (h ht).2

theorem traced_anyHolds : (cs : List Condition) → (timeless → cs.all Condition.isTimeless) →
    Traced timeless rootless (anyHolds cs)
  | [], _ => traced_pure _
  | c :: cs, h => by
    simp only [List.all_cons, Bool.and_eq_true] at h
    refine (c.traced fun ht => (h ht).1).bind fun b => ?_
    cases b with
    | false => exact traced_anyHolds cs fun ht => (h ht).2
    | true => exact traced_pure _

/-- **Every tester is traced.** -/
theorem Tester.traced (t : Tester) (h : timeless → t.isTimeless) :
    Traced timeless rootless t.holds := by
  obtain ⟨mode, conditions⟩ := t
  rw [Tester.holds]
  split
  · exact traced_pure _
  · exact traced_allHold _ h
  · exact traced_anyHolds _ h

end Conditions

end Cutscene
