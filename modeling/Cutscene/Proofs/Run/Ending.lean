import Cutscene.Proofs.Run.Trace
/-!
# Running — actions by their effects

Every action is a row of effects after which control goes on or the context
halts: it pauses, waits or finishes (`Action.ends`). This is all that later
proofs know of most actions. Which actions halt, and which create an object
below none, is read off the action alone.
-/

namespace Cutscene

/-! ## Actions that do not look at the clock -/

def Action.isTimeless : Action → Bool
  | .setNumber _ _ operand => operand.isTimeless
  | .setText _ _ operand => operand.isTimeless
  | .setList _ items => items.all ValueOperand.isTimeless
  | .pushItem _ item => item.isTimeless
  | .removeItem _ item => item.isTimeless
  | .playAudio channel track volume =>
    channel.all StringInput.isTimeless && track.isTimeless && volume.all NumberInput.isTimeless
  | .stopAudio track => track.all StringInput.isTimeless
  | .playAnimation _ _ animation _ => animation.isTimeless
  | .moveActor _ x y _ => x.isTimeless && y.isTimeless
  | .wait duration => duration.isTimeless
  | _ => true

/-- Is the action one that creates objects? -/
def Action.isCreate : Action → Bool
  | .createObject .. => true
  | _ => false

/-! ## Ends -/

/-- Why an action stops its context: it pauses it, with a text that is shown or
none, has it wait, or finishes it. -/
inductive Halt where
  | pause (shown : Option String)
  | wait (ms : Float)
  | finish

namespace Halt

/-- The context halted. -/
def apply (c : Context) : Halt → Context
  | .pause shown => c.pause (shown.elim .signal .text)
  | .wait ms => c.wait ms
  | .finish => c.finish

/-- Does control go on? -/
def flow : Option Halt → Flow
  | none => .next
  | some _ => .stop

end Halt

/-- The machine with its context halted, if it is. -/
def Machine.halted (m : Machine) : Option Halt → Machine
  | none => m
  | some halt => { m with context := halt.apply m.context }

namespace Act

/-- From every machine the computation is a row of effects, as a traced one
is, and then goes on or halts the context. -/
def Ends (timeless rootless : Prop) (act : Act Flow) : Prop :=
  ∀ m, ∃ es halt, (∀ x ∈ es, x.Fits rootless m.context.ambient.owner) ∧
    act m = (Halt.flow halt, (m.after es).halted halt) ∧
    (timeless → ∀ m', m.Alike m' → act m' = (Halt.flow halt, (m'.after es).halted halt))

section

variable {α : Type} {timeless rootless : Prop}

theorem ends_next : Ends timeless rootless next := fun _ =>
  ⟨[], none, fun _ h => by simp at h, rfl, fun _ _ _ => rfl⟩

theorem ends_pause (shown : Option String) :
    Ends timeless rootless (pause (shown.elim .signal .text)) := fun _ =>
  ⟨[], some (.pause shown), fun _ h => by simp at h, rfl, fun _ _ _ => rfl⟩

theorem ends_finish : Ends timeless rootless finish := fun _ =>
  ⟨[], some .finish, fun _ h => by simp at h, rfl, fun _ _ _ => rfl⟩

theorem Traced.ends {act : Act α} {rest : α → Act Flow} (h : Traced timeless rootless act)
    (hrest : ∀ a, Ends timeless rootless (rest a)) : Ends timeless rootless (act >>= rest) := by
  intro m
  obtain ⟨es, hfits, hact, hsame⟩ := h m
  obtain ⟨es', halt, hfits', hrun, hsame'⟩ := hrest (act m).1 (m.after es)
  rw [m.ambient_after] at hfits'
  refine ⟨es ++ es', halt, List.forall_mem_append.2 ⟨hfits, hfits'⟩, ?_, fun ht m' hm => ?_⟩
  · show rest (act m).1 (act m).2 = _
    rw [hact, hrun, Machine.after_append]
  · show rest (act m').1 (act m').2 = _
    rw [hsame ht m' hm, hsame' ht _ (hm.after es), Machine.after_append]

theorem Ends.of_eq {act act' : Act Flow} (h : act = act') (h' : Ends timeless rootless act') :
    Ends timeless rootless act := h ▸ h'

theorem ends_await (deferred : HostCall → Bool) (wait : Bool) (c : HostCall) :
    Ends timeless rootless (await deferred wait c) :=
  (traced_call c).ends fun _ => by
    split
    · exact ends_pause none
    · exact ends_next

theorem ends_withSome (a : Option α) {body : α → Act Flow}
    (h : ∀ a, Ends timeless rootless (body a)) : Ends timeless rootless (withSome a body) := by
  cases a with
  | none => exact ends_next
  | some a => exact h a

end

end Act

/-! ## Every action -/

namespace Act

variable {timeless rootless : Prop}

/-- Writing a variable is traced where the value is the same on machines that
are alike. -/
theorem traced_write (ref : VariableRef) (value : Machine → Value)
    (h : timeless → ∀ {m m' : Machine}, m.Alike m' → value m = value m') :
    Traced timeless rootless (change fun m => m.write ref (value m)) :=
  traced_change (fun m => m.changeEffects (fun key vars => vars.insert key (value m)) ref)
    (fun m => m.fits_changeEffects _ ref) (fun m => m.modifyAt_eq _ ref)
    (fun ht _ _ hm => by rw [h ht hm, hm.changeEffects])

theorem traced_delete (ref : VariableRef) : Traced timeless rootless (change (·.delete ref)) :=
  traced_change (fun m => m.changeEffects (fun key vars => vars.erase key) ref)
    (fun m => m.fits_changeEffects _ ref) (fun m => m.modifyAt_eq _ ref)
    (fun _ _ _ hm => hm.changeEffects _ ref)

theorem traced_destroy (id : ObjectId) :
    Traced timeless rootless (change fun m => (m.destroyObject id).2) :=
  traced_change (fun _ => [.destroy id]) (fun _ x hx => by rw [List.mem_singleton.1 hx]; trivial)
    (fun _ => rfl) (fun _ _ _ _ => rfl)

theorem traced_drawOptional {α β : Type} {compute : α → Machine → Draw (Option β)} (a : Option α)
    (h : timeless → ∀ x ∈ a, ∀ {m m' : Machine}, m.Alike m' → compute x m = compute x m') :
    Traced timeless rootless (draw (computeOptional compute a)) :=
  traced_draw fun ht m m' hm => by
    cases a with
    | none => rfl
    | some x => exact h ht x rfl hm

theorem traced_mapM {items : List ValueOperand}
    (h : timeless → items.all ValueOperand.isTimeless) :
    Traced timeless rootless (items.mapM fun item => draw item.compute) := by
  induction items with
  | nil => exact traced_pure _
  | cons item items ih =>
    simp only [List.all_cons, Bool.and_eq_true] at h
    rw [List.mapM_cons]
    refine (traced_draw fun ht _ _ hm => hm.valueOperand (h ht).1).bind fun v => ?_
    exact (ih fun ht => (h ht).2).bind fun vs => traced_pure _

end Act

namespace Machine.Alike

variable {m m' : Machine}

theorem removedIds (h : m.Alike m') (id : ObjectId) :
    (m.destroyObject id).1 = (m'.destroyObject id).1 := by
  simp only [Machine.destroyObject, World.destroyObject, h.objects]

theorem createdId (h : m.Alike m') (kind : ObjectKind) (dataId : String)
    (parent : Option ObjectId) :
    (m.createObject? kind dataId parent).map (·.1) =
      (m'.createObject? kind dataId parent).map (·.1) := by
  simp only [Machine.createObject?, h.objects, Option.map_map]
  rfl

theorem stateOf? (h : m.Alike m') (actor : ObjectId) (state : String) :
    m.stateOf? actor state = m'.stateOf? actor state := by
  rw [Machine.stateOf?, Machine.stateOf?, h.objects]

end Machine.Alike

namespace Act

/-- A creation as a look at the number handed out, followed by changes. -/
theorem createObject_eq (kind : ObjectKind) (dataId : String) (owner : Option ObjectId)
    (key slot : Option String) (rest : ObjectId → Act Flow) :
    (do
      withSome (← look (·.createObject? kind dataId owner)) fun made => do
        change fun _ => { made.2 with
          world.objects := made.2.world.objects.modify made.1 fun o => { o with key, slot } }
        rest made.1) =
    (do
      withSome (← look fun m => (m.createObject? kind dataId owner).map (·.1)) fun id => do
        change fun m => m.after [.create kind dataId owner, .label id key slot]
        rest id) := by
  funext m
  simp only [Machine.after_cons, ← Machine.createObject?_eq]
  show withSome (m.createObject? kind dataId owner) _ m =
    withSome ((m.createObject? kind dataId owner).map (·.1)) _ m
  cases hm : m.createObject? kind dataId owner with
  | none => rfl
  | some made =>
    show rest made.1 _ = rest made.1 (Effect.apply (((m.createObject? kind dataId owner).map
      (·.2)).getD m) (.label made.1 key slot))
    rw [hm]
    rfl

/-- Only an action that creates objects reaches the row of a creation. -/
theorem traced_createLabel {timeless rootless : Prop} (kind : ObjectKind) (dataId : String)
    (owner : Option ObjectId) (id : ObjectId) (key slot : Option String) (hr : ¬ rootless) :
    Traced timeless rootless
      (change fun m => m.after [.create kind dataId owner, .label id key slot]) :=
  traced_change (fun _ => [.create kind dataId owner, .label id key slot])
    (fun _ x hx => by
      simp only [List.mem_cons, List.not_mem_nil, or_false] at hx
      rcases hx with rfl | rfl
      · cases owner with
        | none => exact hr
        | some parent => trivial
      · trivial)
    (fun _ => rfl) (fun _ _ _ _ => rfl)

/-- A deletion as a look at what is removed, followed by the removal. -/
theorem deleteObject_eq (id : ObjectId) (rest : List ObjectId → Act Flow) :
    (do
      let removed ← look (·.destroyObject id)
      change fun _ => removed.2
      rest removed.1) =
    (do
      let ids ← look fun m => (m.destroyObject id).1
      change fun m => (m.destroyObject id).2
      rest ids) := rfl

end Act

open Act in
/-- **Every action is a row of effects and then goes on or halts.** It looks
at the clock only if an operand does, and creates an object below none only
if it is a creation. -/
theorem Action.ends {timeless rootless : Prop} (a : Action) (deferred : HostCall → Bool)
    (ht : timeless → a.isTimeless) (hr : rootless → a.isCreate = false) :
    Ends timeless rootless (a.run deferred) := by
  cases a with
  | setBoolean ref update operand =>
    refine (traced_look fun _ _ _ hm => hm.booleanInput operand).ends fun b =>
      ends_withSome b fun b => ?_
    exact (traced_write ref _ fun _ _ _ hm => by rw [hm.readBool]).ends fun _ => ends_next
  | setNumber ref update operand =>
    refine (traced_draw fun h _ _ hm => hm.numberTree (ht h)).ends fun x =>
      ends_withSome x fun x => ?_
    refine Traced.ends ?_ fun _ => ends_next
    -- a result that is not finite is not written
    refine traced_change (fun m =>
      let y := update.apply ((m.readNumber ref).getD 0.0) x
      if y.isFinite then m.changeEffects (fun key vars => vars.insert key (.number y)) ref else [])
      (fun m x hx => ?_) (fun m => ?_) fun _ m m' hm => by
        simp only [hm.readNumber, hm.changeEffects]
    · simp only at hx
      split at hx
      · exact m.fits_changeEffects _ ref x hx
      · simp at hx
    · simp only
      split
      · exact m.modifyAt_eq _ ref
      · rfl
  | setText ref update operand =>
    refine (traced_draw fun h _ _ hm => hm.stringInput (ht h)).ends fun s =>
      ends_withSome s fun s => ?_
    exact (traced_write ref _ fun _ _ _ hm => by rw [hm.readText]).ends fun _ => ends_next
  | setObject ref desc kind =>
    refine (traced_look fun _ _ _ hm => hm.resolve (some kind) desc).ends fun id =>
      ends_withSome id fun id => ?_
    exact (traced_write ref _ fun _ _ _ _ => rfl).ends fun _ => ends_next
  | setList ref items =>
    refine (traced_mapM ht).ends fun values => ?_
    exact (traced_write ref _ fun _ _ _ _ => rfl).ends fun _ => ends_next
  | pushItem ref item =>
    refine (traced_draw fun h _ _ hm => hm.valueOperand (ht h)).ends fun v =>
      ends_withSome v fun v => ?_
    exact (traced_write ref _ fun _ _ _ hm => by rw [hm.readList]).ends fun _ => ends_next
  | removeItem ref item =>
    refine (traced_draw fun h _ _ hm => hm.valueOperand (ht h)).ends fun v =>
      ends_withSome v fun v => ?_
    exact (traced_write ref _ fun _ _ _ hm => by rw [hm.readList]).ends fun _ => ends_next
  | deleteVariable ref => exact (traced_delete ref).ends fun _ => ends_next
  | showText text awaited =>
    refine (traced_look fun _ _ _ hm => hm.render text).ends fun shown =>
      (traced_call _).ends fun _ => ?_
    split
    · exact ends_pause (some shown)
    · exact ends_next
  | playAudio channel track volume =>
    simp only [Action.isTimeless, Bool.and_eq_true] at ht
    refine (traced_draw fun h _ _ hm => hm.stringInput (ht h).1.2).ends fun track =>
      ends_withSome track fun track => ?_
    refine (traced_drawOptional channel fun h x hx _ _ hm =>
      by exact hm.stringInput ((Option.all_eq_true _ _).1 (ht h).1.1 x hx)).ends fun channel => ?_
    refine (traced_drawOptional volume fun h x hx _ _ hm =>
      by exact hm.numberInput ((Option.all_eq_true _ _).1 (ht h).2 x hx)).ends fun volume => ?_
    exact (traced_call _).ends fun _ => ends_next
  | stopAudio track =>
    refine (traced_drawOptional track fun h x hx _ _ hm =>
      by exact hm.stringInput ((Option.all_eq_true _ _).1 (ht h) x hx)).ends fun track => ?_
    exact (traced_call _).ends fun _ => ends_next
  | playAnimation target kind animation awaited =>
    refine (traced_draw fun h _ _ hm => hm.stringInput (ht h)).ends fun animation =>
      ends_withSome animation fun animation => ?_
    cases target with
    | none => exact ends_await _ _ _
    | some desc =>
      refine (traced_look fun _ _ _ hm => hm.resolve (some kind) desc).ends fun target =>
        ends_withSome target fun target => ?_
      exact ends_await _ _ _
  | moveActor actor x y awaited =>
    simp only [Action.isTimeless, Bool.and_eq_true] at ht
    refine (traced_look fun _ _ _ hm => hm.resolve (some .actor) actor).ends fun actor => ?_
    refine (traced_draw fun h _ _ hm => hm.numberInput (ht h).1).ends fun x => ?_
    refine (traced_draw fun h _ _ hm => hm.numberInput (ht h).2).ends fun y => ?_
    refine ends_withSome actor fun actor => ends_withSome x fun x => ends_withSome y fun y => ?_
    exact ends_await _ _ _
  | castSkill caster skill target awaited =>
    refine (traced_look fun _ _ _ hm => hm.resolve (some .actor) caster).ends fun caster => ?_
    refine (traced_look fun _ _ _ hm => hm.resolve (some .skill) skill).ends fun skill => ?_
    refine ends_withSome caster fun caster => ends_withSome skill fun skill => ?_
    refine (traced_look fun _ m m' hm => ?_).ends fun target => ?_
    · cases target with
      | none => rfl
      | some desc => exact hm.resolve none desc
    · exact ends_await _ _ _
  | createObject kind dataId parent key slot ref =>
    refine (traced_look fun _ m m' hm => ?_).ends fun owner => ?_
    · cases parent with
      | none => rfl
      | some desc => exact hm.resolve none desc
    · split
      -- a parent that is named and not found makes nothing
      · exact ends_next
      · have hc : ¬ rootless := fun h => absurd (hr h) (by simp [Action.isCreate])
        cases ref with
        | none =>
          refine Ends.of_eq (createObject_eq kind dataId owner key slot fun _ => next) ?_
          refine (traced_look fun _ _ _ hm => hm.createdId kind dataId owner).ends fun id =>
            ends_withSome id fun id => ?_
          exact (traced_createLabel kind dataId owner id key slot hc).ends fun _ => ends_next
        | some ref =>
          refine Ends.of_eq (createObject_eq kind dataId owner key slot fun id => do
            change (·.write ref (.object id))
            next) ?_
          refine (traced_look fun _ _ _ hm => hm.createdId kind dataId owner).ends fun id =>
            ends_withSome id fun id => ?_
          refine (traced_createLabel kind dataId owner id key slot hc).ends fun _ => ?_
          exact (traced_write ref _ fun _ _ _ _ => rfl).ends fun _ => ends_next
  | deleteObject desc kind =>
    refine (traced_look fun _ _ _ hm => hm.resolve (some kind) desc).ends fun id =>
      ends_withSome id fun id => ?_
    refine Ends.of_eq (deleteObject_eq id fun removed => do
      if (← look (·.context.ambient.owner)).any removed.contains then finish else next) ?_
    refine (traced_look fun _ _ _ hm => hm.removedIds id).ends fun removed => ?_
    refine (traced_destroy id).ends fun _ => ?_
    refine (traced_look fun _ _ _ hm => by rw [hm.ambient]).ends fun owner => ?_
    -- the context goes with its owner
    split
    · exact ends_finish
    · exact ends_next
  | addState actor state =>
    refine (traced_look fun _ _ _ hm => hm.resolve (some .actor) actor).ends fun actor =>
      ends_withSome actor fun actor => ?_
    refine Traced.ends ?_ fun _ => ends_next
    -- a state is made below its actor, so it is no creation of a root
    refine traced_change (fun m =>
      if (m.stateOf? actor state).isSome then [] else [.create .state state (some actor)])
      (fun m x hx => ?_) (fun m => ?_) fun _ m m' hm => by simp only [hm.stateOf?]
    · split at hx
      · simp at hx
      · rw [List.mem_singleton.1 hx]; trivial
    · cases m.stateOf? actor state with
      | some id => rfl
      | none => exact m.createObject?_eq .state state (some actor)
  | removeState actor state =>
    refine (traced_look fun _ _ _ hm => hm.resolve (some .actor) actor).ends fun actor =>
      ends_withSome actor fun actor => ?_
    refine Traced.ends ?_ fun _ => ends_next
    refine traced_change (fun m => ((m.stateOf? actor state).map Effect.destroy).toList)
      (fun m x hx => ?_) (fun m => ?_) fun _ m m' hm => by simp only [hm.stateOf?]
    · rw [Option.mem_toList] at hx
      obtain ⟨id, -, rfl⟩ := Option.map_eq_some_iff.1 hx
      trivial
    · cases m.stateOf? actor state <;> rfl
  | log message =>
    refine (traced_look fun _ _ _ hm => hm.render message).ends fun shown => ?_
    exact (traced_call _).ends fun _ => ends_next
  | script code => exact (traced_runScript code).ends fun _ => ends_next
  | wait duration =>
    refine (traced_draw fun h _ _ hm => hm.numberInput (ht h)).ends fun ms => ?_
    exact fun _ => ⟨[], some (.wait (ms.getD 0.0)), fun _ h => by simp at h, rfl, fun _ _ _ => rfl⟩
  | pauseEvent handle =>
    cases handle with
    | none => exact (traced_pure ()).ends fun _ => ends_pause none
    | some ref =>
      refine Traced.ends ?_ fun _ => ends_pause none
      exact traced_write ref (fun m => .event m.context.id) fun _ _ _ hm => by rw [hm.id]
  | continueEvent handle =>
    refine (traced_look fun _ _ _ hm => hm.read handle).ends fun v =>
      ends_withSome _ fun id => ?_
    exact (traced_change (fun _ => [.requestResume id])
      (fun _ x hx => by rw [List.mem_singleton.1 hx]; trivial) (fun _ => rfl)
      (fun _ _ _ _ => rfl)).ends fun _ => ends_next
  | stopEvent => exact ends_finish

end Cutscene
