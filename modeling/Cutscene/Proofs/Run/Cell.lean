import Cutscene.Proofs.Descriptor.Nesting
/-!
# Running — cells

A variable reference denotes a cell at a moment, or nothing (`Machine.cell?`):
a variable of the context, of the world, of the owner's instance, or of an
object. Reading is looking into the cell; writing and deleting change that cell
alone (`Machine.value?_modifyAt`), and do nothing where there is none.

Which cell is denoted may depend on what variables hold only through
descriptors that go by a variable. Without those, no write moves a reference
(`Store.SameScene.resolveWithin_eq`): what descriptors search is all of an
object but its variables. The laws of the four homes follow together
(`VariableRef.laws_of_isPlain`).
-/

namespace Cutscene

/-! ## Scenes that differ in the objects' variables -/

/-- The object without its variables. -/
def GameObject.bare (o : GameObject) : GameObject := { o with attributes := .empty }

/-- What is asked of the object does not depend on its variables. -/
def GameObject.Bare {α : Type} (f : GameObject → α) : Prop := ∀ o, f o = f o.bare

namespace Store

/-- The stores differ in no more than the variables of objects. -/
structure SameScene (s s' : Store) : Prop where
  bare_eq : ∀ k, (s'.get? k).map GameObject.bare = (s.get? k).map GameObject.bare
  latest_eq : s'.latest = s.latest
  party_eq : s'.party = s.party

theorem SameScene.refl (s : Store) : s.SameScene s := ⟨fun _ => rfl, rfl, rfl⟩

theorem sameScene_modify (s : Store) (id : ObjectId) (change : Attributes → Attributes) :
    s.SameScene (s.modify id fun o => { o with attributes := change o.attributes }) :=
  ⟨fun k => map_get?_modify s id k GameObject.bare fun _ => rfl, latest_modify _ _ _,
    party_modify _ _ _⟩

theorem map_find?_eq {l l' : List GameObject} {test : GameObject → Bool}
    (h : l'.map GameObject.bare = l.map GameObject.bare) (htest : GameObject.Bare test) :
    (l'.find? test).map (·.id) = (l.find? test).map (·.id) := by
  have hbare : ∀ l : List GameObject,
      (l.find? test).map (·.id) = ((l.map GameObject.bare).find? test).map (·.id) := by
    intro l
    rw [List.find?_map, Option.map_map, show test ∘ GameObject.bare = test from
      funext fun o => (htest o).symm]
    rfl
  rw [hbare, h, ← hbare]

namespace SameScene

variable {s s' : Store}

theorem map_childrenOf_eq (h : s.SameScene s') (owner : ObjectId) :
    (s'.childrenOf owner).map GameObject.bare = (s.childrenOf owner).map GameObject.bare := by
  have howner := h.bare_eq owner
  rw [childrenOf, childrenOf]
  cases ho : s.get? owner with
  | none =>
    rw [ho, Option.map_none, Option.map_eq_none_iff] at howner
    rw [howner]
  | some o =>
    rw [ho, Option.map_some] at howner
    obtain ⟨o', ho', hbare⟩ := Option.map_eq_some_iff.1 howner
    have hchildren : o'.bare.children = o.bare.children := by rw [hbare]
    have hchildren : o'.children = o.children := hchildren
    simp only [ho', hchildren, List.map_filterMap, h.bare_eq]

theorem find?_eq (h : s.SameScene s') (kind : Option ObjectKind) (owner : Option ObjectId)
    {test : GameObject → Bool} (htest : GameObject.Bare test) :
    s'.find? kind owner test = s.find? kind owner test := by
  have hboth : GameObject.Bare fun o => kind.all (o.kind == ·) && test o := by
    intro o
    show (kind.all (o.kind == ·) && test o) = (kind.all (o.kind == ·) && test o.bare)
    rw [htest o]
  cases owner with
  | none => exact map_find?_eq (Table.map_values_eq _ h.bare_eq) hboth
  | some owner => exact map_find?_eq (h.map_childrenOf_eq owner) hboth

end SameScene

end Store

/-- The contexts have the same circumstances, and the scenes differ in no more
than the variables of objects. -/
structure Machine.SameScene (m m' : Machine) : Prop where
  ambient_eq : m'.context.ambient = m.context.ambient
  scene : m.world.objects.SameScene m'.world.objects

/-- No descriptor in the chain goes by a variable. -/
def ObjectDesc.isPlain : ObjectDesc → Bool
  | .among _ _ owner => owner.isPlain
  | .variable _ => false
  | .nothing | .role _ | .latest | .anywhere .. | .partyMember _ => true

/-- The reference's object, if it has one, is described without variables. -/
def VariableRef.isPlain : VariableRef → Bool
  | .ofObject _ object _ => object.isPlain
  | .ofContext _ | .ofWorld _ | .ofOwner _ => true

namespace Machine.SameScene

variable {m m' : Machine}

theorem live?_eq (h : m.SameScene m') (kind : Option ObjectKind) (id : Option ObjectId) :
    m'.live? kind id = m.live? kind id := by
  have hget : (id.bind m'.world.objects.get?).map GameObject.bare =
      (id.bind m.world.objects.get?).map GameObject.bare := by
    cases id with
    | none => rfl
    | some id => exact h.scene.bare_eq id
  have hbare : ∀ x : Option GameObject, (x.filter fun o => kind.all (o.kind == ·)).map (·.id) =
      ((x.map GameObject.bare).filter fun o => kind.all (o.kind == ·)).map (·.id) := by
    intro x
    cases x with
    | none => rfl
    | some o =>
      have hkind : o.bare.kind = o.kind := rfl
      simp only [Option.map_some, Option.filter, hkind]
      split <;> rfl
  rw [live?, live?, hbare, hget, ← hbare]

/-- **What a plain descriptor finds does not depend on variables.** -/
theorem resolveWithin_eq (h : m.SameScene m') (nesting : Nat) (kind : Option ObjectKind)
    {desc : ObjectDesc} (hplain : desc.isPlain) :
    m'.resolveWithin nesting kind desc = m.resolveWithin nesting kind desc := by
  have htrait : ∀ trait text, GameObject.Bare fun o => o.trait trait == some text := by
    intro trait text o
    cases trait <;> rfl
  induction nesting generalizing kind desc with
  | zero => rfl
  | succ nesting ih =>
    cases desc with
    | nothing => rfl
    | role role => simp only [resolveWithin, h.live?_eq, h.ambient_eq]
    | latest => simp only [resolveWithin, h.scene.latest_eq]
    | anywhere trait text => exact h.scene.find?_eq kind none (htrait trait text)
    | among trait text owner =>
      have howner : owner.isPlain := hplain
      simp only [resolveWithin, ih none howner, h.scene.find?_eq kind _ (htrait trait text)]
    | partyMember index => simp only [resolveWithin, h.live?_eq, h.scene.party_eq]
    | «variable» ref => simp [ObjectDesc.isPlain] at hplain

/-- An owner that is there is there in both, under the same instance key. -/
theorem map_owner?_eq (h : m.SameScene m') :
    m'.owner?.map GameObject.bare = m.owner?.map GameObject.bare := by
  rw [owner?, owner?, h.ambient_eq]
  cases m.context.ambient.owner with
  | none => rfl
  | some owner => exact h.scene.bare_eq owner

theorem contains_eq (h : m.SameScene m') (id : ObjectId) :
    m'.world.objects.contains id = m.world.objects.contains id := by
  have hsome := congrArg Option.isSome (h.scene.bare_eq id)
  rw [Option.isSome_map, Option.isSome_map] at hsome
  exact hsome

end Machine.SameScene

/-! ## Cells -/

/-- Where the value of a variable is kept: under a key of the running context,
of the world, of an instance, or of an object. -/
inductive Cell where
  | ofContext (key : String)
  | ofWorld (key : String)
  | ofOwner (instanceKey key : String)
  | ofObject (id : ObjectId) (key : String)
  deriving DecidableEq

namespace Machine

/-- What is in a cell. -/
def value? (m : Machine) : Cell → Option Value
  | .ofContext key => m.context.attributes.get? key
  | .ofWorld key => m.world.globals.get? key
  | .ofOwner instanceKey key => (m.world.selfVars.get? instanceKey).bind (·.get? key)
  | .ofObject id key => (m.world.objects.get? id).bind (·.attributes.get? key)

/-- The cell that a reference denotes. -/
def cell? (m : Machine) : VariableRef → Option Cell
  | .ofContext key => some (.ofContext key)
  | .ofWorld key => some (.ofWorld key)
  | .ofOwner key => m.owner?.map fun o => .ofOwner o.instanceKey key
  | .ofObject scope object key =>
    ((m.resolve (some scope.kind) object).filter m.world.objects.contains).map (.ofObject · key)

variable {m m' : Machine} {ref : VariableRef} {cell : Cell}

/-- **Reading is looking into the cell** that is denoted. -/
theorem read_eq (m : Machine) (ref : VariableRef) : m.read ref = (m.cell? ref).bind m.value? := by
  cases ref with
  | ofContext key => rfl
  | ofWorld key => rfl
  | ofOwner key =>
    rw [read, readWith, homeValue?, ownerVars?, cell?]
    cases m.owner? with
    | none => rfl
    | some o =>
      simp only [Option.map_some, Option.bind_some, value?]
      cases m.world.selfVars.get? o.instanceKey <;> rfl
  | ofObject scope object key =>
    rw [read, readWith, cell?]
    cases m.resolve (some scope.kind) object with
    | none => rfl
    | some id =>
      cases ho : m.world.objects.get? id with
      | none =>
        have hgone : m.world.objects.contains id = false := by
          simpa using Store.not_contains_iff.2 ho
        simp [Option.filter, hgone, ho]
      | some o =>
        have hlive : m.world.objects.contains id := Store.contains_iff.2 ⟨o, ho⟩
        simp [Option.filter, hlive, value?]

/-- A change of what is under a key: with what is given or with nothing. -/
def Sets (change : String → Attributes → Attributes) (new : Option Value) : Prop :=
  ∀ key vars k, (change key vars).get? k = if k = key then new else vars.get? k

theorem sets_insert (v : Value) : Sets (fun key vars => vars.insert key v) (some v) := by
  intro key vars k
  split
  · rename_i hk
    rw [hk, Table.get?_insert_self]
  · rename_i hk
    exact Table.get?_insert_of_ne _ _ hk

section

variable {change : String → Attributes → Attributes} {new : Option Value}

/-- **A change through a reference is one of the cell that is denoted**, and of
no other. -/
theorem value?_modifyAt (hchange : Sets change new) (hcell : m.cell? ref = some cell)
    (other : Cell) :
    (m.modifyAt change ref).value? other = if other = cell then new else m.value? other := by
  cases ref with
  | ofContext key =>
    obtain rfl := Option.some.inj hcell
    cases other with
    | ofContext k => simp [modifyAt, modifyVars, value?, hchange key]
    | _ => rfl
  | ofWorld key =>
    obtain rfl := Option.some.inj hcell
    cases other with
    | ofWorld k => simp [modifyAt, modifyVars, value?, hchange key]
    | _ => rfl
  | ofOwner key =>
    obtain ⟨o, ho, rfl⟩ := Option.map_eq_some_iff.1 hcell
    simp only [modifyAt, modifyVars, ho]
    cases other with
    | ofOwner instanceKey k =>
      by_cases hkey : instanceKey = o.instanceKey
      · rw [hkey]
        simp only [value?, Table.get?_insert_self, Option.bind_some, hchange key]
        cases m.world.selfVars.get? o.instanceKey <;> simp
      · simp [value?, Table.get?_insert_of_ne _ _ hkey, hkey]
    | _ => rfl
  | ofObject scope object key =>
    obtain ⟨id, hid, rfl⟩ := Option.map_eq_some_iff.1 hcell
    obtain ⟨hresolve, hlive⟩ := Option.filter_eq_some_iff.1 hid
    obtain ⟨o, ho⟩ := Store.contains_iff.1 hlive
    simp only [modifyAt, hresolve]
    cases other with
    | ofObject k key' =>
      show ((m.world.objects.modify id _).get? k).bind _ = _
      rw [Store.get?_modify, ho]
      by_cases hk : k = id
      · have hvalue : m.value? (.ofObject id key') = o.attributes.get? key' := by
          show (m.world.objects.get? id).bind _ = _
          rw [show m.world.objects.get? id = some o from ho]
          rfl
        simp [hk, hchange key, hvalue]
      · simp [hk, value?]
    | _ => rfl

/-- A change through a reference is none of the scene. -/
theorem sameScene_modifyAt (m : Machine) (change : String → Attributes → Attributes)
    (ref : VariableRef) : m.SameScene (m.modifyAt change ref) := by
  have hsame : m.SameScene m := ⟨rfl, .refl _⟩
  cases ref with
  | ofContext key => exact ⟨rfl, .refl _⟩
  | ofWorld key => exact ⟨rfl, .refl _⟩
  | ofOwner key =>
    simp only [modifyAt, modifyVars]
    split
    · exact hsame
    · exact ⟨rfl, .refl _⟩
  | ofObject scope object key =>
    simp only [modifyAt]
    split
    · exact hsame
    · exact ⟨rfl, Store.sameScene_modify _ _ _⟩

end

/-- **No change of variables moves a plain reference** to another cell. -/
theorem SameScene.cell?_eq (h : m.SameScene m') (hplain : ref.isPlain) :
    m'.cell? ref = m.cell? ref := by
  cases ref with
  | ofContext key => rfl
  | ofWorld key => rfl
  | ofOwner key =>
    have hbare : ∀ m : Machine, m.cell? (.ofOwner key) =
        (m.owner?.map GameObject.bare).map fun o => .ofOwner o.instanceKey key := by
      intro m
      rw [cell?, Option.map_map]
      rfl
    rw [hbare, h.map_owner?_eq, ← hbare]
  | ofObject scope object key =>
    have hobject : object.isPlain := hplain
    rw [cell?, cell?, resolve, resolve, h.resolveWithin_eq _ _ hobject, funext h.contains_eq]

/-- **What is changed through a plain reference is read through it.** -/
theorem read_modifyAt {change : String → Attributes → Attributes} {new : Option Value}
    (hchange : Sets change new) (hplain : ref.isPlain) (hcell : m.cell? ref = some cell) :
    (m.modifyAt change ref).read ref = new := by
  have hstays := (m.sameScene_modifyAt change ref).cell?_eq hplain
  rw [read_eq, hstays, hcell, Option.bind_some, value?_modifyAt hchange hcell, if_pos rfl]

end Machine

end Cutscene
