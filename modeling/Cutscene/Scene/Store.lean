import Cutscene.Descriptor.Reference
/-!
# Scenes — the object store

The objects of a scene, under numbers that are handed out in order. Once the
numbers have come round, a new object takes the place of the one that has its
number. Objects are linked both ways: a parent lists its children, a child
names its parent. Removing an object removes everything below it. The store
also keeps the party, in the order of joining, and the latest object of each
kind.
-/

namespace Cutscene

instance : Key ObjectId where
  before a b := decide (a.val < b.val)
  before_irrefl a := decide_eq_false (Nat.lt_irrefl a.val)
  before_trans _ _ _ hab hbc :=
    decide_eq_true (Nat.lt_trans (of_decide_eq_true hab) (of_decide_eq_true hbc))
  before_total a b hab hba := by
    obtain ⟨a⟩ := a
    obtain ⟨b⟩ := b
    exact congrArg ObjectId.mk (Nat.le_antisymm (Nat.le_of_not_lt (of_decide_eq_false hba))
      (Nat.le_of_not_lt (of_decide_eq_false hab)))

/-- An object of the scene. -/
structure GameObject where
  id : ObjectId
  kind : ObjectKind
  dataId : String
  key : Option String
  slot : Option String
  attributes : Attributes
  parent : Option ObjectId
  children : List ObjectId
  deriving Inhabited

/-- The text that tells the object apart from those with other numbers,
whatever their data. -/
def GameObject.instanceKey (o : GameObject) : String := o.dataId ++ "#" ++ toString o.id.val

/-- The text of a trait. -/
def GameObject.trait (o : GameObject) : Trait → Option String
  | .id => some o.dataId
  | .key => o.key
  | .slot => o.slot

/-- The objects of a scene. -/
structure Store where
  objects : Table ObjectId GameObject
  latest : Table ObjectKind ObjectId
  party : List ObjectId
  /-- How many objects were ever created. -/
  created : Nat
  deriving Inhabited

namespace Store

/-- The store without objects. -/
def empty : Store := ⟨.empty, .empty, [], 0⟩

/-- The object with a number. -/
def get? (s : Store) (id : ObjectId) : Option GameObject := s.objects.get? id

/-- Is there an object with the number? -/
def contains (s : Store) (id : ObjectId) : Bool := s.objects.contains id

/-- The object with a number, if it is of a kind. -/
def getOfKind? (s : Store) (id : ObjectId) (kind : ObjectKind) : Option GameObject :=
  (s.get? id).filter (·.kind == kind)

/-- The store with an object changed; without the object, as it was. -/
def modify (s : Store) (id : ObjectId) (change : GameObject → GameObject) : Store :=
  match s.get? id with
  | some o => { s with objects := s.objects.insert id (change o) }
  | none => s

/-- The number of the object that is created next. -/
def nextId (s : Store) : ObjectId := .ofCount (s.created + 1)

/-- A new object without parent: its number, and the store with it. -/
def create (s : Store) (kind : ObjectKind) (dataId : String) : ObjectId × Store :=
  let id := s.nextId
  (id,
    { s with
      objects := s.objects.insert id ⟨id, kind, dataId, none, none, .empty, none, []⟩
      latest := s.latest.insert kind id
      created := s.created + 1 })

/-- Takes a child off the list of the parent it names. -/
def detach (s : Store) (child : ObjectId) : Store :=
  match (s.get? child).bind (·.parent) with
  | some parent =>
    s.modify parent fun o => { o with children := o.children.filter (· != child) }
  | none => s

/-- Makes an object the last child of another one; nothing if either is gone
or they are the same. -/
def attach? (s : Store) (parent child : ObjectId) : Option Store :=
  if parent = child ∨ !s.contains parent ∨ !s.contains child then none
  else
    let s := s.detach child
    let s := s.modify child fun o => { o with parent := some parent }
    some (s.modify parent fun o => { o with children := o.children ++ [child] })

/-- A new object below another one, unless that is gone. -/
def createChild? (s : Store) (parent : ObjectId) (kind : ObjectKind) (dataId : String) :
    Option (ObjectId × Store) :=
  if s.contains parent then
    let (id, s) := s.create kind dataId
    some (id, (s.attach? parent id).getD s)
  else none

/-- The store with one more member of the party. -/
def joinParty (s : Store) (actor : ObjectId) : Store :=
  if s.contains actor ∧ !s.party.contains actor then { s with party := s.party ++ [actor] } else s

/-- The objects below one that there still are, in order. -/
def childrenOf (s : Store) (id : ObjectId) : List GameObject :=
  match s.get? id with
  | some o => o.children.filterMap s.get?
  | none => []

/-- The first object that is of a kind, if one is asked for, and passes a
test: among an owner's children, or among all. -/
def find? (s : Store) (kind : Option ObjectKind) (owner : Option ObjectId)
    (test : GameObject → Bool) : Option ObjectId :=
  let among := match owner with
    | some owner => s.childrenOf owner
    | none => s.objects.values
  (among.find? fun o => kind.all (o.kind == ·) && test o).map (·.id)

/-! ## Removal -/

/-- Takes objects out, those on a stack and everything below them: what is
left, and what was taken, the first taken first. The children of an object
taken go on the stack with the last on top. -/
def takeOut (objects : Table ObjectId GameObject) (stack : List ObjectId) :
    Table ObjectId GameObject × List GameObject :=
  match stack with
  | [] => (objects, [])
  | id :: stack =>
    match _h : objects.get? id with
    | none => takeOut objects stack
    | some o =>
      let (left, taken) := takeOut (objects.erase id) (o.children.reverse ++ stack)
      (left, o :: taken)
termination_by objects.weigh (fun o => o.children.length + 1) + stack.length
decreasing_by
  · simp
  · have := Table.weigh_erase (fun o => o.children.length + 1) _h
    simp only [List.length_append, List.length_reverse, List.length_cons]
    omega

/-- Removes an object and everything below it: what was removed, and the
store without it. -/
def remove (s : Store) (id : ObjectId) : List GameObject × Store :=
  if s.contains id then
    let (objects, removed) := takeOut (s.detach id).objects [id]
    let gone (member : ObjectId) : Bool := removed.any (·.id == member)
    (removed,
      { s with
        objects
        party := s.party.filter (!gone ·)
        latest := s.latest.filter fun _ id => !gone id })
  else ([], s)

end Store

end Cutscene
