import Cutscene.Value
/-!
# Descriptors — variables and objects

How an author names a variable and an object. The two refer to each other:
a variable may belong to a described object, and an object may be held by a
variable. Both are read from JSON by recursion on the value's size.
-/

namespace Cutscene

/-- What sort of thing an object is. -/
inductive ObjectKind where
  | actor
  | skill
  | state
  | equipment
  | item
  | trigger
  | light
  | element
  deriving DecidableEq, Repr, Inhabited

namespace ObjectKind

/-- The kinds by name. -/
def names : List (String × ObjectKind) :=
  [("actor", .actor), ("skill", .skill), ("state", .state), ("equipment", .equipment),
   ("item", .item), ("trigger", .trigger), ("light", .light), ("element", .element)]

/-- The kind's name. -/
def name : ObjectKind → String
  | .actor => "actor"
  | .skill => "skill"
  | .state => "state"
  | .equipment => "equipment"
  | .item => "item"
  | .trigger => "trigger"
  | .light => "light"
  | .element => "element"

/-- The kind's place among the kinds. -/
def rank : ObjectKind → Nat
  | .actor => 0
  | .skill => 1
  | .state => 2
  | .equipment => 3
  | .item => 4
  | .trigger => 5
  | .light => 6
  | .element => 7

theorem rank_injective {a b : ObjectKind} (h : a.rank = b.rank) : a = b := by
  cases a <;> cases b <;> first | rfl | exact absurd h (by decide)

instance : Key ObjectKind where
  before a b := decide (a.rank < b.rank)
  before_irrefl a := decide_eq_false (Nat.lt_irrefl a.rank)
  before_trans _ _ _ hab hbc :=
    decide_eq_true (Nat.lt_trans (of_decide_eq_true hab) (of_decide_eq_true hbc))
  before_total _ _ hab hba :=
    rank_injective (Nat.le_antisymm (Nat.le_of_not_lt (of_decide_eq_false hba))
      (Nat.le_of_not_lt (of_decide_eq_false hab)))

/-- The kind as JSON. -/
def encode (k : ObjectKind) : Json := .string k.name

/-- The kind a JSON value names. -/
def decode? : Json → Option ObjectKind := Json.oneOf? names

/-- The kind a JSON value inside a union names. -/
def decodeInner? : Json → Option ObjectKind := Json.innerOneOf? names

end ObjectKind

/-- The kinds of object that have variables of their own. -/
inductive Scope where
  | actor
  | skill
  | state
  | equipment
  | item
  | element
  deriving DecidableEq, Repr, Inhabited

namespace Scope

/-- The scopes by name. -/
def names : List (String × Scope) :=
  [("actor", .actor), ("skill", .skill), ("state", .state), ("equipment", .equipment),
   ("item", .item), ("element", .element)]

/-- The kind of object the scope wants. -/
def kind : Scope → ObjectKind
  | .actor => .actor
  | .skill => .skill
  | .state => .state
  | .equipment => .equipment
  | .item => .item
  | .element => .element

/-- The scope's name, which is also the name of its object's field. -/
def name (s : Scope) : String := s.kind.name

end Scope

/-- An identity that a context has from whatever started it. -/
inductive Role where
  | trigger
  | caster
  | target
  | owner
  deriving DecidableEq, Repr, Inhabited

namespace Role

/-- The roles by name. -/
def names : List (String × Role) :=
  [("trigger", .trigger), ("caster", .caster), ("target", .target), ("owner", .owner)]

/-- The role's name. -/
def name : Role → String
  | .trigger => "trigger"
  | .caster => "caster"
  | .target => "target"
  | .owner => "owner"

end Role

/-- What an object is looked up by. -/
inductive Trait where
  | id
  | key
  | slot
  deriving DecidableEq, Repr, Inhabited

namespace Trait

/-- The traits by the name of the descriptor that uses them. -/
def names : List (String × Trait) := [("by-id", .id), ("by-key", .key), ("by-slot", .slot)]

/-- The name of the field that holds the text looked for. -/
def field : Trait → String
  | .id => "id"
  | .key => "key"
  | .slot => "slot"

/-- The name of the descriptor. -/
def name (t : Trait) : String := "by-" ++ t.field

/-- The fields of the descriptor. The owner has other names, fewer of them
for a slot. -/
def shape (t : Trait) : List Json.Field :=
  [.plain t.field, ⟨"owner", if t = .slot then ["actor"] else ["actor", "parent"]⟩]

end Trait

mutual

/-- A variable: of the context, of the world, of the context's owner, or of a
described object. -/
inductive VariableRef where
  | ofContext (key : String)
  | ofWorld (key : String)
  | ofOwner (key : String)
  | ofObject (scope : Scope) (object : ObjectDesc) (key : String)

/-- An object: none, one of the context's identities, the latest of its kind,
the first with a trait anywhere or among an owner's children, a member of the
party, or the one a variable holds. -/
inductive ObjectDesc where
  | nothing
  | role (role : Role)
  | latest
  | anywhere (trait : Trait) (text : String)
  | among (trait : Trait) (text : String) (owner : ObjectDesc)
  | partyMember (index : Nat)
  | variable (ref : VariableRef)

end

instance : Inhabited ObjectDesc := ⟨.nothing⟩
instance : Inhabited VariableRef := ⟨.ofContext ""⟩

mutual

/-- The variable as JSON. -/
def VariableRef.encode : VariableRef → Json
  | .ofContext key => .tagged "type" "local" [("key", .string key)]
  | .ofWorld key => .tagged "type" "global" [("key", .string key)]
  | .ofOwner key => .tagged "type" "self" [("key", .string key)]
  | .ofObject scope object key =>
    .tagged "type" scope.name [(scope.name, object.encode), ("key", .string key)]

/-- The object descriptor as JSON. -/
def ObjectDesc.encode : ObjectDesc → Json
  | .nothing => .tagged "type" "none" []
  | .role role => .tagged "type" role.name []
  | .latest => .tagged "type" "latest" []
  | .anywhere trait text =>
    .tagged "type" trait.name [(trait.field, .string text), ("owner", .null)]
  | .among trait text owner =>
    .tagged "type" trait.name [(trait.field, .string text), ("owner", owner.encode)]
  | .partyMember index => .tagged "type" "party-member" [("index", .ofNat index)]
  | .variable ref => .tagged "type" "variable" [("variable", ref.encode)]

end

/-- The variants of a variable, in order. -/
def VariableRef.tags : List String :=
  ["local", "global", "self", "actor", "skill", "state", "equipment", "item", "element"]

/-- The variants of an object descriptor, in order. -/
def ObjectDesc.tags : List String :=
  ["none", "trigger", "caster", "target", "owner", "latest", "by-id", "by-key", "by-slot",
   "party-member", "variable"]

mutual

/-- The variable a JSON value describes, by itself or inside a union. -/
def VariableRef.read? (inner : Bool) (j : Json) : Option VariableRef :=
  match _hv : j.variant? "type" (if inner then VariableRef.tags else []) with
  | none => none
  | some (tag, content) =>
    match Scope.names.lookup tag with
    | some scope =>
      match _hr : content.plainRecord? [scope.name, "key"] with
      | none => none
      | some r =>
        match _ho : r.get? scope.name, r.required "key" Json.string? with
        | some object, some key =>
          (ObjectDesc.read? true object).map fun object => .ofObject scope object key
        | _, _ => none
    | none =>
      (content.plainRecord? ["key"]).bind fun r =>
        (r.required "key" Json.string?).bind fun key =>
          if tag = "local" then some (.ofContext key)
          else if tag = "global" then some (.ofWorld key)
          else if tag = "self" then some (.ofOwner key)
          else none
termination_by sizeOf j
decreasing_by
  have := Json.sizeOf_get?_lt _hr _ho
  have := Json.sizeOf_variant?_le _hv
  omega

/-- The object a JSON value describes, by itself or inside a union. -/
def ObjectDesc.read? (inner : Bool) (j : Json) : Option ObjectDesc :=
  match _hv : j.variant? "type" (if inner then ObjectDesc.tags else []) with
  | none => none
  | some (tag, content) =>
    match Trait.names.lookup tag with
    | some trait =>
      match _hr : content.record? trait.shape with
      | none => none
      | some r =>
        (r.required trait.field Json.string?).bind fun text =>
          match _ho : r.get? "owner" with
          | none => some (.anywhere trait text)
          | some .null => some (.anywhere trait text)
          | some owner => (ObjectDesc.read? true owner).map (.among trait text)
    | none =>
      if tag = "variable" then
        match _hr : content.plainRecord? ["variable"] with
        | none => none
        | some r =>
          match _ho : r.get? "variable" with
          | none => none
          | some ref => (VariableRef.read? true ref).map .variable
      else if tag = "party-member" then
        (content.plainRecord? ["index"]).bind fun r =>
          (r.required "index" Json.word64?).map .partyMember
      else if content.isBare then
        if tag = "none" then some .nothing
        else if tag = "latest" then some .latest
        else (Role.names.lookup tag).map .role
      else none
termination_by sizeOf j
decreasing_by
  · have := Json.sizeOf_get?_lt _hr _ho
    have := Json.sizeOf_variant?_le _hv
    omega
  · have := Json.sizeOf_get?_lt _hr _ho
    have := Json.sizeOf_variant?_le _hv
    omega

end

/-- The variable a JSON value describes. -/
def VariableRef.decode? : Json → Option VariableRef := VariableRef.read? false

/-- The variable a JSON value inside a union describes. -/
def VariableRef.decodeInner? : Json → Option VariableRef := VariableRef.read? true

/-- The object a JSON value describes. -/
def ObjectDesc.decode? : Json → Option ObjectDesc := ObjectDesc.read? false

/-- The object a JSON value inside a union describes. -/
def ObjectDesc.decodeInner? : Json → Option ObjectDesc := ObjectDesc.read? true

end Cutscene
