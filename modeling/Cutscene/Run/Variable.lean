import Cutscene.Run.Machine
import Cutscene.Template
/-!
# Running — objects and variables

What a described object and a described variable are at a moment. A
descriptor may be nested in others `maxNesting` deep; one nested deeper
describes nothing. Reading and writing go through the same three homes and
the attributes of objects.
-/

namespace Cutscene

/-- How deeply descriptors may be nested. -/
def maxNesting : Nat := 8

namespace Machine

/-- The object that owns the context, if there still is one. -/
def owner? (m : Machine) : Option GameObject :=
  m.context.ambient.owner.bind m.world.objects.get?

/-- The variables of the context's owner. -/
def ownerVars? (m : Machine) : Option Attributes :=
  m.owner?.map fun o => (m.world.selfVars.get? o.instanceKey).getD .empty

/-- A variable of one of the three homes. -/
def homeValue? (m : Machine) (key : String) : Home → Option Value
  | .context => m.context.attributes.get? key
  | .world => m.world.globals.get? key
  | .owner => m.ownerVars?.bind (·.get? key)

/-- Changes the variables of one of the three homes. An owner that is gone
has none to change. -/
def modifyVars (m : Machine) (change : Attributes → Attributes) : Home → Machine
  | .context => { m with context.attributes := change m.context.attributes }
  | .world => { m with world.globals := change m.world.globals }
  | .owner =>
    match m.owner? with
    | none => m
    | some o =>
      let vars := (m.world.selfVars.get? o.instanceKey).getD .empty
      { m with world.selfVars := m.world.selfVars.insert o.instanceKey (change vars) }

/-- An object's number, if the object is there and of the kind asked for. -/
def live? (m : Machine) (kind : Option ObjectKind) (id : Option ObjectId) : Option ObjectId :=
  ((id.bind m.world.objects.get?).filter fun o => kind.all (o.kind == ·)).map (·.id)

/-- The variable of a reference, given how objects are found. -/
def readWith (m : Machine) (find : Option ObjectKind → ObjectDesc → Option ObjectId) :
    VariableRef → Option Value
  | .ofContext key => m.homeValue? key .context
  | .ofWorld key => m.homeValue? key .world
  | .ofOwner key => m.homeValue? key .owner
  | .ofObject scope object key =>
    ((find (some scope.kind) object).bind m.world.objects.get?).bind (·.attributes.get? key)

/-- The object that a descriptor describes, of a kind if one is asked for,
with so many descriptors left to nest. -/
def resolveWithin (m : Machine) : Nat → Option ObjectKind → ObjectDesc → Option ObjectId
  | 0, _, _ => none
  | nesting + 1, kind, desc =>
    match desc with
    | .nothing => none
    | .role role => m.live? kind (m.context.ambient.inRole role)
    | .latest => kind.bind m.world.objects.latest.get?
    | .anywhere trait text => m.world.objects.find? kind none fun o => o.trait trait == some text
    | .among trait text owner =>
      (m.resolveWithin nesting none owner).bind fun owner =>
        m.world.objects.find? kind (some owner) fun o => o.trait trait == some text
    | .partyMember index => m.live? kind m.world.objects.party[index]?
    | .variable ref =>
      m.live? kind ((m.readWith (m.resolveWithin nesting) ref).bind Value.object?)

/-- The object that a descriptor describes, of a kind if one is asked for. -/
def resolve (m : Machine) (kind : Option ObjectKind) (desc : ObjectDesc) : Option ObjectId :=
  m.resolveWithin maxNesting kind desc

/-- The variable of a reference. -/
def read (m : Machine) (ref : VariableRef) : Option Value := m.readWith m.resolve ref

/-- Changes the variables that a reference's variable belongs to. -/
def modifyAt (m : Machine) (change : String → Attributes → Attributes) : VariableRef → Machine
  | .ofContext key => m.modifyVars (change key) .context
  | .ofWorld key => m.modifyVars (change key) .world
  | .ofOwner key => m.modifyVars (change key) .owner
  | .ofObject scope object key =>
    match m.resolve (some scope.kind) object with
    | none => m
    | some id =>
      { m with world.objects := m.world.objects.modify id fun o =>
        { o with attributes := change key o.attributes } }

/-- Sets the variable of a reference. -/
def write (m : Machine) (ref : VariableRef) (v : Value) : Machine :=
  m.modifyAt (fun key vars => vars.insert key v) ref

/-- Deletes the variable of a reference. -/
def delete (m : Machine) (ref : VariableRef) : Machine :=
  m.modifyAt (fun key vars => vars.erase key) ref

/-- The text of a piece: a variable that is not set has none. -/
def textOf (m : Machine) : Piece → String
  | .literal text => text
  | .placeholder home key => ((m.homeValue? key home).map Value.text).getD ""

end Machine

/-- The text of a template at a moment. -/
def Template.render (t : Template) (m : Machine) : String :=
  t.pieces.foldl (fun text piece => text ++ m.textOf piece) ""

/-- A template that is a text by itself renders to that text at any moment. -/
theorem Template.render_of_static? {t : Template} {text : String} (h : t.static? = some text)
    (m : Machine) : t.render m = text := by
  unfold static? at h
  split at h
  · obtain rfl := Option.some.inj h
    rw [render, ‹t.pieces = []›, List.foldl_nil]
  · obtain rfl := Option.some.inj h
    rw [render, ‹t.pieces = _›, List.foldl_cons, List.foldl_nil, String.empty_append,
      Machine.textOf]
  · simp at h

end Cutscene
