/-!
# Programs — keys and places

Every body of instructions has a program of its own, found under a key that
says where the body stands: in which program, at which instruction, and which
of its bodies. A place is a program and the index of a step in it.
-/

namespace Cutscene

/-- Which of an instruction's bodies. -/
inductive Slot where
  | branch (index : Nat)
  | otherwise
  | case (index : Nat)
  | default
  | body
  | choice (index : Nat)
  | independent
  deriving DecidableEq, Repr, Inhabited

/-- The slot's name in a key. -/
def Slot.text : Slot → String
  | .branch index => "then" ++ toString index
  | .otherwise => "else"
  | .case index => "case" ++ toString index
  | .default => "default"
  | .body => "body"
  | .choice index => "choice" ++ toString index
  | .independent => "independent"

/-- Where a body stands. -/
inductive BodyKey where
  | root (event : String)
  | child (parent : BodyKey) (position : Nat) (slot : Slot)
  deriving DecidableEq, Repr, Inhabited

namespace BodyKey

/-- The key as text. -/
def text : BodyKey → String
  | .root event => event
  | .child parent position slot =>
    parent.text ++ "/" ++ toString position ++ ":" ++ slot.text

/-- The name of the event that the body belongs to. -/
def event : BodyKey → String
  | .root event => event
  | .child parent _ _ => parent.event

end BodyKey

/-- The event a key's text names: what stands before the first slash. -/
def BodyKey.eventOfText (text : String) : String :=
  String.ofList (text.toList.takeWhile (· ≠ '/'))

/-- A step of a program. -/
structure Place where
  program : BodyKey
  index : Nat
  deriving DecidableEq, Repr, Inhabited

/-- The place so many steps further on. -/
def Place.plus (p : Place) (count : Nat) : Place := { p with index := p.index + count }

end Cutscene
