import Cutscene.Decimal.Scaled
import Cutscene.Descriptor.Operand
/-!
# Actions — arithmetic

An author writes a sum as a row of terms, each with the operator that joins
it to the term before and the depth of the brackets around that operator.
`NumberTree.ofTerms?` makes a tree of the row: the strongest operator binds
first, of several the leftmost, where depth counts before the operator's own
strength. `NumberTree.compute` computes a tree from left to right and gives
up at the first operand without a value and at the first result that is not
finite.
-/

namespace Cutscene

/-- An operator between two numbers. -/
inductive Arithmetic where
  | add
  | sub
  | mul
  | div
  | mod
  deriving DecidableEq, Repr, Inhabited

namespace Arithmetic

/-- The operators by name. -/
def names : List (String × Arithmetic) :=
  [("add", .add), ("sub", .sub), ("mul", .mul), ("div", .div), ("mod", .mod)]

/-- What the operator yields; the remainder has the sign of the first. -/
def apply : Arithmetic → Float → Float → Float
  | .add, a, b => a + b
  | .sub, a, b => a - b
  | .mul, a, b => a * b
  | .div, a, b => a / b
  | .mod, a, b => Decimal.remainder a b

/-- Does the operator bind more strongly than a sum? -/
def isProduct : Arithmetic → Bool
  | .add | .sub => false
  | .mul | .div | .mod => true

end Arithmetic

/-- A number, if it is finite. -/
def finite? (x : Float) : Option Float := if x.isFinite then some x else none

/-- A term of a row. -/
structure Term where
  operator : Arithmetic
  operand : NumberInput
  depth : Nat
  deriving Inhabited

/-- The term of a JSON value. -/
def Term.decode? (j : Json) : Option Term := do
  let r ← j.plainRecord? ["operation", "operand", "depth"]
  let operator ← r.orElse "operation" (Json.oneOf? Arithmetic.names) .add
  let operand ← r.required "operand" NumberInput.decode?
  let depth ← r.orElse "depth" Json.word32? 0
  pure ⟨operator, operand, depth⟩

/-- A sum as a tree. -/
inductive NumberTree where
  | leaf (operand : NumberInput)
  | node (operator : Arithmetic) (left right : NumberTree)
  deriving Inhabited

namespace NumberTree

/-- A tree and the operator that joins it to what stands before. -/
structure Link where
  operator : Arithmetic
  depth : Nat
  tree : NumberTree

/-- The greatest depth and strength told apart. -/
def ceiling : Nat := UInt32.size - 1

/-- How strongly a link's operator binds: by depth, then by itself. -/
def Link.strength (l : Link) : Nat :=
  min ceiling (min ceiling (2 * l.depth) + (if l.operator.isProduct then 2 else 1))

/-- Joins the leftmost of the strongest links with what stands before it. -/
def joinStrongest (first : NumberTree) : List Link → NumberTree × List Link
  | [] => (first, [])
  | link :: rest =>
    if rest.all fun l => l.strength ≤ link.strength then
      (.node link.operator first link.tree, rest)
    else
      let (tree, rest) := joinStrongest link.tree rest
      (first, { link with tree } :: rest)

/-- A join uses up one link. -/
theorem length_joinStrongest (first link : NumberTree) (operator : Arithmetic) (depth : Nat)
    (links : List Link) :
    (joinStrongest first (⟨operator, depth, link⟩ :: links)).2.length = links.length := by
  induction links generalizing first link operator depth with
  | nil => rfl
  | cons l links ih =>
    obtain ⟨o, d, t⟩ := l
    rw [joinStrongest]
    split
    · rfl
    · simp only [List.length_cons, ih]

/-- Joins until one tree is left. -/
def join (first : NumberTree) : List Link → NumberTree
  | [] => first
  | ⟨operator, depth, tree⟩ :: links =>
    let joined := joinStrongest first (⟨operator, depth, tree⟩ :: links)
    join joined.1 joined.2
termination_by links => links.length
decreasing_by
  rw [length_joinStrongest]
  simp

/-- The tree of a row of terms; the first one's own operator joins nothing. -/
def ofTerms? : List Term → Option NumberTree
  | [] => none
  | first :: rest =>
    some (join (.leaf first.operand) (rest.map fun t => ⟨t.operator, t.depth, .leaf t.operand⟩))

/-- Computes the tree in the order of its leaves. -/
def compute {m : Type → Type} [Monad m] (read : NumberInput → m (Option Float)) :
    NumberTree → m (Option Float)
  | .leaf operand => read operand
  | .node operator left right => do
    match ← left.compute read with
    | none => pure none
    | some a =>
      match ← right.compute read with
      | none => pure none
      | some b => pure (finite? (operator.apply a b))

end NumberTree

end Cutscene
