import Cutscene.Random
import Cutscene.Script.Data
/-!
# Scripts — running

A script runs over a scope of variables, the newest first, and the random
generator. It may fail; what it assigned before stays. Operands are computed
from left to right, but the operands of a chain's links before its root, and
an assignment's value before its place.
-/

namespace Cutscene

namespace Script

/-- The variables in scope, the newest first, and the random generator. -/
structure State where
  scope : List (String × Data)
  random : Random

/-- A computation that may fail, keeping the state it failed in. -/
abbrev Eval (α : Type) := OptionT (StateM State) α

namespace Eval

/-- The computation that fails. -/
def fail {α : Type} : Eval α := fun s => (none, s)

/-- What may be missing. -/
def ofOption {α : Type} (a : Option α) : Eval α := fun s => (a, s)

/-- The value of a variable. -/
def read (name : String) : Eval Data := fun s => (s.scope.lookup name, s)

/-- The boolean that data is. -/
def holds : Data → Eval Bool
  | .bool b => pure b
  | _ => fail

/-- Sets the newest variable of a name. -/
def set (name : String) (d : Data) : Eval Unit := fun s =>
  let rec go : List (String × Data) → List (String × Data)
    | [] => []
    | (n, old) :: rest => if n == name then (n, d) :: rest else (n, old) :: go rest
  (some (), { s with scope := go s.scope })

/-- Adds a variable. -/
def declare (name : String) (d : Data) : Eval Unit := fun s =>
  (some (), { s with scope := (name, d) :: s.scope })

/-- Draws a number below a bound between one and the largest word. -/
def random (bound : Data) : Eval Data := fun s =>
  match bound with
  | .int n =>
    if 1 ≤ n ∧ n < UInt32.size then
      let (drawn, random) := s.random.below n.toNat
      (some (.int drawn), { s with random })
    else (none, s)
  | _ => (none, s)

/-- Runs a block, dropping the variables it added. -/
def block {α : Type} (body : Eval α) : Eval α := fun s =>
  let (a, t) := body s
  (a, { t with scope := t.scope.drop (t.scope.length - s.scope.length) })

end Eval

/-- Calls a function or, what is the same, a method of its first argument. -/
def Eval.call (name : String) (arguments : List Data) : Eval Data :=
  match name, arguments with
  | "random", [bound] => Eval.random bound
  | "len", [d] => Eval.ofOption (Data.length? d)
  | _, _ => Eval.fail

/-- One step from data to what it holds, its operands computed. -/
inductive Step where
  | property (name : String)
  | method (name : String) (arguments : List Data)
  | index (offset : Data)

/-- What stands at the end of a chain, a missing field being the unit. -/
def Eval.follow : List Step → Data → Eval Data
  | [], d => pure d
  | .property name :: rest, d => do follow rest (← Eval.ofOption (Data.property? name d))
  | .method name arguments :: rest, d => do follow rest (← Eval.call name (d :: arguments))
  | .index offset :: rest, d => do follow rest (← Eval.ofOption (Data.index? offset d))

/-- The data with the end of a chain replaced. -/
def Data.replace? (new : Data) : List Step → Data → Option Data
  | [], _ => some new
  | .property name :: rest, .map fields =>
    (replace? new rest ((fields.lookup name).getD .unit)).map fun d =>
      .map (Entries.insert name d fields)
  | .index offset :: rest, d =>
    (Data.index? offset d).bind fun old =>
      (replace? new rest old).bind fun part => Data.setIndex? part offset d
  | _, _ => none

mutual

/-- Computes an expression. -/
def Expr.eval : Expr → Eval Data
  | .unit => pure .unit
  | .bool b => pure (.bool b)
  | .int n => pure (.int n)
  | .float x => pure (.float x)
  | .char c => pure (.char c)
  | .string s => pure (.string s)
  | .array items => do pure (.array (← evalItems items))
  | .map fields => do pure (.map (Entries.ofList (← evalFields fields)))
  | .variable name => Eval.read name
  | .chain root links => do
    let steps ← evalLinks links
    Eval.follow steps (← root.eval)
  | .call name (.variable first :: rest) => do
    let arguments ← evalItems rest
    Eval.call name ((← Eval.read first) :: arguments)
  | .call name arguments => do Eval.call name (← evalItems arguments)
  | .negate e => do Eval.ofOption (Data.negate? (← e.eval))
  | .plus e => do Eval.ofOption (Data.number? (← e.eval))
  | .not e => do Eval.ofOption (Data.not? (← e.eval))
  | .binary operator left right => do
    let a ← left.eval
    let b ← right.eval
    Eval.ofOption (Data.operate? operator a b)
  | .and left right => do
    if ← Eval.holds (← left.eval) then pure (.bool (← Eval.holds (← right.eval)))
    else pure (.bool false)
  | .or left right => do
    if ← Eval.holds (← left.eval) then pure (.bool true)
    else pure (.bool (← Eval.holds (← right.eval)))
  | .block body => Eval.block (evalStmts body)

/-- Computes expressions in order. -/
def evalItems : List Expr → Eval (List Data)
  | [] => pure []
  | e :: rest => do
    let d ← e.eval
    let ds ← evalItems rest
    pure (d :: ds)

/-- Computes the fields of a map in order. -/
def evalFields : List (String × Expr) → Eval (List (String × Data))
  | [] => pure []
  | (name, e) :: rest => do
    let d ← e.eval
    let ds ← evalFields rest
    pure ((name, d) :: ds)

/-- Computes the operands of links in order. -/
def evalLinks : List Link → Eval (List Step)
  | [] => pure []
  | .property name :: rest => do
    let steps ← evalLinks rest
    pure (.property name :: steps)
  | .method name arguments :: rest => do
    let ds ← evalItems arguments
    let steps ← evalLinks rest
    pure (.method name ds :: steps)
  | .index offset :: rest => do
    let d ← offset.eval
    let steps ← evalLinks rest
    pure (.index d :: steps)

/-- Runs a statement; an assignment has no value. -/
def Stmt.eval : Stmt → Eval Data
  | .letVariable name value => do
    let d ← value.eval
    Eval.declare name d
    pure .unit
  | .assign name links operator value => do
    let new ← value.eval
    let steps ← evalLinks links
    let base ← Eval.read name
    let new ← match operator with
      | none => pure new
      | some operator => do
        let old ← Eval.follow steps base
        Eval.ofOption (Data.update? operator old new)
    Eval.set name (← Eval.ofOption (Data.replace? new steps base))
    pure .unit
  | .expr e => e.eval
  | .branch condition yes no => do
    if ← Eval.holds (← condition.eval) then Eval.block (evalStmts yes)
    else Eval.block (evalStmts no)
  | .block body => Eval.block (evalStmts body)
  | .nothing => pure .unit

/-- Runs statements; the value is that of the last. -/
def evalStmts : List Stmt → Eval Data
  | [] => pure .unit
  | [s] => s.eval
  | s :: next :: rest => do
    let _ ← s.eval
    evalStmts (next :: rest)

end

/-- Runs code: its value unless it fails, and the state it leaves. -/
def Code.run (code : Code) (state : State) : Option Data × State := (evalStmts code).run state

end Script

end Cutscene
