/-!
# Scripts — expressions and statements

The code of a script is a list of statements: a new variable, an assignment to a place,
an expression, a conditional or a block. A place is a variable and a chain of
links into it, and the same chains read: a property, a method or an index of
what stands before. A block is an expression too, of its last statement's
value; a conditional in an operand is a block of one statement.
-/

namespace Cutscene

namespace Script

/-- An operator between two operands, both of which are computed. -/
inductive Operator where
  | add
  | sub
  | mul
  | div
  | mod
  | equal
  | unequal
  | less
  | lessOrEqual
  | greater
  | greaterOrEqual
  deriving DecidableEq, Repr, Inhabited

/-- Does the operator compute rather than compare? Those also combine with an
assignment. -/
def Operator.isArithmetic : Operator → Bool
  | .add | .sub | .mul | .div | .mod => true
  | _ => false

mutual

/-- An expression. -/
inductive Expr where
  | unit
  | bool (b : Bool)
  | int (n : Int)
  | float (x : Float)
  | char (c : Char)
  | string (s : String)
  | array (items : List Expr)
  | map (fields : List (String × Expr))
  | variable (name : String)
  | chain (root : Expr) (links : List Link)
  | call (name : String) (arguments : List Expr)
  | negate (of : Expr)
  | plus (of : Expr)
  | not (of : Expr)
  | binary (operator : Operator) (left right : Expr)
  | and (left right : Expr)
  | or (left right : Expr)
  | block (body : List Stmt)

/-- One step from a value to what it holds. -/
inductive Link where
  | property (name : String)
  | method (name : String) (arguments : List Expr)
  | index (offset : Expr)

/-- A statement. -/
inductive Stmt where
  | letVariable (name : String) (value : Expr)
  | assign (name : String) (links : List Link) (operator : Option Operator) (value : Expr)
  | expr (e : Expr)
  | branch (condition : Expr) (yes no : List Stmt)
  | block (body : List Stmt)
  | nothing

end

instance : Inhabited Expr := ⟨.unit⟩
instance : Inhabited Link := ⟨.property ""⟩
instance : Inhabited Stmt := ⟨.nothing⟩

end Script

/-- The code of a script. -/
abbrev Script.Code := List Script.Stmt

end Cutscene
