import Cutscene.Script.Data
import Cutscene.Script.Parser
/-!
# Scripts — before they run

Code is simplified once it is read: operators on literals are computed,
conditionals on literals decided, nested blocks merged, and statements that
only look at things dropped. A script that runs to its end does the same as
before. One that would fail may not: a dropped statement no longer fails, so
an unknown variable is only missed where its value is wanted.

* `Code.simplified` — the code that runs;
* `Code.parse?` — the code of a text, ready to run.
-/

namespace Cutscene

namespace Script

/-! ## Literals -/

mutual

/-- The data of a literal. -/
def Expr.literal? : Expr → Option Data
  | .unit => some .unit
  | .bool b => some (.bool b)
  | .int n => some (.int n)
  | .float x => some (.float x)
  | .char c => some (.char c)
  | .string s => some (.string s)
  | .array items => (literalItems? items).map .array
  | .map fields => (literalFields? fields).map fun fields => .map (Entries.ofList fields)
  | _ => none

/-- The data of literals. -/
def literalItems? : List Expr → Option (List Data)
  | [] => some []
  | e :: rest =>
    match e.literal?, literalItems? rest with
    | some d, some ds => some (d :: ds)
    | _, _ => none

/-- The data of literal fields. -/
def literalFields? : List (String × Expr) → Option (List (String × Data))
  | [] => some []
  | (name, e) :: rest =>
    match e.literal?, literalFields? rest with
    | some d, some ds => some ((name, d) :: ds)
    | _, _ => none

end

mutual

/-- The literal of data. -/
def Expr.ofData : Data → Expr
  | .unit => .unit
  | .bool b => .bool b
  | .int n => .int n
  | .float x => .float x
  | .char c => .char c
  | .string s => .string s
  | .array items => .array (ofItems items)
  | .map fields => .map (ofFields fields)

/-- The literals of items. -/
def ofItems : List Data → List Expr
  | [] => []
  | d :: rest => .ofData d :: ofItems rest

/-- The literals of fields. -/
def ofFields : List (String × Data) → List (String × Expr)
  | [] => []
  | (name, d) :: rest => (name, .ofData d) :: ofFields rest

end

/-- What an operator yields on two literals, where that is settled before a
run. Two arrays or two maps are left to the run; of booleans `false` is here
the lesser one. -/
def settled? (operator : Operator) : Data → Data → Option Data
  | .array _, .array _ => none
  | .map _, .map _ => none
  | .bool a, .bool b =>
    match operator with
    | .less => some (.bool (!a && b))
    | .lessOrEqual => some (.bool (!a || b))
    | .greater => some (.bool (a && !b))
    | .greaterOrEqual => some (.bool (a || !b))
    | operator => Data.operate? operator (.bool a) (.bool b)
  | a, b => Data.operate? operator a b

/-- A binary operator, computed if its operands are literals. -/
def computed (operator : Operator) (left right : Expr) : Expr :=
  match left.literal?, right.literal? with
  | some a, some b => ((settled? operator a b).map Expr.ofData).getD (.binary operator left right)
  | _, _ => .binary operator left right

/-! ## Looking without touching -/

mutual

/-- Does the expression only look at things? -/
def Expr.isPure : Expr → Bool
  | .unit | .bool _ | .int _ | .float _ | .char _ | .string _ | .variable _ => true
  | .array items => pureItems items
  | .map fields => pureFields fields
  | .and a b => a.isPure && b.isPure
  | .or a b => a.isPure && b.isPure
  | .block body => pureStmts body
  | _ => false

/-- Do all the expressions only look at things? -/
def pureItems : List Expr → Bool
  | [] => true
  | e :: rest => e.isPure && pureItems rest

/-- Do all the fields only look at things? -/
def pureFields : List (String × Expr) → Bool
  | [] => true
  | (_, e) :: rest => e.isPure && pureFields rest

/-- Does the statement only look at things? -/
def Stmt.isPure : Stmt → Bool
  | .nothing => true
  | .expr e => e.isPure
  | .branch c yes no => c.isPure && pureStmts yes && pureStmts no
  | .block body => pureStmts body
  | .letVariable .. | .assign .. => false

/-- Do all the statements only look at things? -/
def pureStmts : List Stmt → Bool
  | [] => true
  | s :: rest => s.isPure && pureStmts rest

end

mutual

/-- Does the statement leave no trace outside its block? It may add variables
to the block. -/
def Stmt.isLocal : Stmt → Bool
  | .letVariable _ value => value.isPure
  | .expr (.block body) => localStmts body
  | s => s.isPure

/-- Do all the statements leave no trace outside their block? -/
def localStmts : List Stmt → Bool
  | [] => true
  | s :: rest => s.isLocal && localStmts rest

end

/-- Does the statement belong to its block, so that it cannot stand in
another? -/
def Stmt.isBound : Stmt → Bool
  | .letVariable .. => true
  | _ => false

/-- Has the statement a value? -/
def Stmt.hasValue : Stmt → Bool
  | .expr _ | .branch .. | .block _ => true
  | .letVariable .. | .assign .. | .nothing => false

/-! ## Dropping statements -/

/-- Where a body is: one inside braces ends its variables with it. -/
inductive Placement where
  | whole
  | inside
  deriving DecidableEq, Repr

/-- May the statement go when it stands at the end of such a body? -/
def Stmt.isIdle (place : Placement) (s : Stmt) : Bool :=
  match place with
  | .whole => s.isPure
  | .inside => s.isLocal

/-- Does the statement keep those before it that are idle but not pure? -/
def Stmt.holdsBack (place : Placement) (s : Stmt) : Bool :=
  !s.isIdle place || match s with
    | .letVariable _ value => value.literal?.isSome
    | .expr e => e.literal?.isNone
    | _ => false

/-- The statements without those that only look at things, the last one aside.
Idle ones go from the last on that holds back. -/
def dropIdle (place : Placement) (ss : List Stmt) : List Stmt :=
  let held := (ss.zipIdx.filter fun (s, _) => s.holdsBack place).getLast?.elim 0 (·.2)
  (ss.zipIdx.filter fun (s, i) =>
    i + 1 = ss.length || !(s.isPure || (s.isIdle place && held ≤ i))).map (·.1)

/-- The statements, the last one first, without idle ones that have no value.
Where one of them hid a value, nothing stands in its place. -/
def dropTail (place : Placement) : List Stmt → List Stmt
  | [] => []
  | [s] => if !s.hasValue && s.isIdle place then [] else [s]
  | last :: s :: rest =>
    if !last.hasValue && last.isIdle place then
      if s.hasValue then .nothing :: s :: rest else dropTail place (s :: rest)
    else last :: s :: rest

/-- Drops statements as long as that makes fewer of them, and once more. -/
def tidy (place : Placement) : Nat → List Stmt → List Stmt
  | 0, ss => ss
  | rounds + 1, ss =>
    let fewer := (dropTail place (dropIdle place ss).reverse).reverse
    if fewer.length < ss.length then tidy place rounds fewer
    else (dropTail place (dropIdle place fewer).reverse).reverse

/-! ## Blocks -/

mutual

/-- What stands in place of a statement: of a block that ends no variables, its
statements. -/
def Stmt.opened : Stmt → List Stmt
  | .block body => if body.any Stmt.isBound then [.block body] else merged body
  | s => [s]

/-- The statements with those of blocks that end no variables put in place of
the blocks. -/
def merged : List Stmt → List Stmt
  | [] => []
  | s :: rest => s.opened ++ merged rest

end

/-- The body of a block from its simplified statements. -/
def body (ss : List Stmt) : List Stmt := tidy .inside ss.length (merged ss)

/-- A statement for a body: itself, if there is just one that can stand
elsewhere. -/
def Stmt.ofBody : List Stmt → Stmt
  | [] => .nothing
  | [s] => if s.isBound then .block [s] else s
  | ss => .block ss

/-- An expression for a body: itself, if there is just one. -/
def Expr.ofBody : List Stmt → Expr
  | [] => .unit
  | [.expr (.binary operator left right)] => computed operator left right
  | [.expr e] => e
  | ss => .block ss

/-! ## Simplifying -/

/-- A chain of one link is computed on a literal that has it, if the rest of
the literal only looks at things. -/
def linked (root : Expr) (links : List Link) : Expr :=
  let kept : Expr := .chain root links
  match root, links with
  | .map fields, [.property name] =>
    if root.isPure then (fields.lookup name).getD .unit else kept
  | .map fields, [.index (.string name)] =>
    if root.isPure then (fields.lookup name).getD .unit else kept
  | .array items, [.index (.int offset)] =>
    if root.isPure then ((Data.position? items.length offset).bind (items[·]?)).getD kept else kept
  | .string s, [.index (.int offset)] =>
    ((Data.index? (.int offset) (.string s)).map Expr.ofData).getD kept
  | .int n, [.index (.int offset)] =>
    ((Data.index? (.int offset) (.int n)).map Expr.ofData).getD kept
  | _, _ => kept

/-- A conjunction without the operands that settle nothing, or settled. -/
def conjoined : Expr → Expr → Expr
  | .bool true, right => right
  | .bool false, _ => .bool false
  | left, .bool true => left
  | left, .bool false => if left.isPure then .bool false else .and left (.bool false)
  | left, right => .and left right

/-- A disjunction without the operands that settle nothing, or settled. -/
def disjoined : Expr → Expr → Expr
  | .bool false, right => right
  | .bool true, _ => .bool true
  | left, .bool false => left
  | left, .bool true => if left.isPure then .bool true else .or left (.bool true)
  | left, right => .or left right

/-- An assignment; one that computes with the variable it sets combines the
two. The variable is then read after the value is computed. -/
def assigned (name : String) (links : List Link) (operator : Option Operator) (value : Expr) :
    Stmt :=
  match links, operator, value with
  | [], none, .binary own (.variable read) right =>
    if own.isArithmetic && read == name then .assign name [] (some own) right
    else .assign name [] none value
  | links, operator, value => .assign name links operator value

/-- A statement of an expression, which a block is by itself. -/
def stated : Expr → Stmt
  | .block ss => .ofBody ss
  | e => .expr e

/-- A conditional, decided if it can be. Without branches only the condition
is computed. -/
def decided (condition : Expr) (yes no : List Stmt) : Stmt :=
  if yes.isEmpty && no.isEmpty then .ofBody (body [stated condition, .nothing])
  else match condition with
    | .bool true => .ofBody yes
    | .bool false => .ofBody no
    | condition => .branch condition yes no

mutual

/-- An expression simplified, from its operands outwards. -/
def Expr.simplified : Expr → Expr
  | .array items => .array (simplifiedItems items)
  | .map fields => .map (simplifiedFields fields)
  | .chain root links => linked root.simplified (simplifiedLinks links)
  | .call name arguments => .call name (simplifiedItems arguments)
  | .negate e => .negate e.simplified
  | .plus e => .plus e.simplified
  | .not e => .not e.simplified
  | .binary operator left right => computed operator left.simplified right.simplified
  | .and left right => conjoined left.simplified right.simplified
  | .or left right => disjoined left.simplified right.simplified
  | .block ss => .ofBody (body (simplifiedStmts ss))
  | e => e

/-- Expressions simplified. -/
def simplifiedItems : List Expr → List Expr
  | [] => []
  | e :: rest => e.simplified :: simplifiedItems rest

/-- Fields simplified. -/
def simplifiedFields : List (String × Expr) → List (String × Expr)
  | [] => []
  | (name, e) :: rest => (name, e.simplified) :: simplifiedFields rest

/-- Links simplified. -/
def simplifiedLinks : List Link → List Link
  | [] => []
  | .property name :: rest => .property name :: simplifiedLinks rest
  | .method name arguments :: rest =>
    .method name (simplifiedItems arguments) :: simplifiedLinks rest
  | .index offset :: rest => .index offset.simplified :: simplifiedLinks rest

/-- A statement simplified. An operator that is a statement is computed only
if its operands are written as literals. -/
def Stmt.simplified : Stmt → Stmt
  | .letVariable name value => .letVariable name value.simplified
  | .assign name links operator value =>
    assigned name (simplifiedLinks links) operator value.simplified
  | .expr (.binary operator left right) =>
    if left.literal?.isSome && right.literal?.isSome then .expr (computed operator left right)
    else .expr (.binary operator left.simplified right.simplified)
  | .expr e => stated e.simplified
  | .branch condition yes no =>
    decided condition.simplified (body (simplifiedStmts yes)) (body (simplifiedStmts no))
  | .block ss => .ofBody (body (simplifiedStmts ss))
  | .nothing => .nothing

/-- Statements simplified. -/
def simplifiedStmts : List Stmt → List Stmt
  | [] => []
  | s :: rest => s.simplified :: simplifiedStmts rest

end

/-- The code that runs. Blocks are merged at the top where the text has them,
not where simplifying leaves them. -/
def Code.simplified (code : Code) : Code :=
  let ss := simplifiedStmts (merged code)
  tidy .whole ss.length ss

/-- The code of a text, ready to run. -/
def Code.parse? (text : String) : Option Code := (read? text).map simplified

end Script

end Cutscene
