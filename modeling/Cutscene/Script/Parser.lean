import Cutscene.Script.Basic
import Cutscene.Script.Token
/-!
# Scripts — reading

Code from its tokens, by recursive descent. Binary operators associate to
the left and bind by `strength`. Statements end with a semicolon, except the
last of a block and those that end with a brace, which need none. A text
outside the grammar is no code, nor is one that nests deeper than `deepest`:
signs, brackets, operators in a row, blocks and links all count.

Some mistakes show in the text already and make it no code either: a literal
that is no boolean where one must stand, an index that a literal cannot have,
and an assignment to something that is no place.
-/

namespace Cutscene

namespace Script

/-- How strongly a binary operator binds. -/
def strength (symbol : String) : Option Nat :=
  [("||", 1), ("&&", 2), ("==", 3), ("!=", 3), ("<", 4), ("<=", 4), (">", 4), (">=", 4),
   ("+", 5), ("-", 5), ("*", 6), ("/", 6), ("%", 6)].lookup symbol

/-- Can the expression be a boolean, as far as the text tells? -/
def Expr.mayBeBool : Expr → Bool
  | .unit | .int _ | .float _ | .char _ | .string _ | .array _ | .map _ => false
  | _ => true

/-- The expression of a binary operator. -/
def combine? (symbol : String) (left right : Expr) : Option Expr :=
  match symbol with
  | "||" => if left.mayBeBool && right.mayBeBool then some (.or left right) else none
  | "&&" => if left.mayBeBool && right.mayBeBool then some (.and left right) else none
  | "==" => some (.binary .equal left right)
  | "!=" => some (.binary .unequal left right)
  | "<" => some (.binary .less left right)
  | "<=" => some (.binary .lessOrEqual left right)
  | ">" => some (.binary .greater left right)
  | ">=" => some (.binary .greaterOrEqual left right)
  | "+" => some (.binary .add left right)
  | "-" => some (.binary .sub left right)
  | "*" => some (.binary .mul left right)
  | "/" => some (.binary .div left right)
  | _ => some (.binary .mod left right)

/-- The operator an assignment combines with, if the symbol assigns. -/
def assignment? (symbol : String) : Option (Option Operator) :=
  [("=", none), ("+=", some Operator.add), ("-=", some .sub), ("*=", some .mul),
   ("/=", some .div), ("%=", some .mod)].lookup symbol

/-- The negation of an expression, done at once on numbers. A whole number
without a negation of 64 bits becomes a float. -/
def negated : Expr → Expr
  | .int n => if fitsInt (-n) then .int (-n) else .float (Decimal.nearest false n.natAbs 0)
  | .float x => .float (-x)
  | e => .negate e

/-- An expression with a plus sign, which numbers do without. -/
def signed : Expr → Expr
  | .int n => .int n
  | .float x => .float x
  | e => .plus e

/-- A chain of links, if there are any. -/
def chained (root : Expr) (links : List Link) : Expr :=
  if links.isEmpty then root else .chain root links

/-- Can what the text tells of the index be an index of what it tells of the
root? -/
def Link.fits (root : Expr) : Link → Bool
  | .property _ | .method .. => true
  | .index offset =>
    match root with
    | .map _ =>
      match offset with
      | .unit | .bool _ | .int _ | .float _ | .char _ | .and .. | .or .. => false
      | _ => true
    | .int _ | .array _ | .string _ =>
      match offset with
      | .unit | .bool _ | .float _ | .char _ | .string _ | .and .. | .or .. => false
      | _ => true
    | .unit | .bool _ | .float _ | .char _ | .and .. | .or .. => false
    | _ => true

/-- Is the link part of a place? -/
def Link.isPlace : Link → Bool
  | .method .. => false
  | _ => true

/-- The place an expression is: a variable and the links into it. -/
def place? : Expr → Option (String × List Link)
  | .variable name => some (name, [])
  | .chain (.variable name) links => if links.all Link.isPlace then some (name, links) else none
  | _ => none

/-- Does the statement end with a brace, so that it needs no semicolon? -/
def Stmt.endsItself : Stmt → Bool
  | .branch .. | .block _ => true
  | _ => false

/-- How deep a script may nest. -/
def deepest : Nat := 64

/-- One level deeper, if that is not too deep. -/
def deeper? (level : Nat) : Option Nat := if level < deepest then some (level + 1) else none

mutual

/-- An expression. -/
def expr? : Nat → Nat → List Token → Option (Expr × List Token)
  | 0, _, _ => none
  | fuel + 1, level, ts => do
    let (left, rest) ← unary? fuel level ts
    operators? fuel (← deeper? level) 0 left rest

/-- A left operand with the operators after it that bind more strongly than
`weakest`. -/
def operators? : Nat → Nat → Nat → Expr → List Token → Option (Expr × List Token)
  | 0, _, _, _, _ => none
  | fuel + 1, level, weakest, left, .symbol s :: rest =>
    match strength s with
    | none => some (left, .symbol s :: rest)
    | some own =>
      if own ≤ weakest then some (left, .symbol s :: rest)
      else do
        let next ← deeper? level
        let (right, rest) ← unary? fuel level rest
        let (right, rest) ← operators? fuel next own right rest
        operators? fuel next weakest (← combine? s left right) rest
  | _ + 1, _, _, left, ts => some (left, ts)

/-- An operand with the signs in front of it. -/
def unary? : Nat → Nat → List Token → Option (Expr × List Token)
  | 0, _, _ => none
  | fuel + 1, level, ts => do
    let level ← deeper? level
    match ts with
    | .symbol "-" :: rest => (unary? fuel level rest).map fun (e, rest) => (negated e, rest)
    | .symbol "+" :: rest => (unary? fuel level rest).map fun (e, rest) => (signed e, rest)
    | .symbol "!" :: rest => (unary? fuel level rest).map fun (e, rest) => (.not e, rest)
    | ts => operand? fuel level ts

/-- An operand with the links after it. -/
def operand? : Nat → Nat → List Token → Option (Expr × List Token)
  | 0, _, _ => none
  | fuel + 1, level, ts => do
    let level ← deeper? level
    let (root, rest) ← primary? fuel level ts
    let (links, rest) ← links? fuel level rest
    if (links.take 1).all (Link.fits root) then pure (chained root links, rest) else none

/-- The properties, methods and indexes that follow an operand. -/
def links? : Nat → Nat → List Token → Option (List Link × List Token)
  | 0, _, _ => none
  | fuel + 1, level, .symbol "." :: .name s :: .symbol "(" :: rest => do
    let level ← deeper? level
    let (items, rest) ← arguments? fuel level ")" rest
    let (links, rest) ← links? fuel level rest
    pure (.method s items :: links, rest)
  | fuel + 1, level, .symbol "." :: .name s :: rest => do
    let (links, rest) ← links? fuel (← deeper? level) rest
    pure (.property s :: links, rest)
  | _ + 1, _, .symbol "." :: _ => none
  | fuel + 1, level, .symbol "[" :: rest => do
    let inner ← deeper? level
    let (offset, rest) ← expr? fuel inner rest
    match rest with
    | .symbol "]" :: .symbol "[" :: rest =>
      let (links, rest) ← links? fuel inner (.symbol "[" :: rest)
      pure (.index offset :: links, rest)
    | .symbol "]" :: rest =>
      let (links, rest) ← links? fuel level rest
      pure (.index offset :: links, rest)
    | _ => none
  | _ + 1, _, ts => some ([], ts)

/-- Expressions between commas up to a closing symbol; a comma may stand
before it. -/
def arguments? : Nat → Nat → String → List Token → Option (List Expr × List Token)
  | 0, _, _, _ => none
  | fuel + 1, level, close, ts =>
    match ts with
    | .symbol s :: rest =>
      if s = close then some ([], rest) else argumentList? fuel level close ts
    | ts => argumentList? fuel level close ts

/-- At least one expression, and the rest up to a closing symbol. -/
def argumentList? : Nat → Nat → String → List Token → Option (List Expr × List Token)
  | 0, _, _, _ => none
  | fuel + 1, level, close, ts => do
    let (e, rest) ← expr? fuel (← deeper? level) ts
    match rest with
    | .symbol s :: rest =>
      if s = close then pure ([e], rest)
      else if s = "," then (arguments? fuel level close rest).map fun (es, rest) => (e :: es, rest)
      else none
    | _ => none

/-- The fields of a map up to its closing brace. -/
def mapFields? : Nat → Nat → List Token → Option (List (String × Expr) × List Token)
  | 0, _, _ => none
  | _ + 1, _, .symbol "\x7d" :: rest => some ([], rest)
  | fuel + 1, level, key :: .symbol ":" :: rest => do
    let name ← match key with
      | .name s => some s
      | .string s => some s
      | _ => none
    let (e, rest) ← expr? fuel (← deeper? level) rest
    match rest with
    | .symbol "\x7d" :: rest => pure ([(name, e)], rest)
    | .symbol "," :: rest =>
      let (fields, rest) ← mapFields? fuel level rest
      if fields.any (·.1 == name) then none else pure ((name, e) :: fields, rest)
    | _ => none
  | _ + 1, _, _ => none

/-- A literal, a variable, a call, a bracketed expression, a conditional or a
block. -/
def primary? : Nat → Nat → List Token → Option (Expr × List Token)
  | 0, _, _ => none
  | _ + 1, _, .int n :: rest => some (.int n, rest)
  | _ + 1, _, .float x :: rest => some (.float x, rest)
  | _ + 1, _, .char c :: rest => some (.char c, rest)
  | _ + 1, _, .string s :: rest => some (.string s, rest)
  | _ + 1, _, .keyword "true" :: rest => some (.bool true, rest)
  | _ + 1, _, .keyword "false" :: rest => some (.bool false, rest)
  | fuel + 1, level, .keyword "if" :: rest =>
    (conditional? fuel level rest).map fun (s, rest) => (.block [s], rest)
  | fuel + 1, level, .symbol "\x7b" :: rest =>
    (block? fuel level (.symbol "\x7b" :: rest)).map fun (body, rest) => (.block body, rest)
  | fuel + 1, level, .name s :: .symbol "(" :: rest =>
    (arguments? fuel level ")" rest).map fun (items, rest) => (.call s items, rest)
  | _ + 1, _, .name s :: rest => some (.variable s, rest)
  | _ + 1, _, .symbol "(" :: .symbol ")" :: rest => some (.unit, rest)
  | fuel + 1, level, .symbol "(" :: rest => do
    let (e, rest) ← expr? fuel (← deeper? level) rest
    match rest with
    | .symbol ")" :: rest => pure (e, rest)
    | _ => none
  | fuel + 1, level, .symbol "[" :: rest =>
    (arguments? fuel level "]" rest).map fun (items, rest) => (.array items, rest)
  | fuel + 1, level, .symbol "#\x7b" :: rest =>
    (mapFields? fuel level rest).map fun (fields, rest) => (.map fields, rest)
  | _ + 1, _, _ => none

/-- A conditional after its keyword. -/
def conditional? : Nat → Nat → List Token → Option (Stmt × List Token)
  | 0, _, _ => none
  | fuel + 1, level, ts => do
    let level ← deeper? level
    if ts.head? = some (.symbol "\x7b") then none
    let (condition, rest) ← expr? fuel level ts
    if !condition.mayBeBool then none
    let (yes, rest) ← block? fuel level rest
    match rest with
    | .keyword "else" :: .keyword "if" :: rest =>
      (conditional? fuel level rest).map fun (s, rest) => (.branch condition yes [s], rest)
    | .keyword "else" :: rest =>
      (block? fuel level rest).map fun (no, rest) => (.branch condition yes no, rest)
    | rest => pure (.branch condition yes [], rest)

/-- Statements between braces. -/
def block? : Nat → Nat → List Token → Option (List Stmt × List Token)
  | 0, _, _ => none
  | fuel + 1, level, .symbol "\x7b" :: rest => do
    let (body, rest) ← statements? fuel (← deeper? level) true rest
    match rest with
    | .symbol "\x7d" :: rest => pure (body, rest)
    | _ => none
  | _ + 1, _, _ => none

/-- Statements up to a closing brace or the end; those of a block are one
level deeper. -/
def statements? : Nat → Nat → Bool → List Token → Option (List Stmt × List Token)
  | 0, _, _, _ => none
  | _ + 1, _, _, [] => some ([], [])
  | _ + 1, _, _, .symbol "\x7d" :: rest => some ([], .symbol "\x7d" :: rest)
  | fuel + 1, level, inBlock, .symbol ";" :: rest => statements? fuel level inBlock rest
  | fuel + 1, level, inBlock, ts => do
    let (s, rest) ← statement? fuel (← if inBlock then deeper? level else some level) ts
    let goesOn : Bool := s.endsItself || match rest with
      | [] => true
      | .symbol ";" :: _ => true
      | .symbol "\x7d" :: _ => true
      | _ => false
    if goesOn then (statements? fuel level inBlock rest).map fun (ss, rest) => (s :: ss, rest)
    else none

/-- One statement, without the semicolon after it. -/
def statement? : Nat → Nat → List Token → Option (Stmt × List Token)
  | 0, _, _ => none
  | fuel + 1, level, .keyword "if" :: rest => conditional? fuel level rest
  | fuel + 1, level, .symbol "\x7b" :: rest =>
    (block? fuel level (.symbol "\x7b" :: rest)).map fun (body, rest) => (.block body, rest)
  | fuel + 1, level, .keyword "let" :: .name s :: .symbol "=" :: rest => do
    let (e, rest) ← expr? fuel (← deeper? level) rest
    pure (.letVariable s e, rest)
  | _ + 1, _, .keyword "let" :: .name s :: rest => some (.letVariable s .unit, rest)
  | fuel + 1, level, ts => do
    let (e, rest) ← expr? fuel level ts
    match rest with
    | .symbol s :: after =>
      match assignment? s with
      | none => pure (.expr e, rest)
      | some operator =>
        let (name, links) ← place? e
        let (value, rest) ← expr? fuel level after
        pure (.assign name links operator value, rest)
    | rest => pure (.expr e, rest)

end

/-- The code a text writes. -/
def read? (text : String) : Option Code := do
  let ts ← tokenize? text
  match statements? (16 * ts.length + 16) 0 false ts with
  | some (s, []) => pure s
  | _ => none

end Script

end Cutscene
