import Cutscene.Decimal.Reading
import Cutscene.Text.Blank
/-!
# Scripts — tokens

The words of the script language: numbers, characters and texts between
quotes, names, keywords and symbols. Blanks and comments separate them. A text
that cannot be cut into tokens is no script.
-/

namespace Cutscene

namespace Script

/-- A word of the language. -/
inductive Token where
  | int (n : Int)
  | float (x : Float)
  | char (c : Char)
  | string (s : String)
  | name (s : String)
  | keyword (s : String)
  | symbol (s : String)
  deriving DecidableEq, Repr, Inhabited

/-- Names with a meaning of their own. -/
def keywords : List String := ["let", "if", "else", "true", "false"]

/-- Names that are set aside and may not be used. -/
def reserved : List String :=
  ["const", "switch", "do", "while", "until", "loop", "for", "in", "continue", "break", "return",
   "throw", "try", "catch", "fn", "private", "import", "export", "as", "this", "print", "debug",
   "type_of", "eval", "Fn", "call", "curry", "is_shared", "is_def_fn", "is_def_var", "var",
   "static", "shared", "is", "goto", "match", "case", "public", "protected", "new", "use", "with",
   "module", "package", "super", "thread", "spawn", "go", "await", "async", "sync", "yield",
   "default", "void", "null", "nil"]

/-- Symbols, the longer ones first. -/
def symbols : List String :=
  ["#\x7b", "+=", "-=", "*=", "/=", "%=", "==", "!=", "<=", ">=", "&&", "||",
   "+", "-", "*", "/", "%", "=", "<", ">", "!", "(", ")", "[", "]", "\x7b", "\x7d", ",", ";",
   ":", "."]

/-- Spellings that are set aside, though they could be read as two symbols. -/
def forbidden : List String := ["++", "--", "<-"]

/-- Symbols that no operand follows at once. -/
def noOperandAfter : List String := ["#\x7b", ")", "]", "\x7d", "."]

/-- May an operand follow the token at once? Then a minus sign that touches a
digit belongs to the number. -/
def Token.opensOperand : Token → Bool
  | .symbol s => !noOperandAfter.contains s
  | .keyword s => s = "if"
  | _ => false

/-- The characters a name starts with. -/
def isNameStart (c : Char) : Bool := c.isAlpha || c = '_'

/-- The characters a name goes on with. -/
def isNameRest (c : Char) : Bool := c.isAlphanum || c = '_'

/-! ## Numbers -/

/-- The least whole number of 64 bits. -/
def leastInt : Int := -9223372036854775808

/-- The greatest whole number of 64 bits. -/
def greatestInt : Int := 9223372036854775807

/-- Does a whole number fit 64 bits? -/
def fitsInt (n : Int) : Bool := leastInt ≤ n && n ≤ greatestInt

/-- The characters at the front that are in a class, without the underscores
among them, and what follows. -/
def spanNumber (inClass : Char → Bool) (cs : List Char) : List Char × List Char :=
  let inside (c : Char) : Bool := inClass c || c = '_'
  ((cs.takeWhile inside).filter (· ≠ '_'), cs.dropWhile inside)

/-- The fraction at the front, and what follows it. A point belongs to a number
before a digit, and before anything that cannot start a name. -/
def spanFraction (cs : List Char) : Option (List Char) × List Char :=
  match cs with
  | ['.'] => (some ['0'], [])
  | '.' :: c :: rest =>
    if Decimal.isDigit c then
      let (digits, after) := spanNumber Decimal.isDigit (c :: rest)
      (some digits, after)
    else if isNameStart c ∨ c = '.' then (none, cs)
    else (some ['0'], c :: rest)
  | cs => (none, cs)

/-- The exponent at the front with its mark, and what follows it. -/
def spanExponent (cs : List Char) : Option (List Char) × List Char :=
  match cs with
  | 'e' :: c :: rest =>
    if Decimal.isDigit c then
      let (power, after) := spanNumber Decimal.isDigit (c :: rest)
      (some ('e' :: power), after)
    else if c = '+' ∨ c = '-' then
      let (power, after) := spanNumber Decimal.isDigit rest
      (some ('e' :: c :: power), after)
    else (none, cs)
  | cs => (none, cs)

/-- A decimal number at the front. A whole number that does not fit 64 bits is
a float. -/
def decimal? (negative : Bool) (cs : List Char) : Option (Token × List Char) :=
  let (whole, afterWhole) := spanNumber Decimal.isDigit cs
  let (fraction, afterFraction) := spanFraction afterWhole
  let (exponent, rest) := spanExponent afterFraction
  match fraction, exponent with
  | none, none =>
    let size := Decimal.wholeOf whole
    let n : Int := if negative then -size else size
    if fitsInt n then some (.int n, rest) else some (.float (Decimal.nearest negative size 0), rest)
  | fraction, exponent =>
    let sign := if negative then ['-'] else []
    let text := sign ++ whole ++ fraction.elim [] ('.' :: ·) ++ exponent.getD []
    (Decimal.float? text).map fun x => (.float x, rest)

/-- The base that the letter after a leading zero announces. -/
def base? : Char → Option Nat
  | 'x' | 'X' => some 16
  | 'o' | 'O' => some 8
  | 'b' | 'B' => some 2
  | _ => none

/-- The 64 bits at the front written in a base, the highest one for the sign. -/
def bits? (base : Nat) (cs : List Char) : Option (Token × List Char) := do
  let inClass (c : Char) : Bool :=
    if base = 16 then (Decimal.hexDigit? c).isSome else Decimal.isDigit c
  let (written, rest) := spanNumber inClass cs
  let digits := written.filterMap Decimal.hexDigit?
  let n := digits.foldl (fun n d => base * n + d) 0
  if digits.isEmpty ∨ digits.any (base ≤ ·) ∨ UInt64.size ≤ n then none
  else pure (.int (if (n : Int) ≤ greatestInt then n else n - UInt64.size), rest)

/-- A number at the front, without the sign it has. -/
def number? (negative : Bool) (cs : List Char) : Option (Token × List Char) :=
  match cs with
  | '0' :: mark :: rest =>
    match base? mark with
    | some base => if negative then none else bits? base rest
    | none => decimal? negative cs
  | cs => decimal? negative cs

/-! ## Quotes -/

/-- The character with a number written in so many hexadecimal digits at the
front, and what follows. -/
def numbered? (count : Nat) (cs : List Char) : Option (Char × List Char) := do
  let digits ← (cs.take count).mapM Decimal.hexDigit?
  let n := digits.foldl (fun n d => 16 * n + d) 0
  if digits.length = count ∧ n.isValidChar then pure (Char.ofNat n, cs.drop count) else none

/-- The character that stands after a backslash, and what follows it. -/
def unescaped? (mark : Char) : List Char → Option (Char × List Char)
  | 'n' :: rest => some ('\n', rest)
  | 't' :: rest => some ('\t', rest)
  | 'r' :: rest => some ('\r', rest)
  | '\\' :: rest => some ('\\', rest)
  | 'x' :: rest => numbered? 2 rest
  | 'u' :: rest => numbered? 4 rest
  | 'U' :: rest => numbered? 8 rest
  | c :: rest => if c = mark then some (c, rest) else none
  | [] => none

/-- What stands before the closing quote, at most `fuel` characters, and what
follows it. A quote written twice stands for itself; a line does not end
between quotes. -/
def unquoted? (mark : Char) : Nat → List Char → Option (List Char × List Char)
  | 0, _ => none
  | _ + 1, [] => none
  | fuel + 1, c :: cs =>
    if c = mark then
      if cs.head? = some mark then
        (unquoted? mark fuel (cs.drop 1)).map fun (text, rest) => (c :: text, rest)
      else some ([], cs)
    else if c = '\n' then none
    else if c = '\\' then
      (unescaped? mark cs).bind fun (c, cs) =>
        (unquoted? mark fuel cs).map fun (text, rest) => (c :: text, rest)
    else (unquoted? mark fuel cs).map fun (text, rest) => (c :: text, rest)

/-- A text after its opening quote. -/
def string? (cs : List Char) : Option (Token × List Char) :=
  (unquoted? '"' (cs.length + 1) cs).map fun (text, rest) => (.string (String.ofList text), rest)

/-- A character after its opening quote. -/
def char? (cs : List Char) : Option (Token × List Char) :=
  if cs.head? = some '\'' then none
  else match unquoted? '\'' (cs.length + 1) cs with
    | some ([c], rest) => some (.char c, rest)
    | _ => none

/-! ## Names, symbols, comments -/

/-- What a name is. Its underscores at the front come before a letter. -/
def ofName? (s : String) : Option Token :=
  if keywords.contains s then some (.keyword s)
  else if reserved.contains s then none
  else if (s.toList.dropWhile (· = '_')).head?.any Char.isAlpha then some (.name s)
  else none

/-- A name at the front. -/
def word? (cs : List Char) : Option (Token × List Char) :=
  (ofName? (String.ofList (cs.takeWhile isNameRest))).map fun t => (t, cs.dropWhile isNameRest)

/-- A symbol at the front. -/
def symbol? (cs : List Char) : Option (Token × List Char) :=
  if forbidden.any fun s => s.toList.isPrefixOf cs then none
  else (symbols.find? fun s => s.toList.isPrefixOf cs).map fun s => (.symbol s, cs.drop s.length)

/-- What follows a comment that is open `depth` times. The text may end in it. -/
def afterComment : Nat → List Char → List Char
  | 0, cs => cs
  | _ + 1, [] => []
  | depth + 1, '/' :: '*' :: cs => afterComment (depth + 2) cs
  | depth + 1, '*' :: '/' :: cs => afterComment depth cs
  | depth + 1, _ :: cs => afterComment (depth + 1) cs

/-! ## Tokens -/

/-- A token at the front; `operand` says whether an operand may stand there. -/
def token? (operand : Bool) (cs : List Char) : Option (Token × List Char) :=
  match cs with
  | '"' :: rest => string? rest
  | '\'' :: rest => char? rest
  | '-' :: c :: rest =>
    if operand && Decimal.isDigit c then number? true (c :: rest) else symbol? cs
  | c :: _ =>
    if Decimal.isDigit c then number? false cs
    else if isNameStart c then word? cs
    else symbol? cs
  | [] => none

/-- The tokens of a text, at most `fuel` of them and separators. -/
def tokens? : Nat → Bool → List Char → Option (List Token)
  | _, _, [] => some []
  | 0, _, _ => none
  | fuel + 1, operand, '/' :: '/' :: cs =>
    tokens? fuel operand (cs.dropWhile fun c => c ≠ '\n' && c ≠ '\r')
  | fuel + 1, operand, '/' :: '*' :: cs => tokens? fuel operand (afterComment 1 cs)
  | fuel + 1, operand, c :: cs =>
    if Text.isBlank c then tokens? fuel operand cs
    else (token? operand (c :: cs)).bind fun (t, rest) =>
      (tokens? fuel t.opensOperand rest).map (t :: ·)

/-- The tokens of a text. -/
def tokenize? (text : String) : Option (List Token) := tokens? text.length true text.toList

end Script

end Cutscene
