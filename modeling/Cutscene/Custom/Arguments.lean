import Cutscene.Decimal.Reading
import Cutscene.Report
import Cutscene.Text.Blank
import Cutscene.Value
/-!
# Custom instructions — arguments

A custom instruction's arguments are a text of entries between commas, each a
key or a key and a value. Commas inside double quotes do not separate, and
inside quotes a backslash protects the next character. A bare key stands for
`true`; a value is a quoted text, `true` or `false`, a finite number, or else
the text itself.

`Arguments.get` remembers what was looked up; `Arguments.find?` is the plain
look-up, where the last of several entries under a key counts.
-/

namespace Cutscene

/-- Why a text of arguments cannot be read. -/
inductive ArgumentError where
  /-- Nothing stands before a comma. -/
  | emptyEntry (text : String)
  /-- A quote is left open. -/
  | openQuote (text : String)
  /-- Nothing stands after the last comma. -/
  | trailingComma (text : String)
  /-- An entry is neither a key nor a key and a value. -/
  | malformed (entry : String)
  /-- Nothing stands after an entry's colon. -/
  | emptyValue (entry : String)
  deriving DecidableEq, Repr

/-- What is told of the error. -/
def ArgumentError.report (e : ArgumentError) : Report :=
  .of "SCRIPT_PARAMS_PARSE" <| match e with
    | .emptyEntry text => "Empty parameter entry in \"" ++ text ++ "\"."
    | .openQuote text => "Unterminated string in \"" ++ text ++ "\"."
    | .trailingComma text => "Trailing comma in \"" ++ text ++ "\"."
    | .malformed entry => "Invalid parameter entry \"" ++ entry ++ "\"."
    | .emptyValue entry => "Parameter entry \"" ++ entry ++ "\" has an empty value."

/-- Keys and values, and what was looked up before. -/
structure Arguments where
  entries : List (String × Value)
  cache : Table String (Option Value)
  deriving Inhabited

namespace Arguments

/-- Arguments that nothing was looked up in. -/
def ofEntries (entries : List (String × Value)) : Arguments := ⟨entries, .empty⟩

/-- The keys, with repetitions. -/
def keys (a : Arguments) : List String := a.entries.map (·.1)

/-- The value of the last entry under a key. -/
def find? (a : Arguments) (key : String) : Option Value :=
  (a.entries.reverse.find? (·.1 == key)).map (·.2)

/-- The value under a key, looked up at most once. -/
def get (a : Arguments) (key : String) : Option Value × Arguments :=
  match a.cache.get? key with
  | some found => (found, a)
  | none =>
    let found := a.find? key
    (found, { a with cache := a.cache.insert key found })

/-- The number under a key. -/
def number (a : Arguments) (key : String) : Option Float × Arguments :=
  ((a.get key).1.bind Value.number?, (a.get key).2)

/-- The text of what is under a key. -/
def string (a : Arguments) (key : String) : Option String × Arguments :=
  ((a.get key).1.map Value.text, (a.get key).2)

/-- Does `true` stand under a key? -/
def flag (a : Arguments) (key : String) : Bool × Arguments :=
  (((a.get key).1.bind Value.bool?).getD false, (a.get key).2)

/-! ## Entries -/

/-- Where a character stands: outside quotes, inside them, or after a
backslash inside them. -/
inductive Place where
  | outside
  | quoted
  | shielded
  deriving DecidableEq, Repr

/-- The place after a character. -/
def Place.next : Place → Char → Place
  | .outside, c => if c = '"' then .quoted else .outside
  | .quoted, c => if c = '\\' then .shielded else if c = '"' then .outside else .quoted
  | .shielded, _ => .quoted

/-- The stretches between the commas outside quotes, and the place at the
end. -/
def stretches : Place → List Char → List (List Char) × Place
  | place, [] => ([[]], place)
  | place, c :: cs =>
    if place = .outside ∧ c = ',' then
      let (rest, last) := stretches .outside cs
      ([] :: rest, last)
    else
      match stretches (place.next c) cs with
      | ([], last) => ([[c]], last)
      | (stretch :: rest, last) => ((c :: stretch) :: rest, last)

/-- Is there nothing but blanks? -/
def isBlankText (cs : List Char) : Bool := (Text.trim cs).isEmpty

/-- The entries of a text, trimmed. -/
def split (text : String) : Except ArgumentError (List (List Char)) :=
  let (pieces, last) := stretches .outside text.toList
  let before := pieces.dropLast
  let final := pieces.getLast?.getD []
  if before.any isBlankText then .error (.emptyEntry text)
  else if last ≠ .outside then .error (.openQuote text)
  else if !isBlankText final then .ok (pieces.map Text.trim)
  else if before.isEmpty then .ok []
  else .error (.trailingComma text)

/-- The characters a key starts with. -/
def isKeyStart (c : Char) : Bool := c.isAlpha || c = '_'

/-- The characters a key goes on with. -/
def isKeyRest (c : Char) : Bool := c.isAlphanum || c = '_' || c = '-'

/-- A key, and what follows it when a colon does: the text without the blanks
at its front, in which no line may end. -/
def keyed? (entry : List Char) : Option (String × Option (List Char)) :=
  match entry with
  | [] => none
  | c :: cs =>
    if !isKeyStart c then none
    else
      let key := String.ofList (c :: cs.takeWhile isKeyRest)
      match Text.trimStart (cs.dropWhile isKeyRest) with
      | [] => some (key, none)
      | ':' :: rest =>
        let value := Text.trimStart rest
        if value.contains '\n' then none else some (key, some value)
      | _ => none

/-- A quote after a backslash stands for itself. -/
def unescape : List Char → List Char
  | '\\' :: '"' :: cs => '"' :: unescape cs
  | c :: cs => c :: unescape cs
  | [] => []

/-- The value of an entry. -/
def value (entry : List Char) (raw : List Char) : Except ArgumentError Value :=
  match raw with
  | [] => .error (.emptyValue (String.ofList entry))
  | '"' :: inner =>
    if inner.getLast? = some '"' then .ok (.string (String.ofList (unescape inner.dropLast)))
    else .error (.openQuote (String.ofList entry))
  | raw =>
    if raw = "true".toList then .ok (.bool true)
    else if raw = "false".toList then .ok (.bool false)
    else match Decimal.float? raw with
      | some x => if x.isFinite then .ok (.number x) else .ok (.string (String.ofList raw))
      | none => .ok (.string (String.ofList raw))

/-- The key and the value of an entry. -/
def entry (part : List Char) : Except ArgumentError (String × Value) :=
  match keyed? part with
  | none => .error (.malformed (String.ofList part))
  | some (key, none) => .ok (key, .bool true)
  | some (key, some raw) => (value part (Text.trim raw)).map fun v => (key, v)

/-- The arguments of a text. -/
def ofText (text : String) : Except ArgumentError Arguments :=
  (split text).bind fun parts => (parts.mapM entry).map ofEntries

end Arguments

end Cutscene
