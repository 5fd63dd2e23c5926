/-!
# Text — searching

Where one text first occurs in another, said through the split around the
first occurrence: what stands before it, and what follows it.
-/

namespace Cutscene

namespace Text

/-- What stands before the first occurrence of `needle`, and what follows
it; the empty needle occurs at once. -/
def splitAt? (needle : List Char) : List Char → Option (List Char × List Char)
  | [] => if needle.isEmpty then some ([], []) else none
  | c :: cs =>
    if needle.isPrefixOf (c :: cs) then some ([], (c :: cs).drop needle.length)
    else (splitAt? needle cs).map fun (before, after) => (c :: before, after)

/-- How many characters stand before the first occurrence. -/
def indexOf? (needle hay : String) : Option Nat :=
  (splitAt? needle.toList hay.toList).map (·.1.length)

/-- Does the text hold `needle`? -/
def contains (hay needle : String) : Bool := (indexOf? needle hay).isSome

/-- Does the text begin with `start`? -/
def startsWith (text start : String) : Bool := start.toList.isPrefixOf text.toList

/-- Does the text finish with `finish`? -/
def endsWith (text finish : String) : Bool := finish.toList.isSuffixOf text.toList

/-- The text without a needle wherever it occurs, from the left; the first
`skipped` characters belong to an occurrence already found. -/
def withoutFrom (needle : List Char) : Nat → List Char → List Char
  | _, [] => []
  | skipped + 1, _ :: cs => withoutFrom needle skipped cs
  | 0, c :: cs =>
    if needle.isPrefixOf (c :: cs) then withoutFrom needle (needle.length - 1) cs
    else c :: withoutFrom needle 0 cs

/-- The text without a needle wherever it occurs; nothing can be taken out by
the empty needle. -/
def without (text needle : String) : String :=
  if needle.isEmpty then text else String.ofList (withoutFrom needle.toList 0 text.toList)

/-- The text between one separator and the next, as many pieces as there are
separators and one more. -/
def splitOn (separator : Char) (cs : List Char) : List (List Char) :=
  cs.foldr
    (fun c pieces =>
      if c = separator then [] :: pieces
      else match pieces with
        | [] => [[c]]
        | piece :: rest => (c :: piece) :: rest)
    [[]]

end Text

end Cutscene
