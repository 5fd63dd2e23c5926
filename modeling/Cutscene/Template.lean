import Cutscene.Text.Blank
/-!
# Templates

A text with placeholders `{local:key}`, `{global:key}` and `{self:key}`. The
text is cut from left to right into literal pieces and placeholders; a brace
that opens no placeholder is literal.
-/

namespace Cutscene

/-- Where a placeholder's variable lives: in the context, in the world, or
with the context's owner. -/
inductive Home where
  | context
  | world
  | owner
  deriving DecidableEq, Repr, Inhabited

/-- The homes by the name a placeholder uses. -/
def Home.names : List (List Char × Home) :=
  [("local".toList, .context), ("global".toList, .world), ("self".toList, .owner)]

/-- A piece of a template. -/
inductive Piece where
  | literal (text : String)
  | placeholder (home : Home) (key : String)
  deriving DecidableEq, Repr, Inhabited

/-- A text cut into pieces. -/
structure Template where
  pieces : List Piece
  deriving DecidableEq, Repr, Inhabited

namespace Template

/-- A character of a placeholder's key. -/
def isKeyChar (c : Char) : Bool := c ≠ '\x7b' && c ≠ '\x7d'

/-- A placeholder after its opening brace, and what follows its closing one:
a home, a colon and a key that is not empty. -/
def placeholder? (cs : List Char) : Option (Home × List Char × List Char) :=
  Home.names.findSome? fun (name, home) =>
    if (name ++ [':']).isPrefixOf cs then
      let rest := cs.drop (name.length + 1)
      let key := rest.takeWhile isKeyChar
      match rest.dropWhile isKeyChar with
      | '\x7d' :: after => if key.isEmpty then none else some (home, key, after)
      | _ => none
    else none

theorem length_of_placeholder? {cs key after : List Char} {home : Home}
    (h : placeholder? cs = some (home, key, after)) : after.length < cs.length := by
  obtain ⟨⟨name, home'⟩, _, h⟩ := List.exists_of_findSome?_eq_some h
  simp only at h
  split at h
  · split at h
    · rename_i heq
      split at h
      · simp at h
      · simp only [Option.some.injEq, Prod.mk.injEq] at h
        obtain ⟨_, _, rfl⟩ := h
        have hle := (List.dropWhile_sublist isKeyChar (l := cs.drop (name.length + 1))).length_le
        rw [heq, List.length_cons, List.length_drop] at hle
        omega
    · simp at h
  · simp at h

/-- A literal piece, if there is any text for it; `written` holds the text
backwards. -/
def literal (written : List Char) : List Piece :=
  if written.isEmpty then [] else [.literal (String.ofList written.reverse)]

/-- The pieces of a text after literal text already passed. -/
def cut (written : List Char) (cs : List Char) : List Piece :=
  match cs with
  | [] => literal written
  | c :: cs =>
    if c = '\x7b' then
      match _h : placeholder? cs with
      | some (home, key, after) =>
        literal written ++ .placeholder home (String.ofList (Text.trim key)) :: cut [] after
      | none => cut (c :: written) cs
    else cut (c :: written) cs
termination_by cs.length
decreasing_by
  · have := length_of_placeholder? _h
    simp only [List.length_cons]
    omega
  · simp
  · simp

/-- The template of a text. -/
def parse (source : String) : Template := ⟨cut [] source.toList⟩

/-- The text of a template without placeholders. -/
def static? (t : Template) : Option String :=
  match t.pieces with
  | [] => some ""
  | [.literal text] => some text
  | _ => none

end Template

end Cutscene
