/-!
# Reports

What is told of an error: a code, a message, and the source file it concerns
where there is one. Some causes have no message of their own.
-/

namespace Cutscene

/-- What is told of an error. -/
structure Report where
  code : String
  message : Option String
  path : Option String
  deriving DecidableEq, Repr, Inhabited

/-- A report of a code and a message. -/
def Report.of (code message : String) : Report := ⟨code, some message, none⟩

end Cutscene
