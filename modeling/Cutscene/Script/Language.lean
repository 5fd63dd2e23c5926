import Cutscene.Script.Eval
import Cutscene.Script.Simplify
/-!
# Scripts — languages

What the texts of scripts mean is not settled here. A language tells which
texts are scripts and what each of them does (`Script.Language`), and whatever
reads or runs scripts works with any. The statements and expressions of the
other modules are one of them (`Script.basic`).
-/

namespace Cutscene

/-- A script is what it does with the variables in scope: its value unless it
fails, and the state it leaves. -/
structure Script where
  run : Script.State → Option Script.Data × Script.State

/-- A language tells the scripts of texts, where they have one. -/
abbrev Script.Language := String → Option Script

/-- The language of the statements and expressions that are spelled out. -/
def Script.basic : Script.Language := fun text => (Code.parse? text).map fun code => ⟨code.run⟩

end Cutscene
