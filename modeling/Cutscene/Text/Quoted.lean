import Cutscene.Text.Visible
/-!
# Text — quoted

A text between quotes, on one line, so that nothing of it is lost to the eye:
line ends, tabs, the null character, backslashes and the quote itself are
written with a backslash, and what does not show by itself by its number.
-/

namespace Cutscene

namespace Text

/-- A character as it stands between the quotes `mark`. -/
def escaped (mark c : Char) : List Char :=
  match c with
  | '\x00' => ['\\', '0']
  | '\t' => ['\\', 't']
  | '\r' => ['\\', 'r']
  | '\n' => ['\\', 'n']
  | '\\' => ['\\', '\\']
  | c =>
    if c = mark then ['\\', c]
    else if isVisible c then [c]
    else ['\\', 'u', '\x7b'] ++ Nat.toDigits 16 c.toNat ++ ['\x7d']

/-- A text between the quotes `mark`. -/
def quoted (mark : Char) (cs : List Char) : List Char :=
  mark :: cs.flatMap (escaped mark) ++ [mark]

end Text

end Cutscene
