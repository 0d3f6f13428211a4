/-
# Styled text

On a terminal, headings and labels stand out by colour and weight. A style is a list of codes, the
weight before the colour; without colours a text stays as it is.
-/

namespace Bookmarks.Command

/-- How a text stands out. -/
inductive Style where
  | bold
  | dim
  | green
  | yellow
  | boldRed
  | boldCyan
  deriving DecidableEq, Repr

namespace Style

/-- The codes of a style. -/
def codes : Style → String
  | .bold => "1"
  | .dim => "2"
  | .green => "32"
  | .yellow => "33"
  | .boldRed => "1;31"
  | .boldCyan => "1;36"

/-- A text in a style, if colours are wanted. -/
def apply (style : Style) (colours : Bool) (text : String) : String :=
  if colours then "\x1b[" ++ style.codes ++ "m" ++ text ++ "\x1b[0m" else text

end Style

end Bookmarks.Command
