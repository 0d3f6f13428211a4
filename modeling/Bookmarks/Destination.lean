/-
# Destinations

Where on its page an outline entry points to, and how much of the page it asks to see. Coordinates
that the document leaves open are absent.
-/
import Bookmarks.Number.Binary32

namespace Bookmarks

/-- A view of a page. -/
inductive Destination where
  /-- The point `(left, top)` in the corner of the window, at a zoom factor. -/
  | xyz (left top zoom : Option Binary32)
  /-- The whole page. -/
  | fit
  /-- The page's width, with `top` at the upper edge of the window. -/
  | fitH (top : Option Binary32)
  /-- The page's height, with `left` at the left edge of the window. -/
  | fitV (left : Option Binary32)
  /-- A rectangle. -/
  | fitR (left bottom right top : Option Binary32)
  /-- The bounding box of what is on the page. -/
  | fitB
  /-- The width of the bounding box. -/
  | fitBH (top : Option Binary32)
  /-- The height of the bounding box. -/
  | fitBV (left : Option Binary32)
  deriving DecidableEq, Repr

namespace Destination

/-- The destination of a kind as PDF files name it, with the numbers that follow the name.
Numbers that are missing at the end are absent. -/
def ofKind? (kind : String) (numbers : List (Option Binary32)) : Option Destination :=
  let number (i : Nat) : Option Binary32 := numbers[i]?.join
  if kind = "XYZ" then some (.xyz (number 0) (number 1) (number 2))
  else if kind = "Fit" then some .fit
  else if kind = "FitH" then some (.fitH (number 0))
  else if kind = "FitV" then some (.fitV (number 0))
  else if kind = "FitR" then some (.fitR (number 0) (number 1) (number 2) (number 3))
  else if kind = "FitB" then some .fitB
  else if kind = "FitBH" then some (.fitBH (number 0))
  else if kind = "FitBV" then some (.fitBV (number 0))
  else none

/-- The kind of a destination as PDF files name it. -/
def kind : Destination → String
  | .xyz _ _ _ => "XYZ"
  | .fit => "Fit"
  | .fitH _ => "FitH"
  | .fitV _ => "FitV"
  | .fitR _ _ _ _ => "FitR"
  | .fitB => "FitB"
  | .fitBH _ => "FitBH"
  | .fitBV _ => "FitBV"

/-- The numbers of a destination in the order of PDF files. -/
def numbers : Destination → List (Option Binary32)
  | .xyz left top zoom => [left, top, zoom]
  | .fit | .fitB => []
  | .fitH top | .fitBH top => [top]
  | .fitV left | .fitBV left => [left]
  | .fitR left bottom right top => [left, bottom, right, top]

/-- The height on the page. Only a destination that names a point has one. -/
def top? : Destination → Option Binary32
  | .xyz _ top _ => top
  | _ => none

end Destination

end Bookmarks
