/-
# Settings

What a reader of an outline is asked to put up with.
-/

namespace Bookmarks

/-- What to do about broken, cyclic or overly deep links. -/
inductive Tolerance where
  /-- Fail. -/
  | strict
  /-- Cut the branch away and go on. -/
  | lenient
  deriving DecidableEq, Repr

/-- The depth that entries may reach unless a reader asks for another one. -/
def defaultDepthLimit : Nat := 64

/-- How to read an outline. -/
structure Settings where
  tolerance : Tolerance := .strict
  /-- Entries nested this deep or deeper are too deep, those at the top having depth zero. -/
  depthLimit : Nat := defaultDepthLimit
  /-- The title of the table of contents as a whole. -/
  rootTitle : String := "root"
  deriving DecidableEq, Repr

end Bookmarks
