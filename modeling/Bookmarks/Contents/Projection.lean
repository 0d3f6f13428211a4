/-
# Sections of one level

A document is split into pieces by taking the sections of one level. A section above that level
gives way to its children; the text that comes before its first child belongs to none of them, and
can be asked for as an excerpt of its own.
-/
import Bookmarks.Contents

namespace Bookmarks

/-- A piece of a document. -/
inductive Excerpt where
  /-- A section of the table. -/
  | whole (s : Section)
  /-- What a section says before its first child begins. -/
  | lead (s : Section)
  deriving DecidableEq, Repr

namespace Excerpt

/-- The piece as a section. -/
def toSection : Excerpt → Section
  | .whole s => s
  | .lead s => s

/-- The piece was cut out of a section. -/
def isLead : Excerpt → Bool
  | .whole _ => false
  | .lead _ => true

end Excerpt

/-- What a section says before `child`, its first child, begins. -/
def Section.upTo (s child : Section) : Section :=
  { s with endPage := child.startPage, children := [] }

namespace Contents

variable (contents : Contents)

/-- The pieces at a level that a section contributes, searched down to `depth` levels. A section
without children that lies above the level contributes nothing. -/
def projectFrom (level : Int) (leads : Bool) : Nat → Section → List Excerpt
  | 0, _ => []
  | depth + 1, s =>
      if s.level < level then
        match contents.firstChild? s with
        | none => []
        | some child =>
            (if leads then [.lead (s.upTo child)] else [])
              ++ (contents.children s).flatMap (projectFrom level leads depth)
      else if s.level = level then [.whole s]
      else []

/-- The pieces at a level that a section contributes. -/
def project (s : Section) (level : Int) (leads : Bool) : List Excerpt :=
  contents.projectFrom level leads contents.size s

/-- The pieces at a level. -/
def atLevel (level : Int) (leads : Bool) : List Excerpt :=
  contents.project contents.root level leads

end Contents

end Bookmarks
