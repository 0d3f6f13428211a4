/-
# Listings

A table of contents as plain text, one line for each section.
-/
import Bookmarks.Contents.Projection

namespace Bookmarks

/-- Two blanks for each level below the top. -/
def indentation (level : Int) : String :=
  String.ofList (List.replicate (2 * level.toNat) ' ')

/-- A section on one line: its level, its title and its span. -/
def Section.line (s : Section) : String :=
  s!"{indentation s.level} {s.level}) {s.title} [{s.startPage},{s.endPage}], " ++
    s!"children = {s.children.length}, pos = {s.position}"

/-- A section as its title and its span. -/
def Section.spanLine (s : Section) : String :=
  s!"{s.title} [{s.startPage}..{s.endPage}]"

namespace Contents

/-- The lines of a table of contents, the document as a whole first. -/
def lines (contents : Contents) : List String :=
  contents.root.line :: contents.preorder.map Section.line

/-- A table of contents as text. -/
def listing (contents : Contents) : String :=
  "\n".intercalate contents.lines

end Contents

end Bookmarks
