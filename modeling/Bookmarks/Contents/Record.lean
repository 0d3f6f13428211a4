/-
# Tables of contents as JSON

A section is written as an object of its title, level, span and position. The nested form puts the
sections that belong to it into a last member; the flat form of a list of sections leaves it out.
-/
import Bookmarks.Contents
import Bookmarks.Json.Writer

namespace Bookmarks

/-- The members that both forms of a section have. -/
def Section.members (s : Section) : List (String × Json) :=
  [("title", .string s.title),
    ("level", Json.ofInt s.level),
    ("start_page_number", Json.ofInt s.startPage),
    ("end_page_number", Json.ofInt s.endPage),
    ("position", Json.ofInt s.position)]

/-- A section by itself. -/
def Section.record (s : Section) : Json :=
  .object s.members

/-- Sections in a row, each by itself. -/
def flatRecord (sections : List Section) : Json :=
  .array (sections.map Section.record)

namespace Contents

variable (contents : Contents)

/-- A section together with the sections below it, down to `depth` levels. -/
def nest : Nat → Section → Json
  | 0, s => .object (s.members ++ [("children", .array [])])
  | depth + 1, s =>
      .object (s.members ++ [("children", .array ((contents.children s).map (nest depth)))])

/-- A table of contents as one nested object. -/
def record : Json :=
  contents.nest contents.size contents.root

end Contents

end Bookmarks
