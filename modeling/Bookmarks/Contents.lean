/-
# Tables of contents

A table of contents is a list of sections, numbered from zero in the order of the outline. Section
zero stands for the document as a whole; every other section names its parent, and every section
names its children, by number.
-/
import Bookmarks.Forest
import Bookmarks.PageNumber

namespace Bookmarks

/-- One line of a table of contents. -/
structure Section where
  /-- The number of the section it belongs to; only the document as a whole has none. -/
  parent : Option Nat
  title : String
  /-- The depth of nesting: top entries have level zero, the document as a whole has level -1. -/
  level : Int
  startPage : Int
  endPage : Int
  position : Int
  /-- The numbers of the sections that belong to it, in order. -/
  children : List Nat
  deriving DecidableEq, Repr

namespace Section

/-- The section stands for the document as a whole. -/
def isRoot (s : Section) : Bool :=
  s.parent.isNone

/-- Other sections belong to it. -/
def hasChildren (s : Section) : Bool :=
  !s.children.isEmpty

/-- Both ends of its span are pages of the document. -/
def hasKnownPages (s : Section) : Bool :=
  0 < s.startPage && 0 < s.endPage

end Section

/-- A table of contents. -/
structure Contents where
  sections : Array Section
  /-- There is a section for the document as a whole. -/
  size_pos : 0 < sections.size
  deriving DecidableEq

namespace Contents

/-- The sections of a forest whose top entries belong to the section `parent`, when numbering goes
on at `start`. -/
def sectionsOf {ν : Type} (parent : Nat) (level : Int) (start : Nat) :
    Forest ν → List Section
  | .nil => []
  | .cons _ heading below after =>
      { parent := some parent
        title := heading.title
        level := level
        startPage := heading.startPage
        endPage := heading.endPage
        position := heading.position
        children := below.topNumbers (start + 1) }
      :: (sectionsOf start (level + 1) (start + 1) below
        ++ sectionsOf parent level (start + below.size + 1) after)

/-- The section for the document as a whole. -/
def rootSection (title : String) (pageCount : Int) (children : List Nat) : Section :=
  { parent := none
    title := title
    level := -1
    startPage := 1
    endPage := pageCount
    position := 0
    children := children }

/-- The table of contents of a forest. -/
def ofForest {ν : Type} (title : String) (pageCount : Int) (forest : Forest ν) : Contents :=
  { sections :=
      (rootSection title pageCount (forest.topNumbers 1) :: sectionsOf 0 0 1 forest).toArray
    size_pos := by simp }

variable (contents : Contents)

/-- Sections, the document as a whole included. -/
def size : Nat :=
  contents.sections.size

/-- The section for the document as a whole. -/
def root : Section :=
  have := contents.size_pos
  contents.sections[0]

/-- The section of a number. -/
def get? (number : Nat) : Option Section :=
  contents.sections[number]?

/-- There is nothing but the document as a whole. -/
def isEmpty : Bool :=
  contents.size ≤ 1

/-- The number of the document's last page. -/
def pageCount : Int :=
  contents.root.endPage

/-- The sections that belong to a section, in order. -/
def children (s : Section) : List Section :=
  s.children.filterMap contents.get?

/-- The first section that belongs to a section. -/
def firstChild? (s : Section) : Option Section :=
  s.children.head?.bind contents.get?

/-- The section that a section belongs to. -/
def parent? (s : Section) : Option Section :=
  s.parent.bind contents.get?

/-- Up to `steps` sections above a section, the nearest first. -/
def climb : Nat → Section → List Section
  | 0, _ => []
  | steps + 1, s =>
      match contents.parent? s with
      | none => []
      | some parent => parent :: climb steps parent

/-- The sections above a section, the nearest first. -/
def ancestors (s : Section) : List Section :=
  contents.climb contents.size s

/-- A section and, down to `depth` levels, everything below it, in the order of the outline. -/
def descend : Nat → Section → List Section
  | 0, _ => []
  | depth + 1, s => s :: (contents.children s).flatMap (descend depth)

/-- Every section but the document as a whole, in the order of the outline. -/
def preorder : List Section :=
  (contents.children contents.root).flatMap (contents.descend contents.size)

/-- The deepest level, -1 if there is nothing but the document as a whole. -/
def maxLevel : Int :=
  contents.sections.foldl (fun level s => max level s.level) (-1)

/-- Sections, the document as a whole apart, with an end on an unknown page. -/
def unresolvedCount : Nat :=
  (contents.sections.toList.tail.filter fun s => !s.hasKnownPages).length

end Contents

end Bookmarks
