/-
# Outlines

The outline of a document is a set of entries joined by links: a node knows its first and its last
child and the entry that follows it. Nothing is promised about these links. They may be missing,
form cycles, or lead back to where they came from, and asking for one may fail.

`Outline ν π` is any such outline, with nodes named by handles of type `ν` and pages by handles of
type `π`; `FiniteOutline` adds a list of handles that no link leaves.
-/
import Bookmarks.Destination
import Bookmarks.Noted

namespace Bookmarks

/-- The outline of a document, given by the answers to what can be asked about it. -/
structure Outline (ν π : Type) where
  /-- Pages in the document. -/
  pageCount : UInt32
  /-- The node under which the outline begins, if the document has an outline. -/
  root : Except Fault (Option ν)
  /-- The first child of a node. -/
  first : ν → Except Fault (Option ν)
  /-- The child that a node declares to be its last. -/
  last : ν → Except Fault (Option ν)
  /-- The entry that follows a node at the same level. -/
  next : ν → Except Fault (Option ν)
  /-- The title of a node. -/
  title : ν → Except Fault String
  /-- Where on its page a node points to. -/
  destination : ν → Noted Fault (Option Destination)
  /-- The page that a node points to. -/
  page : ν → Noted Fault (Option π)
  /-- All pages of the document in order. -/
  pages : Unit → Except Fault (List π)
  /-- How a node is called in messages. -/
  label : ν → String

/-- The outline begins at one of the listed handles, and no link leaves the list. -/
structure Outline.LinksWithin {ν π : Type} (outline : Outline ν π) (handles : List ν) : Prop where
  first_mem : ∀ {node child}, outline.first node = .ok (some child) → child ∈ handles
  next_mem : ∀ {node sibling}, outline.next node = .ok (some sibling) → sibling ∈ handles

/-- An outline whose links stay among finitely many handles. -/
structure FiniteOutline (ν π : Type) extends Outline ν π where
  handles : List ν
  linksWithin : toOutline.LinksWithin handles

end Bookmarks
