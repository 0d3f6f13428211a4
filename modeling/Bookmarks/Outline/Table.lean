/-
# Tabulated outlines

An outline given by a finite table: each listed node has its answers written down, broken links and
failures among them. Asking about a node that the table does not list is a fault.
-/
import Bookmarks.Outline

namespace Bookmarks

/-- The answers about one node. -/
structure TableRow where
  first : Except Fault (Option Int) := .ok none
  last : Except Fault (Option Int) := .ok none
  next : Except Fault (Option Int) := .ok none
  title : Except Fault String := .ok ""
  destination : Except Fault (Option Destination) := .ok none
  page : Except Fault (Option String) := .ok none

/-- An outline written down row by row. -/
structure OutlineTable where
  pageCount : UInt32
  root : Except Fault (Option Int)
  pages : Except Fault (List String)
  rows : List (Int × TableRow)

namespace OutlineTable

/-- The answers about a node, if it is listed. -/
def row? (table : OutlineTable) (node : Int) : Option TableRow :=
  (table.rows.find? fun row => row.1 = node).map Prod.snd

/-- One answer about a node. -/
def answer {α : Type} (table : OutlineTable) (ask : TableRow → Except Fault α) (node : Int) :
    Except Fault α :=
  match table.row? node with
  | some row => ask row
  | none => .error (.missing s!"node {node}")

/-- The outline that a table describes. -/
def toOutline (table : OutlineTable) : Outline Int String where
  pageCount := table.pageCount
  root := table.root
  first := table.answer TableRow.first
  last := table.answer TableRow.last
  next := table.answer TableRow.next
  title := table.answer TableRow.title
  destination node := .ofExcept (table.answer TableRow.destination node)
  page node := .ofExcept (table.answer TableRow.page node)
  pages _ := table.pages
  label node := toString node

/-- The node that an answer leads to. -/
def target? : Except Fault (Option Int) → Option Int
  | .ok target => target
  | .error _ => none

/-- The nodes that some link of the table leads to. -/
def targets (table : OutlineTable) : List Int :=
  table.rows.flatMap fun row =>
    (target? row.2.first).toList ++ (target? row.2.next).toList

theorem mem_targets {table : OutlineTable} {ask : TableRow → Except Fault (Option Int)}
    (hask : ∀ row : TableRow, ∀ {target}, ask row = .ok (some target) →
      target ∈ (target? row.first).toList ++ (target? row.next).toList)
    {node target : Int} (h : table.answer ask node = .ok (some target)) :
    target ∈ table.targets := by
  unfold answer row? at h
  split at h
  · next row hrow =>
    obtain ⟨pair, hfind, rfl⟩ := Option.map_eq_some_iff.1 hrow
    exact List.mem_flatMap.2 ⟨pair, List.mem_of_find?_eq_some hfind, hask _ h⟩
  · exact absurd h (by simp)

theorem linksWithin (table : OutlineTable) : table.toOutline.LinksWithin table.targets where
  first_mem := mem_targets fun row target h => by simp [target?, h]
  next_mem := mem_targets fun row target h => by simp [target?, h]

/-- The outline that a table describes, among the nodes that its links lead to. -/
def outline (table : OutlineTable) : FiniteOutline Int String :=
  { table.toOutline with
    handles := table.targets
    linksWithin := table.linksWithin }

end OutlineTable

end Bookmarks
