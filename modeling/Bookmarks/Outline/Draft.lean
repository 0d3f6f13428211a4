/-
# Drafts

A draft is an outline put together entry by entry, for bookmarks that come from somewhere other
than a file. Each entry names the node it is added under, which has to be there already; siblings
keep the order in which they were added. Pages are named by their numbers, and an entry may point
to a page that the document does not hold.
-/
import Bookmarks.Outline

namespace Bookmarks

/-- A node of a draft: zero is the root, the others are numbered as they are added. -/
structure Draft.Node where
  index : Nat
  deriving DecidableEq, Repr

/-- An entry of a draft. -/
structure Draft.Item where
  /-- The node it was added under. -/
  parent : Draft.Node
  title : String
  page : Option UInt32
  destination : Option Destination
  deriving DecidableEq, Repr

/-- An outline in the making. -/
structure Draft where
  pageCount : UInt32
  /-- Without an outline, the root cannot be reached. -/
  hasOutline : Bool := true
  /-- The entries in the order in which they were added, that is, from node one on. -/
  items : Array Draft.Item := #[]
  deriving DecidableEq, Repr

namespace Draft

/-- How a node is called in messages. -/
def Node.label (node : Node) : String :=
  s!"MemoryNodeId({node.index})"

/-- Entries added so far. -/
def size (draft : Draft) : Nat :=
  draft.items.size

/-- The node is the root or an entry of the draft. -/
def Holds (draft : Draft) (node : Node) : Prop :=
  node.index ≤ draft.size

instance (draft : Draft) (node : Node) : Decidable (draft.Holds node) :=
  inferInstanceAs (Decidable (_ ≤ _))

/-- The entry of a node. The root has none. -/
def item? (draft : Draft) (node : Node) : Option Item :=
  if node.index = 0 then none else draft.items[node.index - 1]?

/-- Add an entry as the last child of a node, which has to be there. -/
def add? (draft : Draft) (parent : Node) (title : String) (page : Option UInt32)
    (destination : Option Destination) : Option (Draft × Node) :=
  if draft.Holds parent then
    some ({ draft with items := draft.items.push ⟨parent, title, page, destination⟩ },
      ⟨draft.size + 1⟩)
  else none

/-- Add an entry that shows its whole page, if it names one. -/
def addEntry? (draft : Draft) (parent : Node) (title : String) (page : Option UInt32) :
    Option (Draft × Node) :=
  draft.add? parent title page (page.map fun _ => .fit)

/-- The entry at this place, counted from zero, was added under the node. -/
def isUnder (draft : Draft) (parent : Node) (place : Nat) : Bool :=
  draft.items[place]?.any fun item => item.parent = parent

/-- The node of the entry at a place. -/
def nodeAt (place : Nat) : Node :=
  ⟨place + 1⟩

/-- The first entry added under a node. -/
def first? (draft : Draft) (node : Node) : Option Node :=
  ((List.range draft.size).find? (draft.isUnder node)).map nodeAt

/-- The last entry added under a node. -/
def last? (draft : Draft) (node : Node) : Option Node :=
  ((List.range draft.size).reverse.find? (draft.isUnder node)).map nodeAt

/-- The entry added next under the same node. -/
def next? (draft : Draft) (node : Node) : Option Node :=
  match draft.item? node with
  | none => none
  | some item =>
      ((List.range' node.index (draft.size - node.index)).find? (draft.isUnder item.parent)).map
        nodeAt

/-- An answer about a node that has to be there. -/
def answer {α : Type} (draft : Draft) (node : Node) (value : α) : Except Fault α :=
  if draft.Holds node then .ok value
  else .error (.missing s!"outline entry {node.index}")

/-- The pages of the document. -/
def pages (draft : Draft) : List UInt32 :=
  (List.range draft.pageCount.toNat).map fun i => UInt32.ofNat (i + 1)

/-- The outline that a draft describes. -/
def toOutline (draft : Draft) : Outline Node UInt32 where
  pageCount := draft.pageCount
  root := .ok (if draft.hasOutline then some ⟨0⟩ else none)
  first node := draft.answer node (draft.first? node)
  last node := draft.answer node (draft.last? node)
  next node := draft.answer node (draft.next? node)
  title node := draft.answer node ((draft.item? node).elim "" Item.title)
  destination node := .ofExcept (draft.answer node ((draft.item? node).bind Item.destination))
  page node := .ofExcept (draft.answer node ((draft.item? node).bind Item.page))
  pages _ := .ok draft.pages
  label := Node.label

/-- Every node of a draft. -/
def nodes (draft : Draft) : List Node :=
  (List.range (draft.size + 1)).map Node.mk

theorem nodeAt_mem_nodes {draft : Draft} {place : Nat} (h : place < draft.size) :
    nodeAt place ∈ draft.nodes :=
  List.mem_map.2 ⟨place + 1, List.mem_range.2 (by omega), rfl⟩

theorem mem_nodes_of_find {draft : Draft} {places : List Nat} {p : Nat → Bool} {node : Node}
    (hplaces : ∀ place ∈ places, place < draft.size)
    (h : (places.find? p).map nodeAt = some node) : node ∈ draft.nodes := by
  obtain ⟨place, hfind, rfl⟩ := Option.map_eq_some_iff.1 h
  exact nodeAt_mem_nodes (hplaces place (List.mem_of_find?_eq_some hfind))

theorem answer_eq_ok {α : Type} {draft : Draft} {node : Node} {value result : α}
    (h : draft.answer node value = .ok result) : value = result := by
  unfold answer at h
  split at h
  · exact Except.ok.inj h
  · exact absurd h (by simp)

theorem linksWithin (draft : Draft) : draft.toOutline.LinksWithin draft.nodes where
  first_mem h :=
    mem_nodes_of_find (fun _ => List.mem_range.1) (answer_eq_ok h)
  next_mem {node sibling} h := by
    have h := answer_eq_ok h
    unfold next? at h
    split at h
    · exact absurd h (by simp)
    · refine mem_nodes_of_find (fun place hplace => ?_) h
      have := List.mem_range'_1.1 hplace
      omega

/-- The outline that a draft describes, among the nodes of the draft. -/
def outline (draft : Draft) : FiniteOutline Node UInt32 :=
  { draft.toOutline with
    handles := draft.nodes
    linksWithin := draft.linksWithin }

end Draft

end Bookmarks
