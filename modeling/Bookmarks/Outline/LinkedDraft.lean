/-
# Linked drafts

The form in which a draft is kept. Beside the node that it was added under, each node has the list
of the entries added under it, so that links are looked up in these lists; the root comes first, as
the node that was added under none. Without the lists it is a `Draft`, whose links are searched for.
-/
import Bookmarks.Outline.Draft

namespace Bookmarks

/-- A node of a linked draft. -/
structure LinkedDraft.Entry where
  title : String
  page : Option UInt32
  destination : Option Destination
  /-- The node it was added under. -/
  parent : Option Draft.Node
  /-- The entries added under it, in order. -/
  children : Array Draft.Node
  deriving DecidableEq, Repr

/-- An outline in the making, with a list of children for each node. -/
structure LinkedDraft where
  pageCount : UInt32
  hasOutline : Bool
  /-- The root, and then the entries in the order in which they were added. -/
  entries : Array LinkedDraft.Entry
  deriving DecidableEq, Repr

namespace LinkedDraft

open Draft (Node)

/-- A root without entries. -/
def empty (pageCount : UInt32) (hasOutline : Bool) : LinkedDraft where
  pageCount := pageCount
  hasOutline := hasOutline
  entries := #[⟨"", none, none, none, #[]⟩]

variable (draft : LinkedDraft)

/-- Entries added so far. -/
def size : Nat :=
  draft.entries.size - 1

/-- The linked draft with one more entry at the end, which is also the last child of a node. -/
def push (above : Node) (entry : Entry) : LinkedDraft :=
  { draft with
    entries := (draft.entries.push entry).modify above.index fun other =>
      { other with children := other.children.push ⟨draft.entries.size⟩ } }

/-- Add an entry as the last child of a node, which has to be there. Without a node to add it under,
it is added at the top. -/
def append? (parent : Option Node) (title : String) (page : Option UInt32)
    (destination : Option Destination) : Option (LinkedDraft × Node) :=
  let above := parent.getD ⟨0⟩
  if above.index < draft.entries.size then
    some (draft.push above ⟨title, page, destination, some above, #[]⟩, ⟨draft.entries.size⟩)
  else none

/-- Add an entry that shows its whole page, if it names one. -/
def addEntry? (parent : Option Node) (title : String) (page : Option UInt32) :
    Option (LinkedDraft × Node) :=
  draft.append? parent title page (page.map fun _ => .fit)

/-- Add an entry with a destination of its own. -/
def addEntryAt? (parent : Option Node) (title : String) (page : Option UInt32)
    (destination : Destination) : Option (LinkedDraft × Node) :=
  draft.append? parent title page (some destination)

/-- What is kept for a node, which has to be there. -/
def entry (node : Node) : Except Fault Entry :=
  match draft.entries[node.index]? with
  | some entry => .ok entry
  | none => .error (.missing s!"outline entry {node.index}")

/-- The children of a node. -/
def children (node : Node) : Array Node :=
  (draft.entries[node.index]?).elim #[] Entry.children

/-- The first child of a node. -/
def first (node : Node) : Except Fault (Option Node) :=
  (draft.entry node).map fun entry => entry.children[0]?

/-- The last child of a node. -/
def last (node : Node) : Except Fault (Option Node) :=
  (draft.entry node).map fun entry => entry.children.back?

/-- The node that stands behind a node among the children of the same parent. -/
def next (node : Node) : Except Fault (Option Node) :=
  (draft.entry node).map fun entry => do
    let siblings := draft.children (← entry.parent)
    let place ← siblings.idxOf? node
    siblings[place + 1]?

/-- The pages of the document. -/
def pages : List UInt32 :=
  (List.range draft.pageCount.toNat).map fun i => UInt32.ofNat (i + 1)

/-- The outline that a linked draft describes. -/
def toOutline : Outline Node UInt32 where
  pageCount := draft.pageCount
  root := .ok (if draft.hasOutline then some ⟨0⟩ else none)
  first := draft.first
  last := draft.last
  next := draft.next
  title node := (draft.entry node).map Entry.title
  destination node := .ofExcept ((draft.entry node).map Entry.destination)
  page node := .ofExcept ((draft.entry node).map Entry.page)
  pages _ := .ok draft.pages
  label := Node.label

/-- Every node that is listed as a child. -/
def listed : List Node :=
  draft.entries.toList.flatMap fun entry => entry.children.toList

theorem mem_listed {node : Node} {entry : Entry} {child : Node}
    (hentry : draft.entries[node.index]? = some entry) (hchild : child ∈ entry.children) :
    child ∈ draft.listed :=
  List.mem_flatMap.2
    ⟨entry, Array.mem_toList_iff.2 (Array.mem_of_getElem? hentry), Array.mem_toList_iff.2 hchild⟩

theorem entry_eq_ok {node : Node} {entry : Entry} :
    draft.entry node = .ok entry ↔ draft.entries[node.index]? = some entry := by
  unfold LinkedDraft.entry
  cases draft.entries[node.index]? <;> simp

theorem linksWithin : draft.toOutline.LinksWithin draft.listed where
  first_mem {node child} h := by
    change (draft.entry node).map _ = _ at h
    cases hentry : draft.entry node with
    | error fault => rw [hentry] at h; cases h
    | ok entry =>
        rw [hentry] at h
        exact draft.mem_listed (draft.entry_eq_ok.1 hentry)
          (Array.mem_of_getElem? (Except.ok.inj h))
  next_mem {node sibling} h := by
    change (draft.entry node).map _ = _ at h
    cases hentry : draft.entry node with
    | error fault => rw [hentry] at h; cases h
    | ok entry =>
        rw [hentry] at h
        obtain ⟨parent, -, h⟩ := Option.bind_eq_some_iff.1 (Except.ok.inj h)
        obtain ⟨place, -, h⟩ := Option.bind_eq_some_iff.1 h
        cases hparent : draft.entries[parent.index]? with
        | none => rw [children, hparent] at h; cases h
        | some above =>
            rw [children, hparent] at h
            exact draft.mem_listed hparent (Array.mem_of_getElem? h)

/-- The outline that a linked draft describes, among the children of its nodes. -/
def outline : FiniteOutline Node UInt32 :=
  { draft.toOutline with
    handles := draft.listed
    linksWithin := draft.linksWithin }

end LinkedDraft

end Bookmarks
