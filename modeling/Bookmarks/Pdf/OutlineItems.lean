/-
# Outlines of PDF documents

The outline of a document begins at a dictionary of its catalog. Each node is a dictionary whose
links are references to other nodes; a link that leads to no dictionary is broken. A title is a
text string, and an entry points to its page by a destination or by an action that goes to one.
-/
import Bookmarks.Outline
import Bookmarks.Pdf.NamedDestination
import Bookmarks.Text.TextString

namespace Bookmarks.Pdf

/-- A node of a document's outline. -/
inductive OutlineNode where
  /-- The dictionary that the outline begins at. -/
  | outlines
  /-- An entry, by the name of its dictionary. -/
  | item (id : ObjectId)
  deriving DecidableEq, Repr

/-- How a node is called in messages. -/
def OutlineNode.label : OutlineNode → String
  | .outlines => "Outlines"
  | .item id => s!"Item(({id.number}, {id.generation}))"

/-- A defect of the document as a fault of whoever reads its outline. -/
def orFault {α : Type} (result : Except Defect α) : Except Fault α :=
  result.mapError Defect.toFault

namespace Document

variable (document : Document)

/-- The dictionary of a node. -/
def nodeDictionary : OutlineNode → Except Defect Dictionary
  | .outlines => do
      let outlines ← (← document.catalog).require "Outlines"
      (← document.resolve outlines).asDictionary
  | .item id => document.dictionary id

/-- The node that the outline begins at. A catalog whose outline is no dictionary has none. -/
def outlineRoot : Except Defect (Option OutlineNode) := do
  match (← document.catalog).get? "Outlines" with
  | none => pure none
  | some outlines =>
      match ← document.resolve outlines with
      | .dictionary _ => pure (some .outlines)
      | _ => pure none

/-- The node that a link leads to. Whatever is no reference is no link; a reference has to lead to
a dictionary. -/
def linked (node : OutlineNode) (key : String) : Except Fault (Option OutlineNode) := do
  match (← orFault (document.nodeDictionary node)).get? key with
  | some (.reference id) =>
      match document.object id with
      | .ok (.dictionary _) => pure (some (.item id))
      | _ => .error (.corrupted (.danglingLink key node.label id.number id.generation))
  | _ => pure none

/-- The node that follows an entry. The node that the outline begins at has no siblings. -/
def nextItem : OutlineNode → Except Fault (Option OutlineNode)
  | .outlines => pure none
  | .item id => document.linked (.item id) "Next"

/-- The title of a node; a node without a text for a title has an empty one. -/
def itemTitle (node : OutlineNode) : Except Defect String := do
  match (← document.nodeDictionary node).get? "Title" with
  | none => pure ""
  | some title =>
      match ← document.resolve title with
      | .string bytes => pure (TextString.decode bytes)
      | .name bytes => pure (Utf8.decodeLossy bytes)
      | _ => pure ""

/-- The destination of an action, if it is one that goes to a place in the document. -/
def actionTarget? (action : Object) : Option Object := do
  let entries ← document.dictionary? action
  match entries.get? "S" with
  | some (.name kind) => if kind = ascii "GoTo" then entries.get? "D" else none
  | _ => none

/-- Where an entry says that it points to: its destination, or else that of its action. -/
def itemTarget? (entries : Dictionary) : Option Object :=
  match entries.get? "Dest" with
  | some destination => some destination
  | none => (entries.get? "A").bind document.actionTarget?

/-- The array that says where an entry points to. -/
def itemDestination (node : OutlineNode) : Noted Fault (Option (List Object)) := do
  let entries ← Noted.ofExcept (orFault (document.nodeDictionary node))
  match document.itemTarget? entries with
  | some target => document.explicitDestination target
  | none => pure none

/-- The items of an array from a place on, which has to be one of its places or its end. -/
def itemsFrom? (items : List Object) (place : Nat) : Option (List Object) :=
  if place ≤ items.length then some (items.drop place) else none

/-- The destination that an array describes: the kind is at place one, after the page, and the
numbers are from place two on. There is no answer if the array should not have that many places. -/
def destinationByPlace? (items : List Object) : Option (Option Destination) :=
  match items[1]? with
  | some (Object.name kind) =>
      (itemsFrom? items 2).map fun numbers =>
        Destination.ofKind? (Utf8.decodeLossy kind) (numbers.map Object.number?)
  | _ => some none

/-- An array with a kind has a place two, if only its end. -/
theorem isSome_destinationByPlace? (items : List Object) : (destinationByPlace? items).isSome := by
  -- Two items are enough to decide, and where the second is no name there is no kind.
  match items with
  | [] => rfl
  | [_] => rfl
  | _ :: kind :: numbers => cases kind <;> rfl

/-- The destination that an array describes, read place by place and never beyond its end. -/
def destinationOf? (items : List Object) : Option Destination :=
  (destinationByPlace? items).get (isSome_destinationByPlace? items)

/-- The page that an array describes, which may be no page of the document. -/
def targetPage? : List Object → Option ObjectId
  | .reference id :: _ => some id
  | _ => none

/-- The outline of a document. -/
def toOutline : Outline OutlineNode ObjectId :=
  let pages := document.pages
  { pageCount := UInt32.ofNat pages.length
    root := orFault document.outlineRoot
    first := fun node => document.linked node "First"
    last := fun node => document.linked node "Last"
    next := document.nextItem
    title := fun node => orFault (document.itemTitle node)
    destination := fun node => do
      return (← document.itemDestination node).bind destinationOf?
    page := fun node => do
      return (← document.itemDestination node).bind targetPage?
    pages := fun _ => .ok pages
    label := OutlineNode.label }

/-- What is worth a notice as soon as the document is there. -/
def openingNotices : List Notice :=
  if document.isEncrypted then [.encryptedDocument] else []

/-- Every node that a link can lead to. -/
def nodes : List OutlineNode :=
  document.ids.map .item

variable {document}

theorem linked_mem_nodes {node target : OutlineNode} {key : String}
    (h : document.linked node key = .ok (some target)) : target ∈ document.nodes := by
  unfold linked at h
  cases hdict : orFault (document.nodeDictionary node) with
  | error fault => simp [hdict, bind, Except.bind] at h
  | ok entries =>
    simp only [hdict, bind, Except.bind] at h
    split at h
    · next id _ =>
      split at h
      · next hobject =>
        obtain rfl : OutlineNode.item id = target := by simpa [pure, Except.pure] using h
        exact List.mem_map.2 ⟨id, document.mem_ids hobject, rfl⟩
      · exact absurd h (by simp)
    · exact absurd h (by simp [pure, Except.pure])

variable (document)

theorem linksWithin : document.toOutline.LinksWithin document.nodes where
  first_mem := linked_mem_nodes
  next_mem {node target} h := by
    change document.nextItem node = _ at h
    cases node with
    | outlines => exact absurd h (by simp [nextItem, pure, Except.pure])
    | item id => exact linked_mem_nodes h

/-- The outline of a document, among the nodes that its links can lead to. -/
def outline : FiniteOutline OutlineNode ObjectId :=
  { document.toOutline with
    handles := document.nodes
    linksWithin := document.linksWithin }

end Document

end Bookmarks.Pdf
