/-
# Dictionaries of entries

What is read from the dictionary of an outline entry: its title, the nodes that its references lead
to, and its destination, which an array of a target, a kind and numbers gives back as it was.
-/
import Bookmarks.Pdf.OutlineItems

namespace Bookmarks

/-- A destination is made again from its kind and its numbers. -/
theorem Destination.ofKind?_kind (destination : Destination) :
    ofKind? destination.kind destination.numbers = some destination := by
  cases destination <;> rfl

namespace Pdf

/-- A number of a destination, or null where the destination leaves it open. -/
def Object.ofNumber : Option Binary32 → Object
  | none => .null
  | some value => .real value

/-- The items of the array for a destination: where it leads, its kind, and its numbers. -/
def destinationItems (target : Object) (destination : Destination) : List Object :=
  target :: .name (ascii destination.kind) :: destination.numbers.map Object.ofNumber

/-- The object that a key of a dictionary refers to, if its value is a reference. -/
def Dictionary.reference? (entries : Dictionary) (key : String) : Option ObjectId :=
  match entries.get? key with
  | some (.reference id) => some id
  | _ => none

/-! ## Destinations -/

/-- An array with a kind describes the destination of that kind with the numbers after it. -/
theorem destinationOf?_name (target : Object) (kind : Bytes) (numbers : List Object) :
    Document.destinationOf? (target :: .name kind :: numbers) =
      Destination.ofKind? (Utf8.decodeLossy kind) (numbers.map Object.number?) := rfl

theorem number?_ofNumber (number : Option Binary32) :
    (Object.ofNumber number).number? = number := by
  cases number <;> rfl

theorem decodeLossy_kind (destination : Destination) :
    Utf8.decodeLossy (ascii destination.kind) = destination.kind := by
  cases destination <;> (rw [Destination.kind]; decide +kernel)

/-- A destination is read back from its array. -/
theorem destinationOf?_destinationItems (target : Object) (destination : Destination) :
    Document.destinationOf? (destinationItems target destination) = some destination := by
  have hnumbers : (destination.numbers.map Object.ofNumber).map Object.number? =
      destination.numbers := by
    rw [List.map_map]
    exact (List.map_congr_left fun number _ => number?_ofNumber number).trans (List.map_id _)
  rw [destinationItems, destinationOf?_name, hnumbers, decodeLossy_kind, Destination.ofKind?_kind]

theorem targetPage?_destinationItems (target : Object) (destination : Destination) :
    Document.targetPage? (destinationItems target destination) = Document.targetPage? [target] := by
  cases target <;> rfl

/-- An array is a destination in itself. -/
theorem explicitDestination_array {ε : Type} (document : Document) (target : Object)
    (destination : Destination) :
    (document.explicitDestination (.array (destinationItems target destination)) :
      Noted ε (Option (List Object))).result = .ok (some (destinationItems target destination)) :=
  rfl

/-! ## Links -/

namespace Document

variable {document : Document} {entries : Dictionary} {node : OutlineNode} {key : String}

theorem reference?_eq_some {id : ObjectId} (h : Dictionary.reference? entries key = some id) :
    Dictionary.get? entries key = some (.reference id) := by
  unfold Dictionary.reference? at h
  split at h
  · next hget => rw [hget, Option.some.inj h]
  · cases h

theorem linked_eq (hdictionary : document.nodeDictionary node = .ok entries) :
    document.linked node key =
      match Dictionary.get? entries key with
      | some (.reference id) =>
          match document.object id with
          | .ok (.dictionary _) => .ok (some (.item id))
          | _ => .error (.corrupted (.danglingLink key node.label id.number id.generation))
      | _ => .ok none := by
  unfold linked
  rw [hdictionary]
  rfl

theorem linked_eq_none (hdictionary : document.nodeDictionary node = .ok entries)
    (hkey : Dictionary.reference? entries key = none) : document.linked node key = .ok none := by
  rw [linked_eq hdictionary]
  split
  · next id hget =>
    rw [Dictionary.reference?, hget] at hkey
    cases hkey
  · rfl

theorem linked_eq_some (hdictionary : document.nodeDictionary node = .ok entries)
    {id : ObjectId} (hkey : Dictionary.reference? entries key = some id) {target : Dictionary}
    (htarget : document.object id = .ok (.dictionary target)) :
    document.linked node key = .ok (some (.item id)) := by
  rw [linked_eq hdictionary, reference?_eq_some hkey]
  dsimp only
  rw [htarget]

theorem nodeDictionary_item {id : ObjectId}
    (h : document.object id = .ok (.dictionary entries)) :
    document.nodeDictionary (.item id) = .ok entries := by
  rw [nodeDictionary, dictionary, h]
  rfl

theorem itemTitle_eq (hdictionary : document.nodeDictionary node = .ok entries) {bytes : Bytes}
    (htitle : Dictionary.get? entries "Title" = some (.string bytes)) :
    document.itemTitle node = .ok (TextString.decode bytes) := by
  simp only [itemTitle, hdictionary, bind, Except.bind, htitle]
  rfl

theorem result_itemDestination (hdictionary : document.nodeDictionary node = .ok entries)
    {target : Object} {destination : Destination} (hdestination : Dictionary.get? entries "Dest" =
      some (.array (destinationItems target destination))) :
    (document.itemDestination node).result = .ok (some (destinationItems target destination)) := by
  rw [itemDestination, hdictionary, Noted.result_bind_eq_ok]
  refine ⟨entries, rfl, ?_⟩
  rw [itemTarget?, hdestination]
  exact explicitDestination_array document target destination

theorem result_itemDestination_none (hdictionary : document.nodeDictionary node = .ok entries)
    (hdestination : Dictionary.get? entries "Dest" = none)
    (haction : Dictionary.get? entries "A" = none) :
    (document.itemDestination node).result = .ok none := by
  rw [itemDestination, hdictionary, Noted.result_bind_eq_ok]
  refine ⟨entries, rfl, ?_⟩
  rw [itemTarget?, hdestination, haction]
  rfl

theorem result_destination {items : Option (List Object)}
    (h : (document.itemDestination node).result = .ok items) :
    (document.toOutline.destination node).result = .ok (items.bind destinationOf?) :=
  Noted.result_bind_eq_ok.2 ⟨items, h, rfl⟩

theorem result_page {items : Option (List Object)}
    (h : (document.itemDestination node).result = .ok items) :
    (document.toOutline.page node).result = .ok (items.bind targetPage?) :=
  Noted.result_bind_eq_ok.2 ⟨items, h, rfl⟩

end Document

end Pdf

end Bookmarks
