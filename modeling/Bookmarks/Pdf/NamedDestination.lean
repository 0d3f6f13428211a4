/-
# Named destinations

A destination is given by an array, or in other words: by a name that a table of the document
explains, or by a dictionary that holds the destination. What a name or a dictionary leads to may
be another name or dictionary; `explicitDestination` follows such hops up to a limit.

Names are kept in trees of their own. A tree is searched depth first and no deeper than a limit;
going deeper is worth a notice.
-/
import Bookmarks.Noted
import Bookmarks.Pdf.Document

namespace Bookmarks.Pdf

/-- Levels that a tree of names is searched, and objects that a destination is looked for in. -/
def nameDepth : Nat := 33

namespace Document

variable {ε : Type} (document : Document)

/-- The value of the first pair whose key stands for a string with these bytes. A last key without
a value is left alone. -/
def findPair (name : Bytes) : List Object → Option Object
  | key :: value :: rest =>
      match document.resolve key with
      | .ok (.string found) => if found = name then some value else findPair name rest
      | _ => findPair name rest
  | _ => none

/-- The value found in the first node that holds one. -/
def findFirst (search : Dictionary → Noted ε (Option Object)) :
    List Dictionary → Noted ε (Option Object)
  | [] => pure none
  | node :: nodes => do
      match ← search node with
      | some value => pure (some value)
      | none => findFirst search nodes

/-- Search a tree of names: the pairs of the node itself, and then its children in turn. A node
whose pairs are no array is not searched any further. -/
def findName (name : Bytes) : Nat → Dictionary → Noted ε (Option Object)
  | 0, _ => do
      Noted.note .nameTreeTooDeep
      pure none
  | depth + 1, node =>
      let children : List Dictionary :=
        (((node.get? "Kids").bind document.array?).getD []).filterMap document.dictionary?
      let below : Noted ε (Option Object) := findFirst (findName name depth) children
      match node.get? "Names" with
      | none => below
      | some names =>
          match document.array? names with
          | none => pure none
          | some pairs =>
              match document.findPair name pairs with
              | some value => pure (some value)
              | none => below

/-- The tree of names in a catalog. -/
def nameTree? (catalog : Dictionary) : Option Dictionary := do
  let names ← document.dictionary? (← catalog.get? "Names")
  document.dictionary? (← names.get? "Dests")

/-- The value of a name in the plain dictionary of names that older documents have. -/
def plainName? (catalog : Dictionary) (name : Bytes) : Option Object := do
  let names ← document.dictionary? (← catalog.get? "Dests")
  names.value? name

/-- What a name stands for, according to the tree of names or else to the plain dictionary. -/
def namedDestination (name : Bytes) : Noted ε (Option Object) :=
  match document.catalog with
  | .error _ => pure none
  | .ok catalog => do
      let found ← match document.nameTree? catalog with
        | some tree => document.findName name nameDepth tree
        | none => pure none
      match found with
      | some value => pure (some value)
      | none => pure (document.plainName? catalog name)

/-- The array that a destination comes down to, looking at up to `hops` objects. -/
def destinationWithin : Nat → Object → Noted ε (Option (List Object))
  | 0, _ => pure none
  | hops + 1, destination =>
      match document.resolve destination with
      | .ok (.array []) => pure none
      | .ok (.array items) => pure (some items)
      | .ok (.dictionary entries) =>
          match Dictionary.get? entries "D" with
          | some target => destinationWithin hops target
          | none => pure none
      | .ok (.string name) | .ok (.name name) => do
          match ← document.namedDestination name with
          | some target => destinationWithin hops target
          | none => pure none
      | _ => pure none

/-- The array that a destination comes down to. -/
def explicitDestination (destination : Object) : Noted ε (Option (List Object)) :=
  document.destinationWithin nameDepth destination

end Document

end Bookmarks.Pdf
