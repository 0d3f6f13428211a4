/-
# PDF files

A store of objects is read from the bytes of a file: the header gives the version, the
cross-reference tables give the places of the objects. An object that cannot be read where it should
be is simply not there. This is the plain form of a file; where cross-references or objects are kept
in streams, `Document.ofFile` finds no table or misses those objects, and another library is needed.
-/
import Bookmarks.Pdf.CrossReference
import Bookmarks.Pdf.PageTree

namespace Bookmarks.Pdf

open Grammar

/-- The version that the first line of a file gives. -/
def readVersion (content : Bytes) : Option String := do
  let rest ← expect "%PDF-" content
  let (version, rest) := rest.span fun byte => byte ≠ cr && byte ≠ lf
  let _ ← expectLineEnd rest
  Utf8.decode? version

namespace FileBytes

variable (file : FileBytes)

/-- The integer that stands by itself under a name. -/
def integerAt? (table : SlotTable) (id : ObjectId) : Option Int := do
  let slot ← table[id.number]?
  let (found, rest) ← readDefinition (← file.from? slot.offset)
  if slot.generation = id.generation ∧ found = id then
    match readObject file.size rest with
    | some (.integer value, _) => some value
    | _ => none
  else none

/-- The length that a stream's dictionary gives, directly or by a reference to an integer. -/
def streamLength? (table : SlotTable) (entries : Dictionary) : Option Int :=
  match entries.get? "Length" with
  | some (.integer value) => some value
  | some (.reference id) => file.integerAt? table id
  | _ => none

/-- The object at an offset under the name that is written there. -/
def definitionAt? (table : SlotTable) (offset : Nat) : Option (ObjectId × Object) := do
  let (id, rest) ← readDefinition (← file.from? offset)
  let object ← readWhole (file.streamLength? table) file.size rest
  some (id, object)

/-- The objects of a table that can be read, in the order of their numbers in the table. Of two
under one name the later one counts. -/
def objects (table : SlotTable) : Std.TreeMap ObjectId Object ObjectId.order :=
  table.foldl
    (fun objects _ slot =>
      match file.definitionAt? table slot.offset with
      | some (id, object) => objects.insert id object
      | none => objects) ∅

end FileBytes

/-- The objects in the bytes of a PDF file. -/
def Store.ofFile (content : Bytes) : Except Defect Store :=
  match readVersion content with
  | none => .error .header
  | some version => do
      let file := FileBytes.ofBytes content
      let (table, trailer) ← file.crossReference
      pure { version := version, trailer := trailer, objects := file.objects table }

/-- The document in the bytes of a PDF file. -/
def Document.ofFile (content : Bytes) : Except Defect Document :=
  (Store.ofFile content).map Store.document

end Bookmarks.Pdf
