/-
# PDF documents

A document is what a PDF library makes of a file: objects that have names, and the catalog, the
dictionary from which everything else is reached. `Document` holds what a library answers about
these, however it finds it. A value may be a reference to an object, and then the object is meant.
-/
import Bookmarks.Pdf.Object

namespace Bookmarks.Pdf

/-- A PDF document, given by what can be asked about it. -/
structure Document where
  /-- The version that the file claims. -/
  version : String
  /-- The document says how it is encrypted. -/
  isEncrypted : Bool
  /-- The dictionary that everything else is reached from. -/
  catalog : Except Defect Dictionary
  /-- The object of a name. -/
  object : ObjectId → Except Defect Object
  /-- The pages in order. -/
  pages : List ObjectId
  /-- The names of objects, which are finitely many. -/
  ids : List ObjectId
  mem_ids : ∀ {id found}, object id = .ok found → id ∈ ids

namespace Document

variable (document : Document)

/-- What a value stands for: the object of the name if it is a reference, and itself otherwise. -/
def resolve : Object → Except Defect Object
  | .reference id => document.object id
  | object => .ok object

/-- The dictionary of a name. -/
def dictionary (id : ObjectId) : Except Defect Dictionary := do
  (← document.object id).asDictionary

/-- The dictionary that a value stands for, if it is one. -/
def dictionary? (value : Object) : Option Dictionary :=
  (do (← document.resolve value).asDictionary).toOption

/-- The array that a value stands for, if it is one. -/
def array? (value : Object) : Option (List Object) :=
  (do (← document.resolve value).asArray).toOption

end Document

end Bookmarks.Pdf
