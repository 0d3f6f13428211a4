/-
# Stores of objects

A store is a table of objects and a trailer, the dictionary that says where to begin: its root is
the catalog. What is stored under a name may be a reference to another object; such chains are
followed up to a limit, so that a circle of references is a defect like any other.
-/
import Bookmarks.Pdf.Object

namespace Bookmarks.Pdf

/-- The objects of a document. -/
structure Store where
  /-- The version that the file claims. -/
  version : String
  trailer : Dictionary
  objects : Std.TreeMap ObjectId Object ObjectId.order

namespace Store

/-- References that are followed one after another. -/
def referenceLimit : Nat := 128

variable (store : Store)

/-- What is stored under a name. -/
def lookup (id : ObjectId) : Option Object :=
  store.objects[id]?

/-- The object at the end of a chain of up to `limit` references. -/
def follow : Nat → Object → Except Defect Object
  | limit, .reference id =>
      match store.lookup id with
      | none => .error .missingObject
      | some target =>
          match limit with
          | 0 => .error .referenceLimit
          | limit + 1 => follow limit target
  | _, object => .ok object

/-- The object of a name. If a reference is stored there, it is followed. -/
def object (id : ObjectId) : Except Defect Object :=
  match store.lookup id with
  | none => .error .missingObject
  | some stored => store.follow referenceLimit stored

/-- The dictionary of a name. -/
def dictionary (id : ObjectId) : Except Defect Dictionary := do
  (← store.object id).asDictionary

/-- The dictionary that the trailer names as the root. -/
def catalog : Except Defect Dictionary := do
  let root ← store.trailer.require "Root"
  store.dictionary (← root.asReference)

/-- The dictionary that says how the document is encrypted. -/
def encryption : Except Defect Dictionary := do
  let encrypt ← store.trailer.require "Encrypt"
  store.dictionary (← encrypt.asReference)

/-- An object is found only under the name of something stored. -/
theorem mem_keys_of_object {id : ObjectId} {found : Object} (h : store.object id = .ok found) :
    id ∈ store.objects.keys := by
  unfold object lookup at h
  split at h
  · cases h
  · next hlookup =>
    rw [Std.TreeMap.mem_keys, Std.TreeMap.mem_iff_isSome_getElem?]
    exact Option.isSome_of_eq_some hlookup

end Store

end Bookmarks.Pdf
