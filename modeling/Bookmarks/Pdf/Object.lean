/-
# PDF objects

A PDF document is a graph of objects: plain values, arrays, dictionaries, and references to other
objects by number and generation.
-/
import Bookmarks.Number.Binary32
import Bookmarks.Pdf.Defect
import Bookmarks.Text.Utf8
import Std.Data.TreeMap

namespace Bookmarks.Pdf

/-- The name of an object in a document. -/
structure ObjectId where
  number : Nat
  generation : Nat
  deriving DecidableEq, Hashable, Repr

/-- Objects are ordered by number, and by generation among those of one number. -/
def ObjectId.order : ObjectId → ObjectId → Ordering :=
  compareLex (compareOn ObjectId.number) (compareOn ObjectId.generation)

instance : Std.TransCmp ObjectId.order :=
  inferInstanceAs
    (Std.TransCmp (compareLex (compareOn ObjectId.number) (compareOn ObjectId.generation)))

instance : Std.LawfulEqCmp ObjectId.order where
  eq_of_compare {a b} h := by
    have h : (compare a.number b.number).then (compare a.generation b.generation) = .eq := h
    rw [Ordering.then_eq_eq, Std.compare_eq_iff_eq, Std.compare_eq_iff_eq] at h
    cases a
    cases b
    simp_all

/-- A PDF object. Of a stream only its dictionary matters here. -/
inductive Object where
  | null
  | boolean (value : Bool)
  | integer (value : Int)
  | real (value : Binary32)
  | name (value : Bytes)
  | string (value : Bytes)
  | array (items : List Object)
  | dictionary (entries : List (Bytes × Object))
  | stream (entries : List (Bytes × Object))
  | reference (id : ObjectId)
  deriving Inhabited, Repr

/-- The entries of a dictionary. -/
abbrev Dictionary := List (Bytes × Object)

/-- The bytes of an ASCII text. -/
def ascii (text : String) : Bytes :=
  text.toList.map fun c => UInt8.ofNat c.toNat

namespace Dictionary

/-- The value of a key, which may be null. -/
def value? (entries : Dictionary) (key : Bytes) : Option Object :=
  (entries.find? fun entry => entry.1 = key).map Prod.snd

/-- The value of a key that is an ASCII text. -/
def get? (entries : Dictionary) (key : String) : Option Object :=
  entries.value? (ascii key)

/-- The value of a key that has to be there. -/
def require (entries : Dictionary) (key : String) : Except Defect Object :=
  match entries.get? key with
  | some value => .ok value
  | none => .error .missingKey

end Dictionary

namespace Object

/-- The object that a reference names. -/
def asReference : Object → Except Defect ObjectId
  | .reference id => .ok id
  | _ => .error .wrongKind

/-- The entries of a dictionary. A stream is no dictionary. -/
def asDictionary : Object → Except Defect Dictionary
  | .dictionary entries => .ok entries
  | _ => .error .wrongKind

/-- The items of an array. -/
def asArray : Object → Except Defect (List Object)
  | .array items => .ok items
  | _ => .error .wrongKind

/-- A number in single precision. Anything but a number is none. -/
def number? : Object → Option Binary32
  | .integer value => some (Binary32.ofInt value)
  | .real value => some value
  | _ => none

end Object

end Bookmarks.Pdf
