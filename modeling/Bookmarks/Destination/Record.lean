/-
# Destinations as JSON records

A destination is written as an object that names its kind under `type` and then lists its
coordinates, a coordinate that is absent or not finite being null.

It is read back from an object whose members come in any order: a coordinate may be missing or
null, members of other names do not matter, but a member that does must not come twice. It is also
read from an array that gives the kind and then every coordinate in order.
-/
import Bookmarks.Destination
import Bookmarks.Json.Precision
import Bookmarks.Json.Reader
import Bookmarks.Json.Writer

namespace Bookmarks.Destination

/-- The kinds of destination. -/
inductive Kind where
  | xyz
  | fit
  | fitH
  | fitV
  | fitR
  | fitB
  | fitBH
  | fitBV
  deriving DecidableEq, Repr

namespace Kind

/-- Every kind. -/
def all : List Kind :=
  [.xyz, .fit, .fitH, .fitV, .fitR, .fitB, .fitBH, .fitBV]

/-- The name of a kind in a record. -/
def tag : Kind → String
  | .xyz => "xyz"
  | .fit => "fit"
  | .fitH => "fit_h"
  | .fitV => "fit_v"
  | .fitR => "fit_r"
  | .fitB => "fit_b"
  | .fitBH => "fit_b_h"
  | .fitBV => "fit_b_v"

/-- The kind of a name. -/
def ofTag? (tag : String) : Option Kind :=
  all.find? fun kind => kind.tag = tag

/-- The coordinates that a record of this kind lists, in order. -/
def fields : Kind → List String
  | .xyz => ["left", "top", "zoom"]
  | .fit | .fitB => []
  | .fitH | .fitBH => ["top"]
  | .fitV | .fitBV => ["left"]
  | .fitR => ["left", "bottom", "right", "top"]

/-- The destination with these coordinates, a missing one being absent. -/
def build (kind : Kind) (coordinates : List (Option Binary32)) : Destination :=
  let number (i : Nat) : Option Binary32 := coordinates[i]?.join
  match kind with
  | .xyz => .xyz (number 0) (number 1) (number 2)
  | .fit => .fit
  | .fitH => .fitH (number 0)
  | .fitV => .fitV (number 0)
  | .fitR => .fitR (number 0) (number 1) (number 2) (number 3)
  | .fitB => .fitB
  | .fitBH => .fitBH (number 0)
  | .fitBV => .fitBV (number 0)

end Kind

/-- The kind of a destination in a record. -/
def recordKind : Destination → Kind
  | .xyz _ _ _ => .xyz
  | .fit => .fit
  | .fitH _ => .fitH
  | .fitV _ => .fitV
  | .fitR _ _ _ _ => .fitR
  | .fitB => .fitB
  | .fitBH _ => .fitBH
  | .fitBV _ => .fitBV

/-- The name of the member that holds the kind. -/
def kindKey : String := "type"

/-- A coordinate in a record. -/
def coordinateRecord (coordinate : Option Binary32) : Json :=
  match coordinate.bind Numeral.ofBinary32? with
  | some numeral => .number numeral
  | none => .null

/-- The record of a destination. -/
def record (destination : Destination) : Json :=
  let kind := destination.recordKind
  .object ((kindKey, .string kind.tag)
    :: kind.fields.zip (destination.numbers.map coordinateRecord))

/-- A coordinate read from a record: the outer `none` refuses, the inner one is absent. -/
def readCoordinate? : Json → Option (Option Binary32)
  | .null => some none
  | .number numeral => numeral.toBinary32?.map some
  | _ => none

/-- The one value of a member, absent if there is none, refused if there are several. -/
def member? (members : List (String × Json)) (key : String) : Option (Option Json) :=
  match members.filter fun member => member.1 = key with
  | [] => some none
  | [member] => some (some member.2)
  | _ => none

/-- The kind that a value names. -/
def readKind? : Json → Option Kind
  | .string tag => Kind.ofTag? tag
  | _ => none

/-- The coordinate of a name in an object. -/
def readField? (members : List (String × Json)) (field : String) :
    Option (Option Binary32) := do
  match ← member? members field with
  | none => some none
  | some value => readCoordinate? value

/-- A destination from the members of an object. -/
def ofMembers? (members : List (String × Json)) : Option Destination := do
  let kind ← readKind? (← (← member? members kindKey))
  let coordinates ← kind.fields.mapM (readField? members)
  some (kind.build coordinates)

/-- A destination from the items of an array. -/
def ofItems? : List Json → Option Destination
  | [] => none
  | tag :: values => do
      let kind ← readKind? tag
      if values.length = kind.fields.length then do
        let coordinates ← values.mapM readCoordinate?
        some (kind.build coordinates)
      else none

/-- A destination from a record. -/
def ofRecord? : Json → Option Destination
  | .object members => ofMembers? members
  | .array items => ofItems? items
  | _ => none

/-- Arrays and objects that a text may nest. -/
def greatestDepth : Nat := 127

/-- The text of a destination's record. -/
def write (destination : Destination) : String :=
  destination.record.write .compact

/-- A destination from a JSON text. The whole text has to be sound, its unread members included: it
nests no deeper than allowed, and each of its numbers has a value. -/
def read? (text : String) : Option Destination := do
  let value ← Json.read text
  if value.depth ≤ greatestDepth
      && value.numerals.all (fun numeral => numeral.toBinary32?.isSome) then
    ofRecord? value
  else none

end Bookmarks.Destination
