/-
# Paths

A path is a way through the file system, written as names with slashes between them. It begins at
the directory that the program runs in or, if a slash comes first, at the root of the file system.
One dot stays in place and two dots lead back. `Place` is what a way leads to: two ways to one place
differ as paths and are equal as places.
-/

namespace Bookmarks.Command

/-- Why the system refuses a path. -/
inductive PathFault where
  | missing
  | notDirectory
  | isDirectory
  | nameTooLong
  deriving DecidableEq, Repr

/-- The refusal in the words of the system. -/
def PathFault.message : PathFault → String
  | .missing => "No such file or directory (os error 2)"
  | .notDirectory => "Not a directory (os error 20)"
  | .isDirectory => "Is a directory (os error 21)"
  | .nameTooLong => "File name too long (os error 36)"

/-- Bytes that a path may have. -/
def greatestPathSize : Nat := 4095

/-- Bytes that a name may have. -/
def greatestNameSize : Nat := 255

/-- The names between the slashes of a text that goes on after `name`, which is turned round. -/
def splitSlash (name : List Char) : List Char → List String
  | [] => [String.ofList name.reverse]
  | '/' :: rest => String.ofList name.reverse :: splitSlash [] rest
  | c :: rest => splitSlash (c :: name) rest

/-- A path as it is written. -/
structure Path where
  /-- A slash comes first. -/
  isAbsolute : Bool
  /-- The names in order. Slashes side by side have no name between them. -/
  names : List String
  /-- A slash comes last, so that only a directory can be meant. -/
  endsInSlash : Bool
  deriving DecidableEq, Repr

namespace Path

/-- The path that a text writes, unless the system refuses to read so much. -/
def parse (text : String) : Except PathFault Path :=
  if text.isEmpty then .error .missing
  else if greatestPathSize < text.utf8ByteSize then .error .nameTooLong
  else
    .ok {
      isAbsolute := text.toList.head? = some '/'
      names := (splitSlash [] text.toList).filter (· ≠ "")
      endsInSlash := text.toList.getLast? = some '/' }

/-- The last name. A path without any stays where it begins. -/
def last (path : Path) : String :=
  path.names.getLast?.getD "."

/-- The names before the last one. -/
def before (path : Path) : List String :=
  path.names.dropLast

end Path

/-- A place in the file system. -/
structure Place where
  /-- How many levels above the directory that the program runs in the names begin; without a
  number they begin at the root. -/
  levels : Option Nat
  /-- The names from there on, none of which leads back. -/
  names : List String
  deriving DecidableEq, Repr

namespace Place

/-- The directory that the program runs in. -/
def working : Place := ⟨some 0, []⟩

/-- The root of the file system. -/
def root : Place := ⟨none, []⟩

/-- The directory that holds a place. The root holds itself. -/
def parent (place : Place) : Place :=
  if place.names.isEmpty then ⟨place.levels.map (· + 1), []⟩
  else ⟨place.levels, place.names.dropLast⟩

/-- The place of a name in a directory. -/
def child (place : Place) (name : String) : Place :=
  ⟨place.levels, place.names ++ [name]⟩

/-- The place that a name leads to from a directory. -/
def step (place : Place) (name : String) : Except PathFault Place :=
  if name = "." then .ok place
  else if name = ".." then .ok place.parent
  else if greatestNameSize < name.utf8ByteSize then .error .nameTooLong
  else .ok (place.child name)

/-- The first place lies somewhere below the second. -/
def isBelow (place above : Place) : Bool :=
  place.levels = above.levels && place.names.length ≠ above.names.length
    && above.names.isPrefixOf place.names

end Place

/-- Where a path begins. -/
def Path.start (path : Path) : Place :=
  if path.isAbsolute then Place.root else Place.working

end Bookmarks.Command
