/-
# Files

A run of the program reads one file and may write another. A `Directory` is the part of a file
system that this needs: the files that are known in and around the directory that the program runs
in. The directories above it are there, too, with no other file known in them.
-/
import Bookmarks.Command.Path
import Bookmarks.Text.Utf8

namespace Bookmarks.Command

/-- Files by their places. -/
structure Directory where
  files : List (Place × Bytes) := []
  deriving DecidableEq, Repr

namespace Directory

variable (directory : Directory)

/-- The content of a file. -/
def get? (place : Place) : Option Bytes :=
  directory.files.lookup place

/-- There is a directory: one that every way begins at or leads back to, or one on the way to some
file. -/
def hasDirectory (place : Place) : Bool :=
  place.names.isEmpty || directory.files.any fun file => file.1.isBelow place

/-- The directory with a file of given content, in the place of any file that was there. -/
def put (place : Place) (content : Bytes) : Directory :=
  ⟨(place, content) :: directory.files.filter fun file => file.1 ≠ place⟩

/-- Follow names from a directory on, each of which has to lead to a directory. -/
def follow (here : Place) : List String → Except PathFault Place
  | [] => .ok here
  | name :: names => do
      let next ← here.step name
      if directory.hasDirectory next then follow next names
      else .error (if (directory.get? next).isSome then .notDirectory else .missing)

/-- Read a file. -/
def read (text : String) : Except PathFault Bytes := do
  let path ← Path.parse text
  let place ← (← directory.follow path.start path.before).step path.last
  if directory.hasDirectory place then .error .isDirectory
  else match directory.get? place with
    | none => .error .missing
    | some content => if path.endsInSlash then .error .notDirectory else .ok content

/-- Write a file. What is written like a directory is taken for one before anything is looked up
there. -/
def write (text : String) (content : Bytes) : Except PathFault Directory := do
  let path ← Path.parse text
  let here ← directory.follow path.start path.before
  if path.endsInSlash then .error .isDirectory
  else do
    let place ← here.step path.last
    if directory.hasDirectory place then .error .isDirectory
    else .ok (directory.put place content)

/-- The directory that the program runs in with some files, each under a plain name or names with
slashes between them. -/
def ofFiles (files : List (String × Bytes)) : Directory :=
  files.foldl
    (fun directory file =>
      directory.put ⟨some 0, (splitSlash [] file.1.toList).filter (· ≠ "")⟩ file.2) {}

end Directory

end Bookmarks.Command
