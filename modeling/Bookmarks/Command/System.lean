/-
# What a run does to the world

The program reads and writes whole files and prints line by line, results to one place and
complaints to another. `System m` is what it calls for that, in any monad `m`; `World` is a state
that the calls leave their traces in, with a directory for the files.
-/
import Bookmarks.Command.Files

namespace Bookmarks.Command

/-- What the program calls. A refusal of the file system comes with its own words. -/
structure System (m : Type → Type) where
  read : String → m (Except String Bytes)
  write : String → String → m (Except String Unit)
  /-- Show a line of the result. -/
  print : String → m Unit
  /-- Show a line of a complaint. -/
  report : String → m Unit

/-- A directory, and all that was shown. -/
structure World where
  directory : Directory := {}
  output : String := ""
  errors : String := ""
  deriving DecidableEq, Repr

namespace World

variable (world : World)

/-- One more line of the result. -/
def printing (line : String) : World :=
  { world with output := world.output ++ line ++ "\n" }

/-- One more line of a complaint. -/
def reporting (line : String) : World :=
  { world with errors := world.errors ++ line ++ "\n" }

/-- The calls in a world. A refused write changes nothing. -/
def system : System (StateM World) where
  read path := do
    return ((← get).directory.read path).mapError PathFault.message
  write path content := do
    match (← get).directory.write path (Utf8.encode content) with
    | .ok directory => do
        modify ({ · with directory := directory })
        return .ok ()
    | .error fault => return .error fault.message
  print line := modify (·.printing line)
  report line := modify (·.reporting line)

end World

end Bookmarks.Command
