/-
# The program

The command line on the real file system. Colours are used on a terminal, unless the environment
asks for none.
-/
import Bookmarks.Command.Run
import Bookmarks.Command.Standard

namespace Bookmarks.Command

/-- A refusal of the system in its own words. -/
def systemText (error : IO.Error) : String :=
  match error with
  | .noFileOrDirectory _ _ _ => PathFault.missing.message
  | .permissionDenied _ code detail => s!"{detail} (os error {code})"
  | .resourceExhausted _ code detail => s!"{detail} (os error {code})"
  | .invalidArgument _ code detail => s!"{detail} (os error {code})"
  | .inappropriateType _ code detail => s!"{detail} (os error {code})"
  | .illegalOperation code detail => s!"{detail} (os error {code})"
  | .otherError code detail => s!"{detail} (os error {code})"
  | error => toString error

/-- The calls on the real system. -/
def realSystem : System IO where
  read path := do
    try
      let content ← IO.FS.readBinFile path
      return .ok content.toList
    catch error => return .error (systemText error)
  write path content := do
    try
      IO.FS.writeFile path content
      return .ok ()
    catch error => return .error (systemText error)
  print line := IO.println line
  report line := IO.eprintln line

end Bookmarks.Command

open Bookmarks.Command in
/-- Run the program and end with its exit code. -/
def main (arguments : List String) : IO UInt32 := do
  let colours := (← (← IO.getStdout).isTty) && (← IO.getEnv "NO_COLOR").isNone
  let exitCode ← run (Toolkit.standard colours) realSystem arguments
  return UInt32.ofNat exitCode
