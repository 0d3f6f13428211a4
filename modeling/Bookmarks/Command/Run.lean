/-
# Runs

What a run of the program does from its arguments to its exit code. The steps of a request follow
each other, and the first one that fails ends the run with a complaint; what was printed or written
by then stays so.
-/
import Bookmarks.Command.Report
import Bookmarks.Command.System

namespace Bookmarks.Command

variable {m : Type → Type} [Monad m] (toolkit : Toolkit) (system : System m)

/-- An answer, or the end of the run with the fault in words. -/
def orFail {α : Type} (answer : Except Fault α) : ExceptT String m α :=
  ExceptT.mk (pure (answer.mapError Fault.message))

/-- The document in the input file. -/
def openInput (input : Input) : ExceptT String m Pdf.Document := do
  let content ← ExceptT.lift (system.read input.path)
  orFail (Pdf.Document.ofRead toolkit.load content)

/-- The table of contents of a document. -/
def readContents (input : Input) (document : Pdf.Document) : ExceptT String m Contents :=
  orFail (document.readContents input.settings).result

/-- Hand a text over: to a file, if there is one to write, and otherwise to the reader. -/
def deliver (text : String) : Option String → ExceptT String m Unit
  | none => system.print text
  | some path => do
      ExceptT.mk (system.write path text)
      system.print (toolkit.paint .green "Saved to" ++ " " ++ path)

/-- Print lines one after another. -/
def printLines (lines : List String) : ExceptT String m Unit :=
  ExceptT.lift (lines.forM system.print)

/-- Do what was asked for. -/
def perform : Request → ExceptT String m Unit
  | .show view input output => do
      let document ← openInput toolkit system input
      let contents ← readContents input document
      deliver toolkit system (view.render output.format contents) output.path
  | .info input => do
      let document ← openInput toolkit system input
      let contents ← readContents input document
      printLines system (documentLines toolkit.paint input.path document)
      system.print ""
      printLines system (contentsLines toolkit.paint contents)
  | .version => printLines system (versionLines toolkit.paint)

/-- Do what was asked for, and tell by the exit code whether it was done. -/
def carryOut (request : Request) : m Nat := do
  match ← (perform toolkit system request).run with
  | .ok () => return 0
  | .error reason => do
      system.report (toolkit.paint .boldRed "Error" ++ ": " ++ reason)
      return 1

/-- Answer a command line that makes no request. -/
def refuse : Refusal → m Nat
  | .versionAsked => do
      system.print (programName ++ " " ++ programVersion)
      return 0
  | .helpAsked => do
      usageLines.forM system.print
      return 0
  | .misused => do
      usageLines.forM system.report
      return 2

/-- Run the program on a command line. -/
def run (arguments : List String) : m Nat :=
  match toolkit.parse arguments with
  | .ok request => carryOut toolkit system request
  | .error refusal => refuse system refusal

end Bookmarks.Command
