/-
# Requests

What a command line can ask for: to show a view of a table of contents, to show what there is to
know about a document, or to say what the program is. A request holds its options as they are given.
-/
import Bookmarks.Json.Writer
import Bookmarks.Settings

namespace Bookmarks.Command

/-- What is shown of a table of contents. -/
inductive View where
  /-- The whole table. -/
  | tree
  /-- Its entries in a row. -/
  | flat
  /-- Its entries at one level, with or without the text before their first children. -/
  | level (level : Int) (leads : Bool)
  deriving DecidableEq, Repr

/-- How it is written. -/
inductive Format where
  | text
  | json (layout : Layout)
  deriving DecidableEq, Repr

/-- The file to read and how to read it. -/
structure Input where
  path : String
  lenient : Bool := false
  maxDepth : Nat := defaultDepthLimit
  deriving DecidableEq, Repr

/-- The settings that the input is read with. -/
def Input.settings (input : Input) : Settings where
  tolerance := if input.lenient then .lenient else .strict
  depthLimit := input.maxDepth

/-- What becomes of the result. -/
structure Output where
  /-- The file to write; without one the result is printed. -/
  path : Option String := none
  json : Bool := false
  compact : Bool := false
  deriving DecidableEq, Repr

/-- How the result is written. -/
def Output.format (output : Output) : Format :=
  if output.json then .json (if output.compact then .compact else .pretty) else .text

/-- What a command line asks for. -/
inductive Request where
  /-- Show a table of contents, or write it to a file. -/
  | show (view : View) (input : Input) (output : Output)
  /-- Show what there is to know about a document. -/
  | info (input : Input)
  /-- Say what this program is. -/
  | version
  deriving DecidableEq, Repr

/-- Why a command line asks for nothing of the kind. -/
inductive Refusal where
  /-- It asks for the program's version and nothing else. -/
  | versionAsked
  /-- It asks for help. -/
  | helpAsked
  /-- It makes no sense. -/
  | misused
  deriving DecidableEq, Repr

end Bookmarks.Command
