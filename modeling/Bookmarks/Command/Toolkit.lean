/-
# Toolkits

The program leaves three things to libraries: taking a command line apart, making a document of the
bytes of a file, and colouring text. A `Toolkit` holds what these libraries do.
-/
import Bookmarks.Command.Request
import Bookmarks.Command.Style
import Bookmarks.Pdf.Reading

namespace Bookmarks.Command

/-- The libraries that the program stands on. -/
structure Toolkit where
  /-- The request of a command line. -/
  parse : List String → Except Refusal Request
  /-- The document in the bytes of a file. -/
  load : Bytes → Except Pdf.Defect Pdf.Document
  /-- A text that stands out. -/
  paint : Style → String → String

end Bookmarks.Command
