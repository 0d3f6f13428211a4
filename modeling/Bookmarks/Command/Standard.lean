/-
# The standard toolkit

The plain forms of what the program needs from libraries: the usual way to write options, files with
cross-reference tables, and terminal codes for colours.
-/
import Bookmarks.Command.Arguments
import Bookmarks.Command.Toolkit
import Bookmarks.Pdf.File

namespace Bookmarks.Command

/-- The toolkit that the program runs with. -/
def Toolkit.standard (colours : Bool) : Toolkit where
  parse := Request.ofArguments
  load := Pdf.Document.ofFile
  paint style := style.apply colours

end Bookmarks.Command
