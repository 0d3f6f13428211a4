/-
# Reading PDF files

The table of contents of a PDF file. How a document is made of the bytes of a file is left to a
library, `load`; only bytes that begin like a PDF file are given to it.
-/
import Bookmarks.Pdf.OutlineItems
import Bookmarks.Reading

namespace Bookmarks.Pdf

namespace Document

section Loading

variable (load : Bytes → Except Defect Document)

/-- The document in any bytes, which have to begin like a PDF file. -/
def ofBytes (content : Bytes) : Except Fault Document :=
  if (ascii "%PDF-").isPrefixOf content then orFault (load content) else .error .unknownFormat

/-- The document in a file that the system may have refused to read. -/
def ofRead (content : Except String Bytes) : Except Fault Document :=
  match content with
  | .ok content => ofBytes load content
  | .error detail => .error (.inputOutput detail)

end Loading

/-- The table of contents of a document, and what is worth a notice about the document. -/
def readContents (document : Document) (settings : Settings) : Noted Fault Contents := do
  Noted.tell document.openingNotices
  document.outline.read settings

end Document

/-- The table of contents of a file. -/
def tableOfContents (load : Bytes → Except Defect Document) (content : Except String Bytes)
    (settings : Settings) : Noted Fault Contents := do
  let document ← Noted.ofExcept (Document.ofRead load content)
  document.readContents settings

end Bookmarks.Pdf
