/-
# Defects of PDF documents

What can be wrong with a PDF file or with one of its objects, in the words that a reader is shown.
-/
import Bookmarks.Fault

namespace Bookmarks.Pdf

/-- What is wrong with a cross-reference table. -/
inductive TableDefect where
  | unreadable
  | start
  | previousStart
  | streamStart
  deriving DecidableEq, Repr

/-- The defect in words. -/
def TableDefect.message : TableDefect → String
  | .unreadable => "could not parse xref"
  | .start => "invalid start value"
  | .previousStart => "invalid start value in Prev field"
  | .streamStart => "invalid stream start value"

/-- Why a document, or a part of it, could not be read. -/
inductive Defect where
  | parenthesesTooDeep
  | undecodableContent
  | missingKey
  | decryption
  | header
  | invalidCommand (text : String)
  | inputOutput (text : String)
  | noOutlines
  | differentObject
  | missingObject
  | invalidOffset (offset : Nat)
  | missingPage (number : Nat)
  | unreadableObject (offset : Nat)
  | referenceCycle
  | referenceLimit
  | undecodableString
  | malformedText (text : String)
  | trailer
  | wrongKind
  | invalidUtf8
  | table (defect : TableDefect)
  deriving DecidableEq, Repr

namespace Defect

/-- The defect in words. -/
def message : Defect → String
  | .parenthesesTooDeep => "Too deep embedding of ()'s."
  | .undecodableContent => "Could not decode content"
  | .missingKey => "A required dictionary key was not found"
  | .decryption => "Could not decrypt the document"
  | .header => "Invalid file header"
  | .invalidCommand text => "Invalid command: " ++ text
  | .inputOutput text => text
  | .noOutlines => "PDF document has no Outlines"
  | .differentObject => "The object id found did not match the requested object"
  | .missingObject => "A required object was not found"
  | .invalidOffset offset => s!"Invalid file offset: {offset}"
  | .missingPage number => s!"Page number {number} could not be found"
  | .unreadableObject offset => s!"Invalid object at byte {offset}"
  | .referenceCycle => "Could not dereference an object; reference cycle detected"
  | .referenceLimit => "Could not dereference an object; possible reference cycle"
  | .undecodableString => "Could not decode string"
  | .malformedText text => "Syntax error: " ++ text
  | .trailer => "Invalid file trailer"
  | .wrongKind => "An object does not have the expected type"
  | .invalidUtf8 => "UTF-8 error"
  | .table defect => "Invalid cross-reference table (" ++ defect.message ++ ")"

/-- The fault that a defect amounts to. Trouble with the system and encryption are faults of their
own; everything else means that the file is malformed. -/
def toFault : Defect → Fault
  | .inputOutput text => .inputOutput text
  | .decryption => .encrypted
  | defect => .malformed defect.message

end Defect

end Bookmarks.Pdf
