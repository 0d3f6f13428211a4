/-
# Faults

Reading an outline can fail for seven kinds of reason. `Fault` names them by cause and carries
what the reader of a message needs to know; `Fault.message` is the one place where a cause is put
into words. Broken links between outline entries are a cause of their own, `Damage`, because a
tolerant reader cuts them away instead of failing.
-/

namespace Bookmarks

/-- What is wrong with the links of an outline. -/
inductive Damage where
  /-- Entries are nested deeper than the reader was told to go. -/
  | tooDeep (limit : Nat)
  /-- The entry with this label is reached by more than one link. -/
  | linkedTwice (entry : String)
  /-- The link `key` of the node with this label leads to an object that is no dictionary. -/
  | danglingLink (key node : String) (number generation : Nat)
  /-- The outline describes its own damage. -/
  | reported (text : String)
  deriving DecidableEq, Repr

/-- The damage in words. -/
def Damage.message : Damage → String
  | .tooDeep limit => s!"outline nesting exceeds {limit} levels"
  | .linkedTwice entry => s!"outline entry {entry} is linked more than once"
  | .danglingLink key node number generation =>
      s!"/{key} of outline node {node} points to missing or non-dictionary object " ++
        s!"{number} {generation} R"
  | .reported text => text

/-- Why an outline could not be read. -/
inductive Fault where
  /-- The system refused to read or write a file. -/
  | inputOutput (detail : String)
  /-- The data does not begin like a PDF file. -/
  | unknownFormat
  /-- The PDF file or one of its objects is not what the format asks for. -/
  | malformed (detail : String)
  /-- The document is encrypted and cannot be read. -/
  | encrypted
  /-- The outline's links are broken. -/
  | corrupted (damage : Damage)
  /-- An object that has to be there is not. -/
  | missing (what : String)
  /-- A finished outline could not be written down. -/
  | unwritable (detail : String)
  deriving DecidableEq, Repr

namespace Fault

/-- The kinds of fault, without their details. -/
inductive Kind where
  | inputOutput
  | unknownFormat
  | malformed
  | encrypted
  | corrupted
  | missing
  | unwritable
  deriving DecidableEq, Repr

/-- The kind of a fault. -/
def kind : Fault → Kind
  | .inputOutput _ => .inputOutput
  | .unknownFormat => .unknownFormat
  | .malformed _ => .malformed
  | .encrypted => .encrypted
  | .corrupted _ => .corrupted
  | .missing _ => .missing
  | .unwritable _ => .unwritable

/-- The fault in words, introduced by its kind. -/
def message : Fault → String
  | .inputOutput detail => "I/O error: " ++ detail
  | .unknownFormat => "Unknown file format: not a valid PDF"
  | .malformed detail => "PDF parsing error: " ++ detail
  | .encrypted => "Document is encrypted"
  | .corrupted damage => "Corrupted outline structure: " ++ damage.message
  | .missing what => "Missing required object: " ++ what
  | .unwritable detail => "Rendering error: " ++ detail

end Fault

end Bookmarks
