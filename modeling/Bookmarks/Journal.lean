/-
# Journals

A reading that succeeds may still have something to report: a branch that was cut away, a page
that the document does not hold. Such remarks are values of `Notice`; the notices of one reading,
oldest first, are its journal. A listener chooses how much to hear by a `Severity`.
-/
import Bookmarks.Fault

namespace Bookmarks

/-- How urgent a notice is. -/
inductive Severity where
  | warning
  | debug
  | trace
  deriving DecidableEq, Repr

namespace Severity

/-- The word that introduces a notice. -/
def tag : Severity → String
  | .warning => "WARN"
  | .debug => "DEBUG"
  | .trace => "TRACE"

/-- A smaller rank is more urgent. -/
def rank : Severity → Nat
  | .warning => 0
  | .debug => 1
  | .trace => 2

end Severity

/-- One remark made while reading. -/
inductive Notice where
  /-- A damaged branch was cut away. -/
  | branchSkipped (damage : Damage)
  /-- The entry with this label points to no page of the document. -/
  | pageUnknown (entry : String)
  /-- The chain of entries under `scope` ends at `reached`, while `declared` claims to be last. -/
  | lastDiffers (scope reached declared : String)
  /-- The document has no outline at all. -/
  | noOutline
  /-- One line of the finished table of contents. -/
  | contentsLine (line : String)
  /-- The document is encrypted. -/
  | encryptedDocument
  /-- A tree of named destinations goes deeper than it is followed. -/
  | nameTreeTooDeep
  deriving DecidableEq, Repr

namespace Notice

/-- The urgency of a notice. -/
def severity : Notice → Severity
  | .branchSkipped _ => .warning
  | .pageUnknown _ => .trace
  | .lastDiffers _ _ _ => .warning
  | .noOutline => .debug
  | .contentsLine _ => .debug
  | .encryptedDocument => .warning
  | .nameTreeTooDeep => .warning

/-- The notice in words. -/
def text : Notice → String
  | .branchSkipped damage => "Skipping outline branch: " ++ damage.message
  | .pageUnknown entry => s!"No document page matches outline entry {entry}"
  | .lastDiffers scope reached declared =>
      s!"Sibling chain under {scope} ends at {reached} " ++
        s!"but the outline declares {declared} as last"
  | .noOutline => "Document has no outline"
  | .contentsLine line => line
  | .encryptedDocument => "Document is encrypted; outline strings may be unreadable"
  | .nameTreeTooDeep => "Named destination tree is nested too deeply"

/-- The notice as one line of a log. -/
def line (notice : Notice) : String :=
  notice.severity.tag ++ " " ++ notice.text

end Notice

/-- The lines that a listener hears who asked for `level` and everything more urgent. -/
def journalLines (level : Severity) (journal : List Notice) : List String :=
  (journal.filter fun notice => notice.severity.rank ≤ level.rank).map Notice.line

end Bookmarks
