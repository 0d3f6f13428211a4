/-
# Page numbers

Pages are counted from one. Numbers and counts are kept as signed 32-bit integers, so that `-1` is
free to say that a page is unknown; a count that does not fit keeps its low 32 bits.

`PageIndex` finds the number of a page without going through the page list each time.
-/
import Std.Data.HashMap

namespace Bookmarks

/-- The signed 32-bit integer with the same low 32 bits as a natural number. -/
def signed32 (n : Nat) : Int :=
  Int.bmod n (Nat.pow 2 32)

/-- The number of a page that is unknown. -/
def unknownPage : Int := -1

/-- The numbers of a document's pages. -/
structure PageIndex (π : Type) [BEq π] [Hashable π] where
  numbers : Std.HashMap π Nat

namespace PageIndex

variable {π : Type} [BEq π] [Hashable π]

/-- Number the pages from `number` on, leaving pages that have a number already as they are. -/
def insertFrom (numbers : Std.HashMap π Nat) : Nat → List π → Std.HashMap π Nat
  | _, [] => numbers
  | number, page :: pages => insertFrom (numbers.insertIfNew page number) (number + 1) pages

/-- The index of a page list. A page that is listed twice has the number of its first place. -/
def ofList (pages : List π) : PageIndex π :=
  ⟨insertFrom ∅ 1 pages⟩

/-- The number of a page, if the document holds it. -/
def number? (index : PageIndex π) (page : π) : Option Nat :=
  index.numbers[page]?

end PageIndex

/-- The number of a page by going through the list. -/
def scanPages {π : Type} [BEq π] (pages : List π) (page : π) : Option Nat :=
  (pages.findIdx? (· == page)).map (· + 1)

end Bookmarks
