/-
# Tables that answer

A table answers if every node that its links lead to has a row, and if nothing is wrong with the
answers of these rows but, possibly, broken links. This can be read off the table, so that what is
proved of outlines that answer can be used at an outline that is written down.
-/
import Bookmarks.Outline.Table
import Bookmarks.Proofs.Walk.Answers

namespace Bookmarks

/-- A link is intact or broken; asking for it does not fail in another way. -/
def isLink {α : Type} : Except Fault α → Bool
  | .ok _ => true
  | .error fault => fault.kind = .corrupted

theorem kind_eq_of_isLink {α : Type} {answer : Except Fault α} {fault : Fault}
    (h : isLink answer) (herror : answer = .error fault) : fault.kind = .corrupted := by
  subst herror
  exact of_decide_eq_true h

theorem exists_of_isOk {α : Type} {answer : Except Fault α} (h : answer.isOk) :
    ∃ value, answer = .ok value := by
  cases answer with
  | ok value => exact ⟨value, rfl⟩
  | error _ => cases h

/-- Nothing is wrong with a row but, possibly, broken links. -/
structure TableRow.Answers (row : TableRow) : Prop where
  title : row.title.isOk
  destination : row.destination.isOk
  page : row.page.isOk
  first : isLink row.first
  last : isLink row.last
  next : isLink row.next

instance (row : TableRow) : Decidable row.Answers :=
  decidable_of_iff
    (row.title.isOk ∧ row.destination.isOk ∧ row.page.isOk ∧ isLink row.first ∧
      isLink row.last ∧ isLink row.next)
    ⟨fun ⟨title, destination, page, first, last, next⟩ =>
        ⟨title, destination, page, first, last, next⟩,
      fun h => ⟨h.title, h.destination, h.page, h.first, h.last, h.next⟩⟩

namespace OutlineTable

variable {table : OutlineTable} {root node : Int}

/-- The table has answers about a root and about every node that a link leads to. -/
def AnswersFrom (table : OutlineTable) (root : Int) : Prop :=
  table.pages.isOk ∧ ∀ node ∈ root :: table.targets, ∃ row ∈ table.row? node, row.Answers

instance : Decidable (table.AnswersFrom root) :=
  inferInstanceAs (Decidable (_ ∧ _))

theorem AnswersFrom.exists_row (h : table.AnswersFrom root)
    (hnode : node = root ∨ table.toOutline.Reachable root node) :
    ∃ row : TableRow, row.Answers ∧ ∀ {α : Type} (ask : TableRow → Except Fault α),
      table.answer ask node = ask row := by
  have hlisted : node ∈ root :: table.targets := by
    rcases hnode with rfl | hnode
    · exact List.mem_cons_self
    · exact List.mem_cons_of_mem _ (hnode.mem_handles table.linksWithin)
  obtain ⟨row, hfind, hanswers⟩ := h.2 node hlisted
  refine ⟨row, hanswers, fun ask => ?_⟩
  rw [answer, hfind]

/-- A table that answers describes an outline that answers. -/
theorem AnswersFrom.answers (h : table.AnswersFrom root) : table.toOutline.Answers root where
  pages := exists_of_isOk h.1
  title hentry := by
    obtain ⟨row, hrow, hanswer⟩ := h.exists_row (Or.inr hentry)
    obtain ⟨title, htitle⟩ := exists_of_isOk hrow.title
    exact ⟨title, (hanswer TableRow.title).trans htitle⟩
  destination hentry := by
    obtain ⟨row, hrow, hanswer⟩ := h.exists_row (Or.inr hentry)
    obtain ⟨destination, hdestination⟩ := exists_of_isOk hrow.destination
    exact ⟨destination, (hanswer TableRow.destination).trans hdestination⟩
  page hentry := by
    obtain ⟨row, hrow, hanswer⟩ := h.exists_row (Or.inr hentry)
    obtain ⟨page, hpage⟩ := exists_of_isOk hrow.page
    exact ⟨page, (hanswer TableRow.page).trans hpage⟩
  first hnode herror := by
    obtain ⟨row, hrow, hanswer⟩ := h.exists_row hnode
    exact kind_eq_of_isLink hrow.first ((hanswer TableRow.first).symm.trans herror)
  last hnode herror := by
    obtain ⟨row, hrow, hanswer⟩ := h.exists_row hnode
    exact kind_eq_of_isLink hrow.last ((hanswer TableRow.last).symm.trans herror)
  next hentry herror := by
    obtain ⟨row, hrow, hanswer⟩ := h.exists_row (Or.inr hentry)
    exact kind_eq_of_isLink hrow.next ((hanswer TableRow.next).symm.trans herror)

end OutlineTable

end Bookmarks
