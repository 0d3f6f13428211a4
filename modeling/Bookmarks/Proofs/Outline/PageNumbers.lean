/-
# Page numbers of drafts

An entry of a draft names its page by a number of 32 bits, and the table of contents keeps numbers
as signed ones, so that a negative number is free to say that a page is unknown. Numbers below
2^31 are the same either way; a larger one turns negative. So the table of a draft has the page
numbers that its entries name exactly if the document has fewer than 2^31 pages
(`read_pageNumbers`).
-/
import Bookmarks.Proofs.Outline.Plan
import Bookmarks.Proofs.Walk.Complete

namespace Bookmarks.Draft

/-! ## Pages and sections -/

/-- The number of the page that an entry names, if the document has that page. -/
def page? (draft : Draft) (entry : Node) : Option Nat :=
  (((draft.item? entry).bind Item.page).map UInt32.toNat).filter fun number =>
    1 ≤ number ∧ number ≤ draft.pageCount.toNat

/-- The sections made from the entries of a draft, in turn, begin on the pages that the entries
name, and the document as a whole ends on its last page. -/
structure KeepsPages (draft : Draft) (contents : Contents) (entries : List Node) : Prop where
  /-- The number of the last page is the number of pages. -/
  last_eq : contents.root.endPage = draft.pageCount.toNat
  /-- A page of the document has its own number, and any other page is unknown. -/
  start_eq : ∀ {place : Nat} {entry : Node} {s : Section}, entries[place]? = some entry →
    contents.get? (place + 1) = some s →
    s.startPage = (draft.page? entry).elim unknownPage fun number => number
  /-- A negative number says that a page is unknown. -/
  neg_iff : ∀ {place : Nat} {entry : Node} {s : Section}, entries[place]? = some entry →
    contents.get? (place + 1) = some s → (s.startPage < 0 ↔ draft.page? entry = none)

variable {draft : Draft} {contents : Contents} {entries : List Node} {entry : Node}
  {settings : Settings}

theorem page?_le {number : Nat} (h : draft.page? entry = some number) :
    number ≤ draft.pageCount.toNat := by
  have hpage := (Option.filter_eq_some_iff.1 h).2
  simp only [decide_eq_true_eq] at hpage
  exact hpage.2

/-- What the page index says of the page that an entry names. -/
theorem bind_scanPages_page {item : Item} (h : draft.item? entry = some item) :
    item.page.bind (scanPages draft.pages) = draft.page? entry := by
  rw [page?, h, Option.bind_some]
  cases item.page with
  | none => rfl
  | some page =>
      rw [Option.bind_some, scanPages_pages, Option.map_some, Option.filter_some]
      simp only [decide_eq_true_eq]

/-- A section begins on the page that its entry names, as far as the number is kept. -/
theorem startPage_of_madeFrom (h : draft.toOutline.MadeFrom ⟨0⟩ contents entries) {place : Nat}
    {s : Section} (hentry : entries[place]? = some entry)
    (hs : contents.get? (place + 1) = some s) :
    s.startPage = (draft.page? entry).elim unknownPage signed32 := by
  obtain ⟨s', level, pages, hs', hreached, -, -, -, hpages, hstart⟩ := h.reads hentry
  cases hs.symm.trans hs'
  cases hpages
  obtain ⟨item, hitem⟩ := exists_item_of_reachable ⟨level, hreached⟩
  rw [PageIndex.number?_ofList] at hstart
  obtain ⟨page, hpage, hnumber⟩ := Outline.pageNumber_some_eq_ok.1 hstart
  cases (result_page hitem).symm.trans hpage
  rw [hnumber, bind_scanPages_page hitem]

/-- As long as the document has few enough pages, their numbers are kept. -/
theorem keepsPages_of_lt (hcount : draft.pageCount.toNat < Nat.pow 2 31)
    (hmade : draft.toOutline.MadeFrom ⟨0⟩ contents entries)
    (hlast : contents.root.endPage = signed32 draft.pageCount.toNat) :
    draft.KeepsPages contents entries := by
  have hstart : ∀ {place entry s}, entries[place]? = some entry →
      contents.get? (place + 1) = some s →
      s.startPage = (draft.page? entry).elim unknownPage fun number => number := by
    intro place entry s hentry hs
    rw [startPage_of_madeFrom hmade hentry hs]
    cases hpage : draft.page? entry with
    | none => rw [Option.elim_none, Option.elim_none]
    | some number =>
        have hnumber := Nat.lt_of_le_of_lt (page?_le hpage) hcount
        rw [Option.elim_some, Option.elim_some]
        exact signed32_of_lt hnumber
  refine ⟨by rw [hlast, signed32_of_lt hcount], hstart, ?_⟩
  intro place entry s hentry hs
  rw [hstart hentry hs]
  cases draft.page? entry with
  | none => exact iff_of_true (by decide) rfl
  | some number => exact iff_of_false (Int.not_lt.2 (Int.natCast_nonneg number)) nofun

/-! ## The table of a draft -/

theorem endPage_root_of_read (h : (draft.outline.read settings).result = .ok contents) :
    contents.root.endPage = signed32 draft.pageCount.toNat := by
  obtain ⟨forest, -, rfl⟩ := FiniteOutline.read_eq_ok.1 h
  exact Contents.endPage_root_ofForest _ _ _

/-- The table that is read from a draft is made from its entries, or from none if it has no
outline. -/
theorem exists_madeFrom (h : (draft.outline.read settings).result = .ok contents) :
    ∃ entries, draft.toOutline.MadeFrom ⟨0⟩ contents entries := by
  obtain ⟨forest, hyields, rfl⟩ := FiniteOutline.read_eq_ok.1 h
  cases hyields with
  | bare _ => exact ⟨[], rfl, nofun⟩
  | rooted hroot hpages hopens htrail =>
      have hroot' := hroot
      simp only [outline, toOutline, Except.ok.injEq] at hroot'
      split at hroot'
      · cases hroot'
        exact ⟨_, (Outline.Yields.rooted hroot hpages hopens htrail).madeFrom hroot⟩
      · cases hroot'

/-- The table that is read from a draft, whatever its entries are and whatever the reader puts up
with, has the page numbers that the entries name, kept as signed numbers of 32 bits. So it has the
numbers themselves exactly if the document has fewer than 2^31 pages. -/
theorem read_pageNumbers (h : (draft.outline.read settings).result = .ok contents) :
    contents.root.endPage = signed32 draft.pageCount.toNat ∧
      (∃ entries, draft.toOutline.MadeFrom ⟨0⟩ contents entries) ∧
      ∀ entries, draft.toOutline.MadeFrom ⟨0⟩ contents entries →
        (∀ place entry s, entries[place]? = some entry → contents.get? (place + 1) = some s →
          s.startPage = (draft.page? entry).elim unknownPage signed32) ∧
        (draft.KeepsPages contents entries ↔ draft.pageCount.toNat < Nat.pow 2 31) := by
  have hlast := endPage_root_of_read h
  refine ⟨hlast, exists_madeFrom h, fun entries hmade => ?_⟩
  refine ⟨fun _ _ _ => startPage_of_madeFrom hmade, fun hkeeps => ?_, fun hcount => ?_⟩
  · have hcount := draft.pageCount.toNat_lt
    exact (signed32_eq_self_iff hcount).1 (hlast.symm.trans hkeeps.last_eq)
  · exact keepsPages_of_lt hcount hmade hlast

theorem forestWithin_chapterCalls :
    ((ofCalls 5 chapterCalls).toOutline.forestWithin {} 4).result =
      .ok (.cons ⟨1⟩ ⟨"Chapter 1", 1, 3, 0⟩ (.cons ⟨3⟩ ⟨"Section 1", 3, 5, 700⟩ .nil .nil)
        (.cons ⟨2⟩ ⟨"Chapter 2", -1, 5, 0⟩ .nil .nil)) := by
  simp only [Outline.forestWithin, PageIndex.number?_ofList]
  decide +kernel

/-- Five pages are few enough. The second chapter names a page beyond them, and its number says
so. -/
theorem pageNumbers_chapterCalls :
    ∃ contents, ((ofCalls 5 chapterCalls).outline.read {}).result = .ok contents ∧
      contents.root.endPage = 5 ∧
      contents.sections.toList.map Section.startPage = [1, 1, 3, -1] ∧
      ∃ entries, (ofCalls 5 chapterCalls).KeepsPages contents entries := by
  have hwithin := Outline.readWithin_eq_ok.2 ⟨_, forestWithin_chapterCalls, rfl⟩
  have hread : ((ofCalls 5 chapterCalls).outline.read {}).result = .ok _ :=
    FiniteOutline.read_eq_ok_iff_readWithin.2 hwithin
  obtain ⟨hlast, ⟨entries, hmade⟩, hpages⟩ := read_pageNumbers hread
  have hcount : (ofCalls 5 chapterCalls).pageCount.toNat < Nat.pow 2 31 := by decide +kernel
  exact ⟨_, hread, hlast.trans (by decide +kernel), by decide +kernel, entries,
    (hpages entries hmade).2.2 hcount⟩

/-- An entry on the last page of a document that has one page too many. -/
def longDraft : Draft where
  pageCount := 2147483648
  items := #[⟨⟨0⟩, "Appendix", some 2147483648, some .fit⟩]

theorem made_longDraft : longDraft.Made := by
  have hadd : Draft.addEntry? { pageCount := 2147483648 } ⟨0⟩ "Appendix" (some 2147483648) =
      some (longDraft, ⟨1⟩) := rfl
  exact .entry (.new 2147483648) hadd

/-- The page that the appendix is on is one of the document. -/
theorem page?_longDraft : longDraft.page? ⟨1⟩ = some 2147483648 := by
  decide +kernel

theorem signed32_longDraft : signed32 2147483648 = -2147483648 := by
  decide +kernel

/-- Not every table has as many pages as its document, nor does a negative number always say that
a page is unknown. -/
theorem not_keepsPages :
    (¬ ∀ (draft : Draft) (settings : Settings) (contents : Contents), draft.Made →
      (draft.outline.read settings).result = .ok contents →
      contents.root.endPage = draft.pageCount.toNat) ∧
    ¬ ∀ (draft : Draft) (settings : Settings) (contents : Contents) (entries : List Node)
        (place : Nat) (entry : Node) (s : Section), draft.Made →
      (draft.outline.read settings).result = .ok contents →
      draft.toOutline.MadeFrom ⟨0⟩ contents entries → entries[place]? = some entry →
      contents.get? (place + 1) = some s → s.startPage < 0 → draft.page? entry = none := by
  have hexists : ∃ contents, (longDraft.outline.read { tolerance := .lenient }).result =
      .ok contents :=
    FiniteOutline.exists_read_of_lenient rfl (toOutline_answers longDraft) rfl
  obtain ⟨contents, hread⟩ := hexists
  constructor
  · intro h
    have hlast := endPage_root_of_read hread
    rw [h _ _ _ made_longDraft hread] at hlast
    exact absurd hlast (by decide +kernel)
  · intro h
    obtain ⟨forest, hyields, rfl⟩ := FiniteOutline.read_eq_ok.1 hread
    have hmem : (⟨1⟩ : Node) ∈ forest.nodes :=
      hyields.mem_of_reachable rfl longDraft.linksWithin (by decide) ⟨0, .top rfl⟩
    have hmade := hyields.madeFrom rfl
    obtain ⟨place, hentry⟩ := List.mem_iff_getElem?.1 hmem
    obtain ⟨s, -, -, hs, -⟩ := hmade.reads hentry
    have hstart := startPage_of_madeFrom hmade hentry hs
    rw [page?_longDraft, Option.elim_some, signed32_longDraft] at hstart
    have hnone := h _ _ _ _ _ _ _ made_longDraft hread hmade hentry hs (by rw [hstart]; decide)
    cases page?_longDraft.symm.trans hnone

end Bookmarks.Draft
