/-
# Spans

The end of an entry is read off its neighbours in the outline before they are taken up. If the
reader is strict, these neighbours become neighbours in the table of contents, so the end page of
every section can be told from the table alone: `endPage_eq_spanEnd`.
-/
import Bookmarks.Outline.Table
import Bookmarks.Proofs.Page.Index
import Bookmarks.Proofs.Walk.Sources

namespace Bookmarks

variable {ν π : Type}

/-- The page where a forest begins. -/
def Forest.startPage? : Forest ν → Option Int
  | .nil => none
  | .cons _ heading _ _ => some heading.startPage

theorem Forest.isNone_startPage? (forest : Forest ν) :
    forest.startPage?.isNone = forest.head?.isNone := by
  cases forest <;> rfl

namespace Contents

variable (contents : Contents)

/-- The page where a section begins, unknown if there is no section. -/
def startOf (s? : Option Section) : Int :=
  s?.elim unknownPage Section.startPage

/-- Where a section ends, told by its neighbours: at its next sibling if it is known where that
begins, or else at its first child. Without neighbours it reaches to the end of the document. -/
def spanEnd (number : Nat) : Int :=
  let next := contents.nextSibling? number
  let child := (contents.get? number).bind contents.firstChild?
  if 0 ≤ startOf next then startOf next
  else if 0 ≤ startOf child then startOf child
  else if next.isNone && child.isNone then contents.root.endPage
  else unknownPage

variable {contents} {sources : Nat → Option ν} {parent start : Nat} {level : Int} {node : ν}
  {heading : Heading} {below after forest : Forest ν}

theorem Lays.startPage_get? (h : contents.Lays sources parent level start forest) :
    (forest.head?.bind fun _ => contents.get? start).map Section.startPage =
      forest.startPage? := by
  cases forest with
  | nil => rfl
  | cons node heading below after =>
      rw [Forest.head?, Option.bind_some, h.get?_head]
      rfl

theorem Lays.nextSibling?_start
    (h : contents.Lays sources parent level start (.cons node heading below after)) :
    (contents.nextSibling? start).map Section.startPage = after.startPage? := by
  rw [← h.along.startPage_get?, nextSibling?, h.nextNumber?_eq]
  cases after.head? <;> rfl

theorem Lays.firstChild?_start
    (h : contents.Lays sources parent level start (.cons node heading below after)) :
    ((contents.get? start).bind contents.firstChild?).map Section.startPage =
      below.startPage? := by
  rw [← h.down.startPage_get?, h.get?_head]
  simp only [Option.bind_some, firstChild?, Forest.head?_topNumbers]
  cases below.head? <;> rfl

theorem startOf_eq {s? : Option Section} {start? : Option Int}
    (h : s?.map Section.startPage = start?) :
    startOf s? = start?.getD unknownPage := by
  cases s? <;> (cases h; rfl)

end Contents

namespace Outline

variable {outline : Outline ν π} {number? : π → Option Nat} {settings : Settings}

/-- A strict walk begins at the page of the entry it comes to. -/
theorem Trail.pageNumber_eq_ok {depth : Nat} {current : Option ν} {seen : List ν}
    {forest : Forest ν} (h : Trail outline number? settings depth current seen forest)
    (hstrict : settings.tolerance = .strict) :
    (outline.pageNumber number? current).result = .ok (forest.startPage?.getD unknownPage) := by
  cases h with
  | finish => rfl
  | revisit _ hlenient => rw [hstrict] at hlenient; cases hlenient
  | visit _ hread _ _ _ => exact (readEntry_eq_ok.1 hread).1

/-- The end page that a strict walk reads at an entry is the one that the table tells. -/
theorem Trail.heading_endPage_eq {depth number parent : Nat} {level : Int} {current : Option ν}
    {seen : List ν} {node : ν} {heading : Heading} {below after : Forest ν}
    {contents : Contents} {sources : Nat → Option ν}
    (h : Trail outline number? settings depth current seen (.cons node heading below after))
    (hstrict : settings.tolerance = .strict)
    (hlays : contents.Lays sources parent level number (.cons node heading below after))
    (hroot : contents.root.endPage = signed32 outline.pageCount.toNat) :
    heading.endPage = contents.spanEnd number := by
  have hnext := hlays.nextSibling?_start
  have hchild := hlays.firstChild?_start
  cases h with
  | @visit _ _ _ read opened _ _ _ hread hopens hbelow hafter =>
      rcases endPage_eq_ok.1 (readEntry_eq_ok.1 hread).2.2.1 with ⟨sibling, hsibling, hend⟩
      rw [hafter.pageNumber_eq_ok hstrict, Except.ok.injEq] at hsibling
      subst hsibling
      have hnextNone : (contents.nextSibling? number).isNone = read.next.isNone := by
        rw [← hafter.head?_eq hstrict, ← Forest.isNone_startPage?, ← hnext, Option.isNone_map]
      have hchildNone :
          ((contents.get? number).bind contents.firstChild?).isNone = opened.isNone := by
        rw [← hbelow.head?_eq hstrict, ← Forest.isNone_startPage?, ← hchild, Option.isNone_map]
      simp only [Contents.spanEnd, Contents.startOf_eq hnext, Contents.startOf_eq hchild,
        hnextNone, hchildNone, hroot]
      rcases hend with ⟨hknown, hend⟩ | ⟨hunknown, child, page, hfirst, hpage, hend⟩
      · rw [if_pos hknown]
        exact hend
      · rw [Settings.follow_of_strict hstrict, (hopens.of_strict hstrict).1,
          Except.ok.injEq] at hfirst
        subst hfirst
        rw [hbelow.pageNumber_eq_ok hstrict, Except.ok.injEq] at hpage
        subst hpage
        rw [if_neg (Int.not_le.mpr hunknown)]
        exact hend

variable [DecidableEq ν] [BEq π] [Hashable π]

/-- In a table of contents read by a strict reader, the end page of every section is a function of
the table. -/
theorem endPage_eq_spanEnd (hstrict : settings.tolerance = .strict) {fuel : Nat}
    {contents : Contents} (hread : (outline.readWithin settings fuel).result = .ok contents) :
    contents.root.endPage = signed32 outline.pageCount.toNat ∧
      ∀ number s, 0 < number → contents.get? number = some s →
        s.endPage = contents.spanEnd number := by
  rcases readWithin_yields hread with ⟨forest, hyields, rfl⟩
  have hroot : (outline.contentsOf settings forest).root.endPage =
      signed32 outline.pageCount.toNat := Contents.endPage_root_ofForest _ _ _
  refine ⟨hroot, ?_⟩
  intro number s hnumber hs
  cases hyields with
  | bare _ =>
      cases number with
      | zero => exact absurd hnumber (Nat.lt_irrefl 0)
      | succ number =>
          rw [contentsOf, Contents.get?_ofForest_succ] at hs
          cases hs
  | rooted _ _ hopens htrail =>
      rcases htrail.locate hopens hnumber hs with ⟨_, _, _, _, _, _, _, _, htrail, hlays, -⟩
      rw [hlays.get?_head] at hs
      cases hs
      exact htrail.heading_endPage_eq hstrict hlays hroot

end Outline

/-- A chapter whose section begins on a later page, and a chapter without a page. -/
def looseChapters : OutlineTable where
  pageCount := 9
  root := .ok (some 0)
  pages := .ok ["p1", "p2", "p3", "p4"]
  rows := [
    (0, { first := .ok (some 1) }),
    (1, { first := .ok (some 2), next := .ok (some 3), title := .ok "Chapter 1",
          page := .ok (some "p2") }),
    (2, { title := .ok "Section 1", page := .ok (some "p4") }),
    (3, { title := .ok "Chapter 2" })]

/-- The first chapter ends where its section begins, since nobody knows where the second does, and
its section reaches to the end of the document. -/
theorem spanEnd_looseChapters :
    ∃ contents, (looseChapters.toOutline.readWithin {} 3).result = .ok contents ∧
      contents.spanEnd 1 = 4 ∧ contents.spanEnd 2 = contents.root.endPage := by
  have hforest : (looseChapters.toOutline.forestWithin {} 3).result =
      .ok (.cons 1 ⟨"Chapter 1", 2, 4, 0⟩ (.cons 2 ⟨"Section 1", 4, 9, 0⟩ .nil .nil)
        (.cons 3 ⟨"Chapter 2", -1, 9, 0⟩ .nil .nil)) := by
    simp only [Outline.forestWithin, PageIndex.number?_ofList]
    decide +kernel
  have hread := Outline.readWithin_eq_ok.2 ⟨_, hforest, rfl⟩
  rcases Outline.endPage_eq_spanEnd rfl hread with ⟨hroot, hspan⟩
  refine ⟨_, hread, (hspan 1 _ (by decide) rfl).symm, (hspan 2 _ (by decide) rfl).symm.trans ?_⟩
  rw [hroot]
  decide +kernel

end Bookmarks
