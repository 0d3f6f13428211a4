/-
# Growing tables of contents

A table of contents grows section by section: each new section goes to the end and is listed as the
last child of a section that is there. A forest is planted below a section entry by entry, what is
below an entry before what follows it, and this makes the same table as laying it out at once
(`plant_bare`).
-/
import Bookmarks.Contents

namespace Bookmarks

/-- A section with more children behind those that it has. -/
def Section.withChildren (numbers : List Nat) (s : Section) : Section :=
  { s with children := s.children ++ numbers }

namespace Contents

/-- A table with nothing but the document as a whole. -/
def bare (title : String) (pageCount : Int) : Contents where
  sections := #[rootSection title pageCount []]
  size_pos := by simp

/-- The table with one more section, which is the last child of the section `parent`. -/
def addChild (contents : Contents) (parent level : Nat) (heading : Heading) : Contents where
  sections :=
    (contents.sections.push
      { parent := some parent
        title := heading.title
        level := level
        startPage := heading.startPage
        endPage := heading.endPage
        position := heading.position
        children := [] }).modify parent (Section.withChildren [contents.size])
  size_pos := by simp

variable {ν : Type}

/-- The table with the entries of a forest as the last children of the section `parent`. -/
def plant (parent level : Nat) : Forest ν → Contents → Contents
  | .nil, contents => contents
  | .cons _ heading below after, contents =>
      plant parent level after
        (plant contents.size (level + 1) below (contents.addChild parent level heading))

/-! ## What is planted is what is laid out -/

theorem modify_append_of_lt {α : Type} {f : α → α} {l l' : List α} {i : Nat} (h : i < l.length) :
    (l ++ l').modify i f = l.modify i f ++ l' := by
  induction l generalizing i with
  | nil => simp at h
  | cons a l ih =>
      cases i with
      | zero => rfl
      | succ i =>
          rw [List.cons_append, List.modify_succ_cons, List.modify_succ_cons, List.cons_append,
            ih (by simpa using h)]

theorem modify_append_cons {α : Type} {f : α → α} {l l' : List α} {a : α} {i : Nat}
    (h : l.length = i) : (l ++ a :: l').modify i f = l ++ f a :: l' := by
  induction l generalizing i with
  | nil => subst h; rfl
  | cons b l ih =>
      subst h
      rw [List.cons_append, List.length_cons, List.modify_succ_cons, ih rfl]
      rfl

theorem length_sectionsOf (forest : Forest ν) :
    ∀ (parent : Nat) (level : Int) (start : Nat),
      (sectionsOf parent level start forest).length = forest.size := by
  induction forest with
  | nil => intros; rfl
  | cons _ _ below after ihBelow ihAfter =>
      intros
      simp only [sectionsOf, List.length_cons, List.length_append, ihBelow, ihAfter, Forest.size]

variable {forest : Forest ν} {contents : Contents} {parent level : Nat}

theorem withChildren_withChildren (numbers numbers' : List Nat) :
    Section.withChildren numbers' ∘ Section.withChildren numbers =
      Section.withChildren (numbers ++ numbers') := by
  funext s
  simp [Section.withChildren]

theorem toList_sections_addChild {heading : Heading} (h : parent < contents.size) :
    (contents.addChild parent level heading).sections.toList =
      contents.sections.toList.modify parent (Section.withChildren [contents.size]) ++
        [{ parent := some parent, title := heading.title, level := level,
           startPage := heading.startPage, endPage := heading.endPage,
           position := heading.position, children := [] }] := by
  rw [addChild, Array.toList_modify, Array.toList_push, modify_append_of_lt h]

theorem size_addChild {heading : Heading} :
    (contents.addChild parent level heading).size = contents.size + 1 := by
  simp [addChild, size]

/-- Planting lists the top entries of a forest as children, and lays the forest out at the end. -/
theorem toList_sections_plant (h : parent < contents.size) :
    (plant parent level forest contents).sections.toList =
      contents.sections.toList.modify parent
          (Section.withChildren (forest.topNumbers contents.size)) ++
        sectionsOf parent level contents.size forest := by
  induction forest generalizing contents parent level with
  | nil =>
      have hnone : Section.withChildren [] = id := by
        funext s
        simp [Section.withChildren]
      simp [plant, sectionsOf, Forest.topNumbers, hnone]
  | cons node heading below after ihBelow ihAfter =>
      -- The sections up to the new one, which lists it as a child.
      let earlier := contents.sections.toList.modify parent (Section.withChildren [contents.size])
      have hearlier : earlier.length = contents.size := by simp [earlier, size]
      let added := contents.addChild parent level heading
      let grown := plant contents.size (level + 1) below added
      have hadded : added.size = contents.size + 1 := size_addChild
      have hgrown : grown.sections.toList =
          earlier ++ sectionsOf parent level contents.size (.cons node heading below .nil) := by
        have haddedList : added.sections.toList = earlier ++ [_] := toList_sections_addChild h
        rw [ihBelow (by omega), haddedList, hadded, modify_append_cons hearlier]
        simp [sectionsOf, Section.withChildren]
      have hsize : grown.size = contents.size + below.size + 1 := by
        rw [size, ← Array.length_toList, hgrown, List.length_append, hearlier, length_sectionsOf]
        simp [Forest.size, Nat.add_assoc]
      change (plant parent level after grown).sections.toList = _
      rw [ihAfter (by omega), hgrown, modify_append_of_lt (hearlier ▸ h), List.modify_modify_eq,
        withChildren_withChildren, hsize]
      simp [sectionsOf, Forest.topNumbers]

/-- A forest planted in a bare table makes the table of the forest. -/
theorem plant_bare (title : String) (pageCount : Int) (forest : Forest ν) :
    plant 0 0 forest (bare title pageCount) = ofForest title pageCount forest := by
  have hsections : (plant 0 0 forest (bare title pageCount)).sections.toList =
      (ofForest title pageCount forest).sections.toList := by
    rw [toList_sections_plant (by simp [bare, size])]
    simp [bare, ofForest, size, rootSection, Section.withChildren]
  cases hplant : plant 0 0 forest (bare title pageCount) with
  | mk sections size_pos =>
      rw [hplant] at hsections
      simp only [ofForest, mk.injEq]
      simpa [ofForest] using congrArg List.toArray hsections

end Contents

end Bookmarks
