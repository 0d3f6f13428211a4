/-
# A table of contents in layers

The sections of one level make a layer of the table. Layers are found by searching down from the
root, one for each level, and no layer is made from another. Still the children of a layer, taken
in turn, are the next layer: the search comes to them in the order of the outline, however deep the
branches between them are. No level down to the deepest is left out, and every section below the
root is in the layer of its level (`Outline.readWithin_layers`).
-/
import Bookmarks.Proofs.Contents.Leads
import Bookmarks.Proofs.Contents.Trimming

namespace Bookmarks

variable {ν π : Type}

/-- Sorting a list by a key, one value after another, keeps what has one of the values. -/
theorem perm_flatMap_filter {α : Type} (key : α → Int) (list : List α) (bound : Nat) :
    ((List.range bound).flatMap fun value : Nat => list.filter fun a => key a = value).Perm
      (list.filter fun a => 0 ≤ key a ∧ key a < bound) := by
  induction bound with
  | zero =>
      rw [List.range_zero, List.flatMap_nil, List.filter_eq_nil_iff.2]
      intro a _
      simp only [decide_eq_true_eq]
      omega
  | succ bound ih =>
      have hbefore : (list.filter fun a => 0 ≤ key a ∧ key a < (bound + 1 : Nat)).filter
          (fun a => key a < bound) = list.filter fun a => 0 ≤ key a ∧ key a < bound := by
        rw [List.filter_filter]
        apply List.filter_congr
        intro a _
        rw [← Bool.decide_and]
        apply decide_eq_decide.2
        omega
      have hlast : (list.filter fun a => 0 ≤ key a ∧ key a < (bound + 1 : Nat)).filter
          (fun a => !decide (key a < bound)) = list.filter fun a => key a = bound := by
        rw [List.filter_filter]
        apply List.filter_congr
        intro a _
        rw [← decide_not, ← Bool.decide_and]
        apply decide_eq_decide.2
        omega
      rw [List.range_succ, List.flatMap_append, List.flatMap_singleton, ← hlast]
      rw [← hbefore] at ih
      exact (ih.append_right _).trans (List.filter_append_perm _ _)

namespace Contents

variable (contents : Contents)

/-- The sections of a level, in the order of the outline. -/
def layer (level : Int) : List Section :=
  contents.sections.toList.filter fun s => s.level = level

variable {contents} {sources : Nat → Option ν} {parent start number : Nat} {level target : Int}
  {s : Section} {forest below : Forest ν}

theorem layer_ne_nil_iff :
    contents.layer level ≠ [] ↔ ∃ s ∈ contents.sections.toList, s.level = level := by
  simp [layer, List.filter_eq_nil_iff]

/-! ## Levels of a forest -/

/-- A forest has sections on each of its levels, and on no other level. -/
theorem exists_level_iff (forest : Forest ν) (parent : Nat) (level : Int) (start : Nat)
    (target : Int) :
    (∃ s ∈ sectionsOf parent level start forest, s.level = target) ↔
      level ≤ target ∧ target < level + forest.height := by
  induction forest generalizing parent level start with
  | nil =>
      refine iff_of_false (by simp [sectionsOf]) ?_
      rw [Forest.height]
      omega
  | cons node heading below after ihBelow ihAfter =>
      simp only [sectionsOf, List.mem_cons, List.mem_append, or_and_right, exists_or,
        exists_eq_left, ihBelow, ihAfter, Forest.height]
      omega

/-- A forest has no sections above its level. -/
theorem filter_level_eq_nil (h : target < level) :
    (sectionsOf parent level start forest).filter (fun s => s.level = target) = [] := by
  rw [List.filter_eq_nil_iff]
  intro s hs
  have hlevel := le_level_of_mem hs
  simp only [decide_eq_true_eq]
  omega

/-- The sections at the level of a forest are its top entries. -/
theorem Lays.filter_level (h : contents.Lays sources parent level start forest) :
    (sectionsOf parent level start forest).filter (fun s => s.level = level) =
      (forest.topNumbers start).filterMap contents.get? := by
  induction forest generalizing start with
  | nil => rfl
  | cons node heading below after _ ihAfter =>
      rw [sectionsOf, List.filter_cons_of_pos (by simp), List.filter_append,
        filter_level_eq_nil (Int.lt_succ level), List.nil_append, ihAfter h.along,
        Forest.topNumbers, List.filterMap_cons_some h.get?_head]

/-! ## From one layer to the next -/

/-- The sections of a block one level further down are the children of those of a level, if this is
so for the forest below the section that the block begins with. -/
theorem filter_level_succ (h : contents.Lays sources number (s.level + 1) (number + 1) below)
    (hchildren : s.children = below.topNumbers (number + 1)) (hlevel : s.level ≤ target)
    (hbelow : s.level < target →
      (sectionsOf number (s.level + 1) (number + 1) below).filter (fun t => t.level = target + 1) =
        ((sectionsOf number (s.level + 1) (number + 1) below).filter
          fun t => t.level = target).flatMap contents.children) :
    (s :: sectionsOf number (s.level + 1) (number + 1) below).filter
        (fun t => t.level = target + 1) =
      ((s :: sectionsOf number (s.level + 1) (number + 1) below).filter
        fun t => t.level = target).flatMap contents.children := by
  have hsection : ¬ s.level = target + 1 := by omega
  rw [List.filter_cons_of_neg (by simpa using hsection)]
  obtain habove | hat := Int.lt_or_eq_of_le hlevel
  · have hother : ¬ s.level = target := by omega
    rw [List.filter_cons_of_neg (by simpa using hother), hbelow habove]
  · subst hat
    rw [List.filter_cons_of_pos (by simp), filter_level_eq_nil (Int.lt_succ s.level),
      h.filter_level, List.flatMap_singleton, children, hchildren]

/-- The sections of a forest one level further down are the children of those of a level. -/
theorem Lays.filter_level_succ (h : contents.Lays sources parent level start forest)
    (hlevel : level ≤ target) :
    (sectionsOf parent level start forest).filter (fun s => s.level = target + 1) =
      ((sectionsOf parent level start forest).filter
        fun s => s.level = target).flatMap contents.children := by
  induction forest generalizing parent level start with
  | nil => rfl
  | cons node heading below after ihBelow ihAfter =>
      -- The block of the first entry is taken together, apart from the entries after it.
      rw [sectionsOf, ← List.cons_append, List.filter_append, List.filter_append,
        List.flatMap_append, ihAfter h.along hlevel]
      congr 1
      exact Contents.filter_level_succ h.down rfl hlevel fun habove => ihBelow h.down habove

/-! ## The table of a forest -/

/-- Without leads, one pass over sections takes those of the level. -/
theorem filterMap_piece?_false (sections : List Section) :
    sections.filterMap (contents.piece? target false) =
      (sections.filter fun s => s.level = target).map .whole := by
  rw [← List.filterMap_eq_map', List.filterMap_filter]
  congr 1
  funext s
  simp [piece?]

section OfForest

variable (title : String) (pageCount : Int) (forest : Forest ν)

/-- The search for the sections of a level finds its layer. -/
theorem atLevel_ofForest (target : Int) :
    (ofForest title pageCount forest).atLevel target false =
      ((ofForest title pageCount forest).layer target).map .whole := by
  have hlays := lays_ofForest_nodes title pageCount forest
  have hproject : (ofForest title pageCount forest).project
      (rootSection title pageCount (forest.topNumbers 1)) target false = _ :=
    hlays.project_eq (get?_ofForest_zero title pageCount forest) rfl target false
  rw [atLevel, root_ofForest, hproject, layer, sections_ofForest, ← filterMap_piece?_false]
  rfl

/-- The children of a layer are the next one. -/
theorem layer_succ_ofForest (hlevel : -1 ≤ level) :
    (ofForest title pageCount forest).layer (level + 1) =
      ((ofForest title pageCount forest).layer level).flatMap
        (ofForest title pageCount forest).children := by
  have hlays := lays_ofForest_nodes title pageCount forest
  rw [layer, layer, sections_ofForest]
  refine filter_level_succ (s := rootSection title pageCount (forest.topNumbers 1)) hlays rfl
    hlevel fun habove => hlays.filter_level_succ ?_
  rw [level_rootSection] at habove
  omega

/-- The layers that are not empty are those from the root down to the deepest level. -/
theorem layer_ofForest_ne_nil_iff :
    (ofForest title pageCount forest).layer level ≠ [] ↔
      -1 ≤ level ∧ level ≤ (ofForest title pageCount forest).maxLevel := by
  rw [layer_ne_nil_iff, sections_ofForest, List.exists_mem_cons_iff, exists_level_iff,
    level_rootSection, maxLevel_ofForest]
  omega

/-- The layers below the root hold every section but the root. -/
theorem perm_layers_ofForest :
    ((List.range ((ofForest title pageCount forest).maxLevel + 1).toNat).flatMap fun level : Nat =>
        (ofForest title pageCount forest).layer level).Perm
      (ofForest title pageCount forest).preorder := by
  have hheight : ((ofForest title pageCount forest).maxLevel + 1).toNat = forest.height := by
    rw [maxLevel_ofForest]
    omega
  have hall : ∀ s ∈ sectionsOf 0 0 1 forest, 0 ≤ s.level ∧ s.level < forest.height := by
    intro s hs
    have hlevel := (exists_level_iff forest 0 0 1 s.level).1 ⟨s, hs, rfl⟩
    omega
  have hperm := perm_flatMap_filter Section.level
    (ofForest title pageCount forest).sections.toList forest.height
  rw [sections_ofForest, List.filter_cons_of_neg (by simp [level_rootSection]),
    List.filter_eq_self.2 fun s hs => decide_eq_true (hall s hs)] at hperm
  rw [hheight, preorder_ofForest]
  exact hperm

end OfForest

end Contents

/-! ## The table that is read from an outline -/

/-- Whatever outline a table of contents is read from, the sections found at a level have the
sections found at the next level for their children, in the same order. Sections are found at every
level from the root down to the deepest, and those found below the root are all there are. -/
theorem Outline.readWithin_layers [DecidableEq ν] [BEq π] [Hashable π] {outline : Outline ν π}
    {settings : Settings} {fuel : Nat} {contents : Contents}
    (h : (outline.readWithin settings fuel).result = .ok contents) :
    (∀ level, -1 ≤ level → contents.atLevel (level + 1) false =
      (contents.atLevel level false).flatMap fun piece =>
        (contents.children piece.toSection).map .whole) ∧
    (∀ level, contents.atLevel level false ≠ [] ↔ -1 ≤ level ∧ level ≤ contents.maxLevel) ∧
    ((List.range (contents.maxLevel + 1).toNat).flatMap fun level : Nat =>
        contents.atLevel level false).Perm (contents.preorder.map .whole) := by
  obtain ⟨forest, -, rfl⟩ := readWithin_yields h
  rw [contentsOf]
  simp only [Contents.atLevel_ofForest]
  refine ⟨?next, ?found, ?all⟩
  case next =>
    intro level hlevel
    rw [Contents.layer_succ_ofForest _ _ _ hlevel, List.map_flatMap, List.flatMap_map]
    rfl
  case found =>
    intro level
    rw [ne_eq, List.map_eq_nil_iff]
    exact Contents.layer_ofForest_ne_nil_iff _ _ _
  case all =>
    rw [← List.map_flatMap]
    exact (Contents.perm_layers_ofForest _ _ _).map _

/-- The layers of the manual: two parts, a chapter of each, and a section of the first chapter. -/
theorem layers_manual :
    (manual.toOutline.readWithin {} 5).result = .ok manualContents ∧
      (List.range 3).map (fun level : Nat =>
          (manualContents.atLevel level false).map fun piece => piece.toSection.title) =
        [["Part 1", "Part 2"], ["Chapter 1", "Chapter 2"], ["Section 1"]] ∧
      manualContents.atLevel 2 false =
        (manualContents.atLevel 1 false).flatMap (fun piece =>
          (manualContents.children piece.toSection).map .whole) ∧
      manualContents.atLevel 3 false = [] ∧
      ((List.range 3).flatMap fun level : Nat => manualContents.atLevel level false).Perm
        (manualContents.preorder.map .whole) := by
  have hread : (manual.toOutline.readWithin {} 5).result = .ok manualContents :=
    Outline.readWithin_eq_ok.2 ⟨_, forestWithin_manual, rfl⟩
  have hdeepest : manualContents.maxLevel = 2 := by decide +kernel
  obtain ⟨hnext, hfound, hall⟩ := Outline.readWithin_layers hread
  rw [hdeepest] at hfound hall
  refine ⟨hread, by decide +kernel, hnext 1 (by decide), ?_, hall⟩
  by_contra hne
  exact absurd ((hfound 3).1 hne).2 (by decide)

end Bookmarks
