/-
# The upper levels of a table

A table of contents can be read off to some level only. `trimmed` leaves out the sections of a level
and of all deeper ones: those that are left are numbered anew, in the old order, and children that
are gone are no longer listed; apart from these numbers a section is what it was. This is the table
of the forest without its deeper entries (`trimmed_ofForest`). How deep a table goes is how high its
forest is (`maxLevel_ofForest`).
-/
import Bookmarks.Proofs.Contents.Layout

namespace Bookmarks

variable {ν : Type}

namespace Forest

/-- The levels of a forest. -/
def height : Forest ν → Nat
  | .nil => 0
  | .cons _ _ below after => max (below.height + 1) after.height

/-- The entries of a forest above a limit, if its top entries are at a depth. -/
def above (limit depth : Nat) : Forest ν → Forest ν
  | .nil => .nil
  | .cons node heading below after =>
      if depth < limit then
        .cons node heading (below.above limit (depth + 1)) (after.above limit depth)
      else .nil

variable {limit depth : Nat}

theorem above_of_le (h : limit ≤ depth) (forest : Forest ν) : forest.above limit depth = .nil := by
  cases forest with
  | nil => rfl
  | cons node heading below after => exact if_neg (Nat.not_lt.2 h)

theorem above_cons (h : depth < limit) (node : ν) (heading : Heading) (below after : Forest ν) :
    (Forest.cons node heading below after).above limit depth =
      .cons node heading (below.above limit (depth + 1)) (after.above limit depth) :=
  if_pos h

/-- Nothing is left out of a forest that does not reach the limit. -/
theorem above_eq_self {forest : Forest ν} (h : depth + forest.height ≤ limit) :
    forest.above limit depth = forest := by
  induction forest generalizing depth with
  | nil => rfl
  | cons node heading below after ihBelow ihAfter =>
      rw [height] at h
      rw [above_cons (by omega), ihBelow (by omega), ihAfter (by omega)]

theorem nodes_above_subset (forest : Forest ν) (limit depth : Nat) :
    (forest.above limit depth).nodes ⊆ forest.nodes := by
  induction forest generalizing depth with
  | nil => exact List.Subset.refl _
  | cons node heading below after ihBelow ihAfter =>
      by_cases h : depth < limit
      · rw [above_cons h, nodes, nodes]
        apply List.cons_subset_cons
        apply List.append_subset.2
        exact ⟨List.subset_append_of_subset_left _ (ihBelow _),
          List.subset_append_of_subset_right _ (ihAfter _)⟩
      · rw [above_of_le (Nat.not_lt.1 h)]
        exact List.nil_subset _

end Forest

namespace Contents

variable (contents : Contents)

/-- Sections before a number that are above a level: the number that a section has if all others
are left out. -/
def numberAbove (limit : Int) (number : Nat) : Nat :=
  (contents.sections.toList.take number).countP fun s => s.level < limit

/-- There is a section of this number, and it is above a level. -/
def isAbove (limit : Int) (number : Nat) : Bool :=
  (contents.get? number).any fun s => s.level < limit

/-- A section with its parent and its children numbered as if sections from a level on were left
out. -/
def trimSection (limit : Int) (s : Section) : Section :=
  { s with
    parent := s.parent.map (contents.numberAbove limit)
    children := (s.children.filter (contents.isAbove limit)).map (contents.numberAbove limit) }

/-- The sections that are left if those from a level on are left out. -/
def trimmed (limit : Int) : List Section :=
  (contents.sections.toList.filter fun s => s.level < limit).map (contents.trimSection limit)

variable {contents} {sources : Nat → Option ν} {parent start number : Nat} {forest : Forest ν}

/-! ## Numbering anew -/

variable (contents) in
theorem numberAbove_succ (limit : Int) (number : Nat) :
    contents.numberAbove limit (number + 1) =
      contents.numberAbove limit number + if contents.isAbove limit number then 1 else 0 := by
  have hget : contents.sections.toList[number]? = contents.get? number := Array.getElem?_toList
  rw [numberAbove, numberAbove, List.take_add_one, List.countP_append, hget, isAbove]
  cases contents.get? number with
  | none => rfl
  | some s => simp [List.countP_cons]

namespace Lays

variable {depth : Nat} {node : ν} {heading : Heading} {below after : Forest ν}

theorem down_cast
    (h : contents.Lays sources parent depth start (.cons node heading below after)) :
    contents.Lays sources start ((depth + 1 : Nat) : Int) (start + 1) below :=
  h.down

theorem isAbove_start
    (h : contents.Lays sources parent depth start (.cons node heading below after)) (limit : Nat) :
    contents.isAbove limit start = decide (depth < limit) := by
  rw [isAbove, h.get?_head, Option.any_some]
  simp

theorem numberAbove_start
    (h : contents.Lays sources parent depth start (.cons node heading below after)) {limit : Nat}
    (hdepth : depth < limit) :
    contents.numberAbove limit (start + 1) = contents.numberAbove limit start + 1 := by
  rw [numberAbove_succ, h.isAbove_start, if_pos (decide_eq_true hdepth)]

/-- A forest takes as many new numbers as it has entries above the limit. -/
theorem numberAbove_add_size (h : contents.Lays sources parent depth start forest) (limit : Nat) :
    contents.numberAbove limit (start + forest.size) =
      contents.numberAbove limit start + (forest.above limit depth).size := by
  induction forest generalizing parent start depth with
  | nil => rfl
  | cons node heading below after ihBelow ihAfter =>
      have hbelow := ihBelow h.down_cast
      have hafter := ihAfter h.along
      have hend : start + (Forest.cons node heading below after).size =
          start + below.size + 1 + after.size := by
        rw [Forest.size]
        omega
      rw [Nat.add_right_comm start 1] at hbelow
      rw [hend, hafter, hbelow]
      by_cases hdepth : depth < limit
      · rw [h.numberAbove_start hdepth, Forest.above_cons hdepth, Forest.size]
        omega
      · have hdeep := Nat.not_lt.1 hdepth
        have hstart := contents.numberAbove_succ limit start
        rw [h.isAbove_start, decide_eq_false hdepth] at hstart
        rw [Forest.above_of_le hdeep, Forest.above_of_le hdeep,
          Forest.above_of_le (Nat.le_succ_of_le hdeep), hstart]
        rfl

/-- The part of a forest that comes after its first entry begins at a new number. -/
theorem numberAbove_along
    (h : contents.Lays sources parent depth start (.cons node heading below after)) {limit : Nat}
    (hdepth : depth < limit) :
    contents.numberAbove limit (start + below.size + 1) =
      contents.numberAbove limit start + (below.above limit (depth + 1)).size + 1 := by
  rw [Nat.add_right_comm start, h.down_cast.numberAbove_add_size, h.numberAbove_start hdepth]
  omega

/-- The numbers of the top entries that are left. -/
theorem topNumbers_above (h : contents.Lays sources parent depth start forest) (limit : Nat) :
    ((forest.topNumbers start).filter (contents.isAbove limit)).map
        (contents.numberAbove limit) =
      (forest.above limit depth).topNumbers (contents.numberAbove limit start) := by
  induction forest generalizing start with
  | nil => rfl
  | cons node heading below after _ ihAfter =>
      have hafter := ihAfter h.along
      rw [Forest.topNumbers, List.filter_cons, h.isAbove_start]
      by_cases hdepth : depth < limit
      · rw [if_pos (decide_eq_true hdepth), List.map_cons, hafter, Forest.above_cons hdepth,
          Forest.topNumbers, h.numberAbove_along hdepth]
      · have hdeep := Nat.not_lt.1 hdepth
        rw [Forest.above_of_le hdeep] at hafter ⊢
        rw [decide_eq_false hdepth]
        exact hafter

/-- The sections that are left of a forest are those of what is left of the forest. -/
theorem sectionsOf_above (h : contents.Lays sources parent depth start forest) (limit : Nat) :
    ((sectionsOf parent depth start forest).filter fun s => s.level < (limit : Int)).map
        (contents.trimSection limit) =
      sectionsOf (contents.numberAbove limit parent) depth (contents.numberAbove limit start)
        (forest.above limit depth) := by
  induction forest generalizing parent start depth with
  | nil => rfl
  | cons node heading below after ihBelow ihAfter =>
      have hbelow := ihBelow h.down_cast
      have hafter := ihAfter h.along
      have hchildren := h.down_cast.topNumbers_above limit
      rw [Int.natCast_succ] at hbelow
      rw [sectionsOf, List.filter_cons, List.filter_append]
      by_cases hdepth : depth < limit
      · rw [h.numberAbove_start hdepth] at hbelow hchildren
        rw [if_pos (by simpa using hdepth), List.map_cons, List.map_append, hafter, trimSection,
          hbelow, hchildren, Forest.above_cons hdepth, sectionsOf, h.numberAbove_along hdepth]
        rfl
      · have hdeep := Nat.not_lt.1 hdepth
        rw [Forest.above_of_le hdeep] at hafter ⊢
        rw [Forest.above_of_le (Nat.le_succ_of_le hdeep)] at hbelow
        rw [if_neg (by simpa using hdeep), List.map_append, hbelow, hafter]
        rfl

end Lays

/-! ## The table of a forest -/

section OfForest

variable (title : String) (pageCount : Int) (forest : Forest ν)

/-- The sections above a level that a forest makes are the table of the forest above the level. -/
theorem trimmed_ofForest (limit : Nat) :
    (ofForest title pageCount forest).trimmed limit =
      (ofForest title pageCount (forest.above limit 0)).sections.toList := by
  have hlays : (ofForest title pageCount forest).Lays (fun number => forest.nodes[number - 1]?)
      0 ((0 : Nat) : Int) 1 forest := lays_ofForest_nodes title pageCount forest
  have hlevel : (rootSection title pageCount (forest.topNumbers 1)).level < (limit : Int) := by
    rw [level_rootSection]
    omega
  have hroot : (ofForest title pageCount forest).isAbove limit 0 = true := by
    rw [isAbove, get?_ofForest_zero]
    exact decide_eq_true hlevel
  have hzero : (ofForest title pageCount forest).numberAbove limit 0 = 0 := rfl
  have hone : (ofForest title pageCount forest).numberAbove limit 1 = 1 := by
    rw [numberAbove_succ, hzero, if_pos hroot]
  have hchildren := hlays.topNumbers_above limit
  have hsections := hlays.sectionsOf_above limit
  rw [hone] at hchildren
  rw [hzero, hone, Int.natCast_zero] at hsections
  rw [trimmed, sections_ofForest, List.filter_cons, if_pos (decide_eq_true hlevel),
    List.map_cons, hsections, trimSection, rootSection, hchildren]
  rfl

/-- Going through the sections of a forest meets its deepest level. -/
theorem foldl_max_level (forest : Forest ν) {parent start : Nat} {level deepest : Int}
    (h : level ≤ deepest + 1) :
    (sectionsOf parent level start forest).foldl (fun deepest s => max deepest s.level) deepest =
      max deepest (level + forest.height - 1) := by
  induction forest generalizing parent start level deepest with
  | nil =>
      simp only [sectionsOf, List.foldl_nil, Forest.height]
      omega
  | cons node heading below after ihBelow ihAfter =>
      rw [sectionsOf, List.foldl_cons, List.foldl_append]
      dsimp only
      rw [ihBelow (by omega), ihAfter (by omega), Forest.height]
      omega

/-- The deepest sections of a forest are on its last level. -/
theorem maxLevel_ofForest : (ofForest title pageCount forest).maxLevel = forest.height - 1 := by
  rw [maxLevel, ← Array.foldl_toList]
  simp only [ofForest, List.foldl_cons]
  rw [foldl_max_level forest (by simp [rootSection])]
  simp only [rootSection]
  omega

end OfForest

end Contents

end Bookmarks
