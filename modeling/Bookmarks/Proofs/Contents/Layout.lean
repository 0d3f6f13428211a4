/-
# How a forest is laid out

The sections of a table of contents are numbered in the order of the outline, so the sections of a
forest are a block of numbers, the block of an entry begins with the entry itself, goes on with the
entries below it and is followed by those after it. `Lays` says that a forest is laid out at some
place, and `Lays.locate` finds for every number of the block the part of the forest that begins
there, with whatever is known of all parts of the forest.
-/
import Bookmarks.Contents.Growth
import Bookmarks.Proofs.Siblings

namespace Bookmarks

variable {ν : Type}

namespace Forest

theorem length_nodes (forest : Forest ν) : forest.nodes.length = forest.size := by
  induction forest with
  | nil => rfl
  | cons _ _ below after ihBelow ihAfter => simp [nodes, size, ihBelow, ihAfter]

/-- The node at which a forest begins. -/
def head? : Forest ν → Option ν
  | .nil => none
  | .cons node _ _ _ => some node

theorem head?_topNumbers (forest : Forest ν) (start : Nat) :
    (forest.topNumbers start).head? = forest.head?.map fun _ => start := by
  cases forest <;> rfl

end Forest

namespace Contents

/-! ## Neighbours of a section -/

variable (contents : Contents)

/-- The number of the section that comes next under the same section. -/
def nextNumber? (number : Nat) : Option Nat :=
  ((contents.get? number).bind contents.parent?).bind fun above => successor? number above.children

/-- The section that comes next under the same section. -/
def nextSibling? (number : Nat) : Option Section :=
  (contents.nextNumber? number).bind contents.get?

/-! ## Blocks of sections -/

/-- From the section `start` on, the sections are those of a forest. Its top entries, at `level`,
are listed last among the children of the section `parent`, and `sources` gives for each number the
node that the section was made from. -/
structure Lays (sources : Nat → Option ν) (parent : Nat) (level : Int) (start : Nat)
    (forest : Forest ν) : Prop where
  section_eq : ∀ offset < forest.size,
    contents.get? (start + offset) = (sectionsOf parent level start forest)[offset]?
  source_eq : ∀ offset < forest.size, sources (start + offset) = forest.nodes[offset]?
  parent_lt : parent < start
  listed : ∃ above earlier, contents.get? parent = some above ∧ above.level + 1 = level ∧
    above.children = earlier ++ forest.topNumbers start ∧ ∀ number ∈ earlier, number < start

variable {contents}

namespace Lays

variable {sources : Nat → Option ν} {parent start : Nat} {level : Int} {node : ν}
  {heading : Heading} {below after : Forest ν}

/-- The section of the entry that a forest begins with. -/
theorem get?_head (h : contents.Lays sources parent level start (.cons node heading below after)) :
    contents.get? start = some
      { parent := some parent
        title := heading.title
        level := level
        startPage := heading.startPage
        endPage := heading.endPage
        position := heading.position
        children := below.topNumbers (start + 1) } :=
  h.section_eq 0 (by simp [Forest.size])

theorem sources_head
    (h : contents.Lays sources parent level start (.cons node heading below after)) :
    sources start = some node :=
  h.source_eq 0 (by simp [Forest.size])

/-- The entries below an entry come right after it. -/
theorem down (h : contents.Lays sources parent level start (.cons node heading below after)) :
    contents.Lays sources start (level + 1) (start + 1) below where
  section_eq offset hoffset := by
    have hsection := h.section_eq (offset + 1) (by simp only [Forest.size]; omega)
    rw [sectionsOf, List.getElem?_cons_succ,
      List.getElem?_append_left (by rw [length_sectionsOf]; exact hoffset)] at hsection
    rw [← hsection, show start + 1 + offset = start + (offset + 1) by omega]
  source_eq offset hoffset := by
    have hsource := h.source_eq (offset + 1) (by simp only [Forest.size]; omega)
    rw [Forest.nodes, List.getElem?_cons_succ,
      List.getElem?_append_left (by rw [Forest.length_nodes]; exact hoffset)] at hsource
    rw [← hsource, show start + 1 + offset = start + (offset + 1) by omega]
  parent_lt := Nat.lt_succ_self start
  listed := ⟨_, [], h.get?_head, rfl, rfl, fun _ h => absurd h List.not_mem_nil⟩

/-- The entries after an entry come after all that is below it. -/
theorem along (h : contents.Lays sources parent level start (.cons node heading below after)) :
    contents.Lays sources parent level (start + below.size + 1) after where
  section_eq offset hoffset := by
    have hsection := h.section_eq (below.size + offset + 1) (by simp only [Forest.size]; omega)
    rw [sectionsOf, List.getElem?_cons_succ,
      List.getElem?_append_right (by rw [length_sectionsOf]; omega), length_sectionsOf,
      show below.size + offset - below.size = offset by omega] at hsection
    rw [← hsection,
      show start + below.size + 1 + offset = start + (below.size + offset + 1) by omega]
  source_eq offset hoffset := by
    have hsource := h.source_eq (below.size + offset + 1) (by simp only [Forest.size]; omega)
    rw [Forest.nodes, List.getElem?_cons_succ,
      List.getElem?_append_right (by rw [Forest.length_nodes]; omega), Forest.length_nodes,
      show below.size + offset - below.size = offset by omega] at hsource
    rw [← hsource,
      show start + below.size + 1 + offset = start + (below.size + offset + 1) by omega]
  parent_lt := Nat.lt_of_lt_of_le h.parent_lt (by omega)
  listed := by
    obtain ⟨above, earlier, habove, hlevel, hchildren, hearlier⟩ := h.listed
    refine ⟨above, earlier ++ [start], habove, hlevel, ?_, ?_⟩
    · rw [hchildren, List.append_assoc]
      rfl
    · intro number hnumber
      rcases List.mem_append.1 hnumber with hold | hnew
      · exact Nat.lt_of_lt_of_le (hearlier number hold) (by omega)
      · obtain rfl := List.mem_singleton.1 hnew
        omega

/-- The first of the top entries is the one that the forest begins with. -/
theorem bind_head?_topNumbers {forest : Forest ν}
    (h : contents.Lays sources parent level start forest) :
    (forest.topNumbers start).head?.bind sources = forest.head? := by
  cases forest with
  | nil => rfl
  | cons node heading below after => exact h.sources_head

/-- The next section under the same section begins the rest of the forest. -/
theorem nextNumber?_eq
    (h : contents.Lays sources parent level start (.cons node heading below after)) :
    contents.nextNumber? start = after.head?.map fun _ => start + below.size + 1 := by
  obtain ⟨above, earlier, habove, -, hchildren, hearlier⟩ := h.listed
  have hnew : start ∉ earlier := fun hmem => Nat.lt_irrefl _ (hearlier start hmem)
  simp only [nextNumber?, h.get?_head, parent?, Option.bind_some, habove]
  rw [hchildren, Forest.topNumbers, successor?_append hnew, Forest.head?_topNumbers]

/-- Each number of a block is the place where a part of the forest is laid out. What is known of a
forest and passes on to what is below and after its first entry is known of that part. -/
theorem locate {P : Int → Forest ν → Prop} {forest : Forest ν}
    (hdown : ∀ {level node heading below after}, P level (.cons node heading below after) →
      P (level + 1) below)
    (halong : ∀ {level node heading below after}, P level (.cons node heading below after) →
      P level after)
    (h : contents.Lays sources parent level start forest) (hforest : P level forest)
    {number : Nat} (hstart : start ≤ number) (hend : number < start + forest.size) :
    ∃ parent level node heading below after, P level (.cons node heading below after) ∧
      contents.Lays sources parent level number (.cons node heading below after) := by
  induction forest generalizing parent level start with
  | nil => exact absurd hend (by simp only [Forest.size]; omega)
  | cons node heading below after ihBelow ihAfter =>
      simp only [Forest.size] at hend
      rcases Nat.lt_trichotomy number start with hlt | rfl | hgt
      · omega
      · exact ⟨parent, level, node, heading, below, after, hforest, h⟩
      by_cases hbelow : number < start + 1 + below.size
      · exact ihBelow h.down (hdown hforest) (by omega) hbelow
      · exact ihAfter h.along (halong hforest) (by omega) (by omega)

end Lays

/-! ## The table of a forest -/

variable (title : String) (pageCount : Int) (forest : Forest ν)

theorem level_rootSection (children : List Nat) :
    (rootSection title pageCount children).level = -1 :=
  rfl

theorem get?_ofForest_zero :
    (ofForest title pageCount forest).get? 0 =
      some (rootSection title pageCount (forest.topNumbers 1)) := by
  simp [get?, ofForest]

theorem root_ofForest :
    (ofForest title pageCount forest).root =
      rootSection title pageCount (forest.topNumbers 1) := by
  simp [root, ofForest]

theorem endPage_root_ofForest :
    (ofForest title pageCount forest).root.endPage = pageCount := by
  rw [root_ofForest]
  rfl

theorem get?_ofForest_succ (number : Nat) :
    (ofForest title pageCount forest).get? (number + 1) =
      (sectionsOf 0 0 1 forest)[number]? := by
  simp [get?, ofForest]

theorem size_ofForest : (ofForest title pageCount forest).size = forest.size + 1 := by
  simp [size, ofForest, length_sectionsOf]

/-- A forest is laid out in its table from section one on. -/
theorem lays_ofForest {sources : Nat → Option ν}
    (hsources : ∀ offset < forest.size, sources (offset + 1) = forest.nodes[offset]?) :
    (ofForest title pageCount forest).Lays sources 0 0 1 forest where
  section_eq offset _ := by rw [Nat.add_comm, get?_ofForest_succ]
  source_eq offset hoffset := by rw [Nat.add_comm, hsources offset hoffset]
  parent_lt := Nat.one_pos
  listed :=
    ⟨_, [], get?_ofForest_zero title pageCount forest, rfl, rfl,
      fun _ h => absurd h List.not_mem_nil⟩

/-- The sections of the table of a forest are made from the nodes of the forest. -/
theorem lays_ofForest_nodes :
    (ofForest title pageCount forest).Lays (fun number => forest.nodes[number - 1]?) 0 0 1 forest :=
  lays_ofForest title pageCount forest fun _ _ => rfl

theorem sections_ofForest :
    (ofForest title pageCount forest).sections.toList =
      rootSection title pageCount (forest.topNumbers 1) :: sectionsOf 0 0 1 forest :=
  rfl

end Contents

end Bookmarks
