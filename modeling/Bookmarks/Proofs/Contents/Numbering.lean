/-
# Numbered like a tree

The sections of a table of contents that was read from an outline are numbered in the order of the
outline. Every section but the first has a parent of a smaller number that lists it once, and no
other section lists it; what lies below a section are the sections of a block that comes right after
it. So going down from the root passes the sections in the order of their numbers
(`readWithin_wellNumbered`).
-/
import Bookmarks.Outline.Table
import Bookmarks.Proofs.Page.Index
import Bookmarks.Proofs.Walk.Reading

namespace Bookmarks

variable {ν : Type}

/-! ## The numbers of a forest -/

namespace Forest

variable (forest : Forest ν)

theorem topNumbers_bounds {start number : Nat} (h : number ∈ forest.topNumbers start) :
    start ≤ number ∧ number < start + forest.size := by
  induction forest generalizing start with
  | nil => simp [topNumbers] at h
  | cons node heading below after _ ihAfter =>
      simp only [topNumbers, List.mem_cons] at h
      simp only [size]
      obtain rfl | hafter := h
      · omega
      · have hbounds := ihAfter hafter
        omega

theorem pairwise_topNumbers (start : Nat) : (forest.topNumbers start).Pairwise (· < ·) := by
  induction forest generalizing start with
  | nil => exact List.Pairwise.nil
  | cons node heading below after _ ihAfter =>
      apply List.Pairwise.cons
      · intro number hnumber
        have hbounds := after.topNumbers_bounds hnumber
        omega
      · exact ihAfter _

theorem count_topNumbers {start : Nat} (h : forest.head?.isSome) :
    (forest.topNumbers start).count start = 1 := by
  have hnodup : (forest.topNumbers start).Nodup :=
    (forest.pairwise_topNumbers start).imp fun hlt => Nat.ne_of_lt hlt
  apply List.count_eq_one_of_mem hnodup
  cases forest with
  | nil => cases h
  | cons node heading below after => exact List.mem_cons_self

end Forest

namespace Contents

/-! ## What lies below a section -/

section Below

variable (contents : Contents)

/-- A section has another one among its children. -/
def Lists (above number : Nat) : Prop :=
  ∃ s, contents.get? above = some s ∧ number ∈ s.children

/-- A section lies somewhere below another one. -/
def LiesBelow (above number : Nat) : Prop :=
  Relation.TransGen contents.Lists above number

/-- The sections of a table are numbered in the order of the tree that they make. -/
structure WellNumbered (pageCount : Int) : Prop where
  /-- The document as a whole comes first. -/
  root_eq : ∃ s, contents.get? 0 = some s ∧ s.parent = none ∧ s.level = -1 ∧ s.startPage = 1 ∧
    s.endPage = pageCount
  /-- Every other section belongs to a single section, which comes before it and is one level up. -/
  parent_eq : ∀ {number s}, 0 < number → contents.get? number = some s →
    ∃ parent above, s.parent = some parent ∧ parent < number ∧ contents.get? parent = some above ∧
      s.level = above.level + 1 ∧ above.children.count number = 1 ∧
      ∀ other, contents.Lists other number → other = parent
  /-- Children are sections of the table, listed in increasing order. -/
  children_lt : ∀ {number s}, contents.get? number = some s →
    s.children.Pairwise (· < ·) ∧ ∀ child ∈ s.children, child < contents.size
  /-- What lies below a section are the sections of a block right after it. -/
  block : ∀ {number}, number < contents.size →
    ∃ count, number + count < contents.size ∧
      ∀ other, contents.LiesBelow number other ↔ number < other ∧ other ≤ number + count
  /-- Going down from the root passes all other sections in the order of their numbers. -/
  preorder_eq : contents.preorder = contents.sections.toList.tail

end Below

variable {contents : Contents}

theorem lt_size_of_get? {number : Nat} {s : Section} (h : contents.get? number = some s) :
    number < contents.size :=
  (Array.getElem?_eq_some_iff.1 h).1

theorem lists_iff {above number : Nat} {s : Section} (h : contents.get? above = some s) :
    contents.Lists above number ↔ number ∈ s.children := by
  simp [Lists, h]

namespace WellNumbered

variable {pageCount : Int}

theorem length_preorder (h : contents.WellNumbered pageCount) :
    contents.preorder.length = contents.size - 1 := by
  simp [h.preorder_eq, size]

/-- What lies below a section is a section of the table, and comes after it. -/
theorem bounds_of_liesBelow (h : contents.WellNumbered pageCount) {above number : Nat}
    (habove : above < contents.size) (hbelow : contents.LiesBelow above number) :
    above < number ∧ number < contents.size := by
  obtain ⟨count, hcount, hblock⟩ := h.block habove
  obtain ⟨hlt, hle⟩ := (hblock number).1 hbelow
  exact ⟨hlt, by omega⟩

end WellNumbered

namespace Lays

variable {sources : Nat → Option ν} {parent start : Nat} {level : Int} {forest : Forest ν}

theorem lt_size (h : contents.Lays sources parent level start forest) {offset : Nat}
    (hoffset : offset < forest.size) : start + offset < contents.size := by
  have hsection := h.section_eq offset hoffset
  rw [List.getElem?_eq_getElem (by rw [length_sectionsOf]; exact hoffset)] at hsection
  exact lt_size_of_get? hsection

/-- The block of what is laid out below a section lies within the table. -/
theorem add_size_lt {number : Nat} (h : contents.Lays sources parent level (number + 1) forest)
    (hnumber : number < contents.size) : number + forest.size < contents.size := by
  by_cases hempty : forest.size = 0
  · rw [hempty]
    exact hnumber
  · have hlast : number + 1 + (forest.size - 1) < contents.size := h.lt_size (by omega)
    omega

/-- The top entries of a forest belong to the section that it is laid out under. -/
theorem parent_of_mem_topNumbers (h : contents.Lays sources parent level start forest)
    {number : Nat} (hnumber : number ∈ forest.topNumbers start) :
    ∃ s, contents.get? number = some s ∧ s.parent = some parent := by
  induction forest generalizing start with
  | nil => simp [Forest.topNumbers] at hnumber
  | cons node heading below after _ ihAfter =>
      obtain rfl | hafter := List.mem_cons.1 hnumber
      · exact ⟨_, h.get?_head, rfl⟩
      · exact ihAfter h.along hafter

/-- The block of a forest holds its top entries and what lies below them. -/
theorem reflTransGen_iff (h : contents.Lays sources parent level start forest) {other : Nat} :
    (∃ top ∈ forest.topNumbers start, Relation.ReflTransGen contents.Lists top other) ↔
      start ≤ other ∧ other < start + forest.size := by
  induction forest generalizing parent level start with
  | nil => simp [Forest.topNumbers, Forest.size]
  | cons node heading below after ihBelow ihAfter =>
      have hhead : Relation.ReflTransGen contents.Lists start other ↔
          other = start ∨ start + 1 ≤ other ∧ other < start + 1 + below.size := by
        rw [Relation.ReflTransGen.cases_head_iff, ← ihBelow h.down]
        simp only [lists_iff h.get?_head, eq_comm]
      simp only [Forest.topNumbers, List.mem_cons, exists_eq_or_imp, hhead, ihAfter h.along,
        Forest.size]
      omega

/-- What lies below a section is the block of the forest that is laid out under it. -/
theorem liesBelow_iff {number : Nat} {s : Section} (hs : contents.get? number = some s)
    (hchildren : s.children = forest.topNumbers (number + 1))
    (h : contents.Lays sources number level (number + 1) forest) {other : Nat} :
    contents.LiesBelow number other ↔ number < other ∧ other ≤ number + forest.size := by
  rw [LiesBelow, Relation.TransGen.head'_iff]
  simp only [lists_iff hs, hchildren, h.reflTransGen_iff]
  omega

/-- Going down through a forest, no less deep than it is large, passes its sections in order. -/
theorem flatMap_descend (h : contents.Lays sources parent level start forest) {depth : Nat}
    (hdepth : forest.size ≤ depth) :
    ((forest.topNumbers start).filterMap contents.get?).flatMap (contents.descend depth) =
      sectionsOf parent level start forest := by
  induction forest generalizing parent level start depth with
  | nil => rfl
  | cons node heading below after ihBelow ihAfter =>
      simp only [Forest.size] at hdepth
      obtain ⟨depth, rfl⟩ : ∃ smaller, depth = smaller + 1 := ⟨depth - 1, by omega⟩
      have hbelow : ((below.topNumbers (start + 1)).filterMap contents.get?).flatMap
          (contents.descend depth) = _ := ihBelow h.down (by omega)
      have hafter : ((after.topNumbers (start + below.size + 1)).filterMap contents.get?).flatMap
          (contents.descend (depth + 1)) = _ := ihAfter h.along (by omega)
      rw [Forest.topNumbers, List.filterMap_cons_some h.get?_head, List.flatMap_cons, hafter,
        descend, children, hbelow, sectionsOf, List.cons_append]

end Lays

/-! ## The table of a forest -/

section Parts

variable (title : String) (pageCount : Int) {forest : Forest ν} {sources : Nat → Option ν}
  (hsources : ∀ offset < forest.size, sources (offset + 1) = forest.nodes[offset]?)
include hsources

/-- Every section but the first begins a part of the forest that is laid out there. -/
theorem exists_lays_at {number : Nat} (hnumber : 0 < number)
    (hsize : number < (ofForest title pageCount forest).size) :
    ∃ parent level node heading, ∃ below after : Forest ν,
      (ofForest title pageCount forest).Lays sources parent level number
        (.cons node heading below after) := by
  rw [size_ofForest] at hsize
  obtain ⟨parent, level, node, heading, below, after, -, hlays⟩ :=
    Lays.locate (P := fun _ _ => True) (fun _ => trivial) (fun _ => trivial)
      (lays_ofForest title pageCount forest hsources) trivial hnumber (by omega)
  exact ⟨parent, level, node, heading, below, after, hlays⟩

/-- The children of a section are the top entries of a forest that is laid out right after it. -/
theorem exists_lays_below {number : Nat} {s : Section}
    (hs : (ofForest title pageCount forest).get? number = some s) :
    ∃ below : Forest ν, s.children = below.topNumbers (number + 1) ∧
      (ofForest title pageCount forest).Lays sources number (s.level + 1) (number + 1) below := by
  cases number with
  | zero =>
      rw [get?_ofForest_zero, Option.some.injEq] at hs
      subst hs
      exact ⟨forest, rfl, lays_ofForest title pageCount forest hsources⟩
  | succ number =>
      obtain ⟨parent, level, node, heading, below, after, hlays⟩ :=
        exists_lays_at title pageCount hsources (Nat.succ_pos number) (lt_size_of_get? hs)
      rw [hlays.get?_head, Option.some.injEq] at hs
      subst hs
      exact ⟨below, rfl, hlays.down⟩

/-- A section that lists another one is its parent. -/
theorem parent_of_lists {above number : Nat} {s : Section}
    (hs : (ofForest title pageCount forest).get? number = some s)
    (h : (ofForest title pageCount forest).Lists above number) : s.parent = some above := by
  obtain ⟨t, ht, hmem⟩ := h
  obtain ⟨below, hchildren, hlays⟩ := exists_lays_below title pageCount hsources ht
  rw [hchildren] at hmem
  obtain ⟨s', hs', hparent⟩ := hlays.parent_of_mem_topNumbers hmem
  rw [hs, Option.some.injEq] at hs'
  rw [hs', hparent]

end Parts

section OfForest

variable (title : String) (pageCount : Int) (forest : Forest ν)

/-- In the table of a forest, a forest is laid out below every section. -/
theorem exists_below {number : Nat} {s : Section}
    (hs : (ofForest title pageCount forest).get? number = some s) :
    ∃ (sources : Nat → Option ν) (below : Forest ν), s.children = below.topNumbers (number + 1) ∧
      (ofForest title pageCount forest).Lays sources number (s.level + 1) (number + 1) below :=
  ⟨fun number => forest.nodes[number - 1]?,
    exists_lays_below title pageCount (fun _ _ => rfl) hs⟩

theorem preorder_ofForest :
    (ofForest title pageCount forest).preorder = sectionsOf 0 0 1 forest := by
  have hlays := lays_ofForest_nodes title pageCount forest
  rw [preorder, children, root_ofForest]
  exact hlays.flatMap_descend (by rw [size_ofForest]; omega)

/-- The table of a forest is numbered in its order. -/
theorem wellNumbered_ofForest : (ofForest title pageCount forest).WellNumbered pageCount := by
  let sources : Nat → Option ν := fun number => forest.nodes[number - 1]?
  have hsources : ∀ offset < forest.size, sources (offset + 1) = forest.nodes[offset]? :=
    fun _ _ => rfl
  refine ⟨?root, ?parent, ?children, ?block, ?preorder⟩
  case root =>
    exact ⟨_, get?_ofForest_zero title pageCount forest, rfl, rfl, rfl, rfl⟩
  case parent =>
    intro number s hnumber hs
    obtain ⟨parent, level, node, heading, below, after, hlays⟩ :=
      exists_lays_at title pageCount hsources hnumber (lt_size_of_get? hs)
    obtain ⟨above, earlier, habove, hlevel, hchildren, hearlier⟩ := hlays.listed
    have hhead := hs
    rw [hlays.get?_head, Option.some.injEq] at hhead
    subst hhead
    refine ⟨parent, above, rfl, hlays.parent_lt, habove, hlevel.symm, ?_, ?_⟩
    · have hnew : number ∉ earlier := fun hmem => Nat.lt_irrefl _ (hearlier number hmem)
      rw [hchildren, List.count_append, List.count_eq_zero_of_not_mem hnew,
        Forest.count_topNumbers _ rfl]
    · intro other hother
      exact (Option.some.inj (parent_of_lists title pageCount hsources hs hother)).symm
  case children =>
    intro number s hs
    obtain ⟨_, below, hchildren, hlays⟩ := exists_below title pageCount forest hs
    rw [hchildren]
    refine ⟨below.pairwise_topNumbers _, ?_⟩
    intro child hchild
    obtain ⟨t, ht, -⟩ := hlays.parent_of_mem_topNumbers hchild
    exact lt_size_of_get? ht
  case block =>
    intro number hnumber
    have hs := Array.getElem?_eq_getElem hnumber
    obtain ⟨_, below, hchildren, hlays⟩ := exists_below title pageCount forest hs
    exact ⟨below.size, hlays.add_size_lt hnumber, fun other => hlays.liesBelow_iff hs hchildren⟩
  case preorder =>
    rw [preorder_ofForest]
    simp [ofForest]

end OfForest

end Contents

/-! ## The table that is read from an outline -/

theorem Outline.wellNumbered_of_readWithin {π : Type} [DecidableEq ν] [BEq π] [Hashable π]
    {outline : Outline ν π} {settings : Settings} {fuel : Nat} {contents : Contents}
    (h : (outline.readWithin settings fuel).result = .ok contents) :
    contents.WellNumbered (signed32 outline.pageCount.toNat) := by
  obtain ⟨forest, -, rfl⟩ := readWithin_yields h
  exact Contents.wellNumbered_ofForest settings.rootTitle _ forest

/-- Whatever outline a table of contents is read from, and whatever the reader puts up with, its
sections are numbered in the order of the tree that they make. -/
theorem Outline.readWithin_wellNumbered {π : Type} [DecidableEq ν] [BEq π] [Hashable π]
    {outline : Outline ν π} {settings : Settings} {fuel : Nat} {contents : Contents}
    (h : (outline.readWithin settings fuel).result = .ok contents) :
    contents.WellNumbered (signed32 outline.pageCount.toNat) ∧
      contents.preorder.length = contents.size - 1 := by
  have hnumbered := wellNumbered_of_readWithin h
  exact ⟨hnumbered, hnumbered.length_preorder⟩

/-- Two chapters. The first has a section, which leads back to it and on to an entry too deep to be
read; the second has a broken link, and comes after itself. -/
def thicket : OutlineTable where
  pageCount := 9
  root := .ok (some 0)
  pages := .ok ["p1", "p2", "p3"]
  rows := [
    (0, { first := .ok (some 1) }),
    (1, { first := .ok (some 2), next := .ok (some 4), title := .ok "Chapter 1",
          page := .ok (some "p1"),
          destination := .ok (some (.xyz none (some ⟨0x442f2000⟩) none)) }),
    (2, { first := .ok (some 3), next := .ok (some 1), title := .ok "Section 1" }),
    (3, { title := .ok "Remark" }),
    (4, { first := .error (.corrupted (.reported "no such entry")), next := .ok (some 4),
          title := .ok "Chapter 2", page := .ok (some "p3"),
          destination := .ok (some (.fitH (some ⟨0x442f2000⟩))) })]

/-- What a lenient reader makes of the thicket. -/
theorem forestWithin_thicket :
    (thicket.toOutline.forestWithin { tolerance := .lenient, depthLimit := 2 } 3).result =
      .ok (.cons 1 ⟨"Chapter 1", 1, 3, 700⟩ (.cons 2 ⟨"Section 1", -1, 1, 0⟩ .nil .nil)
        (.cons 4 ⟨"Chapter 2", 3, 3, 0⟩ .nil .nil)) := by
  simp only [Outline.forestWithin, PageIndex.number?_ofList]
  decide +kernel

/-- The lenient reading of the thicket is numbered like a tree of three sections. -/
theorem wellNumbered_thicket :
    ∃ contents,
      (thicket.toOutline.readWithin { tolerance := .lenient, depthLimit := 2 } 3).result =
        .ok contents ∧
      contents.WellNumbered 9 ∧ contents.preorder.length = 3 := by
  have hread := Outline.readWithin_eq_ok.2 ⟨_, forestWithin_thicket, rfl⟩
  obtain ⟨hnumbered, hlength⟩ := Outline.readWithin_wellNumbered hread
  have hcount : signed32 thicket.toOutline.pageCount.toNat = 9 := by decide
  exact ⟨_, hread, hcount ▸ hnumbered, hlength⟩

end Bookmarks
