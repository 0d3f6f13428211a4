/-
# One level in one pass

The pieces of one level are searched for from a section downwards, and the search goes no further
where it has come to the level. The same pieces can be read off the list of sections in one pass,
since what lies below a section is a block of that list and is deeper than the section: a section
of the level is taken as it is, a section above the level gives its lead if leads are asked for and
it has children, and every other section gives nothing (`readWithin_project`).
-/
import Bookmarks.Contents.Projection
import Bookmarks.Proofs.Contents.Numbering

namespace Bookmarks

variable {ν π : Type}

namespace Contents

variable (contents : Contents)

/-- What a section gives to a level by itself: itself if it is of the level, and, if leads are asked
for, a copy that ends where its first child begins and has no children if it is above the level. -/
def piece? (level : Int) (leads : Bool) (s : Section) : Option Excerpt :=
  if s.level = level then some (.whole s)
  else if leads && s.level < level then
    (s.children.head?.bind contents.get?).map fun child => .lead
      { parent := s.parent
        title := s.title
        level := s.level
        startPage := s.startPage
        endPage := child.startPage
        position := s.position
        children := [] }
  else none

/-- A section and the `count` sections that come after it. -/
def block (number count : Nat) : List Section :=
  (contents.sections.toList.drop number).take (count + 1)

variable {contents} {sources : Nat → Option ν} {parent start number : Nat} {level target : Int}
  {leads : Bool} {s : Section} {forest below : Forest ν}

/-! ## One pass -/

theorem piece?_eq_none (h : target < s.level) : contents.piece? target leads s = none := by
  rw [piece?, if_neg (by omega), if_neg]
  simp only [Bool.and_eq_true, decide_eq_true_eq, not_and]
  omega

/-- A section above a level gives its lead, if it has a child. -/
theorem piece?_of_lt (h : s.level < target) :
    contents.piece? target leads s =
      if leads then (contents.firstChild? s).map fun child => .lead (s.upTo child) else none := by
  rw [piece?, if_neg (by omega), decide_eq_true h, Bool.and_true]
  rfl

/-- Without leads, the same pieces are left that are no leads. -/
theorem filter_piece? (target : Int) (s : Section) :
    (contents.piece? target true s).filter (fun piece => !piece.isLead) =
      contents.piece? target false s := by
  unfold piece?
  split
  · rfl
  · cases s.children.head?.bind contents.get? <;> simp [Excerpt.isLead]

theorem le_level_of_mem (h : s ∈ sectionsOf parent level start forest) : level ≤ s.level := by
  induction forest generalizing parent level start with
  | nil => cases h
  | cons node heading below after ihBelow ihAfter =>
      rw [sectionsOf, List.mem_cons, List.mem_append] at h
      obtain rfl | hbelow | hafter := h
      · exact Int.le_refl _
      · have hdeeper := ihBelow hbelow
        omega
      · exact ihAfter hafter

/-- Entries below a level give nothing to it. -/
theorem filterMap_piece?_eq_nil (h : target < level) :
    (sectionsOf parent level start forest).filterMap (contents.piece? target leads) = [] := by
  rw [List.filterMap_eq_nil_iff]
  intro s hs
  have hlevel := le_level_of_mem hs
  exact piece?_eq_none (by omega)

/-! ## The search -/

/-- If the children of a section begin a forest, its first child is where the forest begins. -/
theorem firstChild?_eq (hchildren : s.children = below.topNumbers start) :
    contents.firstChild? s = (below.head?.map fun _ => start).bind contents.get? := by
  rw [firstChild?, hchildren, Forest.head?_topNumbers]

/-- The search from a section is one pass over it and what lies below it, if the searches from its
children are. -/
theorem projectFrom_eq {depth : Nat} (hchildren : s.children = below.topNumbers (number + 1))
    (h : contents.Lays sources number (s.level + 1) (number + 1) below)
    (hbelow : ((below.topNumbers (number + 1)).filterMap contents.get?).flatMap
        (contents.projectFrom target leads depth) =
      (sectionsOf number (s.level + 1) (number + 1) below).filterMap
        (contents.piece? target leads)) :
    contents.projectFrom target leads (depth + 1) s =
      (s :: sectionsOf number (s.level + 1) (number + 1) below).filterMap
        (contents.piece? target leads) := by
  rw [projectFrom]
  obtain habove | hat | hbeyond := Int.lt_trichotomy s.level target
  · rw [if_pos habove]
    cases below with
    | nil =>
        have hnone : contents.firstChild? s = none := firstChild?_eq hchildren
        simp [hnone, piece?_of_lt habove, sectionsOf]
    | cons node heading below after =>
        have hsome := h.get?_head
        have hfirst : contents.firstChild? s = contents.get? (number + 1) :=
          firstChild?_eq hchildren
        rw [hsome] at hfirst
        rw [hfirst, children, hchildren, hbelow]
        cases leads <;> simp [piece?_of_lt habove, hfirst]
  · have hwhole : contents.piece? target leads s = some (.whole s) := if_pos hat
    rw [if_neg (by omega), if_pos hat, List.filterMap_cons_some hwhole,
      filterMap_piece?_eq_nil (by omega)]
  · rw [if_neg (by omega), if_neg (by omega), List.filterMap_cons_none (piece?_eq_none hbeyond),
      filterMap_piece?_eq_nil (by omega)]

/-- Searching a forest, no less deep than it is large, is one pass over its sections. -/
theorem Lays.flatMap_projectFrom (h : contents.Lays sources parent level start forest)
    {depth : Nat} (hdepth : forest.size ≤ depth) :
    ((forest.topNumbers start).filterMap contents.get?).flatMap
        (contents.projectFrom target leads depth) =
      (sectionsOf parent level start forest).filterMap (contents.piece? target leads) := by
  induction forest generalizing parent level start depth with
  | nil => rfl
  | cons node heading below after ihBelow ihAfter =>
      rw [Forest.size] at hdepth
      obtain ⟨depth, rfl⟩ : ∃ smaller, depth = smaller + 1 := ⟨depth - 1, by omega⟩
      rw [Forest.topNumbers, List.filterMap_cons_some h.get?_head, List.flatMap_cons,
        projectFrom_eq rfl h.down (ihBelow h.down (by omega)), ihAfter h.along (by omega),
        ← List.filterMap_append, List.cons_append, sectionsOf]

/-- A section with a forest laid out below it begins a block. -/
theorem Lays.block_eq (h : contents.Lays sources number (s.level + 1) (number + 1) below)
    (hs : contents.get? number = some s) :
    contents.block number below.size =
      s :: sectionsOf number (s.level + 1) (number + 1) below := by
  apply List.ext_getElem?
  intro place
  have hlist : ∀ place, contents.sections.toList[place]? = contents.get? place := fun _ =>
    Array.getElem?_toList
  rw [block, List.getElem?_take, List.getElem?_drop, hlist]
  cases place with
  | zero => exact hs
  | succ offset =>
      rw [List.getElem?_cons_succ]
      by_cases hoffset : offset < below.size
      · rw [if_pos (by omega), ← h.section_eq offset hoffset, Nat.add_right_comm, Nat.add_assoc]
      · rw [if_neg (by omega), List.getElem?_eq_none]
        rw [length_sectionsOf]
        omega

/-- What a section contributes to a level is one pass over it and the forest laid out below it. -/
theorem Lays.project_eq (h : contents.Lays sources number (s.level + 1) (number + 1) below)
    (hs : contents.get? number = some s) (hchildren : s.children = below.topNumbers (number + 1))
    (target : Int) (leads : Bool) :
    contents.project s target leads =
      (s :: sectionsOf number (s.level + 1) (number + 1) below).filterMap
        (contents.piece? target leads) := by
  have hsize := h.add_size_lt (lt_size_of_get? hs)
  obtain ⟨depth, hdepth⟩ : ∃ depth, contents.size = depth + 1 := ⟨contents.size - 1, by omega⟩
  rw [project, hdepth]
  exact projectFrom_eq hchildren h (h.flatMap_projectFrom (by omega))

/-- In the table of a forest, what a section contributes to a level is one pass over its block. -/
theorem project_ofForest (title : String) (pageCount : Int) (forest : Forest ν)
    (hs : (ofForest title pageCount forest).get? number = some s) (target : Int) :
    ∃ count, number + count < (ofForest title pageCount forest).size ∧
      (∀ other, (ofForest title pageCount forest).LiesBelow number other ↔
        number < other ∧ other ≤ number + count) ∧
      ∀ leads, (ofForest title pageCount forest).project s target leads =
        ((ofForest title pageCount forest).block number count).filterMap
          ((ofForest title pageCount forest).piece? target leads) := by
  obtain ⟨_, below, hchildren, hlays⟩ := exists_below title pageCount forest hs
  refine ⟨below.size, hlays.add_size_lt (lt_size_of_get? hs),
    fun other => hlays.liesBelow_iff hs hchildren, fun leads => ?_⟩
  rw [hlays.block_eq hs]
  exact hlays.project_eq hs hchildren target leads

end Contents

/-! ## The table that is read from an outline -/

/-- The pieces of a level that a section of a table of contents contributes are those that one pass
over the section and what lies below it gives. Leads are the only pieces that come of asking for
leads. -/
theorem Outline.readWithin_project [DecidableEq ν] [BEq π] [Hashable π] {outline : Outline ν π}
    {settings : Settings} {fuel : Nat} {contents : Contents}
    (h : (outline.readWithin settings fuel).result = .ok contents) {number : Nat} {s : Section}
    (hs : contents.get? number = some s) (level : Int) :
    (∃ count, number + count < contents.size ∧
      (∀ other, contents.LiesBelow number other ↔ number < other ∧ other ≤ number + count) ∧
      ∀ leads, contents.project s level leads =
        (contents.block number count).filterMap (contents.piece? level leads)) ∧
    (contents.project s level true).filter (fun piece => !piece.isLead) =
      contents.project s level false := by
  obtain ⟨forest, -, rfl⟩ := readWithin_yields h
  obtain ⟨count, hsize, hbelow, hproject⟩ :=
    Contents.project_ofForest settings.rootTitle (signed32 outline.pageCount.toNat) forest hs level
  refine ⟨⟨count, hsize, hbelow, hproject⟩, ?_⟩
  have hlead := hproject true
  have hwhole := hproject false
  rw [contentsOf, hlead, hwhole, List.filter_filterMap]
  simp only [Contents.filter_piece?]

/-- The first chapter of the thicket gives its lead and its section to the level of sections, as
one pass over the two shows, and the section alone if leads are left out. The lead ends on the page
where the section begins, which is unknown. -/
theorem project_thicket :
    ∃ contents s count,
      (thicket.toOutline.readWithin { tolerance := .lenient, depthLimit := 2 } 3).result =
        .ok contents ∧
      contents.get? 1 = some s ∧
      contents.project s 1 true = (contents.block 1 count).filterMap (contents.piece? 1 true) ∧
      (contents.project s 1 true).head? =
        some (.lead
          { parent := some 0
            title := "Chapter 1"
            level := 0
            startPage := 1
            endPage := -1
            position := 700
            children := [] }) ∧
      (contents.project s 1 true).filter (fun piece => !piece.isLead) =
        [.whole
          { parent := some 1
            title := "Section 1"
            level := 1
            startPage := -1
            endPage := 1
            position := 0
            children := [] }] := by
  have hread := Outline.readWithin_eq_ok.2 ⟨_, forestWithin_thicket, rfl⟩
  obtain ⟨⟨count, -, -, hproject⟩, hleads⟩ :=
    Outline.readWithin_project hread (Eq.refl (Contents.get? _ 1)) 1
  exact ⟨_, _, count, hread, rfl, hproject true, by decide +kernel,
    hleads.trans (by decide +kernel)⟩

end Bookmarks
