/-
# Leads are closed by what follows

The lead of a section ends where the first child of the section begins. What comes next among the
pieces of a level is not looked up there: the search goes down, and the next piece is whatever it
finds first. It is the child itself or a lead of the child, unless the search comes upon a section
above the level that has no children and so gives nothing. Where there is no such section every
lead is closed by the piece that follows it, and the last piece is a section of the level
(`Outline.readWithin_leads`).
-/
import Bookmarks.Proofs.Contents.Projection

namespace Bookmarks

variable {ν π : Type}

namespace Contents

variable (contents : Contents)

/-- Each lead is followed by a piece one level down that begins on the page where the lead ends, and
the last piece is a section of the level. -/
structure Abuts (level : Int) (pieces : List Excerpt) : Prop where
  next : ∀ {place : Nat} {lead : Section}, pieces[place]? = some (.lead lead) →
    ∃ piece, pieces[place + 1]? = some piece ∧ piece.toSection.level = lead.level + 1 ∧
      piece.toSection.startPage = lead.endPage
  last : ∀ {piece : Excerpt}, pieces.getLast? = some piece →
    ∃ number s, contents.get? number = some s ∧ piece = .whole s ∧ s.level = level

variable {contents} {sources : Nat → Option ν} {parent start number : Nat} {level target : Int}
  {s child : Section} {node : ν} {heading : Heading} {forest below after : Forest ν}
  {pieces : List Excerpt}

namespace Abuts

theorem nil : contents.Abuts target [] where
  next h := by cases h
  last h := by cases h

theorem whole (hs : contents.get? number = some s) (hlevel : s.level = target) :
    contents.Abuts target [.whole s] where
  next {place lead} h := by
    cases place with
    | zero => cases h
    | succ place => cases h
  last h := by
    cases h
    exact ⟨number, s, hs, rfl, hlevel⟩

/-- A lead can be put in front of a piece that closes it. -/
theorem cons_lead (h : contents.Abuts target pieces) {lead : Section} {piece : Excerpt}
    (hpiece : pieces.head? = some piece) (hlevel : piece.toSection.level = lead.level + 1)
    (hpage : piece.toSection.startPage = lead.endPage) :
    contents.Abuts target (.lead lead :: pieces) where
  next {place other} hplace := by
    cases place with
    | zero =>
        cases hplace
        rw [List.head?_eq_getElem?] at hpiece
        exact ⟨piece, hpiece, hlevel, hpage⟩
    | succ place => exact h.next hplace
  last hlast := by
    cases pieces with
    | nil => cases hpiece
    | cons first rest => exact h.last hlast

theorem append {others : List Excerpt} (h : contents.Abuts target pieces)
    (hothers : contents.Abuts target others) : contents.Abuts target (pieces ++ others) where
  next {place lead} hplace := by
    obtain hlt | hle := Nat.lt_or_ge place pieces.length
    · rw [List.getElem?_append_left hlt] at hplace
      obtain ⟨piece, hpiece, hcloses⟩ := h.next hplace
      have hnext := (List.getElem?_eq_some_iff.1 hpiece).1
      exact ⟨piece, by rw [List.getElem?_append_left hnext, hpiece], hcloses⟩
    · rw [List.getElem?_append_right hle] at hplace
      obtain ⟨piece, hpiece, hcloses⟩ := hothers.next hplace
      refine ⟨piece, ?_, hcloses⟩
      rw [List.getElem?_append_right (by omega), ← hpiece]
      congr 1
      omega
  last hlast := by
    rw [List.getLast?_append, Option.or_eq_some_iff] at hlast
    obtain hlast | ⟨-, hlast⟩ := hlast
    · exact hothers.last hlast
    · exact h.last hlast

end Abuts

/-! ## Sections that reach down to a level -/

/-- No section without children lies above the level. -/
def Reach (target : Int) (sections : List Section) : Prop :=
  ∀ s ∈ sections, s.children = [] → target ≤ s.level

theorem piece?_lead (habove : s.level < target) (hchild : contents.firstChild? s = some child) :
    contents.piece? target true s = some (.lead (s.upTo child)) := by
  rw [piece?_of_lt habove, if_pos rfl, hchild]
  rfl

theorem piece?_whole {leads : Bool} (hlevel : s.level = target) :
    contents.piece? target leads s = some (.whole s) :=
  if_pos hlevel

/-- A section above the level has children, and its pieces begin with its lead. -/
theorem Lays.exists_firstChild
    (h : contents.Lays sources number (s.level + 1) (number + 1) below)
    (hchildren : s.children = below.topNumbers (number + 1))
    (hreach : s.children = [] → target ≤ s.level) (habove : s.level < target) :
    ∃ node heading rest after child, below = .cons node heading rest after ∧
      contents.firstChild? s = some child ∧ child.startPage = heading.startPage := by
  cases below with
  | nil => exact absurd (hreach hchildren) (by omega)
  | cons node heading rest after =>
      have hfirst : contents.firstChild? s = contents.get? (number + 1) :=
        firstChild?_eq hchildren
      exact ⟨node, heading, rest, after, _, rfl, hfirst.trans h.get?_head, rfl⟩

/-- The pieces of a forest begin at the level of the forest, on the page where the forest begins. -/
theorem Lays.head?_pieces
    (h : contents.Lays sources parent level start (.cons node heading below after))
    (hlevel : level ≤ target)
    (hreach : Reach target (sectionsOf parent level start (.cons node heading below after))) :
    ∃ piece, ((sectionsOf parent level start (.cons node heading below after)).filterMap
        (contents.piece? target true)).head? = some piece ∧
      piece.toSection.level = level ∧ piece.toSection.startPage = heading.startPage := by
  rw [sectionsOf]
  obtain habove | hat := Int.lt_or_eq_of_le hlevel
  · obtain ⟨_, _, _, _, child, -, hchild, -⟩ :=
      h.down.exists_firstChild rfl (hreach _ List.mem_cons_self) habove
    rw [List.filterMap_cons_some (piece?_lead habove hchild)]
    exact ⟨_, rfl, rfl, rfl⟩
  · rw [List.filterMap_cons_some (piece?_whole hat)]
    exact ⟨_, rfl, rfl, rfl⟩

/-- The pieces of a section abut if those of the forest below it do. -/
theorem Lays.abuts_section (h : contents.Lays sources number (s.level + 1) (number + 1) below)
    (hs : contents.get? number = some s) (hchildren : s.children = below.topNumbers (number + 1))
    (hreach : Reach target (s :: sectionsOf number (s.level + 1) (number + 1) below))
    (hbelow : contents.Abuts target
      ((sectionsOf number (s.level + 1) (number + 1) below).filterMap
        (contents.piece? target true))) :
    contents.Abuts target
      ((s :: sectionsOf number (s.level + 1) (number + 1) below).filterMap
        (contents.piece? target true)) := by
  obtain habove | hat | hbeyond := Int.lt_trichotomy s.level target
  · obtain ⟨node, heading, rest, after, child, rfl, hchild, hpage⟩ :=
      h.exists_firstChild hchildren (hreach s List.mem_cons_self) habove
    obtain ⟨piece, hpiece, hlevel, hstart⟩ :=
      h.head?_pieces (by omega) fun t ht => hreach t (List.mem_cons_of_mem s ht)
    rw [List.filterMap_cons_some (piece?_lead habove hchild)]
    exact hbelow.cons_lead hpiece hlevel (hstart.trans hpage.symm)
  · rw [List.filterMap_cons_some (piece?_whole hat), filterMap_piece?_eq_nil (by omega)]
    exact .whole hs hat
  · rw [List.filterMap_cons_none (piece?_eq_none hbeyond), filterMap_piece?_eq_nil (by omega)]
    exact .nil

/-- Only a section below the level has no pieces. -/
theorem Lays.pieces_eq_nil_iff (h : contents.Lays sources number (s.level + 1) (number + 1) below)
    (hchildren : s.children = below.topNumbers (number + 1))
    (hreach : s.children = [] → target ≤ s.level) :
    (s :: sectionsOf number (s.level + 1) (number + 1) below).filterMap
        (contents.piece? target true) = [] ↔ target < s.level := by
  obtain habove | hat | hbeyond := Int.lt_trichotomy s.level target
  · obtain ⟨_, _, _, _, child, -, hchild, -⟩ := h.exists_firstChild hchildren hreach habove
    rw [List.filterMap_cons_some (piece?_lead habove hchild)]
    exact iff_of_false (List.cons_ne_nil _ _) (by omega)
  · rw [List.filterMap_cons_some (piece?_whole hat)]
    exact iff_of_false (List.cons_ne_nil _ _) (by omega)
  · rw [List.filterMap_cons_none (piece?_eq_none hbeyond), filterMap_piece?_eq_nil (by omega)]
    exact iff_of_true rfl hbeyond

/-- The pieces of a forest abut, those of each of its entries before those of the entries after. -/
theorem Lays.abuts (h : contents.Lays sources parent level start forest)
    (hreach : Reach target (sectionsOf parent level start forest)) :
    contents.Abuts target
      ((sectionsOf parent level start forest).filterMap (contents.piece? target true)) := by
  induction forest generalizing parent level start with
  | nil => exact .nil
  | cons node heading below after ihBelow ihAfter =>
      -- The block of the first entry is taken together, apart from the entries after it.
      rw [sectionsOf, ← List.cons_append] at hreach ⊢
      obtain ⟨hhere, hafter⟩ := List.forall_mem_append.1 hreach
      have hdown := fun t ht => hhere t (List.mem_cons_of_mem _ ht)
      rw [List.filterMap_append]
      exact (h.down.abuts_section h.get?_head rfl hhere (ihBelow h.down hdown)).append
        (ihAfter h.along hafter)

/-- Whether a section and the forest laid out below it reach down to a level is seen at the section
and at what lies below it. -/
theorem Lays.reach (h : contents.Lays sources number (s.level + 1) (number + 1) below)
    (hs : contents.get? number = some s) (hchildren : s.children = below.topNumbers (number + 1))
    (hreach : ∀ other t, other = number ∨ contents.LiesBelow number other →
      contents.get? other = some t → t.children = [] → target ≤ t.level) :
    Reach target (s :: sectionsOf number (s.level + 1) (number + 1) below) := by
  refine List.forall_mem_cons.2 ⟨hreach number s (Or.inl rfl) hs, fun t ht => ?_⟩
  obtain ⟨offset, hoffset, ht⟩ := List.getElem_of_mem ht
  rw [length_sectionsOf] at hoffset
  refine hreach (number + 1 + offset) t (Or.inr ?_) ?_
  · rw [h.liesBelow_iff hs hchildren]
    omega
  · rw [h.section_eq offset hoffset, ← ht, List.getElem?_eq_getElem]

end Contents

/-! ## The table that is read from an outline -/

/-- If no section without children, among a section of the table that is read from an outline and
what lies below it, lies above a level, then every lead among the pieces that the section gives to
the level is closed by the piece after it, and the last piece is a section of the level. There are
pieces unless the section itself lies below the level. -/
theorem Outline.readWithin_leads [DecidableEq ν] [BEq π] [Hashable π] {outline : Outline ν π}
    {settings : Settings} {fuel : Nat} {contents : Contents}
    (h : (outline.readWithin settings fuel).result = .ok contents) {number : Nat} {s : Section}
    (hs : contents.get? number = some s) {level : Int}
    (hreach : ∀ other t, other = number ∨ contents.LiesBelow number other →
      contents.get? other = some t → t.children = [] → level ≤ t.level) :
    contents.Abuts level (contents.project s level true) ∧
      (contents.project s level true = [] ↔ level < s.level) := by
  obtain ⟨forest, -, rfl⟩ := readWithin_yields h
  obtain ⟨_, below, hchildren, hlays⟩ := Contents.exists_below _ _ forest hs
  have hdown := hlays.reach hs hchildren hreach
  have habuts := hlays.abuts fun t ht => hdown t (List.mem_cons_of_mem s ht)
  rw [contentsOf, hlays.project_eq hs hchildren]
  exact ⟨hlays.abuts_section hs hchildren hdown habuts,
    hlays.pieces_eq_nil_iff hchildren (hdown s List.mem_cons_self)⟩

/-- Two parts with a chapter each. The first chapter has a section, and the second begins on an
unknown page. -/
def manual : OutlineTable where
  pageCount := 9
  root := .ok (some 0)
  pages := .ok ["p1", "p2", "p3"]
  rows := [
    (0, { first := .ok (some 1) }),
    (1, { first := .ok (some 2), next := .ok (some 4), title := .ok "Part 1",
          page := .ok (some "p1") }),
    (2, { first := .ok (some 3), title := .ok "Chapter 1", page := .ok (some "p2") }),
    (3, { title := .ok "Section 1", page := .ok (some "p2") }),
    (4, { first := .ok (some 5), title := .ok "Part 2", page := .ok (some "p3") }),
    (5, { title := .ok "Chapter 2" })]

/-- The entries of the manual. -/
def manualForest : Forest Int :=
  .cons 1 ⟨"Part 1", 1, 3, 0⟩
    (.cons 2 ⟨"Chapter 1", 2, 2, 0⟩ (.cons 3 ⟨"Section 1", 2, 9, 0⟩ .nil .nil) .nil)
    (.cons 4 ⟨"Part 2", 3, -1, 0⟩ (.cons 5 ⟨"Chapter 2", -1, 9, 0⟩ .nil .nil) .nil)

theorem forestWithin_manual :
    (manual.toOutline.forestWithin {} 5).result = .ok manualForest := by
  simp only [Outline.forestWithin, PageIndex.number?_ofList]
  decide +kernel

/-- The table of contents of the manual. -/
def manualContents : Contents :=
  manual.toOutline.contentsOf {} manualForest

/-- The manual is split into its chapters, with one lead for the whole and one for each part. -/
theorem leads_manual :
    (manual.toOutline.readWithin {} 5).result = .ok manualContents ∧
      manualContents.get? 0 = some manualContents.root ∧
      (∀ other t, other = 0 ∨ manualContents.LiesBelow 0 other →
        manualContents.get? other = some t → t.children = [] → 1 ≤ t.level) ∧
      manualContents.Abuts 1 (manualContents.project manualContents.root 1 true) ∧
      manualContents.project manualContents.root 1 true =
        [.lead ⟨none, "root", -1, 1, 1, 0, []⟩, .lead ⟨some 0, "Part 1", 0, 1, 2, 0, []⟩,
          .whole ⟨some 1, "Chapter 1", 1, 2, 2, 0, [3]⟩,
          .lead ⟨some 0, "Part 2", 0, 3, -1, 0, []⟩,
          .whole ⟨some 4, "Chapter 2", 1, -1, 9, 0, []⟩] := by
  have hread : (manual.toOutline.readWithin {} 5).result = .ok manualContents :=
    Outline.readWithin_eq_ok.2 ⟨_, forestWithin_manual, rfl⟩
  have hdeep : ∀ t ∈ manualContents.sections, t.children = [] → 1 ≤ t.level := by
    decide +kernel
  have hreach : ∀ other t, other = 0 ∨ manualContents.LiesBelow 0 other →
      manualContents.get? other = some t → t.children = [] → 1 ≤ t.level :=
    fun other t _ ht => hdeep t (Array.mem_of_getElem? ht)
  exact ⟨hread, rfl, hreach, (Outline.readWithin_leads hread rfl hreach).1, by decide +kernel⟩

end Bookmarks
