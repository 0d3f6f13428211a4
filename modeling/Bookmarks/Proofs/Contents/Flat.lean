/-
# The flat form of a table of contents

The flat form leaves out which section belongs to which, and loses nothing: the parent of a section
is the last one before it that stands one level higher, so the levels, in the order of the outline,
determine the tree (`WellNumbered.parent_eq_lastAbove`, `WellNumbered.children_eq_placesBelow`). The
objects of the nested form are those of the flat one, in the same order, with the children of each
taken out.
-/
import Bookmarks.Proofs.Contents.Nested
import Mathlib.Data.List.Sort

namespace Bookmarks

variable {ν : Type}

/-! ## Sections by themselves -/

namespace Section

theorem proper_record (s : Section) : s.record.Proper :=
  Json.proper_object.2 s.proper_members

/-- A section by itself says everything but which sections it belongs with. -/
theorem record_inj {s t : Section} (h : s.record = t.record) :
    s.title = t.title ∧ s.level = t.level ∧ s.startPage = t.startPage ∧ s.endPage = t.endPage ∧
      s.position = t.position := by
  simpa [record, members, Json.ofInt, Numeral.ofInt_inj] using h

theorem eq_of_record_eq {s t : Section} (hrecord : s.record = t.record)
    (hparent : s.parent = t.parent) (hchildren : s.children = t.children) : s = t := by
  obtain ⟨htitle, hlevel, hstart, hend, hposition⟩ := record_inj hrecord
  cases s
  cases t
  simp_all

end Section

theorem proper_flatRecord (sections : List Section) : (flatRecord sections).Proper := by
  rw [flatRecord, Json.proper_array]
  intro item hitem
  obtain ⟨s, -, rfl⟩ := List.mem_map.1 hitem
  exact s.proper_record

/-! ## Links from levels -/

/-- The last number below a bound that passes a test. -/
def lastPassing (test : Nat → Bool) : Nat → Option Nat
  | 0 => none
  | bound + 1 => if test bound then some bound else lastPassing test bound

theorem lastPassing_eq_some {test : Nat → Bool} {bound found : Nat} (hlt : found < bound)
    (hfound : test found) (hlater : ∀ number, found < number → number < bound → ¬test number) :
    lastPassing test bound = some found := by
  induction bound with
  | zero => omega
  | succ bound ih =>
      rw [lastPassing]
      by_cases hlast : found = bound
      · subst hlast
        exact if_pos hfound
      · have hbound := hlater bound (by omega) (Nat.lt_succ_self bound)
        rw [if_neg hbound]
        exact ih (by omega) fun number hnumber hless => hlater number hnumber (by omega)

/-- The place of the last level before a place that stands one step above it. -/
def lastAbove (levels : List Int) (number : Nat) : Option Nat :=
  lastPassing (fun earlier => levels[earlier]?.map (· + 1) = levels[number]?) number

/-- The places of the levels that have a place as the last one above them. -/
def placesBelow (levels : List Int) (number : Nat) : List Nat :=
  (List.range levels.length).filter fun later => lastAbove levels later = some number

namespace Contents

variable {contents : Contents}

/-- The levels of the sections in the order of the outline, the document as a whole first. -/
def levels (contents : Contents) : List Int :=
  contents.root.level :: contents.preorder.map Section.level

namespace WellNumbered

variable {pageCount : Int}

/-- The document as a whole and everything below it are the sections of the table. -/
theorem root_cons_preorder (h : contents.WellNumbered pageCount) :
    contents.root :: contents.preorder = contents.sections.toList := by
  have hne : contents.sections.toList ≠ [] := by
    intro hnil
    have hpos := contents.size_pos
    rw [← Array.length_toList, hnil] at hpos
    exact absurd hpos (Nat.lt_irrefl 0)
  rw [h.preorder_eq, ← List.cons_head_tail hne]
  simp [root, List.head_eq_getElem]

theorem level_root (h : contents.WellNumbered pageCount) : contents.root.level = -1 := by
  obtain ⟨root, hroot, -, hlevel, -⟩ := h.root_eq
  have hget : contents.get? 0 = some contents.root := Array.getElem?_eq_getElem contents.size_pos
  rw [hget, Option.some.injEq] at hroot
  rw [hroot, hlevel]

theorem levels_eq (h : contents.WellNumbered pageCount) :
    contents.levels = contents.sections.toList.map Section.level := by
  rw [← h.root_cons_preorder]
  rfl

theorem getElem?_levels (h : contents.WellNumbered pageCount) (number : Nat) :
    contents.levels[number]? = (contents.get? number).map Section.level := by
  rw [h.levels_eq, List.getElem?_map, get?, Array.getElem?_toList]

theorem length_levels (h : contents.WellNumbered pageCount) :
    contents.levels.length = contents.size := by
  rw [h.levels_eq, List.length_map]
  rfl

/-- A child stands one level below the section that lists it. -/
theorem level_of_lists (h : contents.WellNumbered pageCount) {above number : Nat} {s t : Section}
    (ht : contents.get? above = some t) (hs : contents.get? number = some s)
    (hlists : contents.Lists above number) : s.level = t.level + 1 := by
  obtain ⟨hlt, -⟩ := h.bounds_of_liesBelow (lt_size_of_get? ht) (.single hlists)
  obtain ⟨parent, t', -, -, ht', hlevel, -, hparent⟩ := h.parent_eq (by omega) hs
  obtain rfl := hparent above hlists
  rw [ht, Option.some.injEq] at ht'
  rw [hlevel, ht']

/-- What lies below a section stands at deeper levels. -/
theorem level_lt_of_liesBelow (h : contents.WellNumbered pageCount) {above number : Nat}
    {s t : Section} (ht : contents.get? above = some t) (hs : contents.get? number = some s)
    (hbelow : contents.LiesBelow above number) : t.level < s.level := by
  induction hbelow generalizing s with
  | single hlists =>
      have hlevel := h.level_of_lists ht hs hlists
      omega
  | tail hbelow hlists ih =>
      obtain ⟨between, hbetween, hmem⟩ := hlists
      have hlevel := h.level_of_lists hbetween hs ⟨between, hbetween, hmem⟩
      have hless := ih hbetween
      omega

/-- The parent of a section is the last one before it that stands one level higher. -/
theorem parent_eq_lastAbove (h : contents.WellNumbered pageCount) {number : Nat} {s : Section}
    (hs : contents.get? number = some s) : s.parent = lastAbove contents.levels number := by
  rcases Nat.eq_zero_or_pos number with rfl | hpos
  · obtain ⟨root, hroot, hparent, -⟩ := h.root_eq
    rw [hs, Option.some.injEq] at hroot
    rw [hroot, hparent]
    rfl
  obtain ⟨parent, above, hparent, hlt, habove, hlevel, hcount, -⟩ := h.parent_eq hpos hs
  have hlists : contents.Lists parent number :=
    ⟨above, habove, List.count_pos_iff.1 (by omega)⟩
  obtain ⟨count, -, hblock⟩ := h.block (lt_size_of_get? habove)
  rw [hparent]
  refine (lastPassing_eq_some hlt ?_ ?_).symm
  · simp [h.getElem?_levels, habove, hs, hlevel]
  · -- All that comes between them is below the parent, so it stands no higher than the section.
    intro between hafter hbefore
    have hend := ((hblock number).1 (.single hlists)).2
    have hbetween := Array.getElem?_eq_getElem (Nat.lt_trans hbefore (lt_size_of_get? hs))
    have hdeeper := h.level_lt_of_liesBelow habove hbetween
      ((hblock between).2 ⟨hafter, by omega⟩)
    have hget : contents.get? between = some _ := hbetween
    simp only [h.getElem?_levels, hget, hs, Option.map_some, Option.some.injEq, decide_eq_true_eq]
    omega

/-- The children of a section are the later ones that have it as the last one above them. -/
theorem children_eq_placesBelow (h : contents.WellNumbered pageCount) {number : Nat} {s : Section}
    (hs : contents.get? number = some s) : s.children = placesBelow contents.levels number := by
  obtain ⟨hsorted, -⟩ := h.children_lt hs
  refine hsorted.eq_of_mem_iff (List.pairwise_lt_range.filter _) fun child => ?_
  rw [placesBelow, List.mem_filter, List.mem_range, h.length_levels, decide_eq_true_eq]
  constructor
  · intro hmem
    have hlists : contents.Lists number child := ⟨s, hs, hmem⟩
    obtain ⟨hlt, hchild⟩ := h.bounds_of_liesBelow (lt_size_of_get? hs) (.single hlists)
    have ht := Array.getElem?_eq_getElem hchild
    obtain ⟨parent, -, hparent, -, -, -, -, hother⟩ := h.parent_eq (by omega) ht
    refine ⟨hchild, ?_⟩
    rw [← h.parent_eq_lastAbove ht, hparent, hother number hlists]
  · rintro ⟨hchild, hlast⟩
    have ht := Array.getElem?_eq_getElem hchild
    have hpos : 0 < child := by
      rcases Nat.eq_zero_or_pos child with rfl | hpos
      · cases hlast
      · exact hpos
    obtain ⟨parent, above, hparent, -, habove, -, hcount, -⟩ := h.parent_eq hpos ht
    rw [← h.parent_eq_lastAbove ht, hparent, Option.some.injEq] at hlast
    rw [hlast, hs, Option.some.injEq] at habove
    rw [habove]
    exact List.count_pos_iff.1 (by omega)

/-- Two chapters, the first with a section. -/
example : placesBelow [-1, 0, 1, 0] 0 = [1, 3] ∧ placesBelow [-1, 0, 1, 0] 1 = [2] := by
  decide

/-- A table is determined by what its sections say by themselves, in the order of the outline. -/
theorem eq_of_records_eq {other : Contents} {pageCount' : Int}
    (h : contents.WellNumbered pageCount) (h' : other.WellNumbered pageCount')
    (hrecords : (contents.root :: contents.preorder).map Section.record =
      (other.root :: other.preorder).map Section.record) : contents = other := by
  have hsame (number : Nat) : (contents.get? number).map Section.record =
      (other.get? number).map Section.record := by
    have hnumber := congrArg (fun records => records[number]?) hrecords
    simpa [h.root_cons_preorder, h'.root_cons_preorder, get?] using hnumber
  have hcases (number : Nat) : (contents.get? number = none ∧ other.get? number = none) ∨
      ∃ s t, contents.get? number = some s ∧ other.get? number = some t ∧ s.record = t.record := by
    have hnumber := hsame number
    cases hs : contents.get? number <;> cases ht : other.get? number <;> simp_all
  have hlevels : contents.levels = other.levels := by
    refine List.ext_getElem? fun number => ?_
    rw [h.getElem?_levels, h'.getElem?_levels]
    rcases hcases number with ⟨hs, ht⟩ | ⟨s, t, hs, ht, hrecord⟩
    · rw [hs, ht]
    · rw [hs, ht, Option.map_some, Option.map_some, (Section.record_inj hrecord).2.1]
  have hget (number : Nat) : contents.get? number = other.get? number := by
    rcases hcases number with ⟨hs, ht⟩ | ⟨s, t, hs, ht, hrecord⟩
    · rw [hs, ht]
    · have hparent : s.parent = t.parent := by
        rw [h.parent_eq_lastAbove hs, h'.parent_eq_lastAbove ht, hlevels]
      have hchildren : s.children = t.children := by
        rw [h.children_eq_placesBelow hs, h'.children_eq_placesBelow ht, hlevels]
      rw [hs, ht, Section.eq_of_record_eq hrecord hparent hchildren]
  have hsections : contents.sections = other.sections := Array.ext_getElem? hget
  cases contents
  cases other
  exact (Contents.mk.injEq ..).mpr hsections

end WellNumbered

end Contents

/-! ## The objects of the nested form -/

namespace Json

mutual

/-- The objects in a value, in the order of the text and each without its member `children`. -/
def listing : Json → List Json
  | .object members =>
      .object (members.filter fun member => member.1 ≠ "children") :: listingMembers members
  | .array items => listingItems items
  | _ => []

/-- The objects in the items of an array. -/
def listingItems : List Json → List Json
  | [] => []
  | item :: items => item.listing ++ listingItems items

/-- The objects in the members of an object. -/
def listingMembers : List (String × Json) → List Json
  | [] => []
  | (_, value) :: members => value.listing ++ listingMembers members

end

/-- The objects of a section and of what is below it. -/
theorem listing_object (heading : Heading) (level : Int) (items : List Json) :
    listing (.object (heading.members level ++ [("children", .array items)])) =
      .object (heading.members level) :: listingItems items := by
  simp [Heading.members, listing, listingMembers, ofInt]

end Json

/-- Going through the objects of a forest passes its sections in the order of the outline. -/
theorem Forest.listingItems_records (forest : Forest ν) (parent : Nat) (level : Int)
    (start : Nat) :
    Json.listingItems (forest.records level) =
      (Contents.sectionsOf parent level start forest).map Section.record := by
  induction forest generalizing parent level start with
  | nil => rfl
  | cons node heading below after ihBelow ihAfter =>
      rw [records, Json.listingItems, Json.listing_object, Contents.sectionsOf, List.map_cons,
        List.map_append, ihBelow start (level + 1) (start + 1),
        ihAfter parent level (start + below.size + 1)]
      rfl

/-- The objects of the nested form are those of the flat form, after that of the document. -/
theorem Contents.listing_ofForest (title : String) (pageCount : Int) (forest : Forest ν) :
    (ofForest title pageCount forest).record.listing =
      ((ofForest title pageCount forest).root :: (ofForest title pageCount forest).preorder).map
        Section.record := by
  rw [record_ofForest, Json.listing_object, forest.listingItems_records 0 0 1, preorder_ofForest,
    root_ofForest]
  rfl

/-! ## The flat form of a table that was read from an outline -/

section Reading

variable {π : Type} [DecidableEq ν] [BEq π] [Hashable π] {outline : Outline ν π}
  {settings : Settings} {fuel : Nat} {contents : Contents}

/-- Whatever outline a table of contents is read from, its levels in the order of the outline
determine the parent and the children of every section. The objects of its nested form, each without
its children, are that of the document as a whole and then the items of its flat form, whichever
texts they are read from. So a table with the same flat text in some layout, and with the same title
and span of the document as a whole, is the same table. -/
theorem Outline.readWithin_flatRecord
    (h : (outline.readWithin settings fuel).result = .ok contents) :
    (∀ {number s}, contents.get? number = some s →
      s.parent = lastAbove contents.levels number ∧
        s.children = placesBelow contents.levels number) ∧
      (∀ layout layout', ∃ value items,
        Json.read (contents.record.write layout) = some value ∧
          Json.read ((flatRecord contents.preorder).write layout') = some (.array items) ∧
          value.listing = contents.root.record :: items) ∧
      ∀ {μ ρ : Type} [DecidableEq μ] [BEq ρ] [Hashable ρ] (second : Outline μ ρ)
        (settings' : Settings) (fuel' : Nat) (other : Contents) (layout layout' : Layout),
        (second.readWithin settings' fuel').result = .ok other →
        contents.root.title = other.root.title →
        contents.root.startPage = other.root.startPage →
        contents.root.endPage = other.root.endPage →
        contents.root.position = other.root.position →
        (flatRecord contents.preorder).write layout = (flatRecord other.preorder).write layout' →
        contents = other := by
  have hnumbered := wellNumbered_of_readWithin h
  refine ⟨?links, ?listing, ?same⟩
  case links =>
    intro number s hs
    exact ⟨hnumbered.parent_eq_lastAbove hs, hnumbered.children_eq_placesBelow hs⟩
  case listing =>
    intro layout layout'
    refine ⟨contents.record, contents.preorder.map Section.record,
      Json.read_write contents.proper_record layout,
      Json.read_write (proper_flatRecord contents.preorder) layout', ?_⟩
    obtain ⟨forest, -, rfl⟩ := readWithin_yields h
    exact Contents.listing_ofForest _ _ forest
  case same =>
    intro μ ρ _ _ _ second settings' fuel' other layout layout' hother htitle hstart hend
      hposition htext
    have hnumbered' := wellNumbered_of_readWithin hother
    have hroot : contents.root.record = other.root.record := by
      simp only [Section.record, Section.members, htitle, hstart, hend, hposition,
        hnumbered.level_root, hnumbered'.level_root]
    have hflat : flatRecord contents.preorder = flatRecord other.preorder :=
      Json.write_inj (proper_flatRecord contents.preorder) (proper_flatRecord other.preorder) htext
    apply hnumbered.eq_of_records_eq hnumbered'
    rw [List.map_cons, List.map_cons, hroot, Json.array.inj hflat]

end Reading

/-- The levels of the thicket determine its links, and its two forms list the same objects. -/
theorem flatRecord_thicket :
    ∃ contents,
      (thicket.toOutline.readWithin { tolerance := .lenient, depthLimit := 2 } 3).result =
        .ok contents ∧
      (∀ {number s}, contents.get? number = some s →
        s.parent = lastAbove contents.levels number ∧
          s.children = placesBelow contents.levels number) ∧
      ∀ layout layout', ∃ value items,
        Json.read (contents.record.write layout) = some value ∧
          Json.read ((flatRecord contents.preorder).write layout') = some (.array items) ∧
          value.listing = contents.root.record :: items := by
  have hread := Outline.readWithin_eq_ok.2 ⟨_, forestWithin_thicket, rfl⟩
  obtain ⟨hlinks, hlisting, -⟩ := Outline.readWithin_flatRecord hread
  exact ⟨_, hread, hlinks, hlisting⟩

end Bookmarks
