/-
# The way up

From a section there is one way up: to the section it names as its parent, and on from there. The
way down goes by the lists of children. The two agree step by step (`WellNumbered.lists_iff`), so
the sections above a section are those that it lies below. A step up is one level, and comes to a
smaller number; so the way up ends, and it ends at the root (`Outline.readWithin_ascends`).
-/
import Bookmarks.Proofs.Contents.Numbering

namespace Bookmarks

variable {ν π : Type}

namespace Contents

/-- The numbers that are passed on the way up from a section, the nearest first. -/
inductive WayUp (contents : Contents) : Nat → List Nat → Prop where
  | top {number : Nat} {s : Section} (hs : contents.get? number = some s)
      (hparent : s.parent = none) : WayUp contents number []
  | step {number parent : Nat} {s : Section} {path : List Nat}
      (hs : contents.get? number = some s) (hparent : s.parent = some parent)
      (hpath : WayUp contents parent path) : WayUp contents number (parent :: path)

variable {contents : Contents} {number : Nat} {s : Section} {path : List Nat}

theorem WayUp.exists_section (h : contents.WayUp number path) :
    ∃ s, contents.get? number = some s := by
  cases h with
  | top hs _ => exact ⟨_, hs⟩
  | step hs _ _ => exact ⟨_, hs⟩

/-- Climbing from a section passes the sections on its way up, as many as there are steps. -/
theorem WayUp.map_climb (h : contents.WayUp number path) (hs : contents.get? number = some s)
    (steps : Nat) : (contents.climb steps s).map some = (path.take steps).map contents.get? := by
  induction h generalizing s steps with
  | top hs' hparent =>
      cases hs.symm.trans hs'
      cases steps with
      | zero => rfl
      | succ steps => simp [climb, parent?, hparent]
  | step hs' hparent hpath ih =>
      cases hs.symm.trans hs'
      obtain ⟨above, habove⟩ := hpath.exists_section
      cases steps with
      | zero => rfl
      | succ steps => simp [climb, parent?, hparent, habove, ih habove]

namespace WellNumbered

variable {pageCount : Int}

/-- The only section without a parent is the root. -/
theorem eq_zero_of_parent (h : contents.WellNumbered pageCount)
    (hs : contents.get? number = some s) (hparent : s.parent = none) : number = 0 := by
  by_contra hnumber
  obtain ⟨parent, above, hsome, -⟩ := h.parent_eq (Nat.pos_of_ne_zero hnumber) hs
  cases hparent.symm.trans hsome

/-- A parent comes before its children and is one level up. -/
theorem parent_above (h : contents.WellNumbered pageCount) (hs : contents.get? number = some s)
    {parent : Nat} (hparent : s.parent = some parent) :
    parent < number ∧ ∃ above, contents.get? parent = some above ∧ s.level = above.level + 1 := by
  have hnumber : number ≠ 0 := by
    intro hzero
    subst hzero
    obtain ⟨root, hroot, hnone, -⟩ := h.root_eq
    cases hs.symm.trans hroot
    cases hparent.symm.trans hnone
  obtain ⟨parent', above, hsome, hlt, habove, hlevel, -⟩ :=
    h.parent_eq (Nat.pos_of_ne_zero hnumber) hs
  cases hparent.symm.trans hsome
  exact ⟨hlt, above, habove, hlevel⟩

/-- The section that lists another one is the one that is named as its parent. -/
theorem lists_iff (h : contents.WellNumbered pageCount) (hs : contents.get? number = some s)
    {above : Nat} : contents.Lists above number ↔ s.parent = some above := by
  constructor
  · intro hlists
    obtain ⟨t, ht, -⟩ := id hlists
    obtain ⟨hlt, -⟩ := h.bounds_of_liesBelow (lt_size_of_get? ht) (.single hlists)
    obtain ⟨parent, _, hparent, -, -, -, -, honly⟩ := h.parent_eq (by omega) hs
    rw [hparent, honly above hlists]
  · intro hparent
    have hlt := (h.parent_above hs hparent).1
    obtain ⟨parent, t, hsome, -, ht, -, hcount, -⟩ := h.parent_eq (by omega) hs
    cases hparent.symm.trans hsome
    exact ⟨t, ht, List.count_pos_iff.1 (by omega)⟩

theorem exists_wayUp (h : contents.WellNumbered pageCount) (hs : contents.get? number = some s) :
    ∃ path, contents.WayUp number path := by
  induction number using Nat.strongRecOn generalizing s with
  | ind number ih =>
      cases hparent : s.parent with
      | none => exact ⟨[], .top hs hparent⟩
      | some parent =>
          obtain ⟨hlt, above, habove, -⟩ := h.parent_above hs hparent
          obtain ⟨path, hpath⟩ := ih parent hlt habove
          exact ⟨parent :: path, .step hs hparent hpath⟩

/-- The way up from a section is as long as the section is deep. -/
theorem length_wayUp (h : contents.WellNumbered pageCount) (hpath : contents.WayUp number path)
    (hs : contents.get? number = some s) : (path.length : Int) = s.level + 1 := by
  induction hpath generalizing s with
  | top hs' hparent =>
      obtain rfl := h.eq_zero_of_parent hs' hparent
      obtain ⟨root, hroot, -, hlevel, -⟩ := h.root_eq
      cases hs.symm.trans hroot
      rw [hlevel]
      rfl
  | step hs' hparent _ ih =>
      cases hs.symm.trans hs'
      obtain ⟨-, above, habove, hlevel⟩ := h.parent_above hs hparent
      rw [List.length_cons, Int.natCast_succ, ih habove, hlevel]

/-- Each step of the way up is one level. -/
theorem levels_wayUp (h : contents.WellNumbered pageCount) (hpath : contents.WayUp number path)
    (hs : contents.get? number = some s) :
    path.map (fun other => (contents.get? other).map Section.level) =
      (List.range path.length).map fun place : Nat => some (s.level - 1 - place) := by
  induction hpath generalizing s with
  | top _ _ => rfl
  | step hs' hparent _ ih =>
      cases hs.symm.trans hs'
      obtain ⟨-, above, habove, hlevel⟩ := h.parent_above hs hparent
      rw [List.map_cons, ih habove, habove, List.length_cons, List.range_succ_eq_map,
        List.map_cons, List.map_map, Option.map_some]
      congr 1
      · rw [hlevel]
        simp
      · apply List.map_congr_left
        intro place _
        simp only [Function.comp_apply, hlevel]
        congr 1
        omega

/-- The way up comes to smaller and smaller numbers, so it is no longer than its first one. -/
theorem length_wayUp_le (h : contents.WellNumbered pageCount)
    (hpath : contents.WayUp number path) : path.length ≤ number := by
  induction hpath with
  | top _ _ => exact Nat.zero_le _
  | step hs hparent _ ih =>
      have hlt := (h.parent_above hs hparent).1
      rw [List.length_cons]
      omega

/-- A section lies below its parent and whatever its parent lies below. -/
theorem liesBelow_iff (h : contents.WellNumbered pageCount) (hs : contents.get? number = some s)
    {other : Nat} : contents.LiesBelow other number ↔
      ∃ parent, s.parent = some parent ∧ (other = parent ∨ contents.LiesBelow other parent) := by
  rw [LiesBelow, Relation.TransGen.tail'_iff]
  apply exists_congr
  intro parent
  rw [h.lists_iff hs, and_comm, Relation.reflTransGen_iff_eq_or_transGen, eq_comm (a := parent)]
  rfl

/-- The way up passes the sections that a section lies below, and no others. -/
theorem mem_wayUp_iff (h : contents.WellNumbered pageCount) (hpath : contents.WayUp number path)
    {other : Nat} : other ∈ path ↔ contents.LiesBelow other number := by
  induction hpath with
  | top hs hparent =>
      rw [h.liesBelow_iff hs, hparent]
      simp
  | step hs hparent _ ih =>
      rw [h.liesBelow_iff hs, hparent, List.mem_cons, ih]
      simp

/-- The way up ends at the root, if it does not begin there. -/
theorem getLast?_wayUp (h : contents.WellNumbered pageCount)
    (hpath : contents.WayUp number path) (hnumber : 0 < number) : path.getLast? = some 0 := by
  induction hpath with
  | top hs hparent => exact absurd (h.eq_zero_of_parent hs hparent) (Nat.ne_of_gt hnumber)
  | step _ _ hpath ih =>
      cases hpath with
      | top hs hparent => rw [h.eq_zero_of_parent hs hparent, List.getLast?_singleton]
      | step hs hparent _ =>
          have hlt := (h.parent_above hs hparent).1
          rw [List.getLast?_cons_cons]
          exact ih (by omega)

/-- The first child of a section is the one with the smallest number. -/
theorem exists_firstChild (h : contents.WellNumbered pageCount)
    (hs : contents.get? number = some s) {child : Nat} (hchild : child ∈ s.children) :
    ∃ first, s.children.head? = some first ∧
      (first = child ↔ ∀ other ∈ s.children, other ≠ child → ¬ other < child) := by
  obtain ⟨hpairwise, -⟩ := h.children_lt hs
  cases hchildren : s.children with
  | nil =>
      rw [hchildren] at hchild
      cases hchild
  | cons first rest =>
      rw [hchildren] at hchild hpairwise
      have hfirst : ∀ other ∈ rest, first < other := fun _ => List.rel_of_pairwise_cons hpairwise
      refine ⟨first, rfl, ?_⟩
      constructor
      · rintro rfl other hother hne
        obtain rfl | hrest := List.mem_cons.1 hother
        · exact absurd rfl hne
        · exact Nat.not_lt.2 (Nat.le_of_lt (hfirst other hrest))
      · intro hsmallest
        by_contra hne
        obtain rfl | hrest := List.mem_cons.1 hchild
        · exact hne rfl
        · exact hsmallest first List.mem_cons_self hne (hfirst child hrest)

end WellNumbered

/-! ## Climbing -/

variable (contents) in
/-- Climbing from a section passes what the section lies below, level by level, and ends at the
root. -/
structure Ascends (number : Nat) (s : Section) : Prop where
  /-- Climbing ends by itself: no number of steps passes more sections. -/
  climb_eq : ∀ steps, contents.climb steps s = (contents.ancestors s).take steps
  /-- It takes as many steps as the section is deep. -/
  length_eq : ((contents.ancestors s).length : Int) = s.level + 1
  /-- Each step is one level. -/
  levels_eq : (contents.ancestors s).map Section.level =
    (List.range (contents.ancestors s).length).map fun place : Nat => s.level - 1 - place
  /-- The last step comes to the root. -/
  last_eq : 0 < number → (contents.ancestors s).getLast? = some contents.root
  /-- The sections passed have the numbers that the section lies below. -/
  passes : ∃ path : List Nat, (contents.ancestors s).map some = path.map contents.get? ∧
    ∀ other, other ∈ path ↔ contents.LiesBelow other number
  /-- A section of the table is passed if the section that the climb begins at lies below it. -/
  mem_iff : ∀ {other : Nat} {t : Section}, contents.get? other = some t →
    (t ∈ contents.ancestors s ↔ contents.LiesBelow other number)

namespace WellNumbered

variable {pageCount : Int}

/-- Sections that others belong to are told apart by what they list. -/
theorem eq_of_liesBelow (h : contents.WellNumbered pageCount) {other : Nat}
    (hs : contents.get? number = some s) (hother : contents.get? other = some s) {below : Nat}
    (hbelow : contents.LiesBelow number below) : number = other := by
  obtain ⟨child, ⟨t, ht, hchild⟩, -⟩ := Relation.TransGen.head'_iff.1 hbelow
  cases hs.symm.trans ht
  have hsize := ((h.children_lt hs).2 child hchild)
  obtain ⟨u, hu⟩ : ∃ u, contents.get? child = some u := ⟨_, Array.getElem?_eq_getElem hsize⟩
  have hnumber := (h.lists_iff hu).1 ⟨s, hs, hchild⟩
  have hother := (h.lists_iff hu).1 ⟨s, hother, hchild⟩
  exact Option.some.inj (hnumber.symm.trans hother)

theorem ascends (h : contents.WellNumbered pageCount) (hs : contents.get? number = some s) :
    contents.Ascends number s := by
  obtain ⟨path, hpath⟩ := h.exists_wayUp hs
  have hsize := lt_size_of_get? hs
  have hlength := h.length_wayUp_le hpath
  have hpasses : (contents.ancestors s).map some = path.map contents.get? := by
    rw [ancestors, hpath.map_climb hs, List.take_of_length_le (by omega)]
  have hcount : (contents.ancestors s).length = path.length := by
    rw [← List.length_map some, hpasses, List.length_map]
  have hbelow : ∀ other, other ∈ path ↔ contents.LiesBelow other number :=
    fun _ => h.mem_wayUp_iff hpath
  refine ⟨?climb, ?length, ?levels, ?last, ⟨path, hpasses, hbelow⟩, ?mem⟩
  case climb =>
    intro steps
    apply (List.map_inj_right fun _ _ => Option.some.inj).1
    rw [hpath.map_climb hs, List.map_take, List.map_take, hpasses]
  case length =>
    rw [hcount, h.length_wayUp hpath hs]
  case levels =>
    apply (List.map_inj_right fun _ _ => Option.some.inj).1
    have hlevels := congrArg (List.map (Option.map Section.level)) hpasses
    rw [List.map_map, List.map_map] at hlevels
    rw [List.map_map, List.map_map, hcount]
    exact hlevels.trans (h.levels_wayUp hpath hs)
  case last =>
    intro hnumber
    have hroot : contents.get? 0 = some contents.root :=
      Array.getElem?_eq_getElem contents.size_pos
    have hlast := congrArg List.getLast? hpasses
    rw [List.getLast?_map, List.getLast?_map, h.getLast?_wayUp hpath hnumber, Option.map_some,
      hroot] at hlast
    simpa using hlast
  case mem =>
    intro other t ht
    rw [← hbelow, ← List.mem_map_of_injective (fun _ _ => Option.some.inj), hpasses, List.mem_map]
    constructor
    · rintro ⟨passed, hmem, hpassed⟩
      rwa [← h.eq_of_liesBelow hpassed ht ((hbelow passed).1 hmem)]
    · intro hmem
      exact ⟨other, hmem, ht⟩

end WellNumbered

end Contents

/-! ## The table that is read from an outline -/

/-- Whatever outline a table of contents is read from, climbing from a section of it passes what the
section lies below and ends at the root. And a section is the first child of the section it belongs
to if no other child of that section has a smaller number. -/
theorem Outline.readWithin_ascends [DecidableEq ν] [BEq π] [Hashable π] {outline : Outline ν π}
    {settings : Settings} {fuel : Nat} {contents : Contents}
    (h : (outline.readWithin settings fuel).result = .ok contents) {number : Nat} {s : Section}
    (hs : contents.get? number = some s) :
    contents.Ascends number s ∧
      ∀ above, contents.parent? s = some above → ∃ first, above.children.head? = some first ∧
        contents.firstChild? above = contents.get? first ∧
        (first = number ↔ ∀ other ∈ above.children, other ≠ number → ¬ other < number) := by
  have hnumbered := wellNumbered_of_readWithin h
  refine ⟨hnumbered.ascends hs, ?_⟩
  intro above habove
  obtain ⟨parent, hparent, hget⟩ := Option.bind_eq_some_iff.1 habove
  obtain ⟨_, ht, hchild⟩ := (hnumbered.lists_iff hs).2 hparent
  cases hget.symm.trans ht
  obtain ⟨first, hfirst, hiff⟩ := hnumbered.exists_firstChild hget hchild
  exact ⟨first, hfirst, by rw [Contents.firstChild?, hfirst, Option.bind_some], hiff⟩

/-- From the section of the thicket the way up is by the first chapter to the root. -/
theorem ascends_thicket :
    ∃ contents s above,
      (thicket.toOutline.readWithin { tolerance := .lenient, depthLimit := 2 } 3).result =
        .ok contents ∧
      contents.get? 2 = some s ∧ contents.parent? s = some above ∧ contents.Ascends 2 s ∧
      (contents.ancestors s).map Section.title = ["Chapter 1", "root"] ∧
      contents.firstChild? above = contents.get? 2 := by
  have hread := Outline.readWithin_eq_ok.2 ⟨_, forestWithin_thicket, rfl⟩
  obtain ⟨hascends, hfirst⟩ := Outline.readWithin_ascends hread (Eq.refl (Contents.get? _ 2))
  obtain ⟨first, hhead, hchild, -⟩ := hfirst _ rfl
  cases hhead
  exact ⟨_, _, _, hread, rfl, rfl, hascends, by decide +kernel, hchild⟩

end Bookmarks
