/-
# Page indices

An index of pages gives each page the number of its first place in the page list, just as going
through the list would (`number?_ofList`), and no number to a page that the list does not hold
(`number?_ofList_firstPlace`). So a page of a list without repetitions has the number of its place.
A number is kept as it is if it is small enough, and only then (`signed32_eq_self_iff`).
-/
import Bookmarks.PageNumber

namespace Bookmarks

theorem signed32_of_lt {n : Nat} (h : n < Nat.pow 2 31) : signed32 n = n := by
  have hrange : Nat.pow 2 32 = 2 * Nat.pow 2 31 := by decide +kernel
  unfold signed32
  -- The powers are closed computations that must not be carried out.
  generalize Nat.pow 2 32 = range at hrange ⊢
  generalize Nat.pow 2 31 = half at hrange h
  apply Int.bmod_eq_of_le
  · omega
  · omega

/-- A number of 32 bits that is not small enough comes out negative. -/
theorem signed32_of_ge {n : Nat} (h : Nat.pow 2 31 ≤ n) (hbits : n < Nat.pow 2 32) :
    signed32 n = n - Nat.pow 2 32 := by
  have hrange : Nat.pow 2 32 = 2 * Nat.pow 2 31 := by decide +kernel
  unfold signed32
  generalize Nat.pow 2 32 = range at hrange hbits ⊢
  generalize Nat.pow 2 31 = half at hrange h
  rw [← Int.sub_bmod_right]
  apply Int.bmod_eq_of_le
  · omega
  · omega

theorem signed32_eq_self_iff {n : Nat} (hbits : n < Nat.pow 2 32) :
    signed32 n = n ↔ n < Nat.pow 2 31 := by
  refine ⟨fun heq => ?_, signed32_of_lt⟩
  rcases Nat.lt_or_ge n (Nat.pow 2 31) with hsmall | hlarge
  · exact hsmall
  · rw [signed32_of_ge hlarge hbits] at heq
    generalize Nat.pow 2 32 = range at heq hbits
    omega

variable {π : Type} [BEq π]

namespace PageIndex

variable [EquivBEq π] [Hashable π] [LawfulHashable π]

theorem getElem?_insertFrom (numbers : Std.HashMap π Nat) (number : Nat) (pages : List π)
    (page : π) :
    (insertFrom numbers number pages)[page]? =
      (numbers[page]?).or ((pages.findIdx? (· == page)).map (· + number)) := by
  induction pages generalizing numbers number with
  | nil => simp [insertFrom]
  | cons first rest ih =>
      rw [insertFrom, ih, Std.HashMap.getElem?_insertIfNew, List.findIdx?_cons]
      by_cases hfirst : first == page
      · have hmem : first ∈ numbers ↔ page ∈ numbers := Std.HashMap.mem_congr hfirst
        by_cases hpage : page ∈ numbers
        · simp [hmem, hfirst, hpage]
        · simp [hmem, hfirst, hpage]
      · simp only [hfirst, Bool.false_eq_true, false_and, if_false, Option.map_map,
          Function.comp_def, Nat.add_right_comm, Nat.add_assoc]

/-- Looking a page up in the index of a list is going through the list. -/
theorem number?_ofList (pages : List π) : (ofList pages).number? = scanPages pages := by
  funext page
  rw [number?, ofList, getElem?_insertFrom, Std.HashMap.getElem?_empty]
  rfl

end PageIndex

/-- The page stands at this place of the list, and at no earlier one. -/
structure FirstPlace (pages : List π) (page : π) (place : Nat) : Prop where
  getElem?_eq : pages[place]? = some page
  ne_earlier : ∀ earlier < place, pages[earlier]? ≠ some page

variable [LawfulBEq π]

/-- Going through the list finds the first place of a page. -/
theorem scanPages_eq_some_iff {pages : List π} {page : π} {number : Nat} :
    scanPages pages page = some number ↔
      ∃ place, FirstPlace pages page place ∧ number = place + 1 := by
  simp only [scanPages, Option.map_eq_some_iff, List.findIdx?_eq_some_iff_getElem]
  constructor
  · rintro ⟨place, ⟨hplace, hpage, hearlier⟩, rfl⟩
    refine ⟨place, ⟨List.getElem?_eq_some_iff.2 ⟨hplace, beq_iff_eq.1 hpage⟩, ?_⟩, rfl⟩
    intro earlier hlt hsame
    obtain ⟨hbound, hget⟩ := List.getElem?_eq_some_iff.1 hsame
    exact hearlier earlier hlt (beq_iff_eq.2 hget)
  · rintro ⟨place, ⟨hpage, hearlier⟩, rfl⟩
    obtain ⟨hplace, hget⟩ := List.getElem?_eq_some_iff.1 hpage
    refine ⟨place, ⟨hplace, beq_iff_eq.2 hget, ?_⟩, rfl⟩
    intro earlier hlt hsame
    exact hearlier earlier hlt (List.getElem?_eq_some_iff.2 ⟨by omega, beq_iff_eq.1 hsame⟩)

theorem scanPages_eq_none_iff {pages : List π} {page : π} :
    scanPages pages page = none ↔ page ∉ pages := by
  rw [scanPages, Option.map_eq_none_iff, List.findIdx?_eq_none_iff]
  constructor
  · intro h hmem
    exact absurd (h page hmem) (by simp)
  · intro h other hother
    simp only [beq_eq_false_iff_ne]
    rintro rfl
    exact h hother

/-- A page of a list without repetitions has the number of its place. -/
theorem scanPages_getElem {pages : List π} (hnodup : pages.Nodup) {place : Nat} {page : π}
    (hpage : pages[place]? = some page) : scanPages pages page = some (place + 1) := by
  refine scanPages_eq_some_iff.2 ⟨place, ⟨hpage, fun earlier hearlier hsame => ?_⟩, rfl⟩
  obtain ⟨hplace, hget⟩ := List.getElem?_eq_some_iff.1 hpage
  obtain ⟨hbound, hget'⟩ := List.getElem?_eq_some_iff.1 hsame
  exact List.pairwise_iff_getElem.1 hnodup earlier place hbound hplace hearlier
    (hget'.trans hget.symm)

/-- In the index of a page list, whatever its length and its repetitions, a page has the number of
its first place, and only a page that the list does not hold has none. -/
theorem PageIndex.number?_ofList_firstPlace {ρ : Type} [DecidableEq ρ] [Hashable ρ]
    (pages : List ρ) (page : ρ) :
    (∀ number, (ofList pages).number? page = some number ↔
      ∃ place, FirstPlace pages page place ∧ number = place + 1) ∧
      ((ofList pages).number? page = none ↔ page ∉ pages) := by
  rw [number?_ofList]
  exact ⟨fun _ => scanPages_eq_some_iff, scanPages_eq_none_iff⟩

end Bookmarks
