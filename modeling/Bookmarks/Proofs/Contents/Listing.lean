/-
# What a listing says

A listing puts the lines of a table of contents one after another, with a newline between them. A
title may hold newlines of its own, and then its section takes more than one line of the text: there
is a line for each section exactly if no title holds a newline (`readWithin_lines`). If that is so,
the listing says everything: although titles stand on the lines as they are, and may look like
anything that a line is made of, the numbers are found from both ends of the line, and two tables
with the same listing are the same (`readWithin_eq_of_listing`).
-/
import Bookmarks.Contents.Listing
import Bookmarks.Outline.Draft
import Bookmarks.Proofs.Contents.Flat

namespace Bookmarks

/-! ## Pieces of a list -/

section Pieces

variable {α : Type} {a : α} {before before' after after' : List α}

/-- A list has one piece before the first place of an element, and one after it. -/
theorem append_cons_inj_first (hbefore : a ∉ before) (hbefore' : a ∉ before')
    (h : before ++ a :: after = before' ++ a :: after') : before = before' ∧ after = after' := by
  induction before generalizing before' with
  | nil =>
      cases before' with
      | nil => exact ⟨rfl, (List.cons.inj h).2⟩
      | cons first rest => exact absurd (List.mem_cons.2 (Or.inl (List.cons.inj h).1)) hbefore'
  | cons first rest ih =>
      cases before' with
      | nil => exact absurd (List.mem_cons.2 (Or.inl (List.cons.inj h).1.symm)) hbefore
      | cons first' rest' =>
          obtain ⟨rfl, hrest⟩ := List.cons.inj h
          rw [List.mem_cons, not_or] at hbefore hbefore'
          obtain ⟨rfl, hafter⟩ := ih hbefore.2 hbefore'.2 hrest
          exact ⟨rfl, hafter⟩

/-- A list has one piece before the last place of an element, and one after it. -/
theorem append_cons_inj_last (hafter : a ∉ after) (hafter' : a ∉ after')
    (h : before ++ a :: after = before' ++ a :: after') : before = before' ∧ after = after' := by
  have hreverse := congrArg List.reverse h
  simp only [List.reverse_append, List.reverse_cons, List.append_assoc, List.singleton_append]
    at hreverse
  obtain ⟨hleft, hright⟩ := append_cons_inj_first (by rwa [List.mem_reverse])
    (by rwa [List.mem_reverse]) hreverse
  exact ⟨List.reverse_injective hright, List.reverse_injective hleft⟩

theorem length_splitOn [BEq α] (a : α) (elements : List α) :
    (elements.splitOn a).length = elements.count a + 1 := by
  induction elements with
  | nil => rfl
  | cons first rest ih =>
      rw [List.splitOn_cons_eq_if_modifyHead, List.count_cons]
      by_cases h : first == a
      · rw [if_pos h, if_pos h, List.length_cons, ih]
      · rw [if_neg h, if_neg h, List.length_modifyHead, ih, Nat.add_zero]

/-- Taking lists that were put one after another apart takes each of them apart. -/
theorem splitOn_intercalate_eq_flatMap [BEq α] [LawfulBEq α] (a : α) {pieces : List (List α)}
    (h : pieces ≠ []) :
    ([a].intercalate pieces).splitOn a = pieces.flatMap (List.splitOn a) := by
  induction pieces with
  | nil => exact absurd rfl h
  | cons piece pieces ih =>
      cases pieces with
      | nil => rw [List.intercalate_singleton, List.flatMap_singleton]
      | cons next rest =>
          rw [List.intercalate_cons_cons, List.append_assoc, List.singleton_append,
            List.splitOn_append_cons_self, ih (List.cons_ne_nil _ _)]
          rfl

end Pieces

/-! ## The line of a section -/

/-- A number is put in words the way that JSON spells it. -/
theorem toList_toString (i : Int) : (toString i).toList = (Numeral.ofInt i).spell := by
  rw [Int.toString_eq_repr, Int.repr_eq_if, Numeral.spell]
  simp only [Numeral.ofInt, Numeral.digitsOf, decide_eq_true_eq]
  split
  · next hnonneg =>
      have habs : i.natAbs = i.toNat := by omega
      simp [Int.not_lt.2 hnonneg, habs]
  · next hneg =>
      have habs : i.natAbs = (-i).toNat := by omega
      simp [Int.not_le.1 hneg, habs]

/-- A number in words is made of digits, and perhaps a sign. -/
theorem not_mem_toString {c : Char} (hsign : c ≠ '-') (hdigit : c.isDigit = false) (i : Int) :
    c ∉ (toString i).toList := by
  have hwhole : c ∉ (Numeral.ofInt i).whole := by
    intro hmem
    have htrue := (Numeral.proper_ofInt i).isDigit_whole c hmem
    rw [hdigit] at htrue
    cases htrue
  rw [toList_toString, Numeral.spell]
  simp only [Numeral.ofInt] at hwhole ⊢
  by_cases hneg : i < 0 <;> simp [hneg, hsign, hwhole]

theorem toString_inj {i j : Int} (h : (toString i).toList = (toString j).toList) : i = j := by
  have hread (i : Int) : Json.readNumber ((toString i).toList ++ []) =
      some (Numeral.ofInt i, []) := by
    rw [toList_toString]
    exact Json.readNumber_spell (Numeral.proper_ofInt i) nofun
  have hboth := hread i
  rw [h, hread j] at hboth
  simpa [Numeral.ofInt_inj, eq_comm] using hboth

namespace Section

/-- The characters of a line, grouped as they are read from both ends. -/
theorem toList_line (s : Section) :
    s.line.toList = ((indentation s.level).toList ++ ' ' :: (toString s.level).toList) ++
      ')' :: (((((((' ' :: s.title.toList ++ [' ']) ++
        '[' :: (toString s.startPage).toList) ++
        ',' :: (toString s.endPage).toList) ++ "], children =".toList) ++
        ' ' :: (toString s.children.length).toList) ++ ", pos =".toList) ++
        ' ' :: (toString s.position).toList) := by
  have hstring (text : String) : toString text = text := rfl
  simp [line, hstring]

theorem not_mem_indentation {c : Char} (hc : c ≠ ' ') (level : Int) :
    c ∉ (indentation level).toList := by
  rw [indentation, String.toList_ofList]
  exact fun hmem => hc (List.eq_of_mem_replicate hmem)

/-- A line says as much as the object of its section: the level is what comes before the first
parenthesis, and the title what is left of the rest before its last bracket. -/
theorem record_eq_of_line_eq {s t : Section} (h : s.line = t.line) : s.record = t.record := by
  have hline := congrArg String.toList h
  rw [toList_line, toList_line] at hline
  have hfront (s : Section) :
      ')' ∉ (indentation s.level).toList ++ ' ' :: (toString s.level).toList := by
    rw [List.mem_append, List.mem_cons, not_or, not_or]
    exact ⟨not_mem_indentation (by decide) _, by decide,
      not_mem_toString (by decide) (by decide) _⟩
  have hblank (i : Int) : ' ' ∉ (toString i).toList := not_mem_toString (by decide) (by decide) i
  have hcomma (i : Int) : ',' ∉ (toString i).toList := not_mem_toString (by decide) (by decide) i
  have hbracket (i : Int) : '[' ∉ (toString i).toList :=
    not_mem_toString (by decide) (by decide) i
  obtain ⟨hlevel, hline⟩ := append_cons_inj_first (hfront s) (hfront t) hline
  obtain ⟨-, hlevel⟩ := append_cons_inj_last (hblank _) (hblank _) hlevel
  -- The title may hold any of these characters, so what follows it is taken off from the end.
  obtain ⟨hline, hposition⟩ := append_cons_inj_last (hblank _) (hblank _) hline
  obtain ⟨hline, -⟩ := append_cons_inj_last (hblank s.children.length) (hblank t.children.length)
    (List.append_cancel_right hline)
  obtain ⟨hline, hend⟩ :=
    append_cons_inj_last (hcomma _) (hcomma _) (List.append_cancel_right hline)
  obtain ⟨hline, hstart⟩ := append_cons_inj_last (hbracket _) (hbracket _) hline
  have htitle := (List.cons.inj (List.append_cancel_right hline)).2
  simp only [record, members, String.toList_inj.1 htitle, toString_inj hlevel, toString_inj hstart,
    toString_inj hend, toString_inj hposition]

/-- Newlines come into a line with the title. -/
theorem count_newline_line (s : Section) :
    s.line.toList.count '\n' = s.title.toList.count '\n' := by
  have hnumber (i : Int) : (toString i).toList.count '\n' = 0 :=
    List.count_eq_zero.2 (not_mem_toString (by decide) (by decide) i)
  have hindentation : (indentation s.level).toList.count '\n' = 0 :=
    List.count_eq_zero.2 (not_mem_indentation (by decide) s.level)
  have hchildren : (toString s.children.length).toList.count '\n' = 0 :=
    hnumber s.children.length
  rw [toList_line]
  simp only [List.count_append, List.count_cons, hnumber, hindentation, hchildren]
  simp

end Section

/-! ## The lines of a text -/

/-- The lines of a text, without the newlines between them. -/
def textLines (text : String) : List String :=
  (text.toList.splitOn '\n').map String.ofList

theorem length_textLines (text : String) :
    (textLines text).length = text.toList.count '\n' + 1 := by
  rw [textLines, List.length_map, length_splitOn]

theorem textLines_of_not_mem {text : String} (h : '\n' ∉ text.toList) :
    textLines text = [text] := by
  rw [textLines, List.splitOn_eq_singleton h, List.map_singleton, String.ofList_toList]

theorem textLines_intercalate {texts : List String} (h : texts ≠ []) :
    textLines ("\n".intercalate texts) = texts.flatMap textLines := by
  have hpieces : texts.map String.toList ≠ [] := mt List.map_eq_nil_iff.1 h
  have hnewline : "\n".toList = ['\n'] := rfl
  rw [textLines, String.toList_intercalate, hnewline,
    splitOn_intercalate_eq_flatMap '\n' hpieces, List.flatMap_map, List.map_flatMap]
  rfl

namespace Contents

variable {contents : Contents}

theorem textLines_listing (contents : Contents) :
    textLines contents.listing = contents.lines.flatMap textLines :=
  textLines_intercalate (List.cons_ne_nil _ _)

namespace WellNumbered

variable {pageCount : Int}

theorem lines_eq (h : contents.WellNumbered pageCount) :
    contents.lines = contents.sections.toList.map Section.line := by
  rw [← h.root_cons_preorder]
  rfl

/-- There is a line for each section and one more for each newline of a title. -/
theorem length_textLines_listing (h : contents.WellNumbered pageCount) :
    (textLines contents.listing).length =
      contents.size + (contents.sections.toList.map fun s => s.title.toList.count '\n').sum := by
  have hsum (sections : List Section) :
      ((sections.map Section.line).flatMap textLines).length =
        sections.length + (sections.map fun s => s.title.toList.count '\n').sum := by
    induction sections with
    | nil => rfl
    | cons s sections ih =>
        rw [List.map_cons, List.flatMap_cons, List.length_append, ih, length_textLines,
          s.count_newline_line, List.map_cons, List.sum_cons, List.length_cons]
        omega
  rw [textLines_listing, h.lines_eq, hsum]
  rfl

/-- The lines of a listing are those of its sections as long as no title holds a newline. -/
theorem textLines_listing_eq (h : contents.WellNumbered pageCount)
    (htitles : ∀ s ∈ contents.sections, '\n' ∉ s.title.toList) :
    textLines contents.listing = contents.sections.toList.map Section.line := by
  have hlines : ∀ s ∈ contents.sections.toList, textLines s.line = [s.line] := by
    intro s hs
    refine textLines_of_not_mem (List.count_eq_zero.1 ?_)
    rw [s.count_newline_line]
    exact List.count_eq_zero.2 (htitles s (Array.mem_toList_iff.1 hs))
  rw [textLines_listing, h.lines_eq, List.flatMap_map, List.flatMap_congr hlines]
  exact List.map_eq_flatMap.symm

/-- Tables whose titles hold no newline have different listings, unless they are the same. -/
theorem eq_of_listing_eq {other : Contents} {pageCount' : Int}
    (h : contents.WellNumbered pageCount) (h' : other.WellNumbered pageCount')
    (htitles : ∀ s ∈ contents.sections, '\n' ∉ s.title.toList)
    (htitles' : ∀ s ∈ other.sections, '\n' ∉ s.title.toList)
    (hlisting : contents.listing = other.listing) : contents = other := by
  have hlines : contents.sections.toList.map Section.line =
      other.sections.toList.map Section.line := by
    rw [← h.textLines_listing_eq htitles, ← h'.textLines_listing_eq htitles', hlisting]
  -- What the object of a section says is a function of the line.
  have hfactors : Section.record.FactorsThrough Section.line :=
    fun _ _ => Section.record_eq_of_line_eq
  have : Nonempty Json := ⟨.null⟩
  obtain ⟨ofLine, hofLine⟩ := (Function.factorsThrough_iff _).1 hfactors
  refine h.eq_of_records_eq h' ?_
  rw [h.root_cons_preorder, h'.root_cons_preorder, hofLine, ← List.map_map, ← List.map_map, hlines]

end WellNumbered

end Contents

/-! ## The listing of a table that was read from an outline -/

section Reading

variable {ν π : Type} [DecidableEq ν] [BEq π] [Hashable π] {outline : Outline ν π}
  {settings : Settings} {fuel : Nat} {contents : Contents}

/-- Whatever outline a table of contents is read from, the lines of its listing are those of its
sections, one after another and each as many as its title has. So there is one line for each
section, which is what the section says, exactly if no title holds a newline. -/
theorem Outline.readWithin_lines
    (h : (outline.readWithin settings fuel).result = .ok contents) :
    textLines contents.listing =
        contents.sections.toList.flatMap (fun s => textLines s.line) ∧
      (textLines contents.listing).length =
        contents.size + (contents.sections.toList.map fun s => s.title.toList.count '\n').sum ∧
      (textLines contents.listing = contents.sections.toList.map Section.line ↔
        ∀ s ∈ contents.sections, '\n' ∉ s.title.toList) := by
  have hnumbered := wellNumbered_of_readWithin h
  have hlength := hnumbered.length_textLines_listing
  refine ⟨?lines, hlength, ?one, hnumbered.textLines_listing_eq⟩
  case lines =>
    rw [Contents.textLines_listing, hnumbered.lines_eq, List.flatMap_map]
  case one =>
    intro hlines s hs
    rw [hlines, List.length_map, Contents.size, ← Array.length_toList, Nat.left_eq_add,
      List.sum_eq_zero_iff_forall_eq_nat] at hlength
    exact List.count_eq_zero.1
      (hlength _ (List.mem_map.2 ⟨s, Array.mem_toList_iff.2 hs, rfl⟩))

/-- One entry, with a title of two lines. -/
def twoLineDraft : Draft where
  pageCount := 1
  items := #[⟨⟨0⟩, "Part 1\nBeginnings", some 1, some .fit⟩]

theorem forestWithin_twoLineDraft :
    (twoLineDraft.toOutline.forestWithin {} 1).result =
      .ok (.cons ⟨1⟩ ⟨"Part 1\nBeginnings", 1, 1, 0⟩ .nil .nil) := by
  simp only [Outline.forestWithin, PageIndex.number?_ofList]
  decide +kernel

/-- Two sections take three lines. -/
theorem lines_twoLineDraft :
    ∃ contents, (twoLineDraft.toOutline.readWithin {} 1).result = .ok contents ∧
      contents.size = 2 ∧ (textLines contents.listing).length = 3 ∧
      textLines contents.listing ≠ contents.sections.toList.map Section.line := by
  have hread := Outline.readWithin_eq_ok.2 ⟨_, forestWithin_twoLineDraft, rfl⟩
  obtain ⟨-, hlength, hiff⟩ := Outline.readWithin_lines hread
  refine ⟨_, hread, rfl, ?_, ?_⟩
  · rw [hlength]
    decide +kernel
  · rw [ne_eq, hiff]
    decide +kernel

/-- Not every listing has one line for each section. -/
theorem not_textLines_listing_eq :
    ¬ ∀ (outline : Outline Draft.Node UInt32) (settings : Settings) (fuel : Nat)
        (contents : Contents),
      (outline.readWithin settings fuel).result = .ok contents →
      textLines contents.listing = contents.sections.toList.map Section.line := by
  intro h
  have hread := Outline.readWithin_eq_ok.2 ⟨_, forestWithin_twoLineDraft, rfl⟩
  have hlength := (Outline.wellNumbered_of_readWithin hread).length_textLines_listing
  rw [h _ _ _ _ hread] at hlength
  exact absurd hlength (by decide +kernel)

/-- Tables of contents whose titles hold no newline can be told apart by their listings, whichever
outlines they are read from, and whatever the titles look like. -/
theorem Outline.readWithin_eq_of_listing
    (h : (outline.readWithin settings fuel).result = .ok contents)
    {μ ρ : Type} [DecidableEq μ] [BEq ρ] [Hashable ρ] {second : Outline μ ρ}
    {settings' : Settings} {fuel' : Nat} {other : Contents}
    (hother : (second.readWithin settings' fuel').result = .ok other)
    (htitles : ∀ s ∈ contents.sections, '\n' ∉ s.title.toList)
    (htitles' : ∀ s ∈ other.sections, '\n' ∉ s.title.toList)
    (hlisting : contents.listing = other.listing) : contents = other :=
  (wellNumbered_of_readWithin h).eq_of_listing_eq (wellNumbered_of_readWithin hother) htitles
    htitles' hlisting

/-- An entry whose title looks like the line of a section, and one below it whose title could begin
a line. -/
def lookalikeDraft : Draft where
  pageCount := 2
  items := #[
    ⟨⟨0⟩, "A [1,2], children = 0, pos = 3", some 1, some .fit⟩,
    ⟨⟨1⟩, " 7) B", some 2, some .fit⟩]

/-- The same entries, with a second link to the lower one and a broken link. -/
def lookalikeTable : OutlineTable where
  pageCount := 2
  root := .ok (some 0)
  pages := .ok ["front", "back"]
  rows := [
    (0, { first := .ok (some 5), last := .ok (some 5) }),
    (5, { first := .ok (some 9), last := .ok (some 9), next := .ok (some 9),
          title := .ok "A [1,2], children = 0, pos = 3", page := .ok (some "front") }),
    (9, { next := .error (.corrupted (.reported "no such entry")), title := .ok " 7) B",
          page := .ok (some "back") })]

theorem forestWithin_lookalikeDraft :
    (lookalikeDraft.toOutline.forestWithin {} 2).result =
      .ok (.cons ⟨1⟩ ⟨"A [1,2], children = 0, pos = 3", 1, 2, 0⟩
        (.cons ⟨2⟩ ⟨" 7) B", 2, 2, 0⟩ .nil .nil) .nil) := by
  simp only [Outline.forestWithin, PageIndex.number?_ofList]
  decide +kernel

theorem forestWithin_lookalikeTable :
    (lookalikeTable.toOutline.forestWithin { tolerance := .lenient } 3).result =
      .ok (.cons 5 ⟨"A [1,2], children = 0, pos = 3", 1, 2, 0⟩
        (.cons 9 ⟨" 7) B", 2, 2, 0⟩ .nil .nil) .nil) := by
  simp only [Outline.forestWithin, PageIndex.number?_ofList]
  decide +kernel

/-- The listing does not tell the two outlines apart, and neither do the tables. -/
theorem listing_lookalikes :
    ∃ contents other,
      (lookalikeDraft.toOutline.readWithin {} 2).result = .ok contents ∧
      (lookalikeTable.toOutline.readWithin { tolerance := .lenient } 3).result = .ok other ∧
      (∀ s ∈ contents.sections, '\n' ∉ s.title.toList) ∧
      (∀ s ∈ other.sections, '\n' ∉ s.title.toList) ∧
      contents.listing = other.listing ∧ contents = other := by
  have hread := Outline.readWithin_eq_ok.2 ⟨_, forestWithin_lookalikeDraft, rfl⟩
  have hother := Outline.readWithin_eq_ok.2 ⟨_, forestWithin_lookalikeTable, rfl⟩
  refine ⟨_, _, hread, hother, by decide +kernel, by decide +kernel, rfl, ?_⟩
  exact Outline.readWithin_eq_of_listing hread hother (by decide +kernel) (by decide +kernel) rfl

end Reading

end Bookmarks
