/-
# Strict and lenient readers

A strict reader and a lenient one take the same course through an outline until a link is broken,
an entry is linked twice or entries are nested too deep. There the strict reader fails, and the
lenient one notes that a branch was skipped. So a strict reading succeeds exactly if a lenient
reading does that skips nothing, and they fail alike for any other reason; damage to links, which is
all that a strict reader adds, never stops a lenient one (`readWithin_tolerance`).
-/
import Bookmarks.Outline.Table
import Bookmarks.Proofs.Page.Index
import Bookmarks.Proofs.Walk.Comparison
import Bookmarks.Proofs.Walk.Reading

namespace Bookmarks

variable {ν π α β : Type}

namespace Noted

/-- A strict and a lenient reading take the same course and skip nothing, or they part where the
outline is damaged: the strict reading fails and the lenient one skips a branch. -/
inductive PartsAtDamage (strict lenient : Noted Stop α) : Prop where
  | together (hsame : strict = lenient) (hnone : SkipsNothing lenient.notices)
  | apart (damage : Damage) (hstrict : strict.result = .error (.fault (.corrupted damage)))
      (hskips : ¬ SkipsNothing lenient.notices)

theorem skipsNothing_nil : SkipsNothing [] := fun _ => List.not_mem_nil

theorem skipsNothing_append {notices more : List Notice} :
    SkipsNothing (notices ++ more) ↔ SkipsNothing notices ∧ SkipsNothing more := by
  simp only [SkipsNothing, List.mem_append, not_or, forall_and]

/-- What the first step of a reading skips, the whole reading does. -/
theorem SkipsNothing.of_bind {x : Noted Stop α} {f : α → Noted Stop β}
    (h : SkipsNothing (x >>= f).notices) : SkipsNothing x.notices := by
  cases hx : x.result with
  | ok a =>
      rw [bind_of_ok hx, skipsNothing_append] at h
      exact h.1
  | error stop =>
      rw [bind_of_error hx] at h
      exact h

theorem PartsAtDamage.bind {x y : Noted Stop α} {f g : α → Noted Stop β}
    (h : PartsAtDamage x y) (hnext : ∀ a, PartsAtDamage (f a) (g a)) :
    PartsAtDamage (x >>= f) (y >>= g) := by
  cases h with
  | apart damage hstrict hskips =>
      refine .apart damage ?_ (mt SkipsNothing.of_bind hskips)
      rw [bind_of_error hstrict]
  | together hsame hnone =>
      subst hsame
      cases hx : x.result with
      | error stop =>
          rw [bind_of_error hx, bind_of_error hx]
          exact .together rfl hnone
      | ok a =>
          rw [bind_of_ok hx, bind_of_ok hx]
          cases hnext a with
          | together hsame hnone' =>
              rw [hsame]
              exact .together rfl (skipsNothing_append.2 ⟨hnone, hnone'⟩)
          | apart damage hstrict hskips =>
              exact .apart damage hstrict fun h => hskips (skipsNothing_append.1 h).2

theorem result_bind_congr {x y : Noted Stop α} {f g : α → Noted Stop β}
    (h : x.result = y.result) (hnext : ∀ a, (f a).result = (g a).result) :
    (x >>= f).result = (y >>= g).result := by
  cases hx : x.result with
  | ok a => rw [bind_of_ok hx, bind_of_ok (h.symm.trans hx), hnext]
  | error stop => rw [bind_of_error hx, bind_of_error (h.symm.trans hx)]

theorem PartsAtDamage.refl {x : Noted Stop α} (h : SkipsNothing x.notices) : PartsAtDamage x x :=
  .together rfl h

theorem passesOn_partsAtDamage : PassesOn fun _ strict lenient => PartsAtDamage strict lenient where
  pure _ := .refl skipsNothing_nil
  bind := PartsAtDamage.bind
  tell h := .refl h
  exhausted := .refl skipsNothing_nil

end Noted

open Noted (SkipsNothing PartsAtDamage)

namespace Outline

variable (outline : Outline ν π)

/-- What is asked about the entries of the outline is answered without the remark that a branch was
skipped, which is the reader's to make. -/
structure Reticent : Prop where
  destination : ∀ node, SkipsNothing (outline.destination node).notices
  page : ∀ node, SkipsNothing (outline.page node).notices

/-- The outline with the same answers, but without remarks. What is noted in reading it, the reader
has noted. -/
def unremarked : Outline ν π :=
  { outline with
    destination := fun node => .ofExcept (outline.destination node).result
    page := fun node => .ofExcept (outline.page node).result }

theorem reticent_unremarked : outline.unremarked.Reticent where
  destination _ := Noted.skipsNothing_nil
  page _ := Noted.skipsNothing_nil

/-- No answer but that to a link is ever that links are broken. -/
structure BreaksOnlyAtLinks : Prop where
  root : ∀ damage, outline.root ≠ .error (.corrupted damage)
  pages : ∀ damage, outline.pages () ≠ .error (.corrupted damage)
  title : ∀ node damage, outline.title node ≠ .error (.corrupted damage)
  destination : ∀ node damage, (outline.destination node).result ≠ .error (.corrupted damage)
  page : ∀ node damage, (outline.page node).result ≠ .error (.corrupted damage)

variable {outline} {settings : Settings}

theorem partsAtDamage_meet (damage : Damage) :
    PartsAtDamage (Settings.meet { settings with tolerance := .strict } damage).inWalk
      (Settings.meet { settings with tolerance := .lenient } damage).inWalk :=
  .apart damage rfl fun h => h damage List.mem_cons_self

theorem partsAtDamage_follow (answer : Except Fault (Option ν)) :
    PartsAtDamage (Settings.follow { settings with tolerance := .strict } answer).inWalk
      (Settings.follow { settings with tolerance := .lenient } answer).inWalk := by
  unfold Settings.follow
  split
  · exact .refl Noted.skipsNothing_nil
  · simp only [Noted.inWalk_bind]
    exact (partsAtDamage_meet _).bind fun _ => .refl Noted.skipsNothing_nil
  · exact .refl Noted.skipsNothing_nil

/-- Readers of different tolerance part only where the outline is damaged. -/
theorem Reticent.compares (h : outline.Reticent) (settings : Settings) :
    Compares (fun _ strict lenient => PartsAtDamage strict lenient) outline outline
      { settings with tolerance := .strict } { settings with tolerance := .lenient } where
  toPassesOn := Noted.passesOn_partsAtDamage
  pageCount_eq := rfl
  label_eq := rfl
  depthLimit_eq := rfl
  rootTitle_eq := rfl
  root := .refl Noted.skipsNothing_nil
  pages := .refl Noted.skipsNothing_nil
  first node := partsAtDamage_follow (outline.first node)
  last node := partsAtDamage_follow (outline.last node)
  next node := partsAtDamage_follow (outline.next node)
  title _ := .refl Noted.skipsNothing_nil
  destination node := .refl (h.destination node)
  page node := .refl (h.page node)
  meet := partsAtDamage_meet

/-- What is read does not hang on remarks. -/
theorem compares_unremarked (outline : Outline ν π) (settings : Settings) :
    Compares (fun _ x y => x.result = y.result) outline outline.unremarked settings settings where
  pure _ := rfl
  bind := Noted.result_bind_congr
  tell _ := rfl
  exhausted := rfl
  pageCount_eq := rfl
  label_eq := rfl
  depthLimit_eq := rfl
  rootTitle_eq := rfl
  root := rfl
  pages := rfl
  first _ := rfl
  last _ := rfl
  next _ := rfl
  title _ := rfl
  destination _ := rfl
  page _ := rfl
  meet _ := rfl

theorem passesOn_undamaged : Noted.PassesOn fun _ reading _ =>
    ∀ damage, reading.result ≠ .error (.fault (.corrupted damage)) where
  pure _ _ := nofun
  bind hx hf damage h := by
    obtain h | ⟨a, -, h⟩ := Noted.result_bind_eq_error.1 h
    · exact hx damage h
    · exact hf a damage h
  tell _ _ := nofun
  exhausted _ := nofun

/-- A lenient reader never fails for a link. -/
theorem follow_undamaged (hlenient : settings.tolerance = .lenient)
    (answer : Except Fault (Option ν)) (damage : Damage) :
    (settings.follow answer).inWalk.result ≠ .error (.fault (.corrupted damage)) := by
  intro h
  obtain ⟨-, hstrict | hkind⟩ := Settings.follow_eq_error.1 (Noted.result_inWalk_eq_fault.1 h)
  · rw [hlenient] at hstrict
    cases hstrict
  · exact hkind rfl

theorem BreaksOnlyAtLinks.compares (h : outline.BreaksOnlyAtLinks)
    (hlenient : settings.tolerance = .lenient) :
    Compares (fun _ reading _ => ∀ damage, reading.result ≠ .error (.fault (.corrupted damage)))
      outline outline settings settings where
  toPassesOn := passesOn_undamaged
  pageCount_eq := rfl
  label_eq := rfl
  depthLimit_eq := rfl
  rootTitle_eq := rfl
  root damage := mt Noted.result_inWalk_eq_fault.1 (h.root damage)
  pages damage := mt Noted.result_inWalk_eq_fault.1 (h.pages damage)
  first _ := follow_undamaged hlenient _
  last _ := follow_undamaged hlenient _
  next _ := follow_undamaged hlenient _
  title node damage := mt Noted.result_inWalk_eq_fault.1 (h.title node damage)
  destination node damage := mt Noted.result_inWalk_eq_fault.1 (h.destination node damage)
  page node damage := mt Noted.result_inWalk_eq_fault.1 (h.page node damage)
  meet damage damage' := by
    rw [Settings.meet, hlenient]
    intro h
    cases h

variable [DecidableEq ν] [BEq π] [Hashable π]

theorem result_readWithin_unremarked (outline : Outline ν π) (settings : Settings) (fuel : Nat) :
    (outline.readWithin settings fuel).result =
      (outline.unremarked.readWithin settings fuel).result :=
  (compares_unremarked outline settings).readWithin fuel

theorem Reticent.readWithin_strict_iff (h : outline.Reticent) {fuel : Nat} {contents : Contents} :
    (outline.readWithin { settings with tolerance := .strict } fuel).result = .ok contents ↔
      (outline.readWithin { settings with tolerance := .lenient } fuel).result = .ok contents ∧
        SkipsNothing
          (outline.readWithin { settings with tolerance := .lenient } fuel).notices := by
  cases (h.compares settings).readWithin fuel with
  | together hsame hnone => rw [hsame, and_iff_left hnone]
  | apart damage hstrict hskips =>
      refine iff_of_false ?_ fun hlenient => hskips hlenient.2
      rw [hstrict]
      nofun

/-- A strict reading succeeds exactly if the lenient reading does and skips nothing, and then they
read the same. If a strict reading fails for anything but damage, so does the lenient one. And a
lenient reading only fails for damage that is found elsewhere than at links. -/
theorem readWithin_tolerance (outline : Outline ν π) (settings : Settings) (fuel : Nat) :
    (∀ contents,
      (outline.readWithin { settings with tolerance := .strict } fuel).result = .ok contents ↔
        (outline.readWithin { settings with tolerance := .lenient } fuel).result = .ok contents ∧
          SkipsNothing
            (outline.unremarked.readWithin { settings with tolerance := .lenient } fuel).notices) ∧
    (outline.Reticent → ∀ contents,
      (outline.readWithin { settings with tolerance := .strict } fuel).result = .ok contents ↔
        (outline.readWithin { settings with tolerance := .lenient } fuel).result = .ok contents ∧
          SkipsNothing
            (outline.readWithin { settings with tolerance := .lenient } fuel).notices) ∧
    (∀ stop,
      (outline.readWithin { settings with tolerance := .strict } fuel).result = .error stop →
      (∀ damage, stop ≠ .fault (.corrupted damage)) →
      (outline.readWithin { settings with tolerance := .lenient } fuel).result = .error stop) ∧
    (outline.BreaksOnlyAtLinks → ∀ damage,
      (outline.readWithin { settings with tolerance := .lenient } fuel).result ≠
        .error (.fault (.corrupted damage))) := by
  refine ⟨?_, ?_, ?_, ?_⟩
  · intro contents
    rw [result_readWithin_unremarked outline, result_readWithin_unremarked outline]
    exact outline.reticent_unremarked.readWithin_strict_iff
  · intro hreticent contents
    exact hreticent.readWithin_strict_iff
  · intro stop hstop hother
    rw [result_readWithin_unremarked outline] at hstop ⊢
    cases (outline.reticent_unremarked.compares settings).readWithin fuel with
    | together hsame hnone => rwa [← hsame]
    | apart damage hstrict hskips =>
        rw [hstrict, Except.error.injEq] at hstop
        exact absurd hstop.symm (hother damage)
  · intro hbreaks
    exact (hbreaks.compares rfl).readWithin fuel

end Outline

/-! ## Tables -/

namespace OutlineTable

variable {table : OutlineTable}

/-- A table makes no remarks. -/
theorem reticent (table : OutlineTable) : table.toOutline.Reticent where
  destination _ := Noted.skipsNothing_nil
  page _ := Noted.skipsNothing_nil

/-- What a table answers to a question, a row of it does, or else the node is missing. -/
theorem answer_ne_corrupted {ask : TableRow → Except Fault α} {damage : Damage}
    (h : ∀ row ∈ table.rows, ask row.2 ≠ .error (.corrupted damage)) (node : Int) :
    table.answer ask node ≠ .error (.corrupted damage) := by
  unfold answer row?
  cases hrow : table.rows.find? fun row => row.1 = node with
  | none => nofun
  | some row => exact h row (List.mem_of_find?_eq_some hrow)

end OutlineTable

/-- A chapter with a section that no row describes, and a second chapter. -/
def gap : OutlineTable where
  pageCount := 5
  root := .ok (some 0)
  pages := .ok ["p1", "p2"]
  rows := [
    (0, { first := .ok (some 1) }),
    (1, { first := .ok (some 2), next := .ok (some 3), title := .ok "Chapter 1",
          page := .ok (some "p1") }),
    (3, { title := .ok "Chapter 2", page := .ok (some "p2") })]

theorem breaksOnlyAtLinks_gap : gap.toOutline.BreaksOnlyAtLinks where
  root _ := nofun
  pages _ := nofun
  title node damage := OutlineTable.answer_ne_corrupted (by simp [gap]) node
  destination node damage := OutlineTable.answer_ne_corrupted (by simp [gap]) node
  page node damage := OutlineTable.answer_ne_corrupted (by simp [gap]) node

/-- Where the section is cut for its depth, a strict reader does not go on. -/
theorem forestWithin_gap_strict :
    (gap.toOutline.forestWithin { tolerance := .strict, depthLimit := 1 } 3).result =
      .error (.fault (.corrupted (.tooDeep 1))) := by
  simp only [Outline.forestWithin, PageIndex.number?_ofList]
  decide +kernel

/-- A lenient reader goes on to the second chapter. -/
theorem forestWithin_gap_lenient :
    (gap.toOutline.forestWithin { tolerance := .lenient, depthLimit := 1 } 3).result =
      .ok (.cons 1 ⟨"Chapter 1", 1, 2, 0⟩ .nil (.cons 3 ⟨"Chapter 2", 2, 5, 0⟩ .nil .nil)) := by
  simp only [Outline.forestWithin, PageIndex.number?_ofList]
  decide +kernel

/-- The section itself cannot be read. -/
theorem forestWithin_gap_deep :
    (gap.toOutline.forestWithin { tolerance := .strict, depthLimit := 2 } 3).result =
      .error (.fault (.missing "node 2")) := by
  simp only [Outline.forestWithin, PageIndex.number?_ofList]
  decide +kernel

/-- Two readers of the gap differ where the section is cut for its depth, as the lenient one notes,
and not where the section is missing. -/
theorem tolerance_gap :
    (∃ contents,
      (gap.toOutline.readWithin { tolerance := .lenient, depthLimit := 1 } 3).result =
        .ok contents) ∧
    ¬ SkipsNothing
      (gap.toOutline.readWithin { tolerance := .lenient, depthLimit := 1 } 3).notices ∧
    (gap.toOutline.readWithin { tolerance := .lenient, depthLimit := 2 } 3).result =
      .error (.fault (.missing "node 2")) ∧
    ∀ damage, (gap.toOutline.readWithin { tolerance := .lenient, depthLimit := 2 } 3).result ≠
      .error (.fault (.corrupted damage)) := by
  obtain ⟨-, hskips, -, -⟩ := Outline.readWithin_tolerance gap.toOutline { depthLimit := 1 } 3
  obtain ⟨-, -, hfails, hbreaks⟩ :=
    Outline.readWithin_tolerance gap.toOutline { depthLimit := 2 } 3
  have hlenient := Outline.readWithin_eq_ok.2 ⟨_, forestWithin_gap_lenient, rfl⟩
  have hstrict := Outline.readWithin_eq_error.2 forestWithin_gap_strict
  have hdeep := Outline.readWithin_eq_error.2 forestWithin_gap_deep
  refine ⟨⟨_, hlenient⟩, ?_, hfails _ hdeep nofun, hbreaks breaksOnlyAtLinks_gap⟩
  intro hnone
  cases hstrict.symm.trans ((hskips (OutlineTable.reticent gap) _).2 ⟨hlenient, hnone⟩)

end Bookmarks
