/-
# Declared last children

A node may declare any of its children to be the last, or one that is not there. At the end of each
chain of siblings the reader looks at the declaration and remarks on it where it does not fit, and
that is all: what is read is the same, whatever is declared (`Outline.readWithin_declaring`). Only
where a declaration cannot be had at all, and the reader does not put up with that, the reading
fails.
-/
import Bookmarks.Proofs.Walk.Tolerance

namespace Bookmarks

variable {ν π α β : Type}

namespace Noted

/-- What is noted, warnings apart. -/
def unwarned (notices : List Notice) : List Notice :=
  notices.filter fun notice => notice.severity ≠ .warning

theorem unwarned_append (notices more : List Notice) :
    unwarned (notices ++ more) = unwarned notices ++ unwarned more :=
  List.filter_append _ _

/-- Two readings come to the same and note the same, warnings apart. -/
structure DiffersInWarnings (x y : Noted Stop α) : Prop where
  result_eq : x.result = y.result
  notices_eq : unwarned x.notices = unwarned y.notices

theorem DiffersInWarnings.refl (x : Noted Stop α) : DiffersInWarnings x x :=
  ⟨rfl, rfl⟩

theorem DiffersInWarnings.bind {x y : Noted Stop α} {f g : α → Noted Stop β}
    (h : DiffersInWarnings x y) (hnext : ∀ a, DiffersInWarnings (f a) (g a)) :
    DiffersInWarnings (x >>= f) (y >>= g) := by
  cases hx : x.result with
  | error stop =>
      rw [bind_of_error hx, bind_of_error (h.result_eq.symm.trans hx)]
      exact ⟨rfl, h.notices_eq⟩
  | ok a =>
      rw [bind_of_ok hx, bind_of_ok (h.result_eq.symm.trans hx)]
      refine ⟨(hnext a).result_eq, ?_⟩
      rw [unwarned_append, unwarned_append, h.notices_eq, (hnext a).notices_eq]

theorem passesOn_differsInWarnings : PassesOn fun _ x y => DiffersInWarnings x y where
  pure a := .refl (Pure.pure a)
  bind := DiffersInWarnings.bind
  tell _ := .refl _
  exhausted := .refl _

/-- A reading that succeeds, and leaves nothing but warnings. -/
structure OnlyWarns (x : Noted Fault α) : Prop where
  succeeds : ∃ a, x.result = .ok a
  notices_eq : unwarned x.notices = []

namespace OnlyWarns

theorem pure (a : α) : OnlyWarns (Pure.pure a : Noted Fault α) :=
  ⟨⟨a, rfl⟩, rfl⟩

theorem note {notice : Notice} (h : notice.severity = .warning) : OnlyWarns (note notice) :=
  ⟨⟨(), rfl⟩, by simp [Noted.note, unwarned, h]⟩

theorem bind {x : Noted Fault α} {f : α → Noted Fault β} (h : OnlyWarns x)
    (hnext : ∀ a, OnlyWarns (f a)) : OnlyWarns (x >>= f) := by
  obtain ⟨a, ha⟩ := h.succeeds
  rw [bind_of_ok ha]
  refine ⟨(hnext a).succeeds, ?_⟩
  rw [unwarned_append, h.notices_eq, (hnext a).notices_eq, List.append_nil]

/-- Readings that come to nothing but warnings differ in no more. -/
theorem differsInWarnings {x y : Noted Fault Unit} (hx : OnlyWarns x) (hy : OnlyWarns y) :
    DiffersInWarnings x.inWalk y.inWalk := by
  obtain ⟨⟨⟩, hx'⟩ := hx.succeeds
  obtain ⟨⟨⟩, hy'⟩ := hy.succeeds
  constructor
  · rw [inWalk, inWalk, result_mapError, result_mapError, hx', hy']
  · rw [inWalk, inWalk, notices_mapError, notices_mapError, hx.notices_eq, hy.notices_eq]

end OnlyWarns

end Noted

open Noted (DiffersInWarnings OnlyWarns unwarned)

/-- A reader goes on from an answer to a link: there is one, or the link is broken and the reader
puts up with that. -/
def Settings.GoesOn (settings : Settings) (answer : Except Fault (Option ν)) : Prop :=
  (∃ target, answer = .ok target) ∨
    settings.tolerance = .lenient ∧ ∃ damage, answer = .error (.corrupted damage)

theorem Settings.GoesOn.follow {settings : Settings} {answer : Except Fault (Option ν)}
    (h : settings.GoesOn answer) : OnlyWarns (settings.follow answer) := by
  obtain ⟨target, rfl⟩ | ⟨hlenient, damage, rfl⟩ := h
  · exact .pure target
  · have hmeet : settings.meet damage = Noted.note (.branchSkipped damage) := by
      rw [meet, hlenient]
    change OnlyWarns (settings.meet damage >>= fun _ => pure none)
    rw [hmeet]
    exact .bind (.note rfl) fun _ => .pure none

namespace Outline

variable {outline : Outline ν π} {settings : Settings}

/-- The outline with other declarations of last children. -/
def declaring (outline : Outline ν π) (last : ν → Except Fault (Option ν)) : Outline ν π :=
  { outline with last }

/-- Checking a declaration that the reader goes on from leads to nothing but warnings. -/
theorem onlyWarns_checkLast [DecidableEq ν] {scope : ν} (h : settings.GoesOn (outline.last scope))
    (reached : Option ν) : OnlyWarns (outline.checkLast settings scope reached) := by
  apply OnlyWarns.bind h.follow
  intro declared
  split
  · split
    · exact .pure ()
    · exact .note rfl
  · exact .pure ()

/-- Outlines that declare different last children give the same answers otherwise. -/
theorem comparesButLast_declaring (outline : Outline ν π)
    (last : ν → Except Fault (Option ν)) (settings : Settings) :
    ComparesButLast (fun _ x y => DiffersInWarnings x y) outline (outline.declaring last) settings
      settings where
  toPassesOn := Noted.passesOn_differsInWarnings
  pageCount_eq := rfl
  label_eq := rfl
  depthLimit_eq := rfl
  rootTitle_eq := rfl
  root := .refl _
  pages := .refl _
  first _ := .refl _
  next _ := .refl _
  title _ := .refl _
  destination _ := .refl _
  page _ := .refl _
  meet _ := .refl _

/-- Two outlines that differ in nothing but the last children that they declare are read alike, as
long as the reader goes on from each of the declarations: the reading comes to the same table or to
the same fault, and leaves the same notices, warnings apart. -/
theorem readWithin_declaring [DecidableEq ν] [BEq π] [Hashable π] (outline : Outline ν π)
    (last : ν → Except Fault (Option ν)) (settings : Settings)
    (hdeclared : ∀ node, settings.GoesOn (outline.last node))
    (hlast : ∀ node, settings.GoesOn (last node)) (fuel : Nat) :
    DiffersInWarnings (outline.readWithin settings fuel)
      ((outline.declaring last).readWithin settings fuel) := by
  apply (comparesButLast_declaring outline last settings).readWithin
  intro scope reached
  exact (onlyWarns_checkLast (hdeclared scope) reached).differsInWarnings
    (onlyWarns_checkLast (hlast scope) reached)

end Outline

/-- Declarations that fit nothing: the first of two chapters is declared to be the last, and no
other declaration can be read. -/
def misdeclared (node : Int) : Except Fault (Option Int) :=
  if node = 0 then .ok (some 1) else .error (.corrupted (.reported "no such entry"))

theorem goesOn_misdeclared (node : Int) :
    Settings.GoesOn { tolerance := .lenient, depthLimit := 1 } (misdeclared node) := by
  unfold misdeclared
  split
  · exact Or.inl ⟨_, rfl⟩
  · exact Or.inr ⟨rfl, _, rfl⟩

/-- What a lenient reader makes of the gap if nothing is declared. -/
theorem forestWithin_gap_silent :
    ((gap.toOutline.declaring fun _ => .ok none).forestWithin
        { tolerance := .lenient, depthLimit := 1 } 3).result =
      .ok (.cons 1 ⟨"Chapter 1", 1, 2, 0⟩ .nil (.cons 3 ⟨"Chapter 2", 2, 5, 0⟩ .nil .nil)) := by
  simp only [Outline.forestWithin, PageIndex.number?_ofList]
  decide +kernel

/-- Declarations that fit nothing leave warnings, and do not change what is read of the gap. -/
theorem declaring_gap :
    let settings : Settings := { tolerance := .lenient, depthLimit := 1 }
    let silent := gap.toOutline.declaring fun _ => .ok none
    let misled := silent.declaring misdeclared
    (∀ node, settings.GoesOn (silent.last node)) ∧ (∀ node, settings.GoesOn (misdeclared node)) ∧
      (silent.readWithin settings 3).notices ≠ (misled.readWithin settings 3).notices ∧
      DiffersInWarnings (silent.readWithin settings 3) (misled.readWithin settings 3) ∧
      ∃ contents, (misled.readWithin settings 3).result = .ok contents := by
  intro settings silent misled
  have hsilent : ∀ node, settings.GoesOn (silent.last node) := fun _ => Or.inl ⟨_, rfl⟩
  have hread := Outline.readWithin_eq_ok.2 ⟨_, forestWithin_gap_silent, rfl⟩
  have hdiffers := Outline.readWithin_declaring silent misdeclared settings hsilent
    goesOn_misdeclared 3
  refine ⟨hsilent, goesOn_misdeclared, ?_, hdiffers, _, hdiffers.result_eq.symm.trans hread⟩
  simp only [Outline.readWithin_eq, Outline.forestWithin, PageIndex.number?_ofList]
  decide +kernel

end Bookmarks
