/-
# Outlines that answer

An outline answers if all that is asked about the entries it reaches is answered, and if a link
that cannot be followed is at worst broken. Reading such an outline can only fail for damage, and
only if the reader is strict. An outline that answers all but, perhaps, some titles is navigable,
and a title that cannot be read is one more reason to fail.
-/
import Bookmarks.Proofs.Walk.Breakdown
import Bookmarks.Proofs.Walk.Reach

namespace Bookmarks

theorem Fault.eq_corrupted_of_kind {fault : Fault} (h : fault.kind = .corrupted) :
    ∃ damage, fault = .corrupted damage := by
  cases fault with
  | corrupted damage => exact ⟨damage, rfl⟩
  | _ => cases h

namespace Outline

variable {ν π : Type} {outline : Outline ν π} {number? : π → Option Nat} {settings : Settings}
  {root : ν}

variable (outline root) in
/-- Nothing is wrong with the answers of an outline about its root and about the entries reached
below it but, possibly, broken links. -/
structure Answers : Prop where
  pages : ∃ pages, outline.pages () = .ok pages
  title : ∀ {entry}, outline.Reachable root entry → ∃ title, outline.title entry = .ok title
  destination : ∀ {entry}, outline.Reachable root entry →
    ∃ destination, (outline.destination entry).result = .ok destination
  page : ∀ {entry}, outline.Reachable root entry →
    ∃ page, (outline.page entry).result = .ok page
  first : ∀ {node fault}, node = root ∨ outline.Reachable root node →
    outline.first node = .error fault → fault.kind = .corrupted
  last : ∀ {node fault}, node = root ∨ outline.Reachable root node →
    outline.last node = .error fault → fault.kind = .corrupted
  next : ∀ {entry fault}, outline.Reachable root entry →
    outline.next entry = .error fault → fault.kind = .corrupted

variable (outline root) in
/-- Nothing but the titles of entries and broken links can be in the way of a reader who goes from
the root of an outline to the entries reached below it. -/
structure Navigable : Prop where
  destination : ∀ {entry}, outline.Reachable root entry →
    ∃ destination, (outline.destination entry).result = .ok destination
  page : ∀ {entry}, outline.Reachable root entry →
    ∃ page, (outline.page entry).result = .ok page
  first : ∀ {node fault}, node = root ∨ outline.Reachable root node →
    outline.first node = .error fault → fault.kind = .corrupted
  last : ∀ {node fault}, node = root ∨ outline.Reachable root node →
    outline.last node = .error fault → fault.kind = .corrupted
  next : ∀ {entry fault}, outline.Reachable root entry →
    outline.next entry = .error fault → fault.kind = .corrupted

theorem Answers.navigable (h : outline.Answers root) : outline.Navigable root where
  destination := h.destination
  page := h.page
  first := h.first
  last := h.last
  next := h.next

variable (outline root) in
/-- The title of an entry that is reached cannot be read. -/
def TitleFault (fault : Fault) : Prop :=
  ∃ entry, outline.Reachable root entry ∧ outline.title entry = .error fault

/-- What a strict reader fails for. -/
def StrictFault (settings : Settings) (fault : Fault) : Prop :=
  settings.tolerance = .strict ∧ ∃ damage, fault = .corrupted damage

theorem strictFault_of_follow {answer : Except Fault (Option ν)} {fault : Fault}
    (hanswer : ∀ {fault}, answer = .error fault → fault.kind = .corrupted)
    (h : (settings.follow answer).result = .error fault) : StrictFault settings fault := by
  rcases Settings.follow_eq_error.1 h with ⟨herror, hstrict | hkind⟩
  · exact ⟨hstrict, Fault.eq_corrupted_of_kind (hanswer herror)⟩
  · exact absurd (hanswer herror) hkind

namespace Navigable

variable (h : outline.Navigable root)
include h

theorem exists_pageNumber (number? : π → Option Nat) {entry : Option ν}
    (hentry : ∀ node, entry = some node → outline.Reachable root node) :
    ∃ number, (outline.pageNumber number? entry).result = .ok number := by
  cases entry with
  | none => exact ⟨unknownPage, rfl⟩
  | some node =>
      rcases h.page (hentry node rfl) with ⟨page, hpage⟩
      exact ⟨_, pageNumber_some_eq_ok.2 ⟨page, hpage, rfl⟩⟩

theorem exists_position {entry : ν} (hentry : outline.Reachable root entry) :
    ∃ position, (outline.position entry).result = .ok position := by
  rcases h.destination hentry with ⟨destination, hdestination⟩
  exact ⟨_, result_position hdestination⟩

theorem endPage_eq_error {entry : ν} (hentry : outline.Reachable root entry) {next : Option ν}
    (hnext : ∀ node, next = some node → outline.Reachable root node) {fault : Fault}
    (hfinish : (outline.endPage number? settings entry next).result = .error fault) :
    (settings.follow (outline.first entry)).result = .error fault := by
  rcases Noted.result_bind_eq_error.1 hfinish with hsibling | ⟨sibling, _, hfinish⟩
  · rcases h.exists_pageNumber number? hnext with ⟨number, hnumber⟩
    rw [hnumber] at hsibling
    cases hsibling
  · split at hfinish
    · cases hfinish
    · rcases Noted.result_bind_eq_error.1 hfinish with hfirst | ⟨child, hchild, hfinish⟩
      · exact hfirst
      rcases Noted.result_bind_eq_error.1 hfinish with hbelow | ⟨below, _, hfinish⟩
      · have hreach : ∀ node, child = some node → outline.Reachable root node := by
          intro node hnode
          subst hnode
          exact hentry.of_leads (Or.inl (Settings.follow_eq_ok_some.1 hchild))
        rcases h.exists_pageNumber number? hreach with ⟨number, hnumber⟩
        rw [hnumber] at hbelow
        cases hbelow
      · split at hfinish
        · cases hfinish
        · split at hfinish <;> cases hfinish

/-- An entry is read unless one of its links or its title is in the way. -/
theorem readEntry_eq_error {entry : ν} (hentry : outline.Reachable root entry) {fault : Fault}
    (hread : (outline.readEntry number? settings entry).result = .error fault) :
    (settings.follow (outline.next entry)).result = .error fault ∨
      (settings.follow (outline.first entry)).result = .error fault ∨
      outline.title entry = .error fault := by
  rcases Noted.result_bind_eq_error.1 hread with hstart | ⟨_, _, hread⟩
  · have hsome : ∀ node, some entry = some node → outline.Reachable root node := by
      intro node hnode
      cases hnode
      exact hentry
    rcases h.exists_pageNumber number? hsome with ⟨number, hnumber⟩
    rw [hnumber] at hstart
    cases hstart
  rcases Noted.result_bind_eq_error.1 hread with hfollow | ⟨next, hfollow, hread⟩
  · exact Or.inl hfollow
  rcases Noted.result_bind_eq_error.1 hread with hfinish | ⟨_, _, hread⟩
  · right
    left
    apply h.endPage_eq_error hentry _ hfinish
    intro node hnode
    subst hnode
    exact hentry.of_leads (Or.inr (Settings.follow_eq_ok_some.1 hfollow))
  rcases Noted.result_bind_eq_error.1 hread with hposition | ⟨_, _, hread⟩
  · rcases h.exists_position hentry with ⟨position, hok⟩
    rw [hok] at hposition
    cases hposition
  rcases Noted.result_bind_eq_error.1 hread with htitle | ⟨_, _, hread⟩
  · exact Or.inr (Or.inr htitle)
  · cases hread

theorem strictFault_of_opens {scope : ν} (hscope : scope = root ∨ outline.Reachable root scope)
    {depth : Nat} {fault : Fault} (hfails : OpenFails outline settings scope depth fault) :
    StrictFault settings fault := by
  cases hfails with
  | first hfirst => exact strictFault_of_follow (h.first hscope) hfirst
  | deep _ _ hstrict => exact ⟨hstrict, _, rfl⟩
  | last hlast => exact strictFault_of_follow (h.last hscope) hlast

variable [DecidableEq ν]

theorem guarded : Guarded outline number? settings
    (fun _ current _ => ∀ entry, current = some entry → outline.Reachable root entry)
    (fun fault => StrictFault settings fault ∨ outline.TitleFault root fault) where
  seen _ _ hstrict := Or.inl ⟨hstrict, _, rfl⟩
  read hreach _ hread := by
    rcases h.readEntry_eq_error (hreach _ rfl) hread with hnext | hfirst | htitle
    · exact Or.inl (strictFault_of_follow (h.next (hreach _ rfl)) hnext)
    · exact Or.inl (strictFault_of_follow (h.first (Or.inr (hreach _ rfl))) hfirst)
    · exact Or.inr ⟨_, hreach _ rfl, htitle⟩
  opens hreach _ hfails := Or.inl (h.strictFault_of_opens (Or.inr (hreach _ rfl)) hfails)
  below hreach _ hfirst _ := by
    intro entry hentry
    subst hentry
    exact (hreach _ rfl).of_leads (Or.inl (Settings.follow_eq_ok_some.1 hfirst))
  after hreach _ hread _ _ := fun _ hnext =>
    (hreach _ rfl).of_leads (Or.inr (next_eq_of_readEntry hread hnext))

/-- A walk through an outline that can be navigated fails for damage, if it is strict, or for a
title. -/
theorem walk_fault {fuel : Nat} {fault : Fault}
    (hwalk : (outline.walk number? settings fuel root).result = .error (.fault fault)) :
    StrictFault settings fault ∨ outline.TitleFault root fault := by
  apply Outline.walk_fault h.guarded _ _ hwalk
  · intro fault hfails
    exact Or.inl (h.strictFault_of_opens (Or.inl rfl) hfails)
  intro first hfirst _ entry hentry
  subst hentry
  exact .of_first (Settings.follow_eq_ok_some.1 hfirst)

end Navigable

namespace Answers

variable (h : outline.Answers root)
include h

/-- An entry is read unless one of its links is in the way. -/
theorem readEntry_eq_error {entry : ν} (hentry : outline.Reachable root entry) {fault : Fault}
    (hread : (outline.readEntry number? settings entry).result = .error fault) :
    (settings.follow (outline.next entry)).result = .error fault ∨
      (settings.follow (outline.first entry)).result = .error fault := by
  rcases h.navigable.readEntry_eq_error hentry hread with hnext | hfirst | htitle
  · exact Or.inl hnext
  · exact Or.inr hfirst
  · rcases h.title hentry with ⟨title, hok⟩
    rw [hok] at htitle
    cases htitle

/-- A walk through an outline that answers only fails for damage, and only if it is strict. -/
theorem walk_fault [DecidableEq ν] {fuel : Nat} {fault : Fault}
    (hwalk : (outline.walk number? settings fuel root).result = .error (.fault fault)) :
    StrictFault settings fault := by
  rcases h.navigable.walk_fault hwalk with hstrict | ⟨entry, hentry, htitle⟩
  · exact hstrict
  · rcases h.title hentry with ⟨title, hok⟩
    rw [hok] at htitle
    cases htitle

end Answers

end Outline

end Bookmarks
