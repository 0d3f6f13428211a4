/-
# Outlines that are alike

Two outlines are alike if their entries stand for each other: what is asked about an entry of one
and about its counterpart in the other has the same answer, links lead to counterparts, and faults
are of one kind. Nothing is asked of what entries and pages are called. Walks through two such
outlines take the same course, so the tables of contents read from them are the same
(`Alike.yields`), and if the links of one make a tree, those of the other do (`Alike.isTree`).
-/
import Bookmarks.Proofs.Walk.Reading
import Bookmarks.Proofs.Walk.Tree

namespace Bookmarks

variable {ν μ π ρ : Type} {R : ν → μ → Prop}

/-- Answers with related values, or with faults of one kind. -/
inductive SameAnswer {α β : Type} (R : α → β → Prop) : Except Fault α → Except Fault β → Prop where
  | ok {value : α} {other : β} (h : R value other) : SameAnswer R (.ok value) (.ok other)
  | error {fault other : Fault} (h : fault.kind = other.kind) :
      SameAnswer R (.error fault) (.error other)

namespace SameAnswer

variable {α β : Type} {S : α → β → Prop} {answer : Except Fault α} {other : Except Fault β}

theorem symm (h : SameAnswer S answer other) : SameAnswer (flip S) other answer := by
  cases h with
  | ok h => exact .ok h
  | error h => exact .error h.symm

theorem mono {T : α → β → Prop} (h : SameAnswer S answer other)
    (hmono : ∀ {value value'}, S value value' → T value value') : SameAnswer T answer other := by
  cases h with
  | ok h => exact .ok (hmono h)
  | error h => exact .error h

theorem exists_ok (h : SameAnswer S answer other) {value : α} (hvalue : answer = .ok value) :
    ∃ value', other = .ok value' ∧ S value value' := by
  cases h with
  | ok h => cases hvalue; exact ⟨_, rfl, h⟩
  | error _ => cases hvalue

theorem intact (h : SameAnswer S answer other) (hother : ∃ value, other = .ok value) :
    ∃ value, answer = .ok value := by
  rcases hother with ⟨_, hother⟩
  rcases h.symm.exists_ok hother with ⟨value, hvalue, _⟩
  exact ⟨value, hvalue⟩

theorem exists_target {answer : Except Fault (Option ν)} {other : Except Fault (Option μ)}
    (h : SameAnswer (Option.Rel R) answer other) {target : ν}
    (htarget : answer = .ok (some target)) :
    ∃ target', R target target' ∧ other = .ok (some target') := by
  rcases h.exists_ok htarget with ⟨_, hother, hrel⟩
  cases hrel with
  | some hrel => exact ⟨_, hrel, hother⟩

theorem eq_ok {answer other : Except Fault α} (h : SameAnswer Eq answer other) {value : α}
    (hvalue : answer = .ok value) : other = .ok value := by
  rcases h.exists_ok hvalue with ⟨_, hother, hsame⟩
  rw [hother, hsame]

end SameAnswer

theorem optionRel_flip {first : Option ν} {second : Option μ} (h : Option.Rel R first second) :
    Option.Rel (flip R) second first := by
  cases h with
  | some h => exact .some h
  | none => exact .none

/-- Links that have the same answer are followed to counterparts. -/
theorem Settings.follow_alike {settings : Settings} {answer : Except Fault (Option ν)}
    {other : Except Fault (Option μ)} (h : SameAnswer (Option.Rel R) answer other)
    {target : Option ν} (htarget : (settings.follow answer).result = .ok target) :
    ∃ target', (settings.follow other).result = .ok target' ∧ Option.Rel R target target' := by
  cases h with
  | ok h =>
      rw [Settings.follow_of_ok rfl, Except.ok.injEq] at htarget
      subst htarget
      exact ⟨_, Settings.follow_of_ok rfl, h⟩
  | @error fault fault' h =>
      cases target with
      | some target => cases Settings.follow_eq_ok_some.1 htarget
      | none =>
          rcases Settings.follow_eq_ok_none.1 htarget with hnone | ⟨hlenient, damage, hdamage⟩
          · cases hnone
          · cases hdamage
            rcases Fault.eq_corrupted_of_kind h.symm with ⟨damage', rfl⟩
            exact ⟨none, Settings.follow_eq_ok_none.2 (Or.inr ⟨hlenient, damage', rfl⟩), .none⟩

namespace Outline

/-- The entries of two outlines that `R` relates stand for each other. -/
structure Alike (R : ν → μ → Prop) (first : Outline ν π) (firstNumber? : π → Option Nat)
    (second : Outline μ ρ) (secondNumber? : ρ → Option Nat) : Prop where
  pageCount_eq : first.pageCount = second.pageCount
  eq_iff : ∀ {entry entry' other other'}, R entry other → R entry' other' →
    (entry = entry' ↔ other = other')
  first_alike : ∀ {entry other}, R entry other →
    SameAnswer (Option.Rel R) (first.first entry) (second.first other)
  last_alike : ∀ {entry other}, R entry other →
    SameAnswer (Option.Rel R) (first.last entry) (second.last other)
  next_alike : ∀ {entry other}, R entry other →
    SameAnswer (Option.Rel R) (first.next entry) (second.next other)
  title_alike : ∀ {entry other}, R entry other →
    SameAnswer Eq (first.title entry) (second.title other)
  position_alike : ∀ {entry other}, R entry other →
    SameAnswer Eq (first.position entry).result (second.position other).result
  pageNumber_alike : ∀ {entry other}, R entry other →
    SameAnswer Eq (first.pageNumber firstNumber? (some entry)).result
      (second.pageNumber secondNumber? (some other)).result

end Outline

/-- Forests of the same shape with the same headings, from nodes that are related. -/
inductive Forest.Alike (R : ν → μ → Prop) : Forest ν → Forest μ → Prop where
  | nil : Forest.Alike R .nil .nil
  | cons {node : ν} {other : μ} {heading : Heading} {below after : Forest ν}
      {below' after' : Forest μ} (hnode : R node other) (hbelow : Forest.Alike R below below')
      (hafter : Forest.Alike R after after') :
      Forest.Alike R (.cons node heading below after) (.cons other heading below' after')

namespace Forest.Alike

variable {forest : Forest ν} {other : Forest μ}

theorem size_eq (h : forest.Alike R other) : forest.size = other.size := by
  induction h with
  | nil => rfl
  | cons _ _ _ ihBelow ihAfter => rw [Forest.size, Forest.size, ihBelow, ihAfter]

theorem topNumbers_eq (h : forest.Alike R other) (start : Nat) :
    forest.topNumbers start = other.topNumbers start := by
  induction h generalizing start with
  | nil => rfl
  | cons _ hbelow _ _ ihAfter =>
      rw [Forest.topNumbers, Forest.topNumbers, hbelow.size_eq, ihAfter]

theorem sectionsOf_eq (h : forest.Alike R other) (parent : Nat) (level : Int) (start : Nat) :
    Contents.sectionsOf parent level start forest =
      Contents.sectionsOf parent level start other := by
  induction h generalizing parent level start with
  | nil => rfl
  | cons _ hbelow _ ihBelow ihAfter =>
      rw [Contents.sectionsOf, Contents.sectionsOf, hbelow.topNumbers_eq, ihBelow,
        hbelow.size_eq, ihAfter]

/-- Forests that are alike make the same table of contents. -/
theorem ofForest_eq (h : forest.Alike R other) (title : String) (pageCount : Int) :
    Contents.ofForest title pageCount forest = Contents.ofForest title pageCount other := by
  simp only [Contents.ofForest, h.topNumbers_eq, h.sectionsOf_eq]

end Forest.Alike

namespace Outline

variable {first : Outline ν π} {firstNumber? : π → Option Nat} {second : Outline μ ρ}
  {secondNumber? : ρ → Option Nat} {settings : Settings}

/-- Lists with the same entries, as far as these have counterparts. -/
def SameSeen (R : ν → μ → Prop) (seen : List ν) (seen' : List μ) : Prop :=
  ∀ entry other, R entry other → (entry ∈ seen ↔ other ∈ seen')

/-- Nodes whose first and last children are counterparts are entered alike. -/
theorem Opens.alike {scope : ν} {scope' : μ} {depth : Nat} {opened : Option ν}
    (h : Opens first settings scope depth opened)
    (hfirst : SameAnswer (Option.Rel R) (first.first scope) (second.first scope'))
    (hlast : SameAnswer (Option.Rel R) (first.last scope) (second.last scope')) :
    ∃ opened', Option.Rel R opened opened' ∧ Opens second settings scope' depth opened' := by
  cases h with
  | cut hfollow hdeep hlenient =>
      rcases Settings.follow_alike hfirst hfollow with ⟨_, hfollow', hrel⟩
      cases hrel with
      | some _ => exact ⟨none, .none, .cut hfollow' hdeep hlenient⟩
  | enter hfollow hdepth hdeclared =>
      rcases Settings.follow_alike hfirst hfollow with ⟨opened', hfollow', hrel⟩
      rcases Settings.follow_alike hlast hdeclared with ⟨_, hdeclared', _⟩
      have hsome : opened'.isSome = opened.isSome := by cases hrel <;> rfl
      exact ⟨opened', hrel, .enter hfollow' (hsome ▸ hdepth) hdeclared'⟩

namespace Alike

theorem symm (h : Alike R first firstNumber? second secondNumber?) :
    Alike (flip R) second secondNumber? first firstNumber? where
  pageCount_eq := h.pageCount_eq.symm
  eq_iff hentry hother := (h.eq_iff hentry hother).symm
  first_alike hentry := (h.first_alike hentry).symm.mono optionRel_flip
  last_alike hentry := (h.last_alike hentry).symm.mono optionRel_flip
  next_alike hentry := (h.next_alike hentry).symm.mono optionRel_flip
  title_alike hentry := (h.title_alike hentry).symm.mono Eq.symm
  position_alike hentry := (h.position_alike hentry).symm.mono Eq.symm
  pageNumber_alike hentry := (h.pageNumber_alike hentry).symm.mono Eq.symm

variable (h : Alike R first firstNumber? second secondNumber?)
include h

theorem pageNumber {entry : Option ν} {other : Option μ} (hrel : Option.Rel R entry other)
    {number : Int} (hnumber : (first.pageNumber firstNumber? entry).result = .ok number) :
    (second.pageNumber secondNumber? other).result = .ok number := by
  cases hrel with
  | some hentry => exact (h.pageNumber_alike hentry).eq_ok hnumber
  | none => exact hnumber

theorem endPage {entry : ν} {other : μ} (hentry : R entry other) {next : Option ν}
    {next' : Option μ} (hnext : Option.Rel R next next') {finish : Int}
    (hfinish : (first.endPage firstNumber? settings entry next).result = .ok finish) :
    (second.endPage secondNumber? settings other next').result = .ok finish := by
  rcases endPage_eq_ok.1 hfinish with ⟨sibling, hsibling, hend⟩
  apply endPage_eq_ok.2
  refine ⟨sibling, h.pageNumber hnext hsibling, ?_⟩
  rcases hend with hknown | ⟨hunknown, child, page, hchild, hpage, rfl⟩
  · left
    exact hknown
  · right
    rcases Settings.follow_alike (h.first_alike hentry) hchild with ⟨child', hchild', hrel⟩
    refine ⟨hunknown, child', page, hchild', h.pageNumber hrel hpage, ?_⟩
    rw [h.pageCount_eq]
    have hnextNone : next.isNone = next'.isNone := by cases hnext <;> rfl
    have hchildNone : child.isNone = child'.isNone := by cases hrel <;> rfl
    rw [hnextNone, hchildNone]

/-- Counterparts are read alike. -/
theorem readEntry {entry : ν} {other : μ} (hentry : R entry other) {read : Entry ν}
    (hread : (first.readEntry firstNumber? settings entry).result = .ok read) :
    ∃ next', Option.Rel R read.next next' ∧
      (second.readEntry secondNumber? settings other).result = .ok ⟨read.heading, next'⟩ := by
  rcases readEntry_eq_ok.1 hread with ⟨hstart, hnext, hfinish, hposition, htitle⟩
  rcases Settings.follow_alike (h.next_alike hentry) hnext with ⟨next', hnext', hrel⟩
  refine ⟨next', hrel, readEntry_eq_ok.2 ⟨?_, hnext', ?_, ?_, ?_⟩⟩
  · exact (h.pageNumber_alike hentry).eq_ok hstart
  · exact h.endPage hentry hrel hfinish
  · exact (h.position_alike hentry).eq_ok hposition
  · exact (h.title_alike hentry).eq_ok htitle

theorem sameSeen_cons {entry : ν} {other : μ} (hentry : R entry other) {seen : List ν}
    {seen' : List μ} (hseen : SameSeen R seen seen') :
    SameSeen R (entry :: seen) (other :: seen') := by
  intro node node' hnode
  rw [List.mem_cons, List.mem_cons, h.eq_iff hnode hentry, hseen node node' hnode]

theorem sameSeen_nodes {forest : Forest ν} {other : Forest μ} (hforest : forest.Alike R other) :
    SameSeen R forest.nodes other.nodes := by
  induction hforest with
  | nil => exact fun _ _ _ => iff_of_false List.not_mem_nil List.not_mem_nil
  | cons hnode _ _ ihBelow ihAfter =>
      intro node node' hrel
      rw [Forest.nodes, Forest.nodes, List.mem_cons, List.mem_cons, List.mem_append,
        List.mem_append, h.eq_iff hrel hnode, ihBelow _ _ hrel, ihAfter _ _ hrel]

theorem sameSeen_append {forest : Forest ν} {other : Forest μ} (hforest : forest.Alike R other)
    {seen : List ν} {seen' : List μ} (hseen : SameSeen R seen seen') :
    SameSeen R (forest.nodes.reverse ++ seen) (other.nodes.reverse ++ seen') := by
  intro node node' hnode
  rw [List.mem_append, List.mem_append, List.mem_reverse, List.mem_reverse,
    h.sameSeen_nodes hforest node node' hnode, hseen node node' hnode]

/-- A walk through one outline takes its course through the other. -/
theorem trail {depth : Nat} {current : Option ν} {seen : List ν} {forest : Forest ν}
    (htrail : Trail first firstNumber? settings depth current seen forest) {current' : Option μ}
    {seen' : List μ} (hcurrent : Option.Rel R current current') (hseen : SameSeen R seen seen') :
    ∃ forest' : Forest μ, forest.Alike R forest' ∧
      Trail second secondNumber? settings depth current' seen' forest' := by
  induction htrail generalizing current' seen' with
  | finish =>
      cases hcurrent with
      | none => exact ⟨.nil, .nil, .finish⟩
  | revisit hmem hlenient =>
      cases hcurrent with
      | some hentry => exact ⟨.nil, .nil, .revisit ((hseen _ _ hentry).1 hmem) hlenient⟩
  | visit hmem hread hopens _ _ ihBelow ihAfter =>
      cases hcurrent with
      | some hentry =>
          rcases h.readEntry hentry hread with ⟨next', hnext, hread'⟩
          rcases hopens.alike (h.first_alike hentry) (h.last_alike hentry) with
            ⟨opened', hopened, hopens'⟩
          have hseenBelow := h.sameSeen_cons hentry hseen
          rcases ihBelow hopened hseenBelow with ⟨below', hbelow, htrailBelow⟩
          have hseenAfter := h.sameSeen_append hbelow hseenBelow
          rcases ihAfter hnext hseenAfter with ⟨after', hafter, htrailAfter⟩
          exact ⟨_, .cons hentry hbelow hafter,
            .visit (mt (hseen _ _ hentry).2 hmem) hread' hopens' htrailBelow htrailAfter⟩

end Alike

/-- Outlines whose entries stand for each other, from their roots and their pages on. -/
structure AlikeFrom [BEq π] [Hashable π] [BEq ρ] [Hashable ρ] (R : ν → μ → Prop)
    (first : Outline ν π) (root : ν) (pages : List π)
    (second : Outline μ ρ) (root' : μ) (pages' : List ρ) : Prop
    extends Alike R first (PageIndex.ofList pages).number? second
      (PageIndex.ofList pages').number? where
  root_eq : first.root = .ok (some root)
  root_eq' : second.root = .ok (some root')
  pages_eq : first.pages () = .ok pages
  pages_eq' : second.pages () = .ok pages'
  first_root : SameAnswer (Option.Rel R) (first.first root) (second.first root')
  last_root : SameAnswer (Option.Rel R) (first.last root) (second.last root')

/-- Links that belong to counterparts. -/
inductive Link.Rel (R : ν → μ → Prop) : Link ν → Link μ → Prop where
  | top : Link.Rel R .top .top
  | first {above : ν} {above' : μ} (h : R above above') : Link.Rel R (.first above) (.first above')
  | next {previous : ν} {previous' : μ} (h : R previous previous') :
      Link.Rel R (.next previous) (.next previous')

namespace AlikeFrom

variable [BEq π] [Hashable π] [BEq ρ] [Hashable ρ] {root : ν} {pages : List π} {root' : μ}
  {pages' : List ρ}

theorem symm (h : AlikeFrom R first root pages second root' pages') :
    AlikeFrom (flip R) second root' pages' first root pages where
  toAlike := h.toAlike.symm
  root_eq := h.root_eq'
  root_eq' := h.root_eq
  pages_eq := h.pages_eq'
  pages_eq' := h.pages_eq
  first_root := h.first_root.symm.mono optionRel_flip
  last_root := h.last_root.symm.mono optionRel_flip

/-- What reading one outline yields, reading the other does. -/
theorem yields (h : AlikeFrom R first root pages second root' pages') {forest : Forest ν}
    (hyields : Yields first settings forest) :
    ∃ forest' : Forest μ, forest.Alike R forest' ∧ Yields second settings forest' := by
  rcases hyields.exists_trail h.root_eq with ⟨list, opened, hpages, hopens, htrail⟩
  rw [h.pages_eq] at hpages
  cases hpages
  rcases hopens.alike h.first_root h.last_root with ⟨opened', hopened, hopens'⟩
  have hseen : SameSeen R [] [] := fun _ _ _ => iff_of_false List.not_mem_nil List.not_mem_nil
  rcases h.toAlike.trail htrail hopened hseen with ⟨forest', hforest, htrail'⟩
  exact ⟨forest', hforest, .rooted h.root_eq' h.pages_eq' hopens' htrail'⟩

/-- What is reached in one outline, its counterpart is reached in the other. -/
theorem reachedAt (h : AlikeFrom R first root pages second root' pages') {level : Nat} {entry : ν}
    (hentry : first.ReachedAt root level entry) :
    ∃ other, R entry other ∧ second.ReachedAt root' level other := by
  induction hentry with
  | top hfirst =>
      rcases h.first_root.exists_target hfirst with ⟨other, hrel, hfirst'⟩
      exact ⟨other, hrel, .top hfirst'⟩
  | under _ hfirst ih =>
      rcases ih with ⟨above', habove, hreached⟩
      rcases (h.first_alike habove).exists_target hfirst with ⟨other, hrel, hfirst'⟩
      exact ⟨other, hrel, hreached.under hfirst'⟩
  | beside _ hnext ih =>
      rcases ih with ⟨previous', hprevious, hreached⟩
      rcases (h.next_alike hprevious).exists_target hnext with ⟨other, hrel, hnext'⟩
      exact ⟨other, hrel, hreached.beside hnext'⟩

theorem reachable (h : AlikeFrom R first root pages second root' pages') {entry : ν}
    (hentry : first.Reachable root entry) :
    ∃ other, R entry other ∧ second.Reachable root' other := by
  rcases hentry with ⟨level, hentry⟩
  rcases h.reachedAt hentry with ⟨other, hrel, hother⟩
  exact ⟨other, hrel, level, hother⟩

/-- A link of one outline has a counterpart in the other. -/
theorem link (h : AlikeFrom R first root pages second root' pages') {link : Link ν} {entry : ν}
    (hlive : link.Live first root) (htarget : link.target first root = .ok (some entry)) :
    ∃ (link' : Link μ) (entry' : μ), Link.Rel R link link' ∧ R entry entry' ∧
      link'.Live second root' ∧ link'.target second root' = .ok (some entry') := by
  cases link with
  | top =>
      rcases h.first_root.exists_target htarget with ⟨entry', hentry, hfirst⟩
      exact ⟨.top, entry', .top, hentry, trivial, hfirst⟩
  | first above =>
      rcases h.reachable hlive with ⟨above', habove, hreachable⟩
      rcases (h.first_alike habove).exists_target htarget with ⟨entry', hentry, hfirst⟩
      exact ⟨.first above', entry', .first habove, hentry, hreachable, hfirst⟩
  | next previous =>
      rcases h.reachable hlive with ⟨previous', hprevious, hreachable⟩
      rcases (h.next_alike hprevious).exists_target htarget with ⟨entry', hentry, hnext⟩
      exact ⟨.next previous', entry', .next hprevious, hentry, hreachable, hnext⟩

/-- Links with the same counterpart are the same. -/
theorem link_eq (h : AlikeFrom R first root pages second root' pages') {link other : Link ν}
    {link' : Link μ} (hlink : Link.Rel R link link') (hother : Link.Rel R other link') :
    link = other := by
  cases hlink with
  | top => cases hother; rfl
  | first habove =>
      cases hother with
      | first habove' => rw [(h.eq_iff habove habove').2 rfl]
  | next hprevious =>
      cases hother with
      | next hprevious' => rw [(h.eq_iff hprevious hprevious').2 rfl]

/-- If the links of one outline make a tree, and its root is nobody's counterpart, then the links
of the other make a tree. -/
theorem isTree (h : AlikeFrom R first root pages second root' pages')
    (htree : second.IsTree root') (hroot : ∀ other, ¬ R root other) : first.IsTree root where
  first_intact {node} hnode := by
    rcases hnode with rfl | hnode
    · exact h.first_root.intact (htree.first_intact (Or.inl rfl))
    · rcases h.reachable hnode with ⟨other, hrel, hother⟩
      exact (h.first_alike hrel).intact (htree.first_intact (Or.inr hother))
  last_intact {node} hnode := by
    rcases hnode with rfl | hnode
    · exact h.last_root.intact (htree.last_intact (Or.inl rfl))
    · rcases h.reachable hnode with ⟨other, hrel, hother⟩
      exact (h.last_alike hrel).intact (htree.last_intact (Or.inr hother))
  next_intact hentry := by
    rcases h.reachable hentry with ⟨other, hrel, hother⟩
    exact (h.next_alike hrel).intact (htree.next_intact hother)
  root_unreachable hreachable := by
    rcases h.reachable hreachable with ⟨other, hrel, -⟩
    exact hroot other hrel
  unique {entry} hentry := by
    apply hentry.unique_link
    intro link other hlive hotherLive htarget hotherTarget
    rcases h.link hlive htarget with ⟨link', entry', hlink, hrel, hlive', htarget'⟩
    rcases h.link hotherLive hotherTarget with
      ⟨other', entry'', hother, hrel', hotherLive', hotherTarget'⟩
    have hentry' : entry' = entry'' := (h.eq_iff hrel hrel').1 rfl
    subst hentry'
    have hlink' := htree.link_unique link' other' hlive' hotherLive' htarget' hotherTarget'
    subst hlink'
    exact h.link_eq hlink hother

end AlikeFrom

end Outline

variable [DecidableEq ν] [DecidableEq μ] [BEq π] [Hashable π] [BEq ρ] [Hashable ρ]
  {settings : Settings} {first : FiniteOutline ν π} {second : FiniteOutline μ ρ} {root : ν}
  {root' : μ} {pages : List π} {pages' : List ρ}

/-- A table of contents that is read from one outline is read from the other. -/
theorem Outline.AlikeFrom.read_eq_ok
    (h : AlikeFrom R first.toOutline root pages second.toOutline root' pages')
    {contents : Contents} (hread : (first.read settings).result = .ok contents) :
    (second.read settings).result = .ok contents := by
  rcases FiniteOutline.read_eq_ok.1 hread with ⟨forest, hyields, rfl⟩
  rcases h.yields hyields with ⟨forest', hforest, hyields'⟩
  apply FiniteOutline.read_eq_ok.2
  refine ⟨forest', hyields', ?_⟩
  rw [contentsOf, contentsOf, h.pageCount_eq]
  exact hforest.ofForest_eq _ _

end Bookmarks
