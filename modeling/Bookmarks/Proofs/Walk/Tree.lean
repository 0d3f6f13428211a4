/-
# Outlines that are trees

The links of an outline make a tree if none of them is broken, if the root is not reached and if
every entry that is reached is the target of a single link. In a tree no path comes back to where
it has been, and what lies below an entry is apart from what comes after it. So a walk meets no
entry again, and all that a strict walk can find wrong is that the tree is too deep
(`IsTree.walk_fault`).
-/
import Bookmarks.Proofs.Walk.Reading

namespace Bookmarks.Outline

open Relation

variable {ν π : Type} {outline : Outline ν π} {number? : π → Option Nat} {settings : Settings}
  {root : ν}

/-- A link: from the root to the first entry, or from an entry to its first child or to its next
sibling. -/
inductive Link (ν : Type) where
  | top
  | first (above : ν)
  | next (previous : ν)

namespace Link

variable (outline root) in
/-- Where a link leads. -/
def target : Link ν → Except Fault (Option ν)
  | top => outline.first root
  | first above => outline.first above
  | next previous => outline.next previous

variable (outline root) in
/-- The link is there to be followed: it belongs to the root or to an entry that is reached. -/
def Live : Link ν → Prop
  | top => True
  | first above => outline.Reachable root above
  | next previous => outline.Reachable root previous

end Link

/-- What a link leads to is reached. -/
theorem Link.Live.reachable {link : Link ν} {entry : ν} (hlive : link.Live outline root)
    (htarget : link.target outline root = .ok (some entry)) : outline.Reachable root entry := by
  cases link with
  | top => exact .of_first htarget
  | first above => exact Reachable.of_leads hlive (Or.inl htarget)
  | next previous => exact Reachable.of_leads hlive (Or.inr htarget)

/-- What is reached, a link leads to. -/
theorem Reachable.exists_link {entry : ν} (h : outline.Reachable root entry) :
    ∃ link : Link ν, link.Live outline root ∧ link.target outline root = .ok (some entry) := by
  obtain ⟨level, h⟩ := h
  cases h with
  | top hfirst => exact ⟨.top, trivial, hfirst⟩
  | under habove hfirst => exact ⟨.first _, ⟨_, habove⟩, hfirst⟩
  | beside hprevious hnext => exact ⟨.next _, ⟨_, hprevious⟩, hnext⟩

/-- If no two links lead to an entry that is reached, a single one does. -/
theorem Reachable.unique_link {entry : ν} (h : outline.Reachable root entry)
    (hsame : ∀ first second : Link ν, first.Live outline root → second.Live outline root →
      first.target outline root = .ok (some entry) →
      second.target outline root = .ok (some entry) → first = second) :
    ∃! link : Link ν, link.Live outline root ∧ link.target outline root = .ok (some entry) := by
  obtain ⟨link, hlive, htarget⟩ := h.exists_link
  exact ⟨link, ⟨hlive, htarget⟩, fun other ⟨hother, hotherTarget⟩ =>
    hsame _ _ hother hlive hotherTarget htarget⟩

variable (outline root) in
/-- The links below the root make a tree. -/
structure IsTree : Prop where
  first_intact : ∀ {node}, node = root ∨ outline.Reachable root node →
    ∃ target, outline.first node = .ok target
  last_intact : ∀ {node}, node = root ∨ outline.Reachable root node →
    ∃ target, outline.last node = .ok target
  next_intact : ∀ {entry}, outline.Reachable root entry → ∃ target, outline.next entry = .ok target
  root_unreachable : ¬ outline.Reachable root root
  unique : ∀ {entry}, outline.Reachable root entry →
    ∃! link : Link ν, link.Live outline root ∧ link.target outline root = .ok (some entry)

theorem ne_error_of_intact {answer : Except Fault (Option ν)} {fault : Fault}
    (hintact : ∃ target, answer = .ok target) : answer ≠ .error fault := by
  rcases hintact with ⟨target, hanswer⟩
  intro herror
  rw [hanswer] at herror
  cases herror

/-- Following a link that is intact does not fail. -/
theorem follow_ne_error {answer : Except Fault (Option ν)} {fault : Fault}
    (hintact : ∃ target, answer = .ok target) :
    (settings.follow answer).result ≠ .error fault := by
  intro herror
  exact ne_error_of_intact hintact (Settings.follow_eq_error.1 herror).1

namespace IsTree

variable (h : outline.IsTree root)
include h

theorem link_unique (first second : Link ν) {entry : ν} (hfirst : first.Live outline root)
    (hsecond : second.Live outline root)
    (hfirstTarget : first.target outline root = .ok (some entry))
    (hsecondTarget : second.target outline root = .ok (some entry)) : first = second :=
  (h.unique (hfirst.reachable hfirstTarget)).unique ⟨hfirst, hfirstTarget⟩
    ⟨hsecond, hsecondTarget⟩

/-- An entry is led to from a single entry. -/
theorem source_unique {first second entry : ν} (hfirst : outline.Reachable root first)
    (hsecond : outline.Reachable root second) (hfirstLeads : outline.Leads first entry)
    (hsecondLeads : outline.Leads second entry) : first = second := by
  rcases hfirstLeads with hfirstLink | hfirstLink <;>
    rcases hsecondLeads with hsecondLink | hsecondLink
  · cases h.link_unique (.first first) (.first second) hfirst hsecond hfirstLink
      hsecondLink
    rfl
  · cases h.link_unique (.first first) (.next second) hfirst hsecond hfirstLink
      hsecondLink
  · cases h.link_unique (.next first) (.first second) hfirst hsecond hfirstLink
      hsecondLink
  · cases h.link_unique (.next first) (.next second) hfirst hsecond hfirstLink
      hsecondLink
    rfl

theorem first_ne_next {source entry other : ν} (hsource : outline.Reachable root source)
    (hother : outline.Reachable root other) (hfirst : outline.first source = .ok (some entry))
    (hnext : outline.next other = .ok (some entry)) : False := by
  cases h.link_unique (.first source) (.next other) hsource hother hfirst hnext

/-- No path leads from an entry back to it. -/
theorem acyclic {entry : ν} (hentry : outline.Reachable root entry) :
    ¬ TransGen outline.Leads entry entry := by
  -- A path back to an entry ends with the only link to it, so there is one back to its source.
  have hback : ∀ {source entry : ν}, outline.Reachable root source →
      outline.Leads source entry → TransGen outline.Leads entry entry →
      TransGen outline.Leads source source := by
    intro source entry hsource hleads hcycle
    obtain ⟨last, honward, hlast⟩ := TransGen.tail'_iff.1 hcycle
    have hreached := (hsource.of_leads hleads).of_onward honward
    obtain rfl := h.source_unique hsource hreached hleads hlast
    exact TransGen.head' hleads honward
  obtain ⟨level, hentry⟩ := hentry
  induction hentry with
  | @top entry hfirst =>
      intro hcycle
      obtain ⟨last, honward, hlast⟩ := TransGen.tail'_iff.1 hcycle
      have hreached := (Reachable.of_first hfirst).of_onward honward
      rcases hlast with hlink | hlink
      · cases h.link_unique .top (.first last) trivial hreached hfirst hlink
      · cases h.link_unique .top (.next last) trivial hreached hfirst hlink
  | under habove hfirst ih =>
      intro hcycle
      exact ih (hback ⟨_, habove⟩ (Or.inl hfirst) hcycle)
  | beside hprevious hnext ih =>
      intro hcycle
      exact ih (hback ⟨_, hprevious⟩ (Or.inr hnext) hcycle)

/-- What the first child of an entry leads to, its next sibling does not lead to. -/
theorem disjoint {entry child sibling : ν} (hentry : outline.Reachable root entry)
    (hfirst : outline.first entry = .ok (some child))
    (hnext : outline.next entry = .ok (some sibling)) {node : ν}
    (hbelow : ReflTransGen outline.Leads child node) :
    ¬ ReflTransGen outline.Leads sibling node := by
  have hchild := hentry.of_leads (Or.inl hfirst)
  have hsibling := hentry.of_leads (Or.inr hnext)
  induction hbelow with
  | refl =>
      intro hafter
      rcases ReflTransGen.cases_tail hafter with rfl | ⟨last, honward, hlast⟩
      · exact h.first_ne_next hentry hentry hfirst hnext
      · obtain rfl := h.source_unique hentry (hsibling.of_onward honward) (Or.inl hfirst) hlast
        exact h.acyclic hentry (TransGen.head' (Or.inr hnext) honward)
  | @tail middle node hbelow hleads ih =>
      intro hafter
      have hmiddle := hchild.of_onward hbelow
      rcases ReflTransGen.cases_tail hafter with rfl | ⟨last, honward, hlast⟩
      · obtain rfl := h.source_unique hentry hmiddle (Or.inr hnext) hleads
        exact h.acyclic hentry (TransGen.head' (Or.inl hfirst) hbelow)
      · obtain rfl := h.source_unique hmiddle (hsibling.of_onward honward) hleads hlast
        exact ih honward

theorem depth_of_opens {scope : ν} (hscope : scope = root ∨ outline.Reachable root scope)
    {depth : Nat} {fault : Fault} (hfails : OpenFails outline settings scope depth fault) :
    settings.tolerance = .strict ∧ fault = .corrupted (.tooDeep settings.depthLimit) ∧
      settings.depthLimit ≤ depth ∧ ∃ child, outline.first scope = .ok (some child) := by
  cases hfails with
  | first hfirst => exact absurd hfirst (follow_ne_error (h.first_intact hscope))
  | deep hfirst hdeep hstrict =>
      exact ⟨hstrict, rfl, hdeep, _, Settings.follow_eq_ok_some.1 hfirst⟩
  | last hlast => exact absurd hlast (follow_ne_error (h.last_intact hscope))

end IsTree

variable (outline settings root) in
/-- The fault of a strict reader who comes to an entry that is too deep. -/
def DepthFault (fault : Fault) : Prop :=
  settings.tolerance = .strict ∧ fault = .corrupted (.tooDeep settings.depthLimit) ∧
    ∃ level entry, outline.ReachedAt root level entry ∧ settings.depthLimit ≤ level

variable (outline root) in
/-- A walk through a tree comes to an entry that it has not seen, nor anything that it leads to. -/
def Fresh (depth : Nat) (current : Option ν) (seen : List ν) : Prop :=
  ∀ entry, current = some entry → outline.ReachedAt root depth entry ∧
    ∀ node, ReflTransGen outline.Leads entry node → node ∉ seen

variable [DecidableEq ν]

theorem IsTree.guarded (h : outline.IsTree root) (hanswers : outline.Answers root) :
    Guarded outline number? settings (outline.Fresh root) (outline.DepthFault settings root) where
  seen hfresh hseen _ := absurd hseen ((hfresh _ rfl).2 _ .refl)
  read hfresh _ hread := by
    have hentry : outline.Reachable root _ := ⟨_, (hfresh _ rfl).1⟩
    rcases hanswers.readEntry_eq_error hentry hread with hnext | hfirst
    · exact absurd hnext (follow_ne_error (h.next_intact hentry))
    · exact absurd hfirst (follow_ne_error (h.first_intact (Or.inr hentry)))
  opens hfresh _ hfails := by
    have hentry := (hfresh _ rfl).1
    obtain ⟨hstrict, hfault, hdeep, child, hfirst⟩ :=
      h.depth_of_opens (Or.inr ⟨_, hentry⟩) hfails
    exact ⟨hstrict, hfault, _, child, hentry.under hfirst, hdeep⟩
  below {depth entry seen first} hfresh _ hfirst _ := by
    intro child hchild
    subst hchild
    have hfirst := Settings.follow_eq_ok_some.1 hfirst
    obtain ⟨hentry, hunseen⟩ := hfresh entry rfl
    constructor
    · exact hentry.under hfirst
    · intro node honward hnode
      rcases List.mem_cons.1 hnode with rfl | hseen
      · exact h.acyclic ⟨_, hentry⟩ (TransGen.head' (Or.inl hfirst) honward)
      · exact hunseen node (.head (Or.inl hfirst) honward) hseen
  after {depth entry seen read opened below} hfresh _ hread hopens hbelow := by
    intro sibling hsibling
    have hnext := next_eq_of_readEntry hread hsibling
    obtain ⟨hentry, hunseen⟩ := hfresh entry rfl
    constructor
    · exact hentry.beside hnext
    · intro node honward hnode
      rcases List.mem_append.1 hnode with hnode | hnode
      · obtain ⟨child, rfl, hchild⟩ := hbelow.onward (List.mem_reverse.1 hnode)
        exact h.disjoint ⟨_, hentry⟩ hopens.first_eq hnext hchild honward
      rcases List.mem_cons.1 hnode with rfl | hseen
      · exact h.acyclic ⟨_, hentry⟩ (TransGen.head' (Or.inr hnext) honward)
      · exact hunseen node (.head (Or.inr hnext) honward) hseen

/-- All that can be wrong with an outline that is a tree is its depth. -/
theorem IsTree.walk_fault (h : outline.IsTree root) (hanswers : outline.Answers root) {fuel : Nat}
    {fault : Fault}
    (hwalk : (outline.walk number? settings fuel root).result = .error (.fault fault)) :
    outline.DepthFault settings root fault := by
  apply Outline.walk_fault (h.guarded hanswers) _ _ hwalk
  · intro fault hfails
    obtain ⟨hstrict, hfault, hdeep, child, hfirst⟩ := h.depth_of_opens (Or.inl rfl) hfails
    exact ⟨hstrict, hfault, 0, child, .top hfirst, hdeep⟩
  · intro first hfirst _ entry hentry
    subst hentry
    exact ⟨.top (Settings.follow_eq_ok_some.1 hfirst), fun _ _ => List.not_mem_nil⟩

end Bookmarks.Outline

namespace Bookmarks

/-- Reading a tree of entries fails only if it is too deep. -/
theorem FiniteOutline.depthFault_of_read {ν π : Type} [DecidableEq ν] [BEq π] [Hashable π]
    {outline : FiniteOutline ν π} {settings : Settings} {root : ν}
    (hroot : outline.root = .ok (some root)) (hanswers : outline.Answers root)
    (htree : outline.toOutline.IsTree root) {fault : Fault}
    (h : (outline.read settings).result = .error fault) :
    outline.DepthFault settings root fault := by
  obtain ⟨_, hwalk⟩ := walk_fault_of_read hroot hanswers h
  exact htree.walk_fault hanswers hwalk

end Bookmarks
