/-
# Reaching entries

The entries that an outline reaches below its root are those that its links lead to: the first
child of the root, the first child of an entry that is reached, one level deeper, and its next
sibling. A walk takes no entry up twice and takes up only entries that are reached; if it is never
stopped by its depth limit, it takes up all of them, whatever cycles and shared links there are
(`Trail.closed`).
-/
import Bookmarks.Proofs.Contents.Layout
import Bookmarks.Proofs.Walk.Trail
import Mathlib.Data.List.Nodup
import Mathlib.Data.List.Perm.Subperm
import Mathlib.Logic.Relation

namespace Bookmarks.Outline

variable {ν π : Type} {outline : Outline ν π} {number? : π → Option Nat} {settings : Settings}

variable (outline) in
/-- A single link leads from one entry to another. -/
def Leads (source target : ν) : Prop :=
  outline.first source = .ok (some target) ∨ outline.next source = .ok (some target)

variable (outline) in
/-- An entry is reached below a root at a level of nesting. -/
inductive ReachedAt (root : ν) : Nat → ν → Prop where
  | top {entry : ν} (hfirst : outline.first root = .ok (some entry)) : ReachedAt root 0 entry
  | under {level : Nat} {above entry : ν} (habove : ReachedAt root level above)
      (hfirst : outline.first above = .ok (some entry)) : ReachedAt root (level + 1) entry
  | beside {level : Nat} {previous entry : ν} (hprevious : ReachedAt root level previous)
      (hnext : outline.next previous = .ok (some entry)) : ReachedAt root level entry

variable (outline) in
/-- An entry is reached below a root. -/
def Reachable (root entry : ν) : Prop :=
  ∃ level, outline.ReachedAt root level entry

theorem Reachable.of_first {root entry : ν} (h : outline.first root = .ok (some entry)) :
    outline.Reachable root entry :=
  ⟨0, .top h⟩

theorem Reachable.of_leads {root source target : ν} (h : outline.Reachable root source)
    (hleads : outline.Leads source target) : outline.Reachable root target := by
  rcases h with ⟨level, h⟩
  rcases hleads with hfirst | hnext
  · exact ⟨level + 1, h.under hfirst⟩
  · exact ⟨level, h.beside hnext⟩

theorem Reachable.of_onward {root source target : ν} (h : outline.Reachable root source)
    (honward : Relation.ReflTransGen outline.Leads source target) :
    outline.Reachable root target := by
  induction honward with
  | refl => exact h
  | tail _ hleads ih => exact ih.of_leads hleads

/-- A set that holds the first entry and all that its members lead to holds all that is reached. -/
theorem Reachable.mem_of_closed {root entry : ν} {entries : List ν}
    (h : outline.Reachable root entry)
    (hfirst : ∀ entry, outline.first root = .ok (some entry) → entry ∈ entries)
    (hclosed : ∀ source ∈ entries, ∀ target, outline.Leads source target → target ∈ entries) :
    entry ∈ entries := by
  rcases h with ⟨level, h⟩
  induction h with
  | top hroot => exact hfirst _ hroot
  | under _ habove ih => exact hclosed _ ih _ (Or.inl habove)
  | beside _ hprevious ih => exact hclosed _ ih _ (Or.inr hprevious)

theorem Reachable.mem_handles {root entry : ν} {handles : List ν}
    (h : outline.Reachable root entry) (hwithin : outline.LinksWithin handles) :
    entry ∈ handles := by
  rcases h with ⟨level, h⟩
  cases h with
  | top hfirst => exact hwithin.first_mem hfirst
  | under _ hfirst => exact hwithin.first_mem hfirst
  | beside _ hnext => exact hwithin.next_mem hnext

theorem Opens.first_eq {scope child : ν} {depth : Nat}
    (h : Opens outline settings scope depth (some child)) :
    outline.first scope = .ok (some child) := by
  cases h with
  | enter hfirst _ _ => exact Settings.follow_eq_ok_some.1 hfirst

/-- A strict reader enters a node by its first child, and asks for its last one. -/
theorem Opens.of_strict {scope : ν} {depth : Nat} {opened : Option ν}
    (h : Opens outline settings scope depth opened) (hstrict : settings.tolerance = .strict) :
    outline.first scope = .ok opened ∧ (opened.isSome → depth < settings.depthLimit) ∧
      ∃ declared, outline.last scope = .ok declared := by
  cases h with
  | cut _ _ hlenient =>
      rw [hstrict] at hlenient
      cases hlenient
  | enter hfirst hdepth hlast =>
      rw [Settings.follow_of_strict hstrict] at hfirst hlast
      exact ⟨hfirst, hdepth, _, hlast⟩

theorem next_eq_of_readEntry {entry sibling : ν} {read : Entry ν}
    (h : (outline.readEntry number? settings entry).result = .ok read)
    (hnext : read.next = some sibling) : outline.next entry = .ok (some sibling) := by
  have hfollow := (readEntry_eq_ok.1 h).2.1
  rw [hnext] at hfollow
  exact Settings.follow_eq_ok_some.1 hfollow

/-- A link to the next sibling is read as it is. -/
theorem readEntry_next {entry sibling : ν} {read : Entry ν}
    (h : (outline.readEntry number? settings entry).result = .ok read)
    (hnext : outline.next entry = .ok (some sibling)) : read.next = some sibling := by
  have hfollow := (readEntry_eq_ok.1 h).2.1
  rw [Settings.follow_of_ok hnext] at hfollow
  exact (Except.ok.inj hfollow).symm

namespace Trail

variable {depth : Nat} {current : Option ν} {seen : List ν} {forest : Forest ν}

/-- A strict walk takes up the entry it comes to. -/
theorem head?_eq (h : Trail outline number? settings depth current seen forest)
    (hstrict : settings.tolerance = .strict) : forest.head? = current := by
  cases h with
  | finish => rfl
  | revisit _ hlenient =>
      rw [hstrict] at hlenient
      cases hlenient
  | visit _ _ _ _ _ => rfl

/-- A walk takes no entry up twice, and none that was seen before. -/
theorem nodup (h : Trail outline number? settings depth current seen forest)
    (hseen : seen.Nodup) : (forest.nodes.reverse ++ seen).Nodup := by
  induction h with
  | finish => exact hseen
  | revisit _ _ => exact hseen
  | visit hentry _ _ _ _ ihBelow ihAfter =>
      have hafter := ihAfter (ihBelow (List.nodup_cons.2 ⟨hentry, hseen⟩))
      simpa [Forest.nodes] using hafter

theorem nodup_nodes (h : Trail outline number? settings depth current [] forest) :
    forest.nodes.Nodup := by
  have hnodup := h.nodup List.nodup_nil
  rwa [List.append_nil, List.nodup_reverse] at hnodup

/-- What a walk takes up, the links lead to from where it begins. -/
theorem onward (h : Trail outline number? settings depth current seen forest) {entry : ν}
    (hentry : entry ∈ forest.nodes) :
    ∃ start, current = some start ∧ Relation.ReflTransGen outline.Leads start entry := by
  induction h with
  | finish => simp [Forest.nodes] at hentry
  | revisit _ _ => simp [Forest.nodes] at hentry
  | @visit depth start seen read opened below after _ hread hopens _ _ ihBelow ihAfter =>
      refine ⟨start, rfl, ?_⟩
      simp only [Forest.nodes, List.mem_cons, List.mem_append] at hentry
      rcases hentry with rfl | hbelow | hafter
      · exact .refl
      · rcases ihBelow hbelow with ⟨child, rfl, honward⟩
        exact .head (Or.inl hopens.first_eq) honward
      · rcases ihAfter hafter with ⟨sibling, hnext, honward⟩
        exact .head (Or.inr (next_eq_of_readEntry hread hnext)) honward

theorem mem_handles (h : Trail outline number? settings depth current seen forest)
    {handles : List ν} (hwithin : outline.LinksWithin handles)
    (hcurrent : ∀ entry, current = some entry → entry ∈ handles) :
    ∀ entry ∈ forest.nodes, entry ∈ handles := by
  intro entry hentry
  rcases h.onward hentry with ⟨start, hstart, honward⟩
  cases honward with
  | refl => exact hcurrent _ hstart
  | tail _ hleads => exact hleads.elim hwithin.first_mem hwithin.next_mem

/-- A walk that may go as deep as there are handles leaves out nothing that its entries lead to:
where it is cut for being too deep, it has seen every handle. -/
theorem closed (h : Trail outline number? settings depth current seen forest) {handles : List ν}
    (hwithin : outline.LinksWithin handles) (hlimit : handles.length ≤ settings.depthLimit)
    (hcurrent : ∀ entry, current = some entry → entry ∈ handles) (hseen : seen.Nodup)
    (hhandles : seen ⊆ handles) (hdepth : depth ≤ seen.length) :
    (∀ entry, current = some entry → entry ∈ forest.nodes.reverse ++ seen) ∧
      ∀ source ∈ forest.nodes, ∀ target, outline.Leads source target →
        target ∈ forest.nodes.reverse ++ seen := by
  induction h with
  | finish => exact ⟨fun _ h => (by cases h), fun _ h => (by cases h)⟩
  | revisit hentry _ =>
      refine ⟨?_, fun _ h => (by cases h)⟩
      intro entry h
      cases h
      exact hentry
  | @visit depth start seen read opened below after hstart hread hopens hbelow hafter
      ihBelow ihAfter =>
      have hnodup : (start :: seen).Nodup := List.nodup_cons.2 ⟨hstart, hseen⟩
      have hlisted : start :: seen ⊆ handles :=
        List.cons_subset.2 ⟨hcurrent start rfl, hhandles⟩
      have hopened : ∀ entry, opened = some entry → entry ∈ handles := by
        intro entry h
        subst h
        exact hwithin.first_mem hopens.first_eq
      have hnext : ∀ entry, read.next = some entry → entry ∈ handles := fun entry h =>
        hwithin.next_mem (next_eq_of_readEntry hread h)
      have hlistedBelow : below.nodes.reverse ++ start :: seen ⊆ handles := by
        apply List.append_subset.2
        refine ⟨?_, hlisted⟩
        intro entry hentry
        exact hbelow.mem_handles hwithin hopened entry (List.mem_reverse.1 hentry)
      have hdepthBelow : depth + 1 ≤ (start :: seen).length := by simpa using hdepth
      have hdepthAfter : depth ≤ (below.nodes.reverse ++ start :: seen).length := by
        simp only [List.length_append, List.length_cons]
        omega
      rcases ihBelow hopened hnodup hlisted hdepthBelow with ⟨hheadBelow, hrestBelow⟩
      rcases ihAfter hnext (hbelow.nodup hnodup) hlistedBelow hdepthAfter with
        ⟨hheadAfter, hrestAfter⟩
      have hend : (Forest.cons start read.heading below after).nodes.reverse ++ seen =
          after.nodes.reverse ++ (below.nodes.reverse ++ start :: seen) := by
        simp [Forest.nodes]
      rw [hend]
      constructor
      · intro entry h
        cases h
        simp
      · intro source hsource target hleads
        simp only [Forest.nodes, List.mem_cons, List.mem_append] at hsource
        rcases hsource with rfl | hsource | hsource
        · rcases hleads with hfirst | hsibling
          · apply List.mem_append_right
            cases hopens with
            | cut _ hdeep _ =>
                have hlength : handles.length ≤ (source :: seen).length :=
                  Nat.le_trans hlimit (Nat.le_trans hdeep hdepthBelow)
                have hall := (List.subperm_of_subset hnodup hlisted).perm_of_length_le hlength
                exact List.mem_append_right _ (hall.mem_iff.2 (hwithin.first_mem hfirst))
            | enter hfollow _ _ =>
                rw [Settings.follow_of_ok hfirst] at hfollow
                exact hheadBelow target (Except.ok.inj hfollow).symm
          · exact hheadAfter target (readEntry_next hread hsibling)
        · exact List.mem_append_right _ (hrestBelow source hsource target hleads)
        · exact hrestAfter source hsource target hleads

end Trail

end Bookmarks.Outline
