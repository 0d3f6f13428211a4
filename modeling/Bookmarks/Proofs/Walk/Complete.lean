/-
# Lenient readings are complete

A lenient reader cuts a chain where it meets an entry again and a branch where a link is broken.
No entry is lost that way: an entry that was met before has been taken up, and what it leads to
has been or will be taken up on its account. `read_lenient_complete` says that a lenient reading
with depth enough represents every entry that is reached, once each, in any graph of links.
-/
import Bookmarks.Proofs.Outline.Table
import Bookmarks.Proofs.Walk.Sources

namespace Bookmarks

namespace Outline

variable {ν π : Type} [BEq π] [Hashable π] {outline : Outline ν π} {settings : Settings}
  {root : ν} {forest : Forest ν}

/-- With a depth limit that no path of different handles exceeds, a reading yields all that is
reached. -/
theorem Yields.mem_of_reachable (h : Yields outline settings forest)
    (hroot : outline.root = .ok (some root)) {handles : List ν}
    (hwithin : outline.LinksWithin handles) (hlimit : handles.length ≤ settings.depthLimit)
    {entry : ν} (hentry : outline.Reachable root entry) : entry ∈ forest.nodes := by
  rcases h.exists_trail hroot with ⟨_, opened, _, hopens, htrail⟩
  have hopened : ∀ entry, opened = some entry → entry ∈ handles := by
    intro entry hentry
    subst hentry
    exact hwithin.first_mem hopens.first_eq
  rcases htrail.closed hwithin hlimit hopened List.nodup_nil (List.nil_subset _)
    (Nat.le_refl 0) with ⟨hhead, hclosed⟩
  simp only [List.append_nil, List.mem_reverse] at hhead hclosed
  refine hentry.mem_of_closed ?_ hclosed
  intro first hfirst
  apply hhead
  cases hopens with
  | cut _ hdeep _ =>
      have hpos := List.length_pos_of_mem (hwithin.first_mem hfirst)
      omega
  | enter hfollow _ _ =>
      rw [Settings.follow_of_ok hfirst] at hfollow
      exact (Except.ok.inj hfollow).symm

end Outline

variable {ν π : Type} [DecidableEq ν] [BEq π] [Hashable π]

/-- A lenient reading of an outline that answers succeeds. -/
theorem FiniteOutline.exists_read_of_lenient {outline : FiniteOutline ν π} {settings : Settings}
    {root : ν} (hroot : outline.root = .ok (some root)) (hanswers : outline.Answers root)
    (hlenient : settings.tolerance = .lenient) :
    ∃ contents, (outline.read settings).result = .ok contents := by
  cases hread : (outline.read settings).result with
  | ok contents => exact ⟨contents, rfl⟩
  | error fault =>
      rcases walk_fault_of_read hroot hanswers hread with ⟨_, hwalk⟩
      rw [(hanswers.walk_fault hwalk).1] at hlenient
      cases hlenient

/-- A lenient reading that may go as deep as the outline has nodes succeeds, and the entries that
its sections are made from are those that the outline reaches, each of them once. -/
theorem FiniteOutline.read_lenient_complete {outline : FiniteOutline ν π} {settings : Settings}
    {root : ν} (hroot : outline.root = .ok (some root)) (hanswers : outline.Answers root)
    (hlenient : settings.tolerance = .lenient) {nodes : List ν}
    (hnodes : outline.LinksWithin nodes) (hlimit : nodes.length ≤ settings.depthLimit) :
    ∃ forest, (outline.forestWithin settings outline.handles.length).result = .ok forest ∧
      (outline.read settings).result = .ok (outline.contentsOf settings forest) ∧
      outline.MadeFrom root (outline.contentsOf settings forest) forest.nodes ∧
      forest.nodes.Nodup ∧
      ∀ entry, entry ∈ forest.nodes ↔ outline.Reachable root entry := by
  rcases exists_read_of_lenient hroot hanswers hlenient with ⟨contents, hread⟩
  rcases read_eq_ok.1 hread with ⟨forest, hyields, rfl⟩
  have hforest := hyields.forestWithin_eq_ok (hyields.size_le outline.linksWithin)
  refine ⟨forest, hforest, hread, hyields.madeFrom hroot, hyields.nodup_nodes, ?_⟩
  intro entry
  constructor
  · exact hyields.reachable hroot
  · exact hyields.mem_of_reachable hroot hnodes hlimit

/-- Three entries that lead round in circles, with two links that are broken. -/
def knot : OutlineTable where
  pageCount := 9
  root := .ok (some 0)
  pages := .ok []
  rows := [
    (0, { first := .ok (some 1), last := .error (.corrupted (.reported "no such entry")) }),
    (1, { first := .ok (some 2), next := .ok (some 3) }),
    (2, { first := .ok (some 1), next := .ok (some 3) }),
    (3, { first := .error (.corrupted (.reported "no such entry")), next := .ok (some 1) })]

/-- A lenient reading of the knot takes up each of its entries once. -/
theorem read_knot :
    knot.outline.root = .ok (some 0) ∧ knot.outline.Answers 0 ∧
      knot.outline.LinksWithin knot.targets ∧ knot.targets.length ≤ 64 ∧
      ∃ forest, (knot.outline.read { tolerance := .lenient }).result =
          .ok (knot.outline.contentsOf { tolerance := .lenient } forest) ∧
        forest.nodes.Nodup ∧ 1 ∈ forest.nodes ∧ 2 ∈ forest.nodes ∧ 3 ∈ forest.nodes := by
  have hanswers : knot.outline.Answers 0 := OutlineTable.AnswersFrom.answers (by decide)
  refine ⟨rfl, hanswers, knot.linksWithin, by decide, ?_⟩
  have hlenient : ({ tolerance := .lenient } : Settings).tolerance = .lenient := rfl
  rcases FiniteOutline.read_lenient_complete rfl hanswers hlenient knot.linksWithin (by decide)
    with ⟨forest, -, hread, -, hnodup, hmem⟩
  have hfirst : knot.outline.ReachedAt 0 0 1 := .top rfl
  exact ⟨forest, hread, hnodup, (hmem 1).2 ⟨0, hfirst⟩, (hmem 2).2 ⟨1, hfirst.under rfl⟩,
    (hmem 3).2 ⟨0, hfirst.beside rfl⟩⟩

end Bookmarks
