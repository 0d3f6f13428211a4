/-
# What a reading brings home

A reading yields the forest of a walk from the root, or nothing if there is no root, and lays it
out as a table of contents. Among finitely many handles a forest is small enough for the fuel that
a reading is given, so that `FiniteOutline.read_eq_ok` needs to mention neither fuel nor handles.
-/
import Bookmarks.Proofs.Contents.Layout
import Bookmarks.Proofs.Walk.Answers

namespace Bookmarks

namespace Outline

variable {ν π : Type} [BEq π] [Hashable π] {outline : Outline ν π} {settings : Settings}

variable (outline settings) in
/-- The forest that reading an outline yields. -/
inductive Yields : Forest ν → Prop where
  | bare (hroot : outline.root = .ok none) : Yields .nil
  | rooted {root : ν} {pages : List π} {opened : Option ν} {forest : Forest ν}
      (hroot : outline.root = .ok (some root)) (hpages : outline.pages () = .ok pages)
      (hopens : Opens outline settings root 0 opened)
      (htrail : Trail outline (PageIndex.ofList pages).number? settings 0 opened [] forest) :
      Yields forest

/-- With a root to begin with, what reading yields is the forest of a walk. -/
theorem Yields.exists_trail {forest : Forest ν} (h : Yields outline settings forest) {root : ν}
    (hroot : outline.root = .ok (some root)) :
    ∃ pages opened, outline.pages () = .ok pages ∧ Opens outline settings root 0 opened ∧
      Trail outline (PageIndex.ofList pages).number? settings 0 opened [] forest := by
  cases h with
  | bare hbare =>
      rw [hroot] at hbare
      cases hbare
  | @rooted root' pages opened _ hroot' hpages hopens htrail =>
      rw [hroot] at hroot'
      cases hroot'
      exact ⟨pages, opened, hpages, hopens, htrail⟩

theorem Yields.nodup_nodes {forest : Forest ν} (h : Yields outline settings forest) :
    forest.nodes.Nodup := by
  cases h with
  | bare _ => exact List.nodup_nil
  | rooted _ _ _ htrail => exact htrail.nodup_nodes

theorem Yields.size_le {forest : Forest ν} (h : Yields outline settings forest)
    {handles : List ν} (hwithin : outline.LinksWithin handles) :
    forest.size ≤ handles.length := by
  cases h with
  | bare _ => exact Nat.zero_le _
  | rooted _ _ hopens htrail =>
      rw [← forest.length_nodes]
      have hsubset : forest.nodes ⊆ handles := by
        apply htrail.mem_handles hwithin
        intro entry hopened
        subst hopened
        exact hwithin.first_mem hopens.first_eq
      exact (List.subperm_of_subset htrail.nodup_nodes hsubset).length_le

/-- What a reading yields is reached. -/
theorem Yields.reachable {forest : Forest ν} (h : Yields outline settings forest) {root : ν}
    (hroot : outline.root = .ok (some root)) {entry : ν} (hentry : entry ∈ forest.nodes) :
    outline.Reachable root entry := by
  rcases h.exists_trail hroot with ⟨_, _, _, hopens, htrail⟩
  rcases htrail.onward hentry with ⟨start, rfl, honward⟩
  exact (Reachable.of_first hopens.first_eq).of_onward honward

variable [DecidableEq ν]

/-- A reading brings home nothing if there is no outline, and otherwise what its walk does. -/
theorem forestWithin_eq_ok_iff_walk {fuel : Nat} {forest : Forest ν} :
    (outline.forestWithin settings fuel).result = .ok forest ↔
      outline.root = .ok none ∧ forest = .nil ∨
        ∃ root pages seen, outline.root = .ok (some root) ∧ outline.pages () = .ok pages ∧
          (outline.walk (PageIndex.ofList pages).number? settings fuel root).result =
            .ok ⟨forest, seen⟩ := by
  rw [forestWithin, Noted.result_bind_eq_ok]
  constructor
  · rintro ⟨root, hroot, h⟩
    have hroot : outline.root = .ok root := Noted.result_inWalk_eq_ok.1 hroot
    cases root with
    | none =>
        obtain ⟨_, _, h⟩ := Noted.result_bind_eq_ok.1 h
        cases h
        exact Or.inl ⟨hroot, rfl⟩
    | some root =>
        obtain ⟨pages, hpages, h⟩ := Noted.result_bind_eq_ok.1 h
        obtain ⟨walked, hwalk, h⟩ := Noted.result_bind_eq_ok.1 h
        cases h
        exact Or.inr ⟨root, pages, _, hroot, Noted.result_inWalk_eq_ok.1 hpages, hwalk⟩
  · rintro (⟨hroot, rfl⟩ | ⟨root, pages, seen, hroot, hpages, hwalk⟩)
    · refine ⟨none, Noted.result_inWalk_eq_ok.2 hroot, ?_⟩
      exact Noted.result_bind_eq_ok.2 ⟨(), rfl, rfl⟩
    · refine ⟨some root, Noted.result_inWalk_eq_ok.2 hroot, ?_⟩
      refine Noted.result_bind_eq_ok.2 ⟨pages, Noted.result_inWalk_eq_ok.2 hpages, ?_⟩
      exact Noted.result_bind_eq_ok.2 ⟨_, hwalk, rfl⟩

/-- A reading fails because it does not get to know the root or the pages, or on its walk. -/
theorem forestWithin_eq_fault {fuel : Nat} {fault : Fault}
    (h : (outline.forestWithin settings fuel).result = .error (.fault fault)) :
    outline.root = .error fault ∨
      ∃ root, outline.root = .ok (some root) ∧
        (outline.pages () = .error fault ∨
          ∃ pages, outline.pages () = .ok pages ∧
            (outline.walk (PageIndex.ofList pages).number? settings fuel root).result =
              .error (.fault fault)) := by
  rcases Noted.result_bind_eq_error.1 h with hroot | ⟨root, hroot, h⟩
  · exact Or.inl (Noted.result_inWalk_eq_fault.1 hroot)
  have hroot : outline.root = .ok root := Noted.result_inWalk_eq_ok.1 hroot
  cases root with
  | none =>
      rcases Noted.result_bind_eq_error.1 h with h | ⟨_, _, h⟩
      · cases h
      · cases h
  | some root =>
      refine Or.inr ⟨root, hroot, ?_⟩
      rcases Noted.result_bind_eq_error.1 h with hpages | ⟨pages, hpages, h⟩
      · exact Or.inl (Noted.result_inWalk_eq_fault.1 hpages)
      · refine Or.inr ⟨pages, Noted.result_inWalk_eq_ok.1 hpages, ?_⟩
        rcases Noted.result_bind_eq_error.1 h with hwalk | ⟨_, _, h⟩
        · exact hwalk
        · cases h

/-- With a root and pages to begin with, a reading fails where its walk does. -/
theorem forestWithin_eq_error_of_walk {fuel : Nat} {root : ν} {pages : List π} {stop : Stop}
    (hroot : outline.root = .ok (some root)) (hpages : outline.pages () = .ok pages)
    (h : (outline.walk (PageIndex.ofList pages).number? settings fuel root).result =
      .error stop) : (outline.forestWithin settings fuel).result = .error stop := by
  refine Noted.result_bind_eq_error.2
    (Or.inr ⟨some root, Noted.result_inWalk_eq_ok.2 hroot, ?_⟩)
  refine Noted.result_bind_eq_error.2 (Or.inr ⟨pages, Noted.result_inWalk_eq_ok.2 hpages, ?_⟩)
  exact Noted.result_bind_eq_error.2 (Or.inl h)

theorem forestWithin_yields {fuel : Nat} {forest : Forest ν}
    (h : (outline.forestWithin settings fuel).result = .ok forest) :
    Yields outline settings forest := by
  rcases forestWithin_eq_ok_iff_walk.1 h with
    ⟨hroot, rfl⟩ | ⟨root, pages, seen, hroot, hpages, hwalk⟩
  · exact .bare hroot
  · obtain ⟨opened, hopens, hchain⟩ := walk_eq_ok.1 hwalk
    exact .rooted hroot hpages hopens (chain_trail hchain).1

theorem Yields.forestWithin_eq_ok {forest : Forest ν} (h : Yields outline settings forest)
    {fuel : Nat} (hfuel : forest.size ≤ fuel) :
    (outline.forestWithin settings fuel).result = .ok forest := by
  cases h with
  | bare hroot => exact forestWithin_eq_ok_iff_walk.2 (Or.inl ⟨hroot, rfl⟩)
  | @rooted root pages opened _ hroot hpages hopens htrail =>
      exact forestWithin_eq_ok_iff_walk.2 <| Or.inr ⟨root, pages, _, hroot, hpages,
        walk_eq_ok.2 ⟨opened, hopens, htrail.chain_eq_ok hfuel⟩⟩

variable (outline settings) in
/-- The table of contents of a forest read from an outline. -/
def contentsOf (forest : Forest ν) : Contents :=
  Contents.ofForest settings.rootTitle (signed32 outline.pageCount.toNat) forest

theorem readWithin_eq_ok {fuel : Nat} {contents : Contents} :
    (outline.readWithin settings fuel).result = .ok contents ↔
      ∃ forest, (outline.forestWithin settings fuel).result = .ok forest ∧
        contents = outline.contentsOf settings forest := by
  rw [readWithin_eq, Noted.result_bind_eq_ok]
  apply exists_congr
  intro forest
  apply and_congr_right
  intro _
  rw [Noted.result_bind_eq_ok]
  constructor
  · intro h
    rcases h with ⟨_, _, h⟩
    exact (Except.ok.inj h).symm
  · intro h
    exact ⟨(), rfl, congrArg _ h.symm⟩

/-- A reading fails where its walk does. -/
theorem readWithin_eq_error {fuel : Nat} {stop : Stop} :
    (outline.readWithin settings fuel).result = .error stop ↔
      (outline.forestWithin settings fuel).result = .error stop := by
  rw [readWithin_eq, Noted.result_bind_eq_error]
  apply or_iff_left
  intro h
  rcases h with ⟨_, _, h⟩
  rcases Noted.result_bind_eq_error.1 h with h | ⟨_, _, h⟩
  · cases h
  · cases h

theorem readWithin_yields {fuel : Nat} {contents : Contents}
    (h : (outline.readWithin settings fuel).result = .ok contents) :
    ∃ forest, Yields outline settings forest ∧
      contents = outline.contentsOf settings forest := by
  obtain ⟨forest, hforest, hcontents⟩ := readWithin_eq_ok.1 h
  exact ⟨forest, forestWithin_yields hforest, hcontents⟩

/-- With a root and pages to begin with, a reading fails only on its walk. -/
theorem walk_fault_of_readWithin {fuel : Nat} {root : ν} {pages : List π} {fault : Fault}
    (hroot : outline.root = .ok (some root)) (hpages : outline.pages () = .ok pages)
    (h : (outline.readWithin settings fuel).result = .error (.fault fault)) :
    (outline.walk (PageIndex.ofList pages).number? settings fuel root).result =
      .error (.fault fault) := by
  rcases forestWithin_eq_fault (readWithin_eq_error.1 h) with
    h | ⟨other, hother, h | ⟨others, hothers, hwalk⟩⟩
  · rw [hroot] at h
    cases h
  · rw [hpages] at h
    cases h
  · rw [hroot] at hother
    rw [hpages] at hothers
    cases hother
    cases hothers
    exact hwalk

end Outline

namespace FiniteOutline

variable {ν π : Type} [DecidableEq ν] [BEq π] [Hashable π] {outline : FiniteOutline ν π}
  {settings : Settings}

theorem read_eq_ok_iff_readWithin {contents : Contents} :
    (outline.read settings).result = .ok contents ↔
      (outline.readWithin settings outline.handles.length).result = .ok contents := by
  unfold read
  dsimp only
  split
  · next h => rw [h]; exact ⟨fun h => by cases h; rfl, fun h => by cases h; rfl⟩
  · next h => rw [h]; exact ⟨fun h => (by cases h), fun h => (by cases h)⟩
  · next h => exact absurd h (Outline.readWithin_ne_exhausted outline.linksWithin (Nat.le_refl _))

theorem read_eq_error_iff_readWithin {fault : Fault} :
    (outline.read settings).result = .error fault ↔
      (outline.readWithin settings outline.handles.length).result = .error (.fault fault) := by
  unfold read
  dsimp only
  split
  · next h => rw [h]; exact ⟨fun h => (by cases h), fun h => (by cases h)⟩
  · next h => rw [h]; exact ⟨fun h => by cases h; rfl, fun h => by cases h; rfl⟩
  · next h => exact absurd h (Outline.readWithin_ne_exhausted outline.linksWithin (Nat.le_refl _))

/-- The tables of contents that reading an outline gives are those of the forests it yields. -/
theorem read_eq_ok {contents : Contents} :
    (outline.read settings).result = .ok contents ↔
      ∃ forest, Outline.Yields outline.toOutline settings forest ∧
        contents = outline.contentsOf settings forest := by
  rw [read_eq_ok_iff_readWithin]
  constructor
  · exact Outline.readWithin_yields
  · intro h
    rcases h with ⟨forest, hyields, hcontents⟩
    have hfuel := hyields.size_le outline.linksWithin
    exact Outline.readWithin_eq_ok.2 ⟨forest, hyields.forestWithin_eq_ok hfuel, hcontents⟩

/-- A reading of an outline that answers fails only on its walk. -/
theorem walk_fault_of_read {root : ν} (hroot : outline.root = .ok (some root))
    (hanswers : outline.Answers root) {fault : Fault}
    (h : (outline.read settings).result = .error fault) :
    ∃ number? : π → Option Nat,
      (outline.walk number? settings outline.handles.length root).result =
        .error (.fault fault) := by
  obtain ⟨pages, hpages⟩ := hanswers.pages
  exact ⟨_, Outline.walk_fault_of_readWithin hroot hpages (read_eq_error_iff_readWithin.1 h)⟩

end FiniteOutline

end Bookmarks
