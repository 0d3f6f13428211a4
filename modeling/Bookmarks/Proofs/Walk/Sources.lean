/-
# Where sections come from

Section `n + 1` of a table of contents is made from the `n`-th entry that the walk takes up: it has
the title of that entry, begins on its page and at its position, and has a level at which the entry
is reached (`Yields.madeFrom`).
-/
import Bookmarks.Proofs.Walk.Reading

namespace Bookmarks.Outline

variable {ν π : Type}

/-- The sections of a table of contents, the document as a whole apart, are made from the entries
of a list in turn. -/
structure MadeFrom [BEq π] [Hashable π] (outline : Outline ν π) (root : ν) (contents : Contents)
    (entries : List ν) : Prop where
  size_eq : contents.size = entries.length + 1
  reads : ∀ {place entry}, entries[place]? = some entry →
    ∃ s level pages, contents.get? (place + 1) = some s ∧
      outline.ReachedAt root level entry ∧ s.level = level ∧
      outline.title entry = .ok s.title ∧
      (outline.position entry).result = .ok s.position ∧
      outline.pages () = .ok pages ∧
      (outline.pageNumber (PageIndex.ofList pages).number? (some entry)).result =
        .ok s.startPage

/-- The nodes that the sections of a table were made from, by number. -/
def sourceAt (root : ν) (forest : Forest ν) (number : Nat) : Option ν :=
  (root :: forest.nodes)[number]?

variable {outline : Outline ν π} {settings : Settings} {root : ν} {forest : Forest ν}

theorem size_contentsOf : (outline.contentsOf settings forest).size = forest.nodes.length + 1 := by
  rw [contentsOf, Contents.size_ofForest, Forest.length_nodes]

theorem lays_contentsOf (root : ν) :
    (outline.contentsOf settings forest).Lays (sourceAt root forest) 0 0 1 forest :=
  Contents.lays_ofForest _ _ _ fun _ _ => rfl

/-- The course of a walk to the forest of a table passes each of its sections, at the depth that is
the level of the section. -/
theorem Trail.locate {number? : π → Option Nat} {opened : Option ν}
    (h : Trail outline number? settings 0 opened [] forest)
    (hopens : Opens outline settings root 0 opened) {number : Nat} {s : Section}
    (hnumber : 0 < number) (hs : (outline.contentsOf settings forest).get? number = some s) :
    ∃ parent depth current seen node heading below after,
      Trail outline number? settings depth current seen (.cons node heading below after) ∧
      (outline.contentsOf settings forest).Lays (sourceAt root forest) parent depth number
        (.cons node heading below after) ∧
      outline.ReachedAt root depth node := by
  let P : Int → Forest ν → Prop := fun level forest =>
    ∃ (depth : Nat) (current : Option ν) (seen : List ν), level = depth ∧
      Trail outline number? settings depth current seen forest ∧
      ∀ entry, current = some entry → outline.ReachedAt root depth entry
  have hsize : number < 1 + forest.size := by
    have hlt : number < (outline.contentsOf settings forest).size :=
      (Array.getElem?_eq_some_iff.1 hs).1
    rw [size_contentsOf, Forest.length_nodes] at hlt
    omega
  have hdown : ∀ {level node heading below after}, P level (.cons node heading below after) →
      P (level + 1) below := by
    intro _ node heading below after hpart
    rcases hpart with ⟨depth, _, _, rfl, htrail, hreached⟩
    cases htrail with
    | visit _ _ hopens hbelow _ =>
        refine ⟨depth + 1, _, _, by omega, hbelow, ?_⟩
        intro entry hentry
        subst hentry
        exact (hreached node rfl).under hopens.first_eq
  have halong : ∀ {level node heading below after}, P level (.cons node heading below after) →
      P level after := by
    intro _ node heading below after hpart
    rcases hpart with ⟨depth, _, _, rfl, htrail, hreached⟩
    cases htrail with
    | visit _ hread _ _ hafter =>
        refine ⟨depth, _, _, rfl, hafter, ?_⟩
        intro entry hentry
        exact (hreached node rfl).beside (next_eq_of_readEntry hread hentry)
  have hstart : P 0 forest := by
    refine ⟨0, opened, [], rfl, h, ?_⟩
    intro entry hentry
    subst hentry
    exact .top hopens.first_eq
  rcases Contents.Lays.locate (P := P) hdown halong (lays_contentsOf root) hstart hnumber hsize with
    ⟨parent, level, node, heading, below, after, hpart, hlays⟩
  rcases hpart with ⟨depth, current, seen, rfl, htrail, hreached⟩
  refine ⟨parent, depth, current, seen, node, heading, below, after, htrail, hlays, ?_⟩
  cases htrail with
  | visit _ _ _ _ _ => exact hreached node rfl

theorem exists_get?_contentsOf {number : Nat}
    (h : number < (outline.contentsOf settings forest).size) :
    ∃ s, (outline.contentsOf settings forest).get? number = some s :=
  ⟨_, Array.getElem?_eq_getElem h⟩

theorem Yields.madeFrom [BEq π] [Hashable π] (h : Yields outline settings forest)
    (hroot : outline.root = .ok (some root)) :
    outline.MadeFrom root (outline.contentsOf settings forest) forest.nodes where
  size_eq := size_contentsOf
  reads {place entry} hentry := by
    rcases h.exists_trail hroot with ⟨pages, opened, hpages, hopens, htrail⟩
    have hplace : place + 1 < (outline.contentsOf settings forest).size := by
      rw [size_contentsOf]
      exact Nat.succ_lt_succ (List.getElem?_eq_some_iff.1 hentry).1
    rcases exists_get?_contentsOf hplace with ⟨s, hs⟩
    rcases htrail.locate hopens (Nat.succ_pos place) hs with
      ⟨_, depth, _, _, node, heading, below, after, htrail, hlays, hreached⟩
    have hnode : some entry = some node := by
      rw [← hlays.sources_head, sourceAt, List.getElem?_cons_succ, hentry]
    cases hnode
    rw [hlays.get?_head] at hs
    cases hs
    cases htrail with
    | visit _ hread _ _ _ =>
        rcases readEntry_eq_ok.1 hread with ⟨hstart, -, -, hposition, htitle⟩
        exact ⟨_, depth, pages, hlays.get?_head, hreached, rfl, htitle, hposition, hpages, hstart⟩

end Bookmarks.Outline
