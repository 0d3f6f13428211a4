/-
# Well-formed outlines

An outline is well-formed for a depth limit if its links make a tree and every entry is reached
above the limit. Strict readings succeed for exactly these outlines. In one direction, a strict
walk that succeeds has followed every link there is, and no two of them to the same entry: the
`places` of its forest are a chart of everything that is reached. In the other direction, depth is
all that can be wrong with a tree. What a strict reading makes of a well-formed outline mirrors it,
section by section and link by link (`read_strict_iff_wellFormed`).
-/
import Bookmarks.Proofs.Outline.Table
import Bookmarks.Proofs.Page.Index
import Bookmarks.Proofs.Walk.Sources
import Bookmarks.Proofs.Walk.Tree

namespace Bookmarks

/-- An entry as a walk comes to it. -/
structure Place (ν : Type) where
  level : Nat
  /-- The link that led to the entry. -/
  link : Outline.Link ν
  node : ν

/-- The places that a walk passes on its way through a forest, when it comes to its first entry at
a level and by a link. -/
def Forest.places {ν : Type} (level : Nat) (link : Outline.Link ν) : Forest ν → List (Place ν)
  | .nil => []
  | .cons node _ below after =>
      ⟨level, link, node⟩
        :: (below.places (level + 1) (.first node) ++ after.places level (.next node))

theorem Forest.map_node_places {ν : Type} (forest : Forest ν) (level : Nat)
    (link : Outline.Link ν) : (forest.places level link).map Place.node = forest.nodes := by
  induction forest generalizing level link with
  | nil => rfl
  | cons node _ below after ihBelow ihAfter =>
      simp only [places, nodes, List.map_cons, List.map_append, ihBelow, ihAfter]

namespace Outline

variable {ν π : Type} {outline : Outline ν π} {number? : π → Option Nat} {settings : Settings}
  {root : ν}

variable (outline root) in
/-- The links below the root make a tree, and every entry is reached above a depth. -/
structure WellFormed (limit : Nat) : Prop extends outline.IsTree root where
  level_lt : ∀ {level entry}, outline.ReachedAt root level entry → level < limit

/-- Whatever is reached below a node has the node's first child to begin with. -/
theorem ReachedAt.exists_first {level : Nat} {entry : ν} (h : outline.ReachedAt root level entry) :
    ∃ first, outline.first root = .ok (some first) := by
  induction h with
  | top hfirst => exact ⟨_, hfirst⟩
  | under _ _ ih => exact ih
  | beside _ _ ih => exact ih

/-! ## Charts -/

variable (outline root) in
/-- A link leads to one of the places, or nowhere. -/
def Charted (places : List (Place ν)) (level : Nat) (link : Link ν) : Prop :=
  ∃ target, link.target outline root = .ok target ∧
    ∀ entry, target = some entry → ⟨level, link, entry⟩ ∈ places

variable (outline root) in
/-- A list of places, all of them above a depth, that holds whatever can be reached from them. -/
structure Chart (limit : Nat) (places : List (Place ν)) : Prop where
  target_eq : ∀ {place}, place ∈ places →
    place.link.target outline root = .ok (some place.node)
  level_lt : ∀ {place}, place ∈ places → place.level < limit
  last_intact : ∀ {place}, place ∈ places → ∃ target, outline.last place.node = .ok target
  first_mem : ∀ {place}, place ∈ places →
    Charted outline root places (place.level + 1) (.first place.node)
  next_mem : ∀ {place}, place ∈ places →
    Charted outline root places place.level (.next place.node)

namespace Charted

variable {places larger : List (Place ν)} {level : Nat} {link : Link ν} {entry : ν}

theorem mono (h : Charted outline root places level link) (hsubset : places ⊆ larger) :
    Charted outline root larger level link := by
  rcases h with ⟨target, htarget, hmem⟩
  exact ⟨target, htarget, fun entry hentry => hsubset (hmem entry hentry)⟩

theorem exists_target (h : Charted outline root places level link) :
    ∃ target, link.target outline root = .ok target := by
  rcases h with ⟨target, htarget, _⟩
  exact ⟨target, htarget⟩

theorem mem (h : Charted outline root places level link)
    (hentry : link.target outline root = .ok (some entry)) : ⟨level, link, entry⟩ ∈ places := by
  rcases h with ⟨target, htarget, hmem⟩
  apply hmem
  rw [htarget] at hentry
  exact Except.ok.inj hentry

end Charted

namespace Chart

variable {limit : Nat} {places others : List (Place ν)}

theorem nil : Chart outline root limit [] where
  target_eq hplace := absurd hplace List.not_mem_nil
  level_lt hplace := absurd hplace List.not_mem_nil
  last_intact hplace := absurd hplace List.not_mem_nil
  first_mem hplace := absurd hplace List.not_mem_nil
  next_mem hplace := absurd hplace List.not_mem_nil

theorem append (h : Chart outline root limit places) (hothers : Chart outline root limit others) :
    Chart outline root limit (places ++ others) where
  target_eq hplace := (List.mem_append.1 hplace).elim h.target_eq hothers.target_eq
  level_lt hplace := (List.mem_append.1 hplace).elim h.level_lt hothers.level_lt
  last_intact hplace := (List.mem_append.1 hplace).elim h.last_intact hothers.last_intact
  first_mem hplace := by
    rcases List.mem_append.1 hplace with hplace | hplace
    · exact (h.first_mem hplace).mono (List.subset_append_left _ _)
    · exact (hothers.first_mem hplace).mono (List.subset_append_right _ _)
  next_mem hplace := by
    rcases List.mem_append.1 hplace with hplace | hplace
    · exact (h.next_mem hplace).mono (List.subset_append_left _ _)
    · exact (hothers.next_mem hplace).mono (List.subset_append_right _ _)

/-- A place whose links lead to places of a chart can be added to the chart. -/
theorem cons (h : Chart outline root limit places) {place : Place ν}
    (htarget : place.link.target outline root = .ok (some place.node))
    (hlevel : place.level < limit) (hlast : ∃ target, outline.last place.node = .ok target)
    (hfirst : Charted outline root places (place.level + 1) (.first place.node))
    (hnext : Charted outline root places place.level (.next place.node)) :
    Chart outline root limit (place :: places) where
  target_eq hplace := by
    cases hplace with
    | head => exact htarget
    | tail _ hplace => exact h.target_eq hplace
  level_lt hplace := by
    cases hplace with
    | head => exact hlevel
    | tail _ hplace => exact h.level_lt hplace
  last_intact hplace := by
    cases hplace with
    | head => exact hlast
    | tail _ hplace => exact h.last_intact hplace
  first_mem hplace := by
    cases hplace with
    | head => exact hfirst.mono (List.subset_cons_self _ _)
    | tail _ hplace => exact (h.first_mem hplace).mono (List.subset_cons_self _ _)
  next_mem hplace := by
    cases hplace with
    | head => exact hnext.mono (List.subset_cons_self _ _)
    | tail _ hplace => exact (h.next_mem hplace).mono (List.subset_cons_self _ _)

theorem mem_of_reachedAt (h : Chart outline root limit places)
    (htop : Charted outline root places 0 .top) {level : Nat} {entry : ν}
    (hentry : outline.ReachedAt root level entry) :
    ∃ link, ⟨level, link, entry⟩ ∈ places := by
  induction hentry with
  | top hfirst => exact ⟨_, htop.mem hfirst⟩
  | under _ hfirst ih =>
      rcases ih with ⟨link, habove⟩
      exact ⟨_, (h.first_mem habove).mem hfirst⟩
  | beside _ hnext ih =>
      rcases ih with ⟨link, hprevious⟩
      exact ⟨_, (h.next_mem hprevious).mem hnext⟩

/-- A link that can be followed is on the chart. -/
theorem mem_of_live (h : Chart outline root limit places)
    (htop : Charted outline root places 0 .top) {link : Link ν} {entry : ν}
    (hlive : link.Live outline root) (htarget : link.target outline root = .ok (some entry)) :
    ∃ level, ⟨level, link, entry⟩ ∈ places := by
  cases link with
  | top => exact ⟨0, htop.mem htarget⟩
  | first above =>
      rcases hlive with ⟨level, habove⟩
      rcases h.mem_of_reachedAt htop habove with ⟨link, hplace⟩
      exact ⟨level + 1, (h.first_mem hplace).mem htarget⟩
  | next previous =>
      rcases hlive with ⟨level, hprevious⟩
      rcases h.mem_of_reachedAt htop hprevious with ⟨link, hplace⟩
      exact ⟨level, (h.next_mem hplace).mem htarget⟩

theorem link_eq (h : Chart outline root limit places) (htop : Charted outline root places 0 .top)
    (hnodup : (places.map Place.node).Nodup) (first second : Link ν) {entry : ν}
    (hfirst : first.Live outline root) (hsecond : second.Live outline root)
    (hfirstTarget : first.target outline root = .ok (some entry))
    (hsecondTarget : second.target outline root = .ok (some entry)) : first = second := by
  rcases h.mem_of_live htop hfirst hfirstTarget with ⟨_, hfirstMem⟩
  rcases h.mem_of_live htop hsecond hsecondTarget with ⟨_, hsecondMem⟩
  exact congrArg Place.link (List.inj_on_of_nodup_map hnodup hfirstMem hsecondMem rfl)

/-- A chart with a single place for each entry is that of a tree. -/
theorem isTree (h : Chart outline root limit places) (htop : Charted outline root places 0 .top)
    (hlast : ∃ target, outline.last root = .ok target)
    (hnodup : (places.map Place.node).Nodup) : outline.IsTree root where
  first_intact {node} hnode := by
    rcases hnode with rfl | ⟨level, hnode⟩
    · exact htop.exists_target
    · rcases h.mem_of_reachedAt htop hnode with ⟨_, hplace⟩
      exact (h.first_mem hplace).exists_target
  last_intact {node} hnode := by
    rcases hnode with rfl | ⟨level, hnode⟩
    · exact hlast
    · rcases h.mem_of_reachedAt htop hnode with ⟨_, hplace⟩
      exact h.last_intact hplace
  next_intact hentry := by
    rcases hentry with ⟨level, hentry⟩
    rcases h.mem_of_reachedAt htop hentry with ⟨_, hplace⟩
    exact (h.next_mem hplace).exists_target
  root_unreachable hroot := by
    -- The root's first child would be reached from the root and from an entry that is the root.
    rcases hroot with ⟨_, hreached⟩
    rcases hreached.exists_first with ⟨first, hfirst⟩
    cases h.link_eq htop hnodup .top (.first root) trivial ⟨_, hreached⟩ hfirst hfirst
  unique hentry := hentry.unique_link fun _ _ => h.link_eq htop hnodup _ _

theorem wellFormed (h : Chart outline root limit places)
    (htop : Charted outline root places 0 .top) (hlast : ∃ target, outline.last root = .ok target)
    (hnodup : (places.map Place.node).Nodup) : outline.WellFormed root limit where
  toIsTree := h.isTree htop hlast hnodup
  level_lt hentry := by
    rcases h.mem_of_reachedAt htop hentry with ⟨_, hplace⟩
    exact h.level_lt hplace

end Chart

/-- The places of a strict walk are a chart, in which the walk begins. -/
theorem Trail.chart {depth : Nat} {current : Option ν} {seen : List ν} {forest : Forest ν}
    (h : Trail outline number? settings depth current seen forest)
    (hstrict : settings.tolerance = .strict) (link : Link ν)
    (hlink : link.target outline root = .ok current)
    (hdepth : current.isSome → depth < settings.depthLimit) :
    Chart outline root settings.depthLimit (forest.places depth link) ∧
      Charted outline root (forest.places depth link) depth link := by
  induction h generalizing link with
  | finish => exact ⟨.nil, none, hlink, fun _ h => (by cases h)⟩
  | revisit _ hlenient =>
      rw [hstrict] at hlenient
      cases hlenient
  | @visit depth start seen read opened below after _ hread hopens _ _ ihBelow ihAfter =>
      rcases hopens.of_strict hstrict with ⟨hfirst, hbelowDepth, hlast⟩
      have hnext : outline.next start = .ok read.next := by
        rw [← Settings.follow_of_strict hstrict (outline.next start)]
        exact (readEntry_eq_ok.1 hread).2.1
      rcases ihBelow (.first start) hfirst hbelowDepth with ⟨hbelow, hbelowFirst⟩
      rcases ihAfter (.next start) hnext fun _ => hdepth rfl with ⟨hafter, hafterNext⟩
      rw [Forest.places]
      constructor
      · apply (hbelow.append hafter).cons hlink (hdepth rfl) hlast
        · exact hbelowFirst.mono (List.subset_append_left _ _)
        · exact hafterNext.mono (List.subset_append_right _ _)
      · refine ⟨some start, hlink, ?_⟩
        intro entry hentry
        cases hentry
        exact List.mem_cons_self

/-- A strict walk that succeeds has gone through a well-formed outline, and missed nothing. -/
theorem Trail.wellFormed {opened : Option ν} {forest : Forest ν}
    (hopens : Opens outline settings root 0 opened)
    (h : Trail outline number? settings 0 opened [] forest)
    (hstrict : settings.tolerance = .strict) :
    outline.WellFormed root settings.depthLimit ∧
      ∀ entry, outline.Reachable root entry → entry ∈ forest.nodes := by
  rcases hopens.of_strict hstrict with ⟨hfirst, hdepth, hlast⟩
  rcases h.chart hstrict .top hfirst hdepth with ⟨hchart, htop⟩
  constructor
  · apply hchart.wellFormed htop hlast
    rw [Forest.map_node_places]
    exact h.nodup_nodes
  · intro entry hentry
    rcases hentry with ⟨level, hentry⟩
    rcases hchart.mem_of_reachedAt htop hentry with ⟨link, hplace⟩
    rw [← forest.map_node_places 0 .top]
    exact List.mem_map_of_mem hplace

/-! ## Mirrors -/

variable (outline) in
/-- The sections of a table stand to each other as the links of an outline say: the first child of
a section is made from the first child of its node, and the next section under the same section
from the node's next sibling. -/
structure Mirrors (contents : Contents) (sources : Nat → Option ν) : Prop where
  first_eq : ∀ {number s node}, contents.get? number = some s → sources number = some node →
    outline.first node = .ok (s.children.head?.bind sources)
  next_eq : ∀ {number node}, 0 < number → number < contents.size → sources number = some node →
    outline.next node = .ok ((contents.nextNumber? number).bind sources)

/-- The table of a strict walk mirrors the outline. -/
theorem Trail.mirrors {opened : Option ν} {forest : Forest ν}
    (hopens : Opens outline settings root 0 opened)
    (h : Trail outline number? settings 0 opened [] forest)
    (hstrict : settings.tolerance = .strict) :
    outline.Mirrors (outline.contentsOf settings forest) (sourceAt root forest) where
  first_eq {number s node} hs hnode := by
    cases number with
    | zero =>
        cases hnode
        rw [contentsOf, Contents.get?_ofForest_zero, Option.some.injEq] at hs
        subst hs
        have hlays :
            (outline.contentsOf settings forest).Lays (sourceAt root forest) 0 0 1 forest :=
          lays_contentsOf root
        calc
          outline.first root = .ok opened := (hopens.of_strict hstrict).1
          _ = .ok forest.head? := by rw [h.head?_eq hstrict]
          _ = .ok ((forest.topNumbers 1).head?.bind (sourceAt root forest)) := by
            rw [hlays.bind_head?_topNumbers]
    | succ number =>
        rcases h.locate hopens (Nat.succ_pos number) hs with
          ⟨_, _, _, _, entry, heading, below, after, htrail, hlays, -⟩
        rw [hlays.sources_head, Option.some.injEq] at hnode
        subst hnode
        rw [hlays.get?_head, Option.some.injEq] at hs
        subst hs
        cases htrail with
        | @visit _ _ _ _ opened _ _ _ _ hopens hbelow _ =>
            calc
              outline.first entry = .ok opened := (hopens.of_strict hstrict).1
              _ = .ok below.head? := by rw [hbelow.head?_eq hstrict]
              _ = .ok ((below.topNumbers (number + 1 + 1)).head?.bind (sourceAt root forest)) := by
                rw [hlays.down.bind_head?_topNumbers]
  next_eq {number node} hnumber hsize hnode := by
    rcases exists_get?_contentsOf hsize with ⟨s, hs⟩
    rcases h.locate hopens hnumber hs with
      ⟨_, _, _, _, entry, heading, below, after, htrail, hlays, -⟩
    rw [hlays.sources_head, Option.some.injEq] at hnode
    subst hnode
    cases htrail with
    | @visit _ _ _ read _ _ _ _ hread _ _ hafter =>
        have hnext : (settings.follow (outline.next entry)).result = .ok read.next :=
          (readEntry_eq_ok.1 hread).2.1
        rw [Settings.follow_of_strict hstrict] at hnext
        calc
          outline.next entry = .ok read.next := hnext
          _ = .ok after.head? := by rw [hafter.head?_eq hstrict]
          _ = .ok ((after.topNumbers (number + below.size + 1)).head?.bind
                (sourceAt root forest)) := by
            rw [hlays.along.bind_head?_topNumbers]
          _ = .ok (((outline.contentsOf settings forest).nextNumber? number).bind
                (sourceAt root forest)) := by
            rw [hlays.nextNumber?_eq, Forest.head?_topNumbers]

/-- Where a strict reading succeeds, the outline is well-formed, and its table mirrors all of it. -/
theorem Yields.wellFormed [BEq π] [Hashable π] {forest : Forest ν}
    (h : Yields outline settings forest) (hroot : outline.root = .ok (some root))
    (hstrict : settings.tolerance = .strict) :
    outline.WellFormed root settings.depthLimit ∧
      (∀ entry, outline.Reachable root entry → entry ∈ forest.nodes) ∧
      outline.Mirrors (outline.contentsOf settings forest) (sourceAt root forest) := by
  rcases h.exists_trail hroot with ⟨_, _, _, hopens, htrail⟩
  rcases htrail.wellFormed hopens hstrict with ⟨hwell, hmem⟩
  exact ⟨hwell, hmem, htrail.mirrors hopens hstrict⟩

end Outline

namespace FiniteOutline

variable {ν π : Type} [DecidableEq ν] [BEq π] [Hashable π] {outline : FiniteOutline ν π}
  {settings : Settings} {root : ν}

/-- A strict reading of a well-formed outline succeeds. -/
theorem exists_read_of_wellFormed (hroot : outline.root = .ok (some root))
    (hanswers : outline.Answers root)
    (h : outline.toOutline.WellFormed root settings.depthLimit) :
    ∃ contents, (outline.read settings).result = .ok contents := by
  cases hread : (outline.read settings).result with
  | ok contents => exact ⟨contents, rfl⟩
  | error fault =>
      rcases depthFault_of_read hroot hanswers h.toIsTree hread with
        ⟨-, -, level, entry, hentry, hdeep⟩
      exact absurd (h.level_lt hentry) (Nat.not_lt.2 hdeep)

/-- A strict reading of an outline that answers succeeds exactly if the outline is well-formed, and
finds damage otherwise. The table of contents that it gives mirrors the outline, and its sections
are made from the entries that are reached, one from each. -/
theorem read_strict_iff_wellFormed (hroot : outline.root = .ok (some root))
    (hanswers : outline.Answers root) (hstrict : settings.tolerance = .strict) :
    ((∃ contents, (outline.read settings).result = .ok contents) ↔
      outline.toOutline.WellFormed root settings.depthLimit) ∧
    (¬ outline.toOutline.WellFormed root settings.depthLimit →
      ∃ damage, (outline.read settings).result = .error (.corrupted damage)) ∧
    ∀ contents, (outline.read settings).result = .ok contents →
      ∃ forest, contents = outline.contentsOf settings forest ∧
        outline.MadeFrom root contents forest.nodes ∧
        outline.Mirrors contents (Outline.sourceAt root forest) ∧
        forest.nodes.Nodup ∧ ∀ entry, entry ∈ forest.nodes ↔ outline.Reachable root entry := by
  refine ⟨⟨?_, exists_read_of_wellFormed hroot hanswers⟩, ?_, ?_⟩
  · intro hread
    rcases hread with ⟨contents, hok⟩
    rcases read_eq_ok.1 hok with ⟨forest, hyields, -⟩
    exact (hyields.wellFormed hroot hstrict).1
  · intro hill
    cases hresult : (outline.read settings).result with
    | ok contents =>
        rcases read_eq_ok.1 hresult with ⟨forest, hyields, -⟩
        exact absurd (hyields.wellFormed hroot hstrict).1 hill
    | error fault =>
        rcases walk_fault_of_read hroot hanswers hresult with ⟨_, hwalk⟩
        rcases hanswers.walk_fault hwalk with ⟨-, damage, rfl⟩
        exact ⟨damage, rfl⟩
  · intro contents hok
    rcases read_eq_ok.1 hok with ⟨forest, hyields, rfl⟩
    rcases hyields.wellFormed hroot hstrict with ⟨-, hmem, hmirrors⟩
    exact ⟨forest, rfl, hyields.madeFrom hroot, hmirrors, hyields.nodup_nodes,
      fun entry => ⟨hyields.reachable hroot, hmem entry⟩⟩

end FiniteOutline

/-- A chapter with one section, and a second chapter. -/
def twoChapters : OutlineTable where
  pageCount := 9
  root := .ok (some 0)
  pages := .ok ["p1", "p2"]
  rows := [
    (0, { first := .ok (some 1), last := .ok (some 3) }),
    (1, { first := .ok (some 2), last := .ok (some 2), next := .ok (some 3),
          title := .ok "Chapter 1" }),
    (2, { title := .ok "Section 1" }),
    (3, { title := .ok "Chapter 2" })]

/-- Chapters with sections are well-formed if entries may be nested, and found too deep if not. -/
theorem wellFormed_twoChapters :
    twoChapters.outline.root = .ok (some 0) ∧ twoChapters.outline.Answers 0 ∧
      twoChapters.toOutline.WellFormed 0 2 ∧
      ∃ damage, (twoChapters.outline.read { depthLimit := 1 }).result =
        .error (.corrupted damage) := by
  have hanswers : twoChapters.outline.Answers 0 := OutlineTable.AnswersFrom.answers (by decide)
  have hforest : (twoChapters.toOutline.forestWithin { depthLimit := 2 } 3).result =
      .ok (.cons 1 ⟨"Chapter 1", -1, -1, 0⟩ (.cons 2 ⟨"Section 1", -1, 9, 0⟩ .nil .nil)
        (.cons 3 ⟨"Chapter 2", -1, 9, 0⟩ .nil .nil)) := by
    simp only [Outline.forestWithin, PageIndex.number?_ofList]
    decide +kernel
  have hread : ∃ contents,
      (twoChapters.outline.read { depthLimit := 2 }).result = .ok contents :=
    ⟨_, FiniteOutline.read_eq_ok.2 ⟨_, Outline.forestWithin_yields hforest, rfl⟩⟩
  have hsection : twoChapters.toOutline.ReachedAt 0 1 2 := by
    have hchapter : twoChapters.toOutline.ReachedAt 0 0 1 := .top rfl
    exact hchapter.under rfl
  have hdeep : ¬ twoChapters.toOutline.WellFormed 0 1 := fun h =>
    absurd (h.level_lt hsection) (by decide)
  refine ⟨rfl, hanswers, ?_, ?_⟩
  · exact (FiniteOutline.read_strict_iff_wellFormed rfl hanswers rfl).1.1 hread
  · exact (FiniteOutline.read_strict_iff_wellFormed rfl hanswers rfl).2.1 hdeep

end Bookmarks
