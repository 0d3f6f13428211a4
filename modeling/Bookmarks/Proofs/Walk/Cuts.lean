/-
# What a reader keeps and cuts

A lenient reader leaves entries out, but never without a reason. The children of a section are made
from the chain of siblings that begins at the first child of its node, up to the first entry that an
earlier section was made from; only at the depth limit there are none. And whatever was cut around
an entry, its section says what the outline answers about the entry and its neighbours
(`readWithin_accounts`).

So a section is made from every entry that a reader is led to. The root of the outline is no
exception: the document as a whole stands for it from the beginning, but a link that leads back to
the root makes a second section from it (`nodup_sources_iff`).
-/
import Bookmarks.Proofs.Contents.Numbering
import Bookmarks.Proofs.Walk.Sources

namespace Bookmarks

variable {ν π : Type}

/-! ## Links and chains -/

namespace Outline

/-- Where a link leads a reader who takes a broken link for a missing one. -/
inductive Resolves : Except Fault (Option ν) → Option ν → Prop where
  | intact (target : Option ν) : Resolves (.ok target) target
  | broken (damage : Damage) : Resolves (.error (.corrupted damage)) none

theorem resolves_some_iff {answer : Except Fault (Option ν)} {target : ν} :
    Resolves answer (some target) ↔ answer = .ok (some target) := by
  constructor
  · intro h
    cases h
    rfl
  · intro h
    subst h
    exact .intact _

/-- A link is followed to where it leads. -/
theorem resolves_of_follow {settings : Settings} {answer : Except Fault (Option ν)}
    {target : Option ν} (h : (settings.follow answer).result = .ok target) :
    Resolves answer target := by
  cases target with
  | some target => exact resolves_some_iff.2 (Settings.follow_eq_ok_some.1 h)
  | none =>
      obtain rfl | ⟨-, damage, rfl⟩ := Settings.follow_eq_ok_none.1 h
      · exact .intact none
      · exact .broken damage

variable (outline : Outline ν π)

/-- Entries that come one after another by their links to the next sibling, beginning with the
current one, and the entry that the last of these links leads to. -/
inductive Siblings : Option ν → List ν → Option ν → Prop where
  | nil (current : Option ν) : Siblings current [] current
  | cons {entry : ν} {next rest : Option ν} {entries : List ν}
      (hnext : Resolves (outline.next entry) next) (hentries : Siblings next entries rest) :
      Siblings (some entry) (entry :: entries) rest

namespace Siblings

variable {outline : Outline ν π} {current rest : Option ν} {entries : List ν} {entry : ν}

/-- The entries begin with the current one, unless there are none. -/
theorem head (h : outline.Siblings (some entry) entries rest) :
    entry ∈ entries ∨ rest = some entry := by
  cases h with
  | nil => exact Or.inr rfl
  | cons hnext hentries => exact Or.inl List.mem_cons_self

/-- What one of the entries leads to is one of them or comes after them. -/
theorem next_mem (h : outline.Siblings current entries rest) (hentry : entry ∈ entries)
    {target : ν} (htarget : outline.next entry = .ok (some target)) :
    target ∈ entries ∨ rest = some target := by
  induction h with
  | nil => simp at hentry
  | @cons first next rest entries hnext hentries ih =>
      obtain rfl | hmem := List.mem_cons.1 hentry
      · rw [htarget] at hnext
        cases hnext
        exact hentries.head.imp_left (List.mem_cons_of_mem _)
      · exact (ih hmem).imp_left (List.mem_cons_of_mem _)

/-- Each of the entries is the current one or comes after another of them. -/
theorem exists_previous (h : outline.Siblings current entries rest) (hentry : entry ∈ entries) :
    current = some entry ∨
      ∃ previous ∈ entries, outline.next previous = .ok (some entry) := by
  induction h with
  | nil => simp at hentry
  | @cons first next rest entries hnext hentries ih =>
      obtain rfl | hmem := List.mem_cons.1 hentry
      · exact Or.inl rfl
      · right
        obtain rfl | ⟨previous, hprevious, hlink⟩ := ih hmem
        · exact ⟨first, List.mem_cons_self, resolves_some_iff.1 hnext⟩
        · exact ⟨previous, List.mem_cons_of_mem _ hprevious, hlink⟩

end Siblings

end Outline

/-! ## Sections and their entries -/

/-- A section before `number`, the document as a whole apart, was made from an entry. -/
def RepresentedBefore (sources : Nat → Option ν) (number : Nat) (entry : ν) : Prop :=
  ∃ earlier, 0 < earlier ∧ earlier < number ∧ sources earlier = some entry

/-- What lies below a section ends just before `next`: that is the number of the next section, and
the one that a further section below would get. -/
def Contents.EndsBefore (contents : Contents) (number next : Nat) : Prop :=
  number < next ∧ ∀ other, contents.LiesBelow number other ↔ number < other ∧ other < next

namespace Outline

variable (outline : Outline ν π)

/-- The number of the page that an entry points to, unknown if this is no page of the document. No
entry points to no page. -/
def PageIs [BEq π] (pages : List π) : Option ν → Int → Prop
  | none, number => number = unknownPage
  | some entry, number => ∃ page, (outline.page entry).result = .ok page ∧
      number = (page.bind (scanPages pages)).elim unknownPage signed32

/-- The height that a destination asks for: that of a point, if it names one, and zero otherwise. -/
def heightOf : Option Destination → Int
  | some (.xyz _ (some top) _) => top.truncate
  | _ => 0

/-- A section says about an entry what the outline answers about it and about its neighbours. -/
structure ReadFrom [BEq π] (pages : List π) (entry : ν) (s : Section) : Prop where
  title_eq : outline.title entry = .ok s.title
  start_eq : outline.PageIs pages (some entry) s.startPage
  position_eq : ∃ destination, (outline.destination entry).result = .ok destination ∧
    s.position = heightOf destination
  /-- It ends where the next sibling begins, or else the first child, or else with the document. -/
  end_eq : ∃ next sibling, Resolves (outline.next entry) next ∧ outline.PageIs pages next sibling ∧
    (0 ≤ sibling ∧ s.endPage = sibling ∨
      sibling < 0 ∧ ∃ child below, Resolves (outline.first entry) child ∧
        outline.PageIs pages child below ∧
        s.endPage =
          if 0 ≤ below then below
          else if next.isNone && child.isNone then signed32 outline.pageCount.toNat
          else unknownPage)

/-- The children of a section made from `node` are made from the first entries of a chain of
siblings, which is cut where an earlier section was made from the next entry. -/
structure KeepsPrefix (contents : Contents) (sources : Nat → Option ν) (number : Nat) (s : Section)
    (node : ν) (first : Option ν) (entries : List ν) (rest : Option ν) : Prop where
  first_eq : Resolves (outline.first node) first
  siblings : outline.Siblings first entries rest
  children_eq : s.children.map sources = entries.map some
  fresh : ∀ child ∈ s.children, ∀ entry, sources child = some entry →
    ¬ RepresentedBefore sources child entry
  cut : ∀ entry, rest = some entry →
    ∃ next, contents.EndsBefore number next ∧ RepresentedBefore sources next entry

/-- The children of a section made from `node` are cut only where there is a reason to. -/
structure CutsFor (settings : Settings) (contents : Contents) (sources : Nat → Option ν)
    (number : Nat) (s : Section) (node : ν) : Prop where
  too_deep : settings.depthLimit ≤ s.level + 1 → s.children = []
  keeps : s.level + 1 < settings.depthLimit →
    ∃ first entries rest, outline.KeepsPrefix contents sources number s node first entries rest

/-- The table accounts for its sections: each was made from a node of the outline. -/
structure Accounts [BEq π] (settings : Settings) (contents : Contents)
    (sources : Nat → Option ν) : Prop where
  /-- The document as a whole stands for the root of the outline. -/
  root_eq : outline.root = .ok (sources 0)
  /-- Without an outline there is nothing but the document as a whole. -/
  bare : sources 0 = none → contents.size = 1
  source : sources 0 ≠ none → ∀ number < contents.size, ∃ node, sources number = some node
  cuts : ∀ {number s node}, contents.get? number = some s → sources number = some node →
    outline.CutsFor settings contents sources number s node
  reads : ∀ {number s entry}, 0 < number → contents.get? number = some s →
    sources number = some entry →
    ∃ pages, outline.pages () = .ok pages ∧ outline.ReadFrom pages entry s

/-! ## A walk keeps what it comes to first -/

variable {outline : Outline ν π} {number? : π → Option Nat} {settings : Settings}
  {contents : Contents} {sources : Nat → Option ν}

/-- What was made into sections before a forest and in it. -/
theorem representedBefore_iff {parent start : Nat} {level : Int} {forest : Forest ν}
    (h : contents.Lays sources parent level start forest) (hstart : 0 < start) {entry : ν} :
    RepresentedBefore sources (start + forest.size) entry ↔
      entry ∈ forest.nodes ∨ RepresentedBefore sources start entry := by
  constructor
  · rintro ⟨earlier, hpos, hlt, hsource⟩
    by_cases hearlier : earlier < start
    · exact Or.inr ⟨earlier, hpos, hearlier, hsource⟩
    · obtain ⟨offset, rfl⟩ := Nat.exists_eq_add_of_le (Nat.le_of_not_lt hearlier)
      rw [h.source_eq offset (by omega)] at hsource
      exact Or.inl (List.mem_of_getElem? hsource)
  · rintro (hmem | ⟨earlier, hpos, hlt, hsource⟩)
    · obtain ⟨offset, hoffset⟩ := List.mem_iff_getElem?.1 hmem
      have hlt : offset < forest.size := by
        rw [← forest.length_nodes]
        exact (List.getElem?_eq_some_iff.1 hoffset).1
      exact ⟨start + offset, by omega, by omega, (h.source_eq offset hlt).trans hoffset⟩
    · exact ⟨earlier, hpos, by omega, hsource⟩

/-- A node is entered by the link to its first child, but not where it is too deep. -/
theorem Opens.resolves {scope : ν} {depth : Nat} {opened : Option ν}
    (h : Opens outline settings scope depth opened) :
    (settings.depthLimit ≤ depth → opened = none) ∧
      (depth < settings.depthLimit → Resolves (outline.first scope) opened) := by
  cases h with
  | cut hfirst hdeep hlenient =>
      exact ⟨fun _ => rfl, fun hdepth => absurd hdepth (Nat.not_lt.2 hdeep)⟩
  | enter hfirst hdepth hlast =>
      refine ⟨fun hdeep => ?_, fun _ => resolves_of_follow hfirst⟩
      cases opened with
      | none => rfl
      | some child => exact absurd (hdepth rfl) (Nat.not_lt.2 hdeep)

/-- What a walk has seen are the entries that the sections so far were made from. -/
def SeenBefore (sources : Nat → Option ν) (start : Nat) (seen : List ν) : Prop :=
  ∀ entry, entry ∈ seen ↔ RepresentedBefore sources start entry

namespace SeenBefore

variable {parent start : Nat} {level : Int} {seen : List ν} {node : ν} {heading : Heading}
  {below after : Forest ν}

/-- Below an entry, the entry itself has been seen. -/
theorem down (h : SeenBefore sources start seen) (hstart : 0 < start)
    (hlays : contents.Lays sources parent level start (.cons node heading below after)) :
    SeenBefore sources (start + 1) (node :: seen) := by
  intro entry
  rw [List.mem_cons, h entry]
  constructor
  · rintro (rfl | ⟨earlier, hpos, hlt, hsource⟩)
    · exact ⟨start, hstart, Nat.lt_succ_self start, hlays.sources_head⟩
    · exact ⟨earlier, hpos, by omega, hsource⟩
  · rintro ⟨earlier, hpos, hlt, hsource⟩
    obtain hearlier | rfl := Nat.lt_succ_iff_lt_or_eq.1 hlt
    · exact Or.inr ⟨earlier, hpos, hearlier, hsource⟩
    · rw [hlays.sources_head] at hsource
      exact Or.inl (Option.some.inj hsource).symm

/-- After an entry, all that is below it has been seen as well. -/
theorem along (h : SeenBefore sources start seen) (hstart : 0 < start)
    (hlays : contents.Lays sources parent level start (.cons node heading below after)) :
    SeenBefore sources (start + below.size + 1) (below.nodes.reverse ++ node :: seen) := by
  intro entry
  rw [show start + below.size + 1 = start + 1 + below.size by omega,
    representedBefore_iff hlays.down (Nat.succ_pos start), ← h.down hstart hlays entry,
    List.mem_append, List.mem_reverse]

end SeenBefore

/-- A walk along a chain takes up its first entries, until it comes to one it has seen. -/
theorem Trail.siblings {depth parent start : Nat} {level : Int} {current : Option ν}
    {seen : List ν} {forest : Forest ν}
    (h : Trail outline number? settings depth current seen forest)
    (hlays : contents.Lays sources parent level start forest) (hstart : 0 < start)
    (hseen : SeenBefore sources start seen) :
    ∃ entries rest, outline.Siblings current entries rest ∧
      (forest.topNumbers start).map sources = entries.map some ∧
      (∀ child ∈ forest.topNumbers start, ∀ entry, sources child = some entry →
        ¬ RepresentedBefore sources child entry) ∧
      ∀ entry, rest = some entry → RepresentedBefore sources (start + forest.size) entry := by
  induction h generalizing start with
  | finish => exact ⟨[], none, .nil none, rfl, by simp [Forest.topNumbers], by simp⟩
  | @revisit depth entry seen hmem hlenient =>
      refine ⟨[], some entry, .nil _, rfl, by simp [Forest.topNumbers], ?_⟩
      intro other hother
      cases hother
      exact (hseen entry).1 hmem
  | @visit depth entry seen read opened below after hnew hread hopens hbelow hafter _ ihAfter =>
      obtain ⟨entries, rest, hsiblings, hmade, hfresh, hcut⟩ :=
        ihAfter hlays.along (by omega) (hseen.along hstart hlays)
      refine ⟨entry :: entries, rest,
        .cons (resolves_of_follow (readEntry_eq_ok.1 hread).2.1) hsiblings, ?_, ?_, ?_⟩
      · rw [Forest.topNumbers, List.map_cons, List.map_cons, hlays.sources_head, hmade]
      · intro child hchild other hother
        obtain rfl | hchild := List.mem_cons.1 hchild
        · rw [hlays.sources_head, Option.some.injEq] at hother
          rwa [← hother, ← hseen entry]
        · exact hfresh child hchild other hother
      · intro other hother
        rw [Forest.size, show start + (below.size + after.size + 1) =
          start + below.size + 1 + after.size by omega]
        exact hcut other hother

/-- A node that is entered keeps a first part of its chain of children, or nothing if they are too
deep. -/
theorem Trail.cutsFor {depth number : Nat} {level : Int} {scope : ν} {opened : Option ν}
    {seen : List ν} {forest : Forest ν} {s : Section}
    (h : Trail outline number? settings depth opened seen forest)
    (hopens : Opens outline settings scope depth opened)
    (hs : contents.get? number = some s) (hlevel : s.level + 1 = depth)
    (hchildren : s.children = forest.topNumbers (number + 1))
    (hlays : contents.Lays sources number level (number + 1) forest)
    (hseen : SeenBefore sources (number + 1) seen) :
    outline.CutsFor settings contents sources number s scope := by
  obtain ⟨hdeep, hfirst⟩ := hopens.resolves
  constructor
  · intro hlimit
    obtain rfl := hdeep (by omega)
    rw [hchildren]
    cases h with
    | finish => rfl
  · intro hlimit
    obtain ⟨entries, rest, hsiblings, hmade, hfresh, hcut⟩ :=
      h.siblings hlays (Nat.succ_pos number) hseen
    refine ⟨opened, entries, rest, hfirst (by omega), hsiblings, ?_, ?_, ?_⟩
    · rw [hchildren, hmade]
    · rwa [hchildren]
    · intro entry hentry
      refine ⟨number + 1 + forest.size, ⟨by omega, fun other => ?_⟩, hcut entry hentry⟩
      rw [hlays.liesBelow_iff hs hchildren]
      omega

section Reading

variable [BEq π] [EquivBEq π] [Hashable π] [LawfulHashable π] {pages : List π}

theorem pageIs_of_pageNumber {entry : Option ν} {number : Int}
    (h : (outline.pageNumber (PageIndex.ofList pages).number? entry).result = .ok number) :
    outline.PageIs pages entry number := by
  rw [PageIndex.number?_ofList] at h
  cases entry with
  | none => exact (Except.ok.inj h).symm
  | some entry => exact pageNumber_some_eq_ok.1 h

theorem heightOf_eq (destination : Option Destination) :
    heightOf destination = (destination.bind Destination.top?).elim 0 Binary32.truncate := by
  rcases destination with _ | ⟨left, _ | top, zoom⟩ | _ | _ | _ | _ | _ | _ | _ <;> rfl

/-- What is read at an entry are the answers about it and about its neighbours. -/
theorem readFrom_of_readEntry {entry : ν} {read : Entry ν}
    (h : (outline.readEntry (PageIndex.ofList pages).number? settings entry).result = .ok read)
    (parent : Option Nat) (level : Int) (children : List Nat) :
    outline.ReadFrom pages entry
      { parent := parent
        title := read.heading.title
        level := level
        startPage := read.heading.startPage
        endPage := read.heading.endPage
        position := read.heading.position
        children := children } := by
  obtain ⟨hstart, hnext, hfinish, hposition, htitle⟩ := readEntry_eq_ok.1 h
  refine ⟨htitle, pageIs_of_pageNumber hstart, ?_, ?_⟩
  · obtain ⟨destination, hdestination, -⟩ := Noted.result_bind_eq_ok.1 hposition
    rw [result_position hdestination, Except.ok.injEq] at hposition
    exact ⟨destination, hdestination, hposition.symm.trans (heightOf_eq destination).symm⟩
  · obtain ⟨sibling, hsibling, hend⟩ := endPage_eq_ok.1 hfinish
    refine ⟨read.next, sibling, resolves_of_follow hnext, pageIs_of_pageNumber hsibling, ?_⟩
    refine hend.imp_right ?_
    rintro ⟨hunknown, child, below, hchild, hbelow, hlast⟩
    exact ⟨hunknown, child, below, resolves_of_follow hchild, pageIs_of_pageNumber hbelow, hlast⟩

/-- A walk accounts for each section that is made from what it brings home. -/
theorem Trail.accounts_at {depth parent start : Nat} {level : Int} {current : Option ν}
    {seen : List ν} {forest : Forest ν}
    (h : Trail outline (PageIndex.ofList pages).number? settings depth current seen forest)
    (hlays : contents.Lays sources parent level start forest) (hlevel : level = depth)
    (hstart : 0 < start) (hseen : SeenBefore sources start seen) {number : Nat} {s : Section}
    (hs : contents.get? number = some s) (hfrom : start ≤ number)
    (hto : number < start + forest.size) :
    ∃ node, sources number = some node ∧ outline.ReadFrom pages node s ∧
      outline.CutsFor settings contents sources number s node := by
  induction h generalizing parent start level with
  | finish => exact absurd hto (by simp only [Forest.size]; omega)
  | revisit => exact absurd hto (by simp only [Forest.size]; omega)
  | @visit depth entry seen read opened below after hnew hread hopens hbelow hafter
      ihBelow ihAfter =>
      have hseenBelow := hseen.down hstart hlays
      simp only [Forest.size] at hto
      obtain hlt | rfl | hgt := Nat.lt_trichotomy number start
      · omega
      · rw [hlays.get?_head, Option.some.injEq] at hs
        subst hs
        refine ⟨entry, hlays.sources_head, readFrom_of_readEntry hread _ _ _, ?_⟩
        exact hbelow.cutsFor hopens hlays.get?_head (by simp [hlevel]) rfl hlays.down
          hseenBelow
      by_cases hinside : number < start + 1 + below.size
      · exact ihBelow hlays.down (by simp [hlevel]) (Nat.succ_pos start) hseenBelow hgt hinside
      · exact ihAfter hlays.along hlevel (by omega) (hseen.along hstart hlays) (by omega) (by omega)

theorem seenBefore_nil (root : ν) (forest : Forest ν) :
    SeenBefore (sourceAt root forest) 1 [] := by
  intro entry
  refine iff_of_false List.not_mem_nil ?_
  rintro ⟨earlier, hpos, hlt, -⟩
  omega

/-- A reading that begins at a root accounts for its table. -/
theorem Yields.accounts {forest : Forest ν} {root : ν} (h : Yields outline settings forest)
    (hroot : outline.root = .ok (some root)) :
    outline.Accounts settings (outline.contentsOf settings forest) (sourceAt root forest) := by
  obtain ⟨pages, opened, hpages, hopens, htrail⟩ := h.exists_trail hroot
  let contents := outline.contentsOf settings forest
  let sources := sourceAt root forest
  have hlays : contents.Lays sources 0 0 1 forest := lays_contentsOf root
  have hfirst : contents.get? 0 = some (Contents.rootSection settings.rootTitle
      (signed32 outline.pageCount.toNat) (forest.topNumbers 1)) :=
    Contents.get?_ofForest_zero _ _ _
  have hseen := seenBefore_nil root forest
  have htop : outline.CutsFor settings contents sources 0 _ root :=
    htrail.cutsFor hopens hfirst rfl rfl hlays hseen
  have hsection : ∀ {number : Nat} {s : Section}, 0 < number → contents.get? number = some s →
      ∃ node, sources number = some node ∧ outline.ReadFrom pages node s ∧
        outline.CutsFor settings contents sources number s node := by
    intro number s hnumber hs
    have hlt : number < forest.nodes.length + 1 := size_contentsOf ▸ Contents.lt_size_of_get? hs
    rw [Forest.length_nodes] at hlt
    exact htrail.accounts_at hlays rfl Nat.one_pos hseen hs hnumber (by omega)
  refine ⟨hroot, ?bare, ?source, ?cuts, ?reads⟩
  case bare =>
    intro hnone
    cases hnone
  case source =>
    intro _ number hsize
    obtain ⟨s, hs⟩ := exists_get?_contentsOf hsize
    obtain rfl | hnumber := Nat.eq_zero_or_pos number
    · exact ⟨root, rfl⟩
    · obtain ⟨node, hnode, -⟩ := hsection hnumber hs
      exact ⟨node, hnode⟩
  case cuts =>
    intro number s node hs hnode
    obtain rfl | hnumber := Nat.eq_zero_or_pos number
    · cases hfirst.symm.trans hs
      cases hnode
      exact htop
    · obtain ⟨node', hnode', -, hcuts⟩ := hsection hnumber hs
      cases hnode'.symm.trans hnode
      exact hcuts
  case reads =>
    intro number s entry hnumber hs hentry
    obtain ⟨node, hnode, hreads, -⟩ := hsection hnumber hs
    cases hnode.symm.trans hentry
    exact ⟨pages, hpages, hreads⟩

omit [EquivBEq π] [Hashable π] [LawfulHashable π] in
/-- A reading without an outline to read has nothing to account for. -/
theorem accounts_bare (hroot : outline.root = .ok none) :
    outline.Accounts settings (outline.contentsOf settings .nil) fun _ => none where
  root_eq := hroot
  bare _ := size_contentsOf
  source hsome := absurd rfl hsome
  cuts _ hnode := by cases hnode
  reads _ _ hentry := by cases hentry

/-- Every section of a table of contents was made from a node of the outline: what it says is what
the outline answers about that node and its neighbours, and its children are made from the first
entries of the chain below that node, cut for depth or where an entry was represented before. -/
theorem readWithin_accounts [DecidableEq ν] {fuel : Nat}
    (h : (outline.readWithin settings fuel).result = .ok contents) :
    ∃ sources, outline.Accounts settings contents sources := by
  obtain ⟨forest, hyields, rfl⟩ := readWithin_yields h
  cases hyields with
  | bare hroot => exact ⟨_, accounts_bare hroot⟩
  | rooted hroot hpages hopens htrail =>
      exact ⟨_, Yields.accounts (.rooted hroot hpages hopens htrail) hroot⟩

end Reading

/-- Every cut that a lenient reader makes in the thicket has its reason. Of its destinations the
point alone has a height, the fraction of which is dropped. -/
theorem accounts_thicket :
    ∃ contents sources,
      (thicket.toOutline.readWithin { tolerance := .lenient, depthLimit := 2 } 3).result =
        .ok contents ∧
      thicket.toOutline.Accounts { tolerance := .lenient, depthLimit := 2 } contents sources ∧
      contents.sections.toList.map Section.position = [0, 700, 0, 0] := by
  have hread := readWithin_eq_ok.2 ⟨_, forestWithin_thicket, rfl⟩
  obtain ⟨sources, haccounts⟩ := readWithin_accounts hread
  exact ⟨_, sources, hread, haccounts, by decide +kernel⟩

/-! ## What a reader is led to -/

variable (outline settings contents sources) in
/-- A link that a reader follows leads to an entry: the link to the first child of a node whose
children are not too deep, or the link from one entry to the next. -/
def LedTo (entry : ν) : Prop :=
  ∃ number s node, contents.get? number = some s ∧ sources number = some node ∧
    (s.level + 1 < settings.depthLimit ∧ outline.first node = .ok (some entry) ∨
      0 < number ∧ outline.next node = .ok (some entry))

namespace KeepsPrefix

variable {number : Nat} {s : Section} {node entry : ν} {first rest : Option ν} {entries : List ν}

/-- Every child is made from one of the entries. -/
theorem mem_entries (h : outline.KeepsPrefix contents sources number s node first entries rest)
    {child : Nat} (hchild : child ∈ s.children) (hentry : sources child = some entry) :
    entry ∈ entries := by
  have hmem : sources child ∈ s.children.map sources := List.mem_map_of_mem hchild
  rw [h.children_eq, hentry] at hmem
  simpa using hmem

/-- Every one of the entries is made into a child. -/
theorem exists_child (h : outline.KeepsPrefix contents sources number s node first entries rest)
    (hentry : entry ∈ entries) : ∃ child ∈ s.children, sources child = some entry := by
  have hmem : some entry ∈ entries.map some := List.mem_map_of_mem hentry
  rw [← h.children_eq] at hmem
  simpa using hmem

/-- A section is made from the entry that ends a chain, be it kept or cut. -/
theorem exists_source {pageCount : Int} (hnumbered : contents.WellNumbered pageCount)
    (h : outline.KeepsPrefix contents sources number s node first entries rest)
    (hs : contents.get? number = some s) (hentry : entry ∈ entries ∨ rest = some entry) :
    ∃ number, 0 < number ∧ number < contents.size ∧ sources number = some entry := by
  have hsize := Contents.lt_size_of_get? hs
  obtain hkept | hcut := hentry
  · obtain ⟨child, hchild, hsource⟩ := h.exists_child hkept
    have hbounds := hnumbered.bounds_of_liesBelow hsize (.single ⟨s, hs, hchild⟩)
    exact ⟨child, by omega, hbounds.2, hsource⟩
  · obtain ⟨next, ⟨-, hends⟩, earlier, hpos, hlt, hsource⟩ := h.cut entry hcut
    refine ⟨earlier, hpos, ?_, hsource⟩
    by_cases hle : earlier ≤ number
    · omega
    · exact (hnumbered.bounds_of_liesBelow hsize ((hends earlier).2 ⟨by omega, hlt⟩)).2

end KeepsPrefix

namespace Accounts

variable [BEq π] {pageCount : Int} {number : Nat} {s : Section} {node entry : ν}

/-- Every section but the first stands in the chain of another one. -/
theorem exists_keepsPrefix (h : outline.Accounts settings contents sources)
    (hnumbered : contents.WellNumbered pageCount) (hnumber : 0 < number)
    (hs : contents.get? number = some s) :
    ∃ parent above node first entries rest, contents.get? parent = some above ∧
      sources parent = some node ∧ number ∈ above.children ∧
      above.level + 1 < settings.depthLimit ∧
      outline.KeepsPrefix contents sources parent above node first entries rest := by
  have hsize := Contents.lt_size_of_get? hs
  obtain ⟨parent, above, -, hlt, habove, -, hcount, -⟩ := hnumbered.parent_eq hnumber hs
  have hmem : number ∈ above.children := List.count_pos_iff.1 (by omega)
  have hroot : sources 0 ≠ none := by
    intro hnone
    have hbare := h.bare hnone
    omega
  obtain ⟨node, hnode⟩ := h.source hroot parent (by omega)
  have hlimit : above.level + 1 < settings.depthLimit := by
    by_contra hdeep
    rw [(h.cuts habove hnode).too_deep (by omega)] at hmem
    exact List.not_mem_nil hmem
  obtain ⟨first, entries, rest, hkeeps⟩ := (h.cuts habove hnode).keeps hlimit
  exact ⟨parent, above, node, first, entries, rest, habove, hnode, hmem, hlimit, hkeeps⟩

/-- The entries that sections are made from are those that links lead to, and no others. -/
theorem exists_source_iff (h : outline.Accounts settings contents sources)
    (hnumbered : contents.WellNumbered pageCount) :
    (∃ number, 0 < number ∧ number < contents.size ∧ sources number = some entry) ↔
      outline.LedTo settings contents sources entry := by
  constructor
  · rintro ⟨number, hnumber, hsize, hentry⟩
    obtain ⟨parent, above, node, first, entries, rest, habove, hnode, hmem, hlimit, hkeeps⟩ :=
      h.exists_keepsPrefix hnumbered hnumber (Array.getElem?_eq_getElem hsize)
    obtain rfl | ⟨previous, hprevious, hlink⟩ :=
      hkeeps.siblings.exists_previous (hkeeps.mem_entries hmem hentry)
    · exact ⟨parent, above, node, habove, hnode,
        Or.inl ⟨hlimit, resolves_some_iff.1 hkeeps.first_eq⟩⟩
    · obtain ⟨child, hchild, hsource⟩ := hkeeps.exists_child hprevious
      have hbounds := hnumbered.bounds_of_liesBelow (Contents.lt_size_of_get? habove)
        (.single ⟨above, habove, hchild⟩)
      exact ⟨child, _, previous, Array.getElem?_eq_getElem hbounds.2, hsource,
        Or.inr ⟨by omega, hlink⟩⟩
  · rintro ⟨number, s, node, hs, hnode, ⟨hlimit, hfirst⟩ | ⟨hnumber, hnext⟩⟩
    · obtain ⟨first, entries, rest, hkeeps⟩ := (h.cuts hs hnode).keeps hlimit
      have hresolves := hkeeps.first_eq
      rw [hfirst] at hresolves
      cases hresolves
      exact hkeeps.exists_source hnumbered hs hkeeps.siblings.head
    · obtain ⟨parent, above, _, first, entries, rest, habove, -, hmem, -, hkeeps⟩ :=
        h.exists_keepsPrefix hnumbered hnumber hs
      have hentries := hkeeps.mem_entries hmem hnode
      exact hkeeps.exists_source hnumbered habove (hkeeps.siblings.next_mem hentries hnext)

end Accounts

section Reading

variable [BEq π] [EquivBEq π] [Hashable π] [LawfulHashable π] {root : ν} {forest : Forest ν}

/-- The entries that a reading takes up are those that the links it follows lead to. -/
theorem Yields.mem_nodes_iff (h : Yields outline settings forest)
    (hroot : outline.root = .ok (some root)) {entry : ν} :
    entry ∈ forest.nodes ↔
      outline.LedTo settings (outline.contentsOf settings forest) (sourceAt root forest) entry := by
  have hnumbered := Contents.wellNumbered_ofForest settings.rootTitle
    (signed32 outline.pageCount.toNat) forest
  rw [← (h.accounts hroot).exists_source_iff hnumbered, List.mem_iff_getElem?]
  constructor
  · rintro ⟨place, hplace⟩
    refine ⟨place + 1, Nat.succ_pos place, ?_, hplace⟩
    rw [size_contentsOf]
    exact Nat.succ_lt_succ (List.getElem?_eq_some_iff.1 hplace).1
  · rintro ⟨number, hnumber, -, hsource⟩
    obtain ⟨place, rfl⟩ := Nat.exists_eq_add_of_le' hnumber
    exact ⟨place, hsource⟩

/-- No entry is represented by two sections, and the root of the outline by no other section than
the document as a whole, unless a link that the reader follows leads back to it. -/
theorem nodup_sources_iff [DecidableEq ν] {fuel : Nat} (hroot : outline.root = .ok (some root))
    (h : (outline.readWithin settings fuel).result = .ok contents) :
    ∃ forest, (outline.forestWithin settings fuel).result = .ok forest ∧
      contents = outline.contentsOf settings forest ∧
      outline.MadeFrom root contents forest.nodes ∧ forest.nodes.Nodup ∧
      ((root :: forest.nodes).Nodup ↔
        ¬ outline.LedTo settings contents (sourceAt root forest) root) := by
  obtain ⟨forest, hforest, rfl⟩ := readWithin_eq_ok.1 h
  have hyields := forestWithin_yields hforest
  refine ⟨forest, hforest, rfl, hyields.madeFrom hroot, hyields.nodup_nodes, ?_⟩
  rw [List.nodup_cons, and_iff_left hyields.nodup_nodes, hyields.mem_nodes_iff hroot]

end Reading

end Outline

/-- An entry whose first child is the root of the outline. -/
def lasso : OutlineTable where
  pageCount := 4
  root := .ok (some 0)
  pages := .ok ["a"]
  rows := [
    (0, { first := .ok (some 1), last := .ok (some 1) }),
    (1, { first := .ok (some 0), last := .ok (some 0), title := .ok "A",
          page := .ok (some "a") })]

theorem forestWithin_lasso :
    (lasso.toOutline.forestWithin { tolerance := .lenient } 2).result =
      .ok (.cons 1 ⟨"A", 1, -1, 0⟩ (.cons 0 ⟨"", -1, 1, 0⟩ .nil .nil) .nil) := by
  simp only [Outline.forestWithin, PageIndex.number?_ofList]
  decide +kernel

/-- The link back to the root of the lasso is followed, so the root is represented twice. -/
theorem ledTo_root_lasso :
    ∃ contents forest, lasso.toOutline.root = .ok (some 0) ∧
      (lasso.toOutline.readWithin { tolerance := .lenient } 2).result = .ok contents ∧
      contents = lasso.toOutline.contentsOf { tolerance := .lenient } forest ∧
      lasso.toOutline.LedTo { tolerance := .lenient } contents (Outline.sourceAt 0 forest) 0 := by
  have hread := Outline.readWithin_eq_ok.2 ⟨_, forestWithin_lasso, rfl⟩
  obtain ⟨forest, hforest, hcontents, -, -, hiff⟩ := Outline.nodup_sources_iff rfl hread
  cases forestWithin_lasso.symm.trans hforest
  refine ⟨_, _, rfl, hread, hcontents, ?_⟩
  by_contra hled
  exact absurd (hiff.2 hled) (by decide)

/-- A lenient reading can make a second section from the root of the outline: not every table of
contents represents each node once. -/
theorem not_nodup_sources :
    ¬ ∀ (outline : Outline Int String) (settings : Settings) (fuel : Nat) (root : Int)
        (forest : Forest Int),
      settings.tolerance = .lenient → outline.root = .ok (some root) →
      (outline.forestWithin settings fuel).result = .ok forest →
      (root :: forest.nodes).Nodup := by
  intro h
  have hnodup := h lasso.toOutline { tolerance := .lenient } 2 0 _ rfl rfl forestWithin_lasso
  exact absurd hnodup (by decide)

end Bookmarks
