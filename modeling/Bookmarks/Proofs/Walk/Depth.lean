/-
# What the depth limit does

A strict reading that succeeds has found nothing wrong with the outline down to its limit, so it
tells what a reading with another limit comes to. A lenient reader with that limit brings home the
upper levels of the forest and nothing else changes: the entries that are cut away take nothing
along, neither a later sibling nor an end page that was inferred from them. A strict reader brings
the same forest home, or fails as soon as it has to go below its limit.
-/
import Bookmarks.Proofs.Contents.Trimming
import Bookmarks.Proofs.Walk.Spans

namespace Bookmarks

variable {ν π : Type}

namespace Outline

variable {outline : Outline ν π} {number? : π → Option Nat} {settings other : Settings}

/-! ## Answers to a strict reader -/

/-- A link that a strict reader can follow leads every reader to the same entry. -/
theorem follow_of_follow_strict (hstrict : settings.tolerance = .strict)
    {answer : Except Fault (Option ν)} {target : Option ν}
    (h : (settings.follow answer).result = .ok target) :
    (other.follow answer).result = .ok target := by
  rw [Settings.follow_of_strict hstrict] at h
  exact Settings.follow_of_ok h

/-- An entry that a strict reader can read says the same to every reader. -/
theorem readEntry_of_readEntry_strict (hstrict : settings.tolerance = .strict) {entry : ν}
    {read : Entry ν} (h : (outline.readEntry number? settings entry).result = .ok read) :
    (outline.readEntry number? other entry).result = .ok read := by
  obtain ⟨hstart, hnext, hfinish, hposition, htitle⟩ := readEntry_eq_ok.1 h
  have hother : (outline.endPage number? other entry read.next).result =
      .ok read.heading.endPage := by
    obtain ⟨sibling, hsibling, hend⟩ := endPage_eq_ok.1 hfinish
    refine endPage_eq_ok.2 ⟨sibling, hsibling, hend.imp_right ?_⟩
    rintro ⟨hunknown, child, below, hchild, hrest⟩
    exact ⟨hunknown, child, below, follow_of_follow_strict hstrict hchild, hrest⟩
  exact readEntry_eq_ok.2
    ⟨hstart, follow_of_follow_strict hstrict hnext, hother, hposition, htitle⟩

/-- A strict walk from an entry brings something home. -/
theorem Trail.height_pos (hstrict : settings.tolerance = .strict) {depth : Nat}
    {current : Option ν} {seen : List ν} {forest : Forest ν}
    (h : Trail outline number? settings depth current seen forest) (hcurrent : current.isSome) :
    0 < forest.height := by
  cases h with
  | finish => cases hcurrent
  | revisit _ hlenient =>
      rw [hstrict] at hlenient
      cases hlenient
  | visit => exact Nat.lt_of_lt_of_le (Nat.succ_pos _) (Nat.le_max_left _ _)

variable [DecidableEq ν]

/-! ## Walks that stay above the limit -/

/-- A strict reader has entered a node. Another one enters it as well if the limit allows it, and
otherwise, unless it is strict too, brings home nothing from below it. -/
theorem exists_opens_above (hstrict : settings.tolerance = .strict) {fuel depth : Nat} {scope : ν}
    {opened : Option ν} {seen seen' : List ν} {below : Walked ν}
    (hopens : Opens outline settings scope depth opened)
    (h : (outline.chain number? settings fuel depth opened seen).result = .ok below)
    (hother : other.tolerance = .strict → depth + below.forest.height ≤ other.depthLimit)
    (hbelow : (opened.isSome → depth < other.depthLimit) →
      (outline.chain number? other fuel depth opened seen').result =
        .ok ⟨below.forest.above other.depthLimit depth,
          (below.forest.above other.depthLimit depth).nodes.reverse ++ seen'⟩) :
    ∃ opened', Opens outline other scope depth opened' ∧
      (outline.chain number? other fuel depth opened' seen').result =
        .ok ⟨below.forest.above other.depthLimit depth,
          (below.forest.above other.depthLimit depth).nodes.reverse ++ seen'⟩ := by
  obtain ⟨hfirst, -, declared, hlast⟩ := hopens.of_strict hstrict
  by_cases hdepth : opened.isSome → depth < other.depthLimit
  · exact ⟨opened, .enter (Settings.follow_of_ok hfirst) hdepth (Settings.follow_of_ok hlast),
      hbelow hdepth⟩
  · obtain ⟨hopened, hdeep⟩ := Classical.not_imp.1 hdepth
    have hheight := (chain_trail h).1.height_pos hstrict hopened
    obtain ⟨child, rfl⟩ := Option.isSome_iff_exists.1 hopened
    have hlenient : other.tolerance = .lenient := by
      cases htolerance : other.tolerance with
      | strict =>
          have hle := hother htolerance
          omega
      | lenient => rfl
    refine ⟨none, .cut (Settings.follow_of_ok hfirst) (Nat.not_lt.1 hdeep) hlenient, ?_⟩
    rw [chain_none, Forest.above_of_le (Nat.not_lt.1 hdeep)]
    rfl

/-- Where a strict walk along a chain succeeds, a walk with another limit brings home what is above
its limit, provided that it is lenient or that nothing is below. -/
theorem chain_above (hstrict : settings.tolerance = .strict) {fuel depth : Nat}
    {current : Option ν} {seen seen' : List ν} {walked : Walked ν}
    (h : (outline.chain number? settings fuel depth current seen).result = .ok walked)
    (hseen : seen' ⊆ seen) (hdepth : current.isSome → depth < other.depthLimit)
    (hother : other.tolerance = .strict → depth + walked.forest.height ≤ other.depthLimit) :
    (outline.chain number? other fuel depth current seen').result =
      .ok ⟨walked.forest.above other.depthLimit depth,
        (walked.forest.above other.depthLimit depth).nodes.reverse ++ seen'⟩ := by
  induction fuel, depth, current, seen using chain_induction generalizing walked seen' with
  | finish fuel depth seen =>
      rw [chain_none] at h ⊢
      cases h
      rfl
  | revisit fuel depth entry seen hmem =>
      have hlenient := ((chain_revisit_eq_ok hmem).1 h).1
      rw [hstrict] at hlenient
      cases hlenient
  | exhausted depth entry seen hnew =>
      rw [chain, if_neg hnew] at h
      cases h
  | visit fuel depth entry seen hnew ih =>
      obtain ⟨read, opened, below, after, hread, hopens, hbelow, hafter, rfl⟩ :=
        (chain_visit_eq_ok hnew).1 h
      dsimp only [Forest.height] at hother ⊢
      have hotherBelow : other.tolerance = .strict →
          depth + 1 + below.forest.height ≤ other.depthLimit := by
        intro htolerance
        have hle := hother htolerance
        omega
      have hotherAfter : other.tolerance = .strict →
          depth + after.forest.height ≤ other.depthLimit := by
        intro htolerance
        have hle := hother htolerance
        omega
      obtain ⟨opened', hopens', hbelow'⟩ :=
        exists_opens_above hstrict hopens hbelow hotherBelow fun hdepth' =>
          ih _ _ _ hbelow (List.cons_subset_cons entry hseen) hdepth' hotherBelow
      rw [(chain_trail hbelow).2] at hafter
      -- The shallower walk has seen less, so it does not stop at an entry that the other took up.
      have hsubset : (below.forest.above other.depthLimit (depth + 1)).nodes.reverse ++
          entry :: seen' ⊆ below.forest.nodes.reverse ++ entry :: seen := by
        intro node hnode
        rcases List.mem_append.1 hnode with hnode | hnode
        · have hkept := Forest.nodes_above_subset _ _ _ (List.mem_reverse.1 hnode)
          exact List.mem_append_left _ (List.mem_reverse.2 hkept)
        · exact List.mem_append_right _ (List.cons_subset_cons entry hseen hnode)
      have hafter' := ih _ _ _ hafter hsubset (fun _ => hdepth rfl) hotherAfter
      rw [Forest.above_cons (hdepth rfl)]
      refine (chain_visit_eq_ok fun hmem => hnew (hseen hmem)).2 ⟨read, opened', _, _,
        readEntry_of_readEntry_strict hstrict hread, hopens', hbelow', hafter', ?_⟩
      simp [Forest.nodes]

/-- Where a strict walk succeeds, a walk with another limit brings home what is above its limit,
provided that it is lenient or that nothing is below. -/
theorem walk_above (hstrict : settings.tolerance = .strict) {fuel : Nat} {root : ν}
    {walked : Walked ν} (h : (outline.walk number? settings fuel root).result = .ok walked)
    (hother : other.tolerance = .strict → walked.forest.height ≤ other.depthLimit) :
    ∃ seen, (outline.walk number? other fuel root).result =
      .ok ⟨walked.forest.above other.depthLimit 0, seen⟩ := by
  obtain ⟨opened, hopens, hchain⟩ := walk_eq_ok.1 h
  rw [← Nat.zero_add walked.forest.height] at hother
  obtain ⟨opened', hopens', hchain'⟩ :=
    exists_opens_above hstrict hopens hchain hother fun hdepth =>
      chain_above hstrict hchain (List.Subset.refl _) hdepth hother
  exact ⟨_, walk_eq_ok.2 ⟨opened', hopens', hchain'⟩⟩

/-! ## Walks that come to the limit -/

/-- A strict reader has entered a node. A strict reader with a limit that cuts off a level below the
node fails there. -/
theorem descend_tooDeep (hstrict : settings.tolerance = .strict)
    (hother : other.tolerance = .strict) {fuel depth : Nat} {scope : ν} {opened : Option ν}
    {seen : List ν} {below : Walked ν} (hopens : Opens outline settings scope depth opened)
    (h : (outline.chain number? settings fuel depth opened seen).result = .ok below)
    (hdepth : depth ≤ other.depthLimit)
    (hdeep : other.depthLimit < depth + below.forest.height)
    (hbelow : depth < other.depthLimit →
      (outline.chain number? other fuel depth opened seen).result =
        .error (.fault (.corrupted (.tooDeep other.depthLimit)))) :
    (outline.descend other (outline.chain number? other fuel) scope depth seen).result =
      .error (.fault (.corrupted (.tooDeep other.depthLimit))) := by
  obtain ⟨hfirst, -, -⟩ := hopens.of_strict hstrict
  rw [descend, Noted.result_bind_eq_error]
  refine Or.inr ⟨opened, Noted.result_inWalk_eq_ok.2 (Settings.follow_of_ok hfirst), ?_⟩
  cases opened with
  | none =>
      rw [chain_none] at h
      cases h
      rw [Forest.height] at hdeep
      omega
  | some child =>
      by_cases henter : depth < other.depthLimit
      · rw [if_neg (by simpa using henter), Noted.result_bind_eq_error]
        exact Or.inl (hbelow henter)
      · rw [if_pos (by simpa using henter), Noted.result_bind_eq_error]
        exact Or.inl (Noted.result_inWalk_eq_fault.2 (Settings.meet_eq_error.2 ⟨hother, rfl⟩))

/-- Where a strict walk along a chain succeeds, a strict walk with a limit that cuts off the last
level comes to an entry that is too deep. -/
theorem chain_tooDeep (hstrict : settings.tolerance = .strict)
    (hother : other.tolerance = .strict) {fuel depth : Nat} {current : Option ν} {seen : List ν}
    {walked : Walked ν}
    (h : (outline.chain number? settings fuel depth current seen).result = .ok walked)
    (hdepth : depth < other.depthLimit)
    (hdeep : other.depthLimit < depth + walked.forest.height) :
    (outline.chain number? other fuel depth current seen).result =
      .error (.fault (.corrupted (.tooDeep other.depthLimit))) := by
  induction fuel, depth, current, seen using chain_induction generalizing walked with
  | finish fuel depth seen =>
      rw [chain_none] at h
      cases h
      rw [Forest.height] at hdeep
      omega
  | revisit fuel depth entry seen hmem =>
      have hlenient := ((chain_revisit_eq_ok hmem).1 h).1
      rw [hstrict] at hlenient
      cases hlenient
  | exhausted depth entry seen hnew =>
      rw [chain, if_neg hnew] at h
      cases h
  | visit fuel depth entry seen hnew ih =>
      obtain ⟨read, opened, below, after, hread, hopens, hbelow, hafter, rfl⟩ :=
        (chain_visit_eq_ok hnew).1 h
      dsimp only [Forest.height] at hdeep
      rw [chain, if_neg hnew, Noted.result_bind_eq_error]
      refine Or.inr ⟨read,
        Noted.result_inWalk_eq_ok.2 (readEntry_of_readEntry_strict hstrict hread), ?_⟩
      rw [Noted.result_bind_eq_error]
      by_cases hbelowDeep : other.depthLimit < depth + 1 + below.forest.height
      · exact Or.inl <| descend_tooDeep hstrict hother hopens hbelow hdepth hbelowDeep
          fun henter => ih _ _ _ hbelow henter hbelowDeep
      · -- What is below this entry stays above the limit, so the chain fails further on.
        have hbelowHigh := Nat.not_lt.1 hbelowDeep
        obtain ⟨opened', hopens', hbelow'⟩ :=
          exists_opens_above hstrict hopens hbelow (fun _ => hbelowHigh) fun henter =>
            chain_above hstrict hbelow (List.Subset.refl _) henter fun _ => hbelowHigh
        rw [Forest.above_eq_self hbelowHigh, ← (chain_trail hbelow).2] at hbelow'
        refine Or.inr ⟨below, (descend_eq_ok (by rw [chain_none]; rfl)).2
          ⟨opened', hopens', hbelow'⟩, ?_⟩
        rw [Noted.result_bind_eq_error]
        exact Or.inl (ih _ _ _ hafter hdepth (by omega))

/-- Where a strict walk succeeds, a strict walk with a limit that cuts off the last level comes to an
entry that is too deep. -/
theorem walk_tooDeep (hstrict : settings.tolerance = .strict)
    (hother : other.tolerance = .strict) {fuel : Nat} {root : ν} {walked : Walked ν}
    (h : (outline.walk number? settings fuel root).result = .ok walked)
    (hdeep : other.depthLimit < walked.forest.height) :
    (outline.walk number? other fuel root).result =
      .error (.fault (.corrupted (.tooDeep other.depthLimit))) := by
  obtain ⟨opened, hopens, hchain⟩ := walk_eq_ok.1 h
  rw [← Nat.zero_add walked.forest.height] at hdeep
  exact descend_tooDeep hstrict hother hopens hchain (Nat.zero_le _) hdeep fun henter =>
    chain_tooDeep hstrict hother hchain henter hdeep

/-! ## Readings with another limit -/

variable [BEq π] [Hashable π]

variable (other) in
/-- Where a strict reading succeeds, a reading with another limit brings home what is above its
limit, provided that it is lenient or that nothing is below. -/
theorem forestWithin_above (hstrict : settings.tolerance = .strict) {fuel : Nat}
    {forest : Forest ν} (h : (outline.forestWithin settings fuel).result = .ok forest)
    (hother : other.tolerance = .strict → forest.height ≤ other.depthLimit) :
    (outline.forestWithin other fuel).result = .ok (forest.above other.depthLimit 0) := by
  rcases forestWithin_eq_ok_iff_walk.1 h with
    ⟨hroot, rfl⟩ | ⟨root, pages, seen, hroot, hpages, hwalk⟩
  · exact forestWithin_eq_ok_iff_walk.2 (Or.inl ⟨hroot, rfl⟩)
  · obtain ⟨seen', hwalk'⟩ := walk_above hstrict hwalk hother
    exact forestWithin_eq_ok_iff_walk.2 (Or.inr ⟨root, pages, seen', hroot, hpages, hwalk'⟩)

variable (other) in
/-- Where a strict reading succeeds, a strict reading with a limit that cuts off the last level comes
to an entry that is too deep. -/
theorem forestWithin_tooDeep (hstrict : settings.tolerance = .strict)
    (hother : other.tolerance = .strict) {fuel : Nat} {forest : Forest ν}
    (h : (outline.forestWithin settings fuel).result = .ok forest)
    (hdeep : other.depthLimit < forest.height) :
    (outline.forestWithin other fuel).result =
      .error (.fault (.corrupted (.tooDeep other.depthLimit))) := by
  rcases forestWithin_eq_ok_iff_walk.1 h with ⟨_, rfl⟩ | ⟨root, pages, seen, hroot, hpages, hwalk⟩
  · exact absurd hdeep (Nat.not_lt_zero _)
  · exact forestWithin_eq_error_of_walk hroot hpages (walk_tooDeep hstrict hother hwalk hdeep)

/-- If a strict reading gives a table of contents, then with another depth limit a strict reading
gives the same table if the limit exceeds its deepest level, and fails otherwise, while a lenient
reading gives what is left of the table above the limit. -/
theorem readWithin_depthLimit (hstrict : settings.tolerance = .strict) {fuel : Nat}
    {contents : Contents} (h : (outline.readWithin settings fuel).result = .ok contents)
    (limit : Nat) :
    (contents.maxLevel < limit →
      (outline.readWithin { settings with depthLimit := limit } fuel).result = .ok contents) ∧
    (limit ≤ contents.maxLevel →
      (outline.readWithin { settings with depthLimit := limit } fuel).result =
        .error (.fault (.corrupted (.tooDeep limit)))) ∧
    ∃ shallower,
      (outline.readWithin
        { settings with tolerance := .lenient, depthLimit := limit } fuel).result =
          .ok shallower ∧
      shallower.sections.toList = contents.trimmed limit := by
  obtain ⟨forest, hforest, rfl⟩ := readWithin_eq_ok.1 h
  have hlevel : (outline.contentsOf settings forest).maxLevel = forest.height - 1 :=
    Contents.maxLevel_ofForest _ _ _
  refine ⟨?_, ?_, ?_⟩
  · intro hhigh
    have hheight : forest.height ≤ limit := by omega
    have habove :=
      forestWithin_above { settings with depthLimit := limit } hstrict hforest fun _ => hheight
    rw [Forest.above_eq_self (by simpa using hheight)] at habove
    exact readWithin_eq_ok.2 ⟨forest, habove, rfl⟩
  · intro hlow
    have hheight : limit < forest.height := by omega
    exact readWithin_eq_error.2 <|
      forestWithin_tooDeep { settings with depthLimit := limit } hstrict hstrict hforest hheight
  · have habove := forestWithin_above
      { settings with tolerance := .lenient, depthLimit := limit } hstrict hforest
      fun htolerance => (by cases htolerance)
    exact ⟨_, readWithin_eq_ok.2 ⟨_, habove, rfl⟩, (Contents.trimmed_ofForest _ _ _ _).symm⟩

end Outline

/-- Two parts. Nobody knows where the second begins, so that the first ends with its own chapter. -/
def volume : OutlineTable where
  pageCount := 9
  root := .ok (some 0)
  pages := .ok ["p1", "p2", "p3"]
  rows := [
    (0, { first := .ok (some 1) }),
    (1, { first := .ok (some 2), next := .ok (some 4), title := .ok "Part 1",
          page := .ok (some "p1") }),
    (2, { first := .ok (some 3), title := .ok "Chapter 1", page := .ok (some "p2") }),
    (3, { title := .ok "Section 1", page := .ok (some "p3") }),
    (4, { title := .ok "Part 2" })]

/-- A lenient reader who does not go below the parts still knows where the first one ends. -/
theorem depthLimit_volume :
    ∃ contents, (volume.toOutline.readWithin {} 4).result = .ok contents ∧
      contents.maxLevel = 2 ∧
      (volume.toOutline.readWithin { depthLimit := 3 } 4).result = .ok contents ∧
      (volume.toOutline.readWithin { depthLimit := 2 } 4).result =
        .error (.fault (.corrupted (.tooDeep 2))) ∧
      ∃ shallower,
        (volume.toOutline.readWithin { tolerance := .lenient, depthLimit := 1 } 4).result =
          .ok shallower ∧
        shallower.sections.toList =
          [Contents.rootSection "root" 9 [1, 2], ⟨some 0, "Part 1", 0, 1, 2, 0, []⟩,
            ⟨some 0, "Part 2", 0, -1, 9, 0, []⟩] := by
  have hforest : (volume.toOutline.forestWithin {} 4).result =
      .ok (.cons 1 ⟨"Part 1", 1, 2, 0⟩
        (.cons 2 ⟨"Chapter 1", 2, 3, 0⟩ (.cons 3 ⟨"Section 1", 3, 9, 0⟩ .nil .nil) .nil)
        (.cons 4 ⟨"Part 2", -1, 9, 0⟩ .nil .nil)) := by
    simp only [Outline.forestWithin, PageIndex.number?_ofList]
    decide +kernel
  have hread := Outline.readWithin_eq_ok.2 ⟨_, hforest, rfl⟩
  obtain ⟨hsame, -, -⟩ := Outline.readWithin_depthLimit rfl hread 3
  obtain ⟨-, hfails, -⟩ := Outline.readWithin_depthLimit rfl hread 2
  obtain ⟨-, -, shallower, hlenient, htrimmed⟩ := Outline.readWithin_depthLimit rfl hread 1
  refine ⟨_, hread, by decide +kernel, hsame (by decide +kernel), hfails (by decide +kernel),
    shallower, hlenient, htrimmed.trans ?_⟩
  decide +kernel

end Bookmarks
