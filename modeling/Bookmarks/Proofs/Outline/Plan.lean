/-
# What calls describe

The calls that make a draft describe an ordered forest: each call adds an entry after the children
that its parent has so far. `Plan.ofCalls` grows this forest call by call, and looks neither at a
draft nor at links. Reading the draft gives the table of contents of the plan: for each entry its
title, its page and its position, and an end that is told by its neighbours in the plan
(`read_ofCalls`).
-/
import Bookmarks.Proofs.Contents.Numbering
import Bookmarks.Proofs.Outline.Calls
import Mathlib.Data.List.Induction

namespace Bookmarks.Draft

/-! ## The data of an entry -/

namespace Call

/-- The page where an entry begins, unknown unless it is a page of the document. -/
def startPage (pageCount : UInt32) (call : Call) : Int :=
  match call.page with
  | some page =>
      if 1 ≤ page.toNat ∧ page.toNat ≤ pageCount.toNat then signed32 page.toNat else unknownPage
  | none => unknownPage

/-- The height on the page, if the entry points to one. -/
def position (call : Call) : Int :=
  match call.destination with
  | some (.xyz _ (some top) _) => top.truncate
  | _ => 0

theorem position_eq (call : Call) :
    call.position = (call.item.destination.bind Destination.top?).elim 0 Binary32.truncate := by
  obtain ⟨parent, title, page, destination⟩ := call
  cases destination with
  | none => cases page <;> rfl
  | some destination =>
      cases destination with
      | xyz left top zoom => cases top <;> rfl
      | _ => rfl

/-- As long as all page numbers are kept as they are, the pages that are known are those of the
document. -/
theorem startPage_nonneg_iff {pageCount : UInt32} (hcount : pageCount.toNat < Nat.pow 2 31)
    (call : Call) :
    0 ≤ call.startPage pageCount ↔
      ∃ page, call.page = some page ∧ 1 ≤ page.toNat ∧ page.toNat ≤ pageCount.toNat := by
  have hunknown : ¬ (0 : Int) ≤ unknownPage := by decide
  rw [startPage]
  cases call.page with
  | none => exact ⟨fun h => absurd h hunknown, fun ⟨_, h, _⟩ => by cases h⟩
  | some page =>
      simp only [Option.some.injEq, exists_eq_left']
      by_cases hpage : 1 ≤ page.toNat ∧ page.toNat ≤ pageCount.toNat
      · rw [if_pos hpage, signed32_of_lt (Nat.lt_of_le_of_lt hpage.2 hcount)]
        exact ⟨fun _ => hpage, fun _ => Int.natCast_nonneg _⟩
      · rw [if_neg hpage]
        exact ⟨fun h => absurd h hunknown, fun h => absurd h hpage⟩

end Call

/-! ## Plans -/

/-- Entries at one level with everything below them, in order. -/
inductive Plan where
  | nil
  | cons (node : Node) (call : Call) (below after : Plan)
  deriving DecidableEq, Repr

namespace Plan

/-- Add the entry of a call, named `node`, after the children of its parent. The plan is what there is
below `above`. -/
def add (call : Call) (node above : Node) : Plan → Plan
  | .nil => if call.above = above then .cons node call .nil .nil else .nil
  | .cons other otherCall below after =>
      .cons other otherCall (below.add call node other) (after.add call node above)

/-- The plan that calls describe. -/
def ofCalls (calls : List Call) : Plan :=
  calls.zipIdx.foldl (fun plan call => plan.add call.1 (nodeAt call.2) ⟨0⟩) .nil

/-- Nodes at the top. -/
def tops : Plan → List Node
  | .nil => []
  | .cons node _ _ after => node :: after.tops

/-- Nodes in the order of the outline: an entry, what is below it, what follows it. -/
def nodes : Plan → List Node
  | .nil => []
  | .cons node _ below after => node :: (below.nodes ++ after.nodes)

/-- The levels of a plan. -/
def height : Plan → Nat
  | .nil => 0
  | .cons _ _ below after => max (below.height + 1) after.height

/-- The page where a plan begins. -/
def startPage (pageCount : UInt32) : Plan → Int
  | .nil => unknownPage
  | .cons _ call _ _ => call.startPage pageCount

/-- The page where an entry ends: where what follows it begins if that is known, or else where what
is below it begins. If there is nothing of either, it is the last page of the document. -/
def endPage (pageCount : UInt32) (below after : Plan) : Int :=
  if 0 ≤ after.startPage pageCount then after.startPage pageCount
  else if 0 ≤ below.startPage pageCount then below.startPage pageCount
  else if below = .nil ∧ after = .nil then signed32 pageCount.toNat
  else unknownPage

/-- The forest of a plan, with the headings of its entries. -/
def forest (pageCount : UInt32) : Plan → Forest Node
  | .nil => .nil
  | .cons node call below after =>
      .cons node
        { title := call.title
          startPage := call.startPage pageCount
          endPage := endPage pageCount below after
          position := call.position }
        (below.forest pageCount) (after.forest pageCount)

theorem nodes_forest (pageCount : UInt32) (plan : Plan) :
    (plan.forest pageCount).nodes = plan.nodes := by
  induction plan with
  | nil => rfl
  | cons node call below after ihBelow ihAfter =>
      rw [forest, Forest.nodes, nodes, ihBelow, ihAfter]

theorem ofCalls_append_singleton (calls : List Call) (call : Call) :
    ofCalls (calls ++ [call]) = (ofCalls calls).add call (nodeAt calls.length) ⟨0⟩ := by
  rw [ofCalls, List.zipIdx_append, List.foldl_append, Nat.zero_add]
  rfl

/-! ## One more entry -/

variable {call : Call} {node above : Node} {plan : Plan}

theorem tops_add (call : Call) (node above : Node) (plan : Plan) :
    (plan.add call node above).tops =
      plan.tops ++ if call.above = above then [node] else [] := by
  induction plan with
  | nil =>
      rw [add]
      by_cases h : call.above = above
      · rw [if_pos h, if_pos h]
        rfl
      · rw [if_neg h, if_neg h]
        rfl
  | cons other otherCall below after _ ihAfter =>
      rw [add, tops, tops, ihAfter]
      rfl

/-- An entry is added once for each place where its parent is. -/
theorem count_nodes_add (call : Call) (node above : Node) (plan : Plan) (other : Node) :
    (plan.add call node above).nodes.count other =
      plan.nodes.count other +
        if node = other then (above :: plan.nodes).count call.above else 0 := by
  induction plan generalizing above with
  | nil =>
      rw [add]
      by_cases h : call.above = above
      · simp [h, nodes, List.count_cons]
      · simp [h, nodes, Ne.symm h]
  | cons first firstCall below after ihBelow ihAfter =>
      simp only [add, nodes, List.count_cons, List.count_append, ihBelow, ihAfter]
      by_cases h : node = other
      · simp only [if_pos h]
        omega
      · simp only [if_neg h]
        omega

/-- Calls whose parents are known add an entry each. -/
theorem perm_nodes {calls : List Call} (h : Call.Known calls) :
    (ofCalls calls).nodes.Perm (nodesOf calls) := by
  induction calls using List.reverseRecOn with
  | nil => exact .refl _
  | append_singleton calls call ih =>
      have hperm := ih h.of_append
      have hroot : (⟨0⟩ : Node) ∉ nodesOf calls := by
        intro hmem
        obtain ⟨place, -, hplace⟩ := List.mem_map.1 hmem
        cases hplace
      -- The parent is there in a single place, be it the top or an entry of the plan.
      have honce : (⟨0⟩ :: (ofCalls calls).nodes).count call.above = 1 := by
        apply List.count_eq_one_of_mem
        · exact List.nodup_cons.2
            ⟨fun hmem => hroot (hperm.mem_iff.1 hmem), hperm.nodup_iff.2 (nodup_nodesOf calls)⟩
        · rcases h.above_eq with htop | hmem
          · rw [htop]
            exact List.mem_cons_self
          · exact List.mem_cons_of_mem _ (hperm.mem_iff.2 hmem)
      rw [List.perm_iff_count]
      intro node
      rw [ofCalls_append_singleton, count_nodes_add, honce, nodesOf_append_singleton,
        List.count_append, hperm.count_eq, List.count_singleton]
      simp only [beq_iff_eq]

/-! ## Plans and drafts -/

variable {draft : Draft}

/-- A plan shows a part of a draft: its entries are those of the draft, with their children. -/
def Shows (draft : Draft) : Plan → Prop
  | .nil => True
  | .cons node call below after =>
      draft.item? node = some call.item ∧ below.tops = draft.children node ∧
        below.Shows draft ∧ after.Shows draft

/-- A plan and a draft that grow by the same entry still go together. -/
theorem Shows.add (h : plan.Shows draft) (hnone : draft.children (nodeAt draft.size) = [])
    (hparent : call.above ≠ nodeAt draft.size) (above : Node) :
    (plan.add call (nodeAt draft.size) above).Shows (draft.push call.item) := by
  induction plan generalizing above with
  | nil =>
      rw [Plan.add]
      split
      · refine ⟨item?_push_size, ?_, trivial, trivial⟩
        rw [children_push, hnone]
        exact (if_neg hparent).symm
      · trivial
  | cons other otherCall below after ihBelow ihAfter =>
      obtain ⟨hitem, htops, hbelow, hafter⟩ := h
      refine ⟨item?_push_of_item? hitem, ?_, ihBelow hbelow other, ihAfter hafter above⟩
      rw [tops_add, htops, children_push]
      rfl

/-- The plan of known calls shows their draft. -/
theorem shows_ofCalls (pageCount : UInt32) {calls : List Call} (h : Call.Known calls) :
    (ofCalls calls).tops = (Draft.ofCalls pageCount calls).children ⟨0⟩ ∧
      (ofCalls calls).Shows (Draft.ofCalls pageCount calls) := by
  induction calls using List.reverseRecOn with
  | nil => exact ⟨rfl, trivial⟩
  | append_singleton calls call ih =>
      obtain ⟨htops, hshows⟩ := ih h.of_append
      have hcall : (calls ++ [call])[calls.length]? = some call := List.getElem?_concat_length
      have hparent := h.above_ne hcall (Nat.le_refl _)
      have hnone := children_ofCalls_eq_nil pageCount h.of_append
      rw [← size_ofCalls pageCount calls] at hparent hnone
      rw [ofCalls_append_singleton, Draft.ofCalls_append_singleton, tops_add, htops, children_push,
        ← size_ofCalls pageCount calls]
      exact ⟨rfl, hshows.add hnone hparent _⟩

/-! ## Reading a plan -/

variable {settings : Settings}

theorem head?_tops_eq_none : plan.tops.head? = none ↔ plan = .nil := by
  cases plan <;> simp [tops]

/-- The page where a plan begins is read at its first entry. -/
theorem pageNumber_head? (h : plan.Shows draft) :
    (draft.toOutline.pageNumber (scanPages draft.pages) plan.tops.head?).result =
      .ok (plan.startPage draft.pageCount) := by
  cases plan with
  | nil => rfl
  | cons node call below after =>
      refine Outline.pageNumber_some_eq_ok.2 ⟨call.page, result_page h.1, ?_⟩
      rw [startPage, Call.startPage]
      cases call.page with
      | none => rfl
      | some page =>
          rw [Option.bind_some, scanPages_pages]
          by_cases hpage : 1 ≤ page.toNat ∧ page.toNat ≤ draft.pageCount.toNat
          · rw [if_pos hpage, Option.elim_some]
            exact if_pos hpage
          · rw [if_neg hpage, Option.elim_none]
            exact if_neg hpage

/-- An entry of a plan ends where its neighbours say. -/
theorem result_endPage {below after : Plan} (hfirst : below.tops = draft.children node)
    (hholds : draft.Holds node) (hbelow : below.Shows draft) (hafter : after.Shows draft) :
    (draft.toOutline.endPage (scanPages draft.pages) settings node after.tops.head?).result =
      .ok (endPage draft.pageCount below after) := by
  have hchild : (settings.follow (draft.toOutline.first node)).result = .ok below.tops.head? :=
    Settings.follow_of_ok (by rw [hfirst, toOutline_first hholds])
  refine Outline.endPage_eq_ok.2 ⟨_, pageNumber_head? hafter, ?_⟩
  rw [endPage]
  by_cases hnext : 0 ≤ after.startPage draft.pageCount
  · exact Or.inl ⟨hnext, if_pos hnext⟩
  · refine Or.inr ⟨Int.not_le.1 hnext, _, _, hchild, pageNumber_head? hbelow, ?_⟩
    simp only [if_neg hnext, Option.isNone_iff_eq_none, Bool.and_eq_true, head?_tops_eq_none,
      and_comm]
    rfl

/-- The entry that a plan begins with is read with its heading in the plan and the next entry. -/
theorem result_readEntry {below after : Plan} (h : (Plan.cons node call below after).Shows draft)
    (hsiblings : node :: after.tops <:+ draft.children call.above) :
    (draft.toOutline.readEntry (scanPages draft.pages) settings node).result =
      .ok ⟨⟨call.title, call.startPage draft.pageCount, endPage draft.pageCount below after,
        call.position⟩, after.tops.head?⟩ := by
  obtain ⟨hitem, htops, hbelow, hafter⟩ := id h
  obtain ⟨earlier, hchildren⟩ := hsiblings
  have hnew : node ∉ earlier := by
    have hnodup := nodup_children draft call.above
    rw [← hchildren] at hnodup
    intro hmem
    exact (List.nodup_append.1 hnodup).2.2 node hmem node List.mem_cons_self rfl
  have hnext : draft.toOutline.next node = .ok after.tops.head? := by
    rw [toOutline_next hitem, ← successor?_append hnew, hchildren]
    rfl
  have hstart : (draft.toOutline.pageNumber (scanPages draft.pages) (some node)).result =
      .ok (call.startPage draft.pageCount) := pageNumber_head? h
  refine Outline.readEntry_eq_ok.2 ⟨hstart, Settings.follow_of_ok hnext,
    result_endPage htops (holds_of_item? hitem) hbelow hafter, ?_, toOutline_title hitem⟩
  rw [Outline.result_position (result_destination hitem), Call.position_eq]

/-- A node is entered at the plan of its children, if the levels of these are within the limit. -/
theorem opens {depth : Nat} (htops : plan.tops = draft.children node) (hholds : draft.Holds node)
    (hdepth : depth + plan.height ≤ settings.depthLimit) :
    Outline.Opens draft.toOutline settings node depth plan.tops.head? := by
  have hfirst : draft.toOutline.first node = .ok plan.tops.head? := by
    rw [htops, toOutline_first hholds]
  refine .enter (Settings.follow_of_ok hfirst) ?_ (Settings.follow_of_ok (toOutline_last hholds))
  intro hopened
  cases plan with
  | nil => cases hopened
  | cons first call below after =>
      rw [height] at hdepth
      omega

/-- A walk with depth enough along the entries of a plan takes its course through the plan. -/
theorem trail {depth : Nat} {seen : List Node} (hshows : plan.Shows draft)
    (hsiblings : plan.tops <:+ draft.children above) (hnodup : plan.nodes.Nodup)
    (hseen : ∀ node ∈ plan.nodes, node ∉ seen)
    (hdepth : depth + plan.height ≤ settings.depthLimit) :
    Outline.Trail draft.toOutline (scanPages draft.pages) settings depth plan.tops.head? seen
      (plan.forest draft.pageCount) := by
  induction plan generalizing above depth seen with
  | nil => exact .finish
  | cons node call below after ihBelow ihAfter =>
      obtain ⟨hitem, htops, hbelow, hafter⟩ := hshows
      rw [nodes, List.nodup_cons, List.nodup_append] at hnodup
      obtain ⟨hnode, hnodupBelow, hnodupAfter, hdisjoint⟩ := hnodup
      rw [height] at hdepth
      -- The siblings of an entry are the children of its parent.
      obtain rfl : call.above = above := by
        have hmem : node ∈ draft.children above := hsiblings.subset List.mem_cons_self
        obtain ⟨item, hitem', rfl⟩ := mem_children.1 hmem
        rw [hitem, Option.some.injEq] at hitem'
        rw [← hitem']
        rfl
      refine .visit (hseen node List.mem_cons_self)
        (result_readEntry ⟨hitem, htops, hbelow, hafter⟩ hsiblings)
        (opens htops (holds_of_item? hitem) (by omega)) ?below ?after
      case below =>
        refine ihBelow hbelow ⟨[], htops⟩ hnodupBelow ?_ (by omega)
        intro other hother hmem
        rcases List.mem_cons.1 hmem with rfl | hmem
        · exact hnode (List.mem_append_left _ hother)
        · exact hseen other (List.mem_cons_of_mem _ (List.mem_append_left _ hother)) hmem
      case after =>
        refine ihAfter hafter ((List.suffix_cons _ _).trans hsiblings) hnodupAfter ?_ (by omega)
        intro other hother hmem
        rw [nodes_forest, List.mem_append, List.mem_reverse, List.mem_cons] at hmem
        rcases hmem with hmem | rfl | hmem
        · exact hdisjoint other hmem other hother rfl
        · exact hnode (List.mem_append_right _ hother)
        · exact hseen other (List.mem_cons_of_mem _ (List.mem_append_right _ hother)) hmem

/-- Calls whose parents are known succeed, and the outline that they make is read as the table of
contents of their plan if its levels are within the limit. The plan has an entry for each call, and
the table numbers them in order. -/
theorem read_ofCalls (pageCount : UInt32) {calls : List Call} (hknown : Call.Known calls)
    (settings : Settings) (hdepth : (ofCalls calls).height ≤ settings.depthLimit) :
    ∃ draft contents,
      performAll? { pageCount } calls = some (draft, nodesOf calls) ∧
      (draft.outline.read settings).result = .ok contents ∧
      contents = Contents.ofForest settings.rootTitle (signed32 pageCount.toNat)
        ((ofCalls calls).forest pageCount) ∧
      contents.WellNumbered (signed32 pageCount.toNat) ∧
      contents.size = calls.length + 1 ∧
      (ofCalls calls).nodes.Perm (nodesOf calls) := by
  obtain ⟨htops, hshows⟩ := shows_ofCalls pageCount hknown
  have hperm := perm_nodes hknown
  have htrail : Outline.Trail (Draft.ofCalls pageCount calls).toOutline
      (PageIndex.ofList (Draft.ofCalls pageCount calls).pages).number? settings 0
      (ofCalls calls).tops.head? [] ((ofCalls calls).forest pageCount) := by
    rw [PageIndex.number?_ofList]
    exact trail hshows ⟨[], htops⟩ (hperm.nodup_iff.2 (nodup_nodesOf calls))
      (fun _ _ => List.not_mem_nil) (by omega)
  have hyields : Outline.Yields (Draft.ofCalls pageCount calls).toOutline settings
      ((ofCalls calls).forest pageCount) :=
    .rooted rfl rfl (opens htops (holds_root _) (by omega)) htrail
  refine ⟨_, Contents.ofForest settings.rootTitle (signed32 pageCount.toNat)
    ((ofCalls calls).forest pageCount), performAll?_eq hknown,
    FiniteOutline.read_eq_ok.2 ⟨_, hyields, rfl⟩, rfl, Contents.wellNumbered_ofForest _ _ _, ?_,
    hperm⟩
  rw [Contents.size_ofForest, ← Forest.length_nodes, nodes_forest, hperm.length_eq, length_nodesOf]

end Plan

/-- Two chapters and, added last, a section of the first. The second chapter begins on a page that
the document does not hold. -/
def chapterCalls : List Call := [
  { parent := none, title := "Chapter 1", page := some 1, destination := none },
  { parent := none, title := "Chapter 2", page := some 7, destination := none },
  { parent := some ⟨1⟩, title := "Section 1", page := some 3,
    destination := some (.xyz none (some (Binary32.ofInt 700)) none) }]

theorem known_chapterCalls : Call.Known chapterCalls := by
  intro place call parent hcall hparent
  rcases place with _ | _ | _ | place
  · cases hcall
    cases hparent
  · cases hcall
    cases hparent
  · cases hcall
    cases hparent
    exact ⟨0, by decide, rfl⟩
  · cases hcall

/-- The section comes between the chapters, and the first chapter ends where it begins. -/
theorem read_chapterCalls :
    Call.Known chapterCalls ∧ (Plan.ofCalls chapterCalls).height ≤ 64 ∧
      ∃ draft contents, performAll? { pageCount := 5 } chapterCalls =
          some (draft, [⟨1⟩, ⟨2⟩, ⟨3⟩]) ∧
        (draft.outline.read {}).result = .ok contents ∧
        contents.sections.toList =
          [Contents.rootSection "root" 5 [1, 3], ⟨some 0, "Chapter 1", 0, 1, 3, 0, [2]⟩,
            ⟨some 1, "Section 1", 1, 3, 5, 700, []⟩, ⟨some 0, "Chapter 2", 0, -1, 5, 0, []⟩] := by
  have hdepth : (Plan.ofCalls chapterCalls).height ≤ 64 := by decide
  obtain ⟨draft, contents, hdraft, hread, rfl, -, -, -⟩ :=
    Plan.read_ofCalls 5 known_chapterCalls {} hdepth
  refine ⟨known_chapterCalls, hdepth, draft, _, hdraft, hread, ?_⟩
  decide +kernel

end Bookmarks.Draft
