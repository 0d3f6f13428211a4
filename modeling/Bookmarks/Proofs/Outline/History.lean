/-
# Drafts after any history

Calls that add entries may be refused: one that names an unknown parent gives nothing back and
leaves the draft as it is. All others are answered, with nodes that are numbered as they come.
Whatever calls were made, refused ones among them, the links of the draft lead from each node
through the entries that were added under it, in the order in which they were added, and then end
(`LinkedDraft.navigates_attemptAll`). The lists of different nodes have no entry in common, and
together they hold every entry once.

Histories are followed in the draft without lists of children, where a call adds a single item. That
the lists of a linked draft say the same is carried along from call to call (`Refines`).
-/
import Bookmarks.Proofs.Outline.Linked
import Mathlib.Data.List.Nodup
import Mathlib.Data.List.Perm.Basic
import Mathlib.Data.List.ReduceOption

namespace Bookmarks

namespace Draft

/-! ## Histories -/

section Histories

variable {σ τ : Type} (perform? : σ → Call → Option (σ × Node))

/-- Carry out a call. A call that is refused gives nothing back and changes nothing. -/
def attempt (state : σ) (call : Call) : σ × Option Node :=
  match perform? state call with
  | some (next, node) => (next, some node)
  | none => (state, none)

/-- Carry out calls one after another, and keep what each of them gives back. -/
def attemptAll : σ → List Call → σ × List (Option Node)
  | state, [] => (state, [])
  | state, call :: calls =>
      let step := attempt perform? state call
      let rest := attemptAll step.1 calls
      (rest.1, step.2 :: rest.2)

/-- Of calls made one after another those are answered that name a known parent, the root or a node
that was given back before. Each gives back the node after all those before it. A call that is not
answered leaves everything as it is. -/
structure Answered (start : σ) (calls : List Call) (answers : List (Option Node)) : Prop where
  length_eq : answers.length = calls.length
  answered_iff : ∀ {place : Nat} {call : Call}, calls[place]? = some call →
    ((∃ node, answers[place]? = some (some node)) ↔
      call.above ∈ ⟨0⟩ :: (answers.take place).reduceOption)
  node_eq : ∀ {place : Nat} {node : Node}, answers[place]? = some (some node) →
    node = ⟨(answers.take place).reduceOption.length + 1⟩
  refused : ∀ {place : Nat}, answers[place]? = some none →
    (attemptAll perform? start (calls.take (place + 1))).1 =
      (attemptAll perform? start (calls.take place)).1

variable {perform?} {perform?' : τ → Call → Option (τ × Node)} {state : σ}

theorem attemptAll_cons (state : σ) (call : Call) (calls : List Call) :
    attemptAll perform? state (call :: calls) =
      ((attemptAll perform? (attempt perform? state call).1 calls).1,
        (attempt perform? state call).2 ::
          (attemptAll perform? (attempt perform? state call).1 calls).2) := rfl

theorem attemptAll_append (state : σ) (calls later : List Call) :
    attemptAll perform? state (calls ++ later) =
      ((attemptAll perform? (attemptAll perform? state calls).1 later).1,
        (attemptAll perform? state calls).2 ++
          (attemptAll perform? (attemptAll perform? state calls).1 later).2) := by
  induction calls generalizing state with
  | nil => rfl
  | cons call calls ih => rw [List.cons_append, attemptAll_cons, ih]; rfl

theorem length_attemptAll (state : σ) (calls : List Call) :
    (attemptAll perform? state calls).2.length = calls.length := by
  induction calls generalizing state with
  | nil => rfl
  | cons call calls ih => exact congrArg (· + 1) (ih _)

/-- The first answers are those to the first calls. -/
theorem take_attemptAll (state : σ) (calls : List Call) (place : Nat) :
    (attemptAll perform? state calls).2.take place =
      (attemptAll perform? state (calls.take place)).2 := by
  induction calls generalizing state place with
  | nil => cases place <;> rfl
  | cons call calls ih =>
      cases place with
      | zero => rfl
      | succ place => exact congrArg (_ :: ·) (ih _ place)

/-- The answer to a call is given in the state that the calls before it leave. -/
theorem getElem?_attemptAll (state : σ) (calls : List Call) (place : Nat) :
    (attemptAll perform? state calls).2[place]? =
      calls[place]?.map fun call =>
        (attempt perform? (attemptAll perform? state (calls.take place)).1 call).2 := by
  induction calls generalizing state place with
  | nil => cases place <;> rfl
  | cons call calls ih =>
      cases place with
      | zero => rfl
      | succ place => exact ih _ place

theorem attemptAll_take_succ (state : σ) {calls : List Call} {place : Nat} {call : Call}
    (h : calls[place]? = some call) :
    (attemptAll perform? state (calls.take (place + 1))).1 =
      (attempt perform? (attemptAll perform? state (calls.take place)).1 call).1 := by
  rw [List.take_add_one, h, attemptAll_append]
  rfl

/-- A call without an answer changes nothing. -/
theorem attempt_fst_of_none {call : Call} (h : (attempt perform? state call).2 = none) :
    (attempt perform? state call).1 = state := by
  unfold attempt at h ⊢
  split at h
  · cases h
  · rfl

/-- Two machines that go on alike and give back the same at each call do so in all calls. -/
theorem attemptAll_alike {alike : σ → τ → Prop}
    (hstep : ∀ {state other}, alike state other → ∀ call,
      alike (attempt perform? state call).1 (attempt perform?' other call).1 ∧
        (attempt perform? state call).2 = (attempt perform?' other call).2)
    {state : σ} {other : τ} (h : alike state other) (calls : List Call) :
    alike (attemptAll perform? state calls).1 (attemptAll perform?' other calls).1 ∧
      (attemptAll perform? state calls).2 = (attemptAll perform?' other calls).2 := by
  induction calls generalizing state other with
  | nil => exact ⟨h, rfl⟩
  | cons call calls ih =>
      obtain ⟨hnext, hanswer⟩ := hstep h call
      obtain ⟨hlast, hanswers⟩ := ih hnext
      refine ⟨hlast, ?_⟩
      rw [attemptAll_cons, attemptAll_cons, hanswer, hanswers]

end Histories

/-- The entries added under a node: what was given back by the calls that name it as the parent. -/
def addedUnder (calls : List Call) (answers : List (Option Node)) (node : Node) : List Node :=
  (calls.zip answers).filterMap fun (call, answer) => if call.above = node then answer else none

/-! ## One more call -/

variable {draft : Draft} {call : Call} {item : Item} {node other entry : Node}

theorem attempt_of_holds (h : draft.Holds call.above) :
    attempt perform? draft call = (draft.push call.item, some (nodeAt draft.size)) := by
  rw [attempt, perform?_eq h]

/-- A call that names an unknown parent is refused. -/
theorem attempt_of_not_holds (h : ¬draft.Holds call.above) :
    attempt perform? draft call = (draft, none) := by
  have hperform : draft.perform? call = none := by
    obtain ⟨parent, title, page, destination⟩ := call
    cases destination with
    | none => exact if_neg h
    | some destination => exact if_neg h
  rw [attempt, hperform]

theorem addedUnder_cons (calls : List Call) (answer : Option Node) (answers : List (Option Node))
    (node : Node) :
    addedUnder (call :: calls) (answer :: answers) node =
      (if call.above = node then answer.toList else []) ++ addedUnder calls answers node := by
  rw [addedUnder, List.zip_cons_cons, List.filterMap_cons, ← addedUnder]
  by_cases h : call.above = node
  · cases answer <;> simp [h]
  · simp [h]

theorem nodes_push : (draft.push item).nodes = draft.nodes ++ [nodeAt draft.size] := by
  rw [nodes, size_push, List.range_succ, List.map_append]
  rfl

/-- The parent of every entry is there. -/
def ParentsHeld (draft : Draft) : Prop :=
  ∀ entry item, draft.item? entry = some item → draft.Holds item.parent

theorem ParentsHeld.push (h : draft.ParentsHeld) (hparent : draft.Holds item.parent) :
    (draft.push item).ParentsHeld := by
  have hholds : ∀ {node : Node}, draft.Holds node → (draft.push item).Holds node := by
    intro node hnode
    rw [Holds, size_push]
    exact Nat.le_succ_of_le hnode
  intro entry added hitem
  obtain ⟨place, hplace, rfl, hget⟩ := exists_place hitem
  rw [Draft.push, Array.getElem?_push] at hget
  split at hget
  · cases hget
    exact hholds hparent
  · exact hholds (h _ _ ((item?_nodeAt draft place).trans hget))

/-! ## All calls -/

theorem nodes_attemptAll (draft : Draft) (calls : List Call) :
    (attemptAll perform? draft calls).1.nodes =
      draft.nodes ++ (attemptAll perform? draft calls).2.reduceOption := by
  induction calls generalizing draft with
  | nil => simp [attemptAll]
  | cons call calls ih =>
      rw [attemptAll_cons]
      by_cases h : draft.Holds call.above
      · rw [attempt_of_holds h, ih, nodes_push, List.reduceOption_cons_of_some,
          List.append_assoc, List.singleton_append]
      · rw [attempt_of_not_holds h, ih, List.reduceOption_cons_of_none]

/-- The children of a node are those that it had before, and then the entries added under it. -/
theorem children_attemptAll (draft : Draft) (calls : List Call) (node : Node) :
    (attemptAll perform? draft calls).1.children node =
      draft.children node ++ addedUnder calls (attemptAll perform? draft calls).2 node := by
  induction calls generalizing draft with
  | nil => simp [attemptAll, addedUnder]
  | cons call calls ih =>
      rw [attemptAll_cons, addedUnder_cons]
      by_cases h : draft.Holds call.above
      · rw [attempt_of_holds h, ih, children_push, List.append_assoc]
        rfl
      · rw [attempt_of_not_holds h, ih, Option.toList_none, ite_self, List.nil_append]

theorem ParentsHeld.attemptAll (h : draft.ParentsHeld) (calls : List Call) :
    (Draft.attemptAll perform? draft calls).1.ParentsHeld := by
  induction calls generalizing draft with
  | nil => exact h
  | cons call calls ih =>
      rw [attemptAll_cons]
      by_cases hholds : draft.Holds call.above
      · rw [attempt_of_holds hholds]
        exact ih (h.push hholds)
      · rw [attempt_of_not_holds hholds]
        exact ih h

theorem mem_nodes : node ∈ draft.nodes ↔ draft.Holds node := by
  rw [nodes, List.mem_map]
  constructor
  · rintro ⟨index, hindex, rfl⟩
    exact Nat.lt_succ_iff.1 (List.mem_range.1 hindex)
  · intro h
    exact ⟨node.index, List.mem_range.2 (Nat.lt_succ_of_le h), rfl⟩

theorem nodup_nodes (draft : Draft) : draft.nodes.Nodup :=
  List.nodup_range.map fun _ _ h => congrArg Node.index h

theorem nodes_eq_cons (draft : Draft) :
    draft.nodes = ⟨0⟩ :: (List.range draft.size).map nodeAt := by
  rw [nodes, List.range_succ_eq_map, List.map_cons, List.map_map]
  rfl

/-- Calls to a draft that begins without entries are answered as their parents are known. -/
theorem answered_attemptAll (hempty : draft.size = 0) (calls : List Call) :
    Answered perform? draft calls (attemptAll perform? draft calls).2 := by
  have hnodes : ∀ place, (attemptAll perform? draft (calls.take place)).1.nodes =
      ⟨0⟩ :: ((attemptAll perform? draft calls).2.take place).reduceOption := by
    intro place
    rw [nodes_attemptAll, take_attemptAll, nodes_eq_cons, hempty]
    rfl
  have hanswer : ∀ {place call}, calls[place]? = some call →
      (attemptAll perform? draft calls).2[place]? =
        some (attempt perform? (attemptAll perform? draft (calls.take place)).1 call).2 := by
    intro place call hcall
    rw [getElem?_attemptAll, hcall, Option.map_some]
  have hcall : ∀ {place answer}, (attemptAll perform? draft calls).2[place]? = some answer →
      ∃ call, calls[place]? = some call ∧
        (attempt perform? (attemptAll perform? draft (calls.take place)).1 call).2 = answer := by
    intro place answer h
    rw [getElem?_attemptAll] at h
    exact Option.map_eq_some_iff.1 h
  refine ⟨length_attemptAll draft calls, ?answered, ?node, ?refused⟩
  case answered =>
    intro place call h
    rw [hanswer h, ← hnodes, mem_nodes]
    by_cases hholds : (attemptAll perform? draft (calls.take place)).1.Holds call.above
    · exact iff_of_true ⟨_, congrArg some (congrArg Prod.snd (attempt_of_holds hholds))⟩ hholds
    · refine iff_of_false ?_ hholds
      rintro ⟨node, hnode⟩
      rw [attempt_of_not_holds hholds] at hnode
      cases hnode
  case node =>
    intro place node h
    obtain ⟨call, -, hnode⟩ := hcall h
    have hsize := congrArg List.length (hnodes place)
    rw [nodes, List.length_map, List.length_range, List.length_cons, Nat.add_right_cancel_iff]
      at hsize
    by_cases hholds : (attemptAll perform? draft (calls.take place)).1.Holds call.above
    · rw [attempt_of_holds hholds, Option.some.injEq, hsize] at hnode
      exact hnode.symm
    · rw [attempt_of_not_holds hholds] at hnode
      cases hnode
  case refused =>
    intro place h
    obtain ⟨call, hplace, hnone⟩ := hcall h
    rw [attemptAll_take_succ draft hplace, attempt_fst_of_none hnone]

/-! ## Siblings -/

/-- From the current node on, the links to the next sibling lead through these nodes, and from the
last of them to none. -/
inductive Visits (outline : Outline Node UInt32) : Option Node → List Node → Prop where
  | nil : Visits outline none []
  | cons {node : Node} {next : Option Node} {nodes : List Node}
      (hnext : outline.next node = .ok next) (hnodes : Visits outline next nodes) :
      Visits outline (some node) (node :: nodes)

/-- The links of an outline lead through the entries in the order in which they were added under
each node, and there are no nodes but the root and the entries. -/
structure Navigates (outline : Outline Node UInt32) (entries : List Node)
    (added : Node → List Node) : Prop where
  nodup_entries : entries.Nodup
  /-- Beginning at the first child, the siblings are the entries added under the node. -/
  visits : ∀ {node}, node ∈ ⟨0⟩ :: entries →
    ∃ first, outline.first node = .ok first ∧ Visits outline first (added node)
  last_eq : ∀ {node}, node ∈ ⟨0⟩ :: entries → outline.last node = .ok (added node).getLast?
  unknown : ∀ {node}, node ∉ ⟨0⟩ :: entries →
    outline.first node = .error (.missing s!"outline entry {node.index}")
  nodup : ∀ node, (added node).Nodup
  disjoint : ∀ {node other}, node ≠ other → (added node).Disjoint (added other)
  /-- Every entry is under one of the nodes, once. -/
  perm : ((⟨0⟩ :: entries).flatMap added).Perm entries

/-- The links of a draft visit the children of a node from any of them on. -/
theorem visits_of_children_eq {earlier later : List Node}
    (h : draft.children node = earlier ++ later) : Visits draft.toOutline later.head? later := by
  induction later generalizing earlier with
  | nil => exact .nil
  | cons entry later ih =>
      have hmem : entry ∈ draft.children node := by
        rw [h]
        exact List.mem_append_right _ List.mem_cons_self
      obtain ⟨item, hitem, hparent⟩ := mem_children.1 hmem
      have hearlier : entry ∉ earlier := fun hmem =>
        List.disjoint_of_nodup_append (h ▸ nodup_children draft node) hmem List.mem_cons_self
      have hnext := toOutline_next hitem
      rw [hparent, h, successor?_append hearlier] at hnext
      have hrest : draft.children node = (earlier ++ [entry]) ++ later := by
        rw [h, List.append_assoc, List.singleton_append]
      exact .cons hnext (ih hrest)

theorem disjoint_children (h : node ≠ other) :
    (draft.children node).Disjoint (draft.children other) := by
  intro entry hentry hother
  obtain ⟨item, hitem, rfl⟩ := mem_children.1 hentry
  obtain ⟨item', hitem', rfl⟩ := mem_children.1 hother
  exact h (congrArg Item.parent (Option.some.inj (hitem.symm.trans hitem')))

/-- Every entry is a child of one of the nodes, once. -/
theorem ParentsHeld.perm_flatMap_children (h : draft.ParentsHeld) :
    (draft.nodes.flatMap draft.children).Perm ((List.range draft.size).map nodeAt) := by
  refine (List.perm_ext_iff_of_nodup ?_ (List.nodup_range.map nodeAt_injective)).2 fun entry => ?_
  · refine List.nodup_flatMap.2 ⟨fun node _ => nodup_children draft node, ?_⟩
    exact (nodup_nodes draft).imp disjoint_children
  · rw [List.mem_flatMap, List.mem_map]
    constructor
    · rintro ⟨node, -, hentry⟩
      obtain ⟨item, hitem, -⟩ := mem_children.1 hentry
      obtain ⟨place, hplace, rfl, -⟩ := exists_place hitem
      exact ⟨place, List.mem_range.2 hplace, rfl⟩
    · rintro ⟨place, hplace, rfl⟩
      have hget := Array.getElem?_eq_getElem (List.mem_range.1 hplace : place < draft.items.size)
      have hitem := (item?_nodeAt draft place).trans hget
      exact ⟨_, mem_nodes.2 (h _ _ hitem), mem_children.2 ⟨_, hitem, rfl⟩⟩

/-- A draft in which all parents are held is navigated through its lists of children. -/
theorem ParentsHeld.navigates (h : draft.ParentsHeld) :
    Navigates draft.toOutline ((List.range draft.size).map nodeAt) draft.children where
  nodup_entries := List.nodup_range.map nodeAt_injective
  visits hnode := by
    rw [← nodes_eq_cons, mem_nodes] at hnode
    exact ⟨_, toOutline_first hnode, visits_of_children_eq (List.nil_append _).symm⟩
  last_eq hnode := by
    rw [← nodes_eq_cons, mem_nodes] at hnode
    exact toOutline_last hnode
  unknown hnode := by
    rw [← nodes_eq_cons, mem_nodes] at hnode
    exact if_neg hnode
  nodup := nodup_children draft
  disjoint := disjoint_children
  perm := by
    rw [← nodes_eq_cons]
    exact h.perm_flatMap_children

theorem parentsHeld_of_size_eq_zero (h : draft.size = 0) : draft.ParentsHeld := by
  intro entry item hitem
  obtain ⟨place, hplace, -⟩ := exists_place hitem
  omega

end Draft

namespace LinkedDraft

open Draft (Node Call nodeAt attempt attemptAll addedUnder Answered Navigates Visits)

/-! ## Linked drafts -/

/-- Carry out a call, if the parent that it names is there. -/
def perform? (linked : LinkedDraft) (call : Call) : Option (LinkedDraft × Node) :=
  match call.destination with
  | none => linked.addEntry? call.parent call.title call.page
  | some destination => linked.addEntryAt? call.parent call.title call.page destination

/-- A linked draft has the right lists of children, and without them it is this draft. -/
def Refines (linked : LinkedDraft) (draft : Draft) : Prop :=
  linked.Consistent ∧ linked.draft = draft

variable {linked : LinkedDraft} {draft : Draft} {call : Call}

theorem perform?_eq (h : call.above.index < linked.entries.size) :
    ∃ entry, linked.perform? call = some (linked.push call.above entry, ⟨linked.entries.size⟩) ∧
      entry.item = call.item ∧ entry.parent = some call.above ∧ entry.children = #[] := by
  obtain ⟨parent, title, page, destination⟩ := call
  cases destination with
  | none => exact ⟨_, if_pos h, by cases page <;> rfl, rfl, rfl⟩
  | some destination => exact ⟨_, if_pos h, rfl, rfl, rfl⟩

theorem perform?_eq_none (h : ¬call.above.index < linked.entries.size) :
    linked.perform? call = none := by
  obtain ⟨parent, title, page, destination⟩ := call
  cases destination with
  | none => exact if_neg h
  | some destination => exact if_neg h

/-- A call does to a linked draft what it does to the draft without lists. -/
theorem Refines.attempt (h : Refines linked draft) (call : Call) :
    Refines (attempt perform? linked call).1 (attempt Draft.perform? draft call).1 ∧
      (attempt perform? linked call).2 = (attempt Draft.perform? draft call).2 := by
  obtain ⟨hconsistent, rfl⟩ := h
  by_cases hholds : linked.draft.Holds call.above
  · have habove := hconsistent.holds_iff.1 hholds
    obtain ⟨entry, hperform, hitem, hparent, hchildren⟩ := perform?_eq habove
    rw [Draft.attempt_of_holds hholds, Draft.attempt, hperform]
    refine ⟨⟨hconsistent.push habove hparent hchildren, ?_⟩, ?_⟩
    · rw [draft_push hconsistent, hitem]
    · rw [hconsistent.size_entries]
      rfl
  · have hperform := perform?_eq_none (mt hconsistent.holds_iff.2 hholds)
    rw [Draft.attempt_of_not_holds hholds, Draft.attempt, hperform]
    exact ⟨⟨hconsistent, rfl⟩, rfl⟩

/-- Calls, answered and refused ones, do to a linked draft what they do to the draft without
lists. -/
theorem Refines.attemptAll (h : Refines linked draft) (calls : List Call) :
    Refines (attemptAll perform? linked calls).1 (attemptAll Draft.perform? draft calls).1 ∧
      (attemptAll perform? linked calls).2 = (attemptAll Draft.perform? draft calls).2 :=
  Draft.attemptAll_alike (fun h call => h.attempt call) h calls

theorem answered_attemptAll (h : Refines linked draft) (hempty : draft.size = 0)
    (calls : List Call) :
    Answered perform? linked calls (attemptAll perform? linked calls).2 := by
  have hanswered := Draft.answered_attemptAll hempty calls
  rw [← (h.attemptAll calls).2] at hanswered
  refine ⟨hanswered.length_eq, hanswered.answered_iff, hanswered.node_eq, ?_⟩
  intro place hnone
  rw [Draft.getElem?_attemptAll] at hnone
  obtain ⟨call, hcall, hnone⟩ := Option.map_eq_some_iff.1 hnone
  rw [Draft.attemptAll_take_succ linked hcall, Draft.attempt_fst_of_none hnone]

/-- The list of children of any node is what a search of the entries finds; a node that is not there
has none. -/
theorem toList_children (h : linked.Consistent) (hheld : linked.draft.ParentsHeld) (node : Node) :
    (linked.children node).toList = linked.draft.children node := by
  by_cases hnode : node.index < linked.entries.size
  · exact h.children_draft hnode
  · have hentry := Array.getElem?_eq_none (Nat.le_of_not_lt hnode)
    rw [children, hentry, Option.elim_none]
    refine (List.eq_nil_iff_forall_not_mem.2 fun child hchild => ?_).symm
    obtain ⟨item, hitem, rfl⟩ := Draft.mem_children.1 hchild
    exact hnode (h.holds_iff.1 (hheld child item hitem))

/-- Whatever calls are made to add entries to an empty draft, those are answered that name a known
parent, and the draft is navigated through what was added under each node, which is what its list of
children holds. Its size is the number of entries that were added. -/
theorem navigates_attemptAll (pageCount : UInt32) (hasOutline : Bool) (calls : List Call) :
    let history := attemptAll perform? (empty pageCount hasOutline) calls
    Answered perform? (empty pageCount hasOutline) calls history.2 ∧
      Navigates history.1.toOutline history.2.reduceOption (addedUnder calls history.2) ∧
      (∀ node, (history.1.children node).toList = addedUnder calls history.2 node) ∧
      history.1.size = history.2.reduceOption.length := by
  intro history
  have hrefines : Refines (empty pageCount hasOutline) { pageCount, hasOutline } :=
    ⟨consistent_empty pageCount hasOutline, rfl⟩
  have hempty : Draft.size { pageCount, hasOutline } = 0 := rfl
  obtain ⟨⟨hconsistent, hdraft⟩, hanswers⟩ := hrefines.attemptAll calls
  have hnodes := Draft.nodes_attemptAll { pageCount, hasOutline } calls
  have hadded : addedUnder calls history.2 = history.1.draft.children := by
    funext node
    rw [hdraft, Draft.children_attemptAll, ← hanswers]
    rfl
  have hentries : (List.range history.1.draft.size).map nodeAt = history.2.reduceOption := by
    rw [← hdraft, Draft.nodes_eq_cons, ← hanswers] at hnodes
    exact (List.cons.inj hnodes).2
  have hheld : history.1.draft.ParentsHeld := by
    rw [hdraft]
    exact (Draft.parentsHeld_of_size_eq_zero hempty).attemptAll calls
  have hnavigates := hheld.navigates
  rw [hentries, ← toOutline_eq hconsistent, ← hadded] at hnavigates
  refine ⟨answered_attemptAll hrefines hempty calls, hnavigates, ?_, ?_⟩
  · rw [hadded]
    exact toList_children hconsistent hheld
  · rw [← hentries, List.length_map, List.length_range, size_draft]

/-- A shelf with two parts, one chapter of the second and a note to the first. Two calls name
parents that are not there, one of them a parent that is added later. -/
def shelfCalls : List Call :=
  [⟨none, "Part 1", some 1, none⟩, ⟨some ⟨2⟩, "Early", none, none⟩, ⟨none, "Part 2", none, none⟩,
    ⟨some ⟨2⟩, "Chapter", some 1, none⟩, ⟨some ⟨7⟩, "Lost", some 1, some .fitB⟩,
    ⟨some ⟨1⟩, "Note", some 1, some .fitB⟩]

/-- Four calls are answered, and the root leads through the two parts. -/
theorem navigates_shelf :
    ∃ shelf first, attemptAll perform? (empty 1 true) shelfCalls =
        (shelf, [some ⟨1⟩, none, some ⟨2⟩, some ⟨3⟩, none, some ⟨4⟩]) ∧
      shelf.size = 4 ∧ shelf.toOutline.first ⟨0⟩ = .ok first ∧
      Visits shelf.toOutline first [⟨1⟩, ⟨2⟩] ∧ shelf.toOutline.last ⟨0⟩ = .ok (some ⟨2⟩) ∧
      shelf.children ⟨2⟩ = #[⟨3⟩] := by
  have hanswers : (attemptAll perform? (empty 1 true) shelfCalls).2 =
      [some ⟨1⟩, none, some ⟨2⟩, some ⟨3⟩, none, some ⟨4⟩] := by decide
  obtain ⟨-, hnavigates, hchildren, hsize⟩ := navigates_attemptAll 1 true shelfCalls
  rw [hanswers] at hnavigates hchildren hsize
  obtain ⟨first, hfirst, hvisits⟩ := hnavigates.visits List.mem_cons_self
  exact ⟨_, first, Prod.ext rfl hanswers, hsize, hfirst, hvisits,
    hnavigates.last_eq List.mem_cons_self, Array.toList_inj.1 (hchildren ⟨2⟩)⟩

end LinkedDraft

end Bookmarks
