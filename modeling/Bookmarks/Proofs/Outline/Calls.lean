/-
# Calls that make a draft

A draft is put together by calls, each of which adds an entry and gives back its node. The draft of
a list of calls holds one entry for each call; all calls succeed if each names a parent that an
earlier one gave back (`performAll?_eq`). Adding an entry makes it the last child of its parent and
changes no other list of children (`children_push`).
-/
import Bookmarks.Proofs.Outline.Draft

namespace Bookmarks.Draft

/-- A call that adds an entry, without a destination of its own or with one. -/
structure Call where
  /-- The entry it is added under; without one it is added at the top. -/
  parent : Option Node
  title : String
  page : Option UInt32
  destination : Option Destination
  deriving DecidableEq, Repr

namespace Call

/-- The node that the entry is added under. -/
def above (call : Call) : Node :=
  call.parent.getD ⟨0⟩

/-- The entry that is added. -/
def item (call : Call) : Item :=
  { parent := call.above
    title := call.title
    page := call.page
    destination := call.destination.or (call.page.map fun _ => .fit) }

/-- Every parent was given back by an earlier call: the call at a place gives back `nodeAt` it. -/
def Known (calls : List Call) : Prop :=
  ∀ place call parent, calls[place]? = some call → call.parent = some parent →
    ∃ earlier < place, parent = nodeAt earlier

end Call

/-- Carry out a call, if the draft holds the parent that it names. -/
def perform? (draft : Draft) (call : Call) : Option (Draft × Node) :=
  match call.destination with
  | none => draft.addEntry? call.above call.title call.page
  | some destination => draft.add? call.above call.title call.page (some destination)

/-- Carry out calls one after another, and keep what they give back. -/
def performAll? : Draft → List Call → Option (Draft × List Node)
  | draft, [] => some (draft, [])
  | draft, call :: calls => do
      let (draft, node) ← draft.perform? call
      let (draft, nodes) ← draft.performAll? calls
      some (draft, node :: nodes)

/-- The draft that calls make for a document of so many pages. -/
def ofCalls (pageCount : UInt32) (calls : List Call) : Draft :=
  { pageCount, items := (calls.map Call.item).toArray }

/-- The nodes of the entries that calls add. -/
def nodesOf (calls : List Call) : List Node :=
  (List.range calls.length).map nodeAt

theorem nodup_nodesOf (calls : List Call) : (nodesOf calls).Nodup :=
  List.nodup_range.map nodeAt_injective

theorem length_nodesOf (calls : List Call) : (nodesOf calls).length = calls.length := by
  rw [nodesOf, List.length_map, List.length_range]

theorem nodesOf_append_singleton (calls : List Call) (call : Call) :
    nodesOf (calls ++ [call]) = nodesOf calls ++ [nodeAt calls.length] := by
  rw [nodesOf, List.length_append, List.length_singleton, List.range_succ, List.map_append]
  rfl

/-! ## One more entry -/

/-- The draft with one more entry. -/
def push (draft : Draft) (item : Item) : Draft :=
  { draft with items := draft.items.push item }

variable {draft : Draft} {item other : Item} {node : Node} {call : Call}

theorem size_push : (draft.push item).size = draft.size + 1 :=
  Array.size_push item

/-- A call adds its entry if the parent is there. -/
theorem perform?_eq (h : draft.Holds call.above) :
    draft.perform? call = some (draft.push call.item, nodeAt draft.size) := by
  obtain ⟨parent, title, page, destination⟩ := call
  cases destination with
  | none => exact if_pos h
  | some destination => exact if_pos h

theorem item?_push_of_item? (h : draft.item? node = some other) :
    (draft.push item).item? node = some other := by
  obtain ⟨place, hplace, rfl, hget⟩ := exists_place h
  rw [item?_nodeAt, push, Array.getElem?_push_lt hplace, ← hget, Array.getElem?_eq_getElem hplace]

theorem item?_push_size : (draft.push item).item? (nodeAt draft.size) = some item := by
  rw [item?_nodeAt]
  exact Array.getElem?_push_size

theorem isUnder_push_of_lt {place : Nat} (h : place < draft.size) :
    (draft.push item).isUnder node place = draft.isUnder node place := by
  rw [isUnder, isUnder, push, Array.getElem?_push_lt h, Array.getElem?_eq_getElem h]

theorem isUnder_push_size :
    (draft.push item).isUnder node draft.size = decide (item.parent = node) := by
  have hget : (draft.push item).items[draft.size]? = some item := Array.getElem?_push_size
  rw [isUnder, hget, Option.any_some]

/-- An entry that is added becomes the last child of its parent. -/
theorem children_push (draft : Draft) (item : Item) (node : Node) :
    (draft.push item).children node =
      draft.children node ++ if item.parent = node then [nodeAt draft.size] else [] := by
  have hold : (List.range draft.size).filter ((draft.push item).isUnder node) =
      (List.range draft.size).filter (draft.isUnder node) :=
    List.filter_congr fun place hplace => isUnder_push_of_lt (List.mem_range.1 hplace)
  rw [children, children, size_push, List.range_succ, List.filter_append, hold, List.map_append,
    List.filter_singleton, isUnder_push_size]
  by_cases h : item.parent = node
  · rw [if_pos h, decide_eq_true h]
    rfl
  · rw [if_neg h, decide_eq_false h]
    rfl

/-! ## The draft of a list of calls -/

variable {pageCount : UInt32} {calls : List Call}

variable (pageCount) in
theorem size_ofCalls (calls : List Call) : (ofCalls pageCount calls).size = calls.length := by
  rw [size, ofCalls, List.size_toArray, List.length_map]

theorem ofCalls_append_singleton :
    ofCalls pageCount (calls ++ [call]) = (ofCalls pageCount calls).push call.item := by
  rw [ofCalls, push, ofCalls, List.map_append, List.push_toArray]
  rfl

namespace Call.Known

theorem of_append {later : List Call} (h : Known (calls ++ later)) : Known calls := by
  intro place call parent hcall hparent
  have hplace := (List.getElem?_eq_some_iff.1 hcall).1
  exact h place call parent ((List.getElem?_append_left hplace).trans hcall) hparent

/-- The parent of a call is the top, or an entry of the calls before. -/
theorem above_eq {later : List Call} (h : Known (calls ++ call :: later)) :
    call.above = ⟨0⟩ ∨ call.above ∈ nodesOf calls := by
  rw [above]
  cases hparent : call.parent with
  | none => exact Or.inl rfl
  | some parent =>
      have hcall : (calls ++ call :: later)[calls.length]? = some call := by
        rw [List.getElem?_append_right (Nat.le_refl _), Nat.sub_self]
        rfl
      obtain ⟨earlier, hearlier, rfl⟩ := h _ _ _ hcall hparent
      exact Or.inr (List.mem_map.2 ⟨earlier, List.mem_range.2 hearlier, rfl⟩)

theorem holds {later : List Call} (h : Known (calls ++ call :: later)) :
    (ofCalls pageCount calls).Holds call.above := by
  rw [Holds, size_ofCalls]
  rcases h.above_eq with htop | hmem
  · rw [htop]
    exact Nat.zero_le _
  · obtain ⟨earlier, hearlier, heq⟩ := List.mem_map.1 hmem
    rw [← heq]
    exact List.mem_range.1 hearlier

/-- No call names the entry of a later call, or its own. -/
theorem above_ne (h : Known calls) {earlier place : Nat} (hcall : calls[earlier]? = some call)
    (hplace : earlier ≤ place) : call.above ≠ nodeAt place := by
  rw [above]
  cases hparent : call.parent with
  | none => exact fun heq => by cases heq
  | some parent =>
      obtain ⟨before, hbefore, rfl⟩ := h _ _ _ hcall hparent
      intro heq
      have hsame := nodeAt_injective heq
      omega

end Call.Known

variable (pageCount) in
/-- No entry has been added under the entry that is to come. -/
theorem children_ofCalls_eq_nil (h : Call.Known calls) :
    (ofCalls pageCount calls).children (nodeAt calls.length) = [] := by
  apply List.eq_nil_iff_forall_not_mem.2
  intro node hnode
  obtain ⟨item, hitem, hparent⟩ := mem_children.1 hnode
  obtain ⟨place, hplace, rfl, hget⟩ := exists_place hitem
  rw [ofCalls, List.getElem?_toArray, List.getElem?_map, Option.map_eq_some_iff] at hget
  obtain ⟨call, hcall, rfl⟩ := hget
  rw [size_ofCalls] at hplace
  exact h.above_ne hcall (Nat.le_of_lt hplace) hparent

/-- Calls whose parents are known succeed, and give back the nodes of their entries. -/
theorem performAll?_append {later : List Call} (h : Call.Known (calls ++ later)) :
    (ofCalls pageCount calls).performAll? later =
      some (ofCalls pageCount (calls ++ later),
        (List.range' calls.length later.length).map nodeAt) := by
  induction later generalizing calls with
  | nil => rw [List.append_nil]; rfl
  | cons call later ih =>
      have hsplit : calls ++ call :: later = calls ++ [call] ++ later := by simp
      have hrest := ih (hsplit ▸ h)
      rw [ofCalls_append_singleton, List.length_append, List.length_singleton] at hrest
      rw [performAll?, perform?_eq h.holds, size_ofCalls]
      simp only [Option.bind_eq_bind, Option.bind_some, hrest]
      rw [← hsplit]
      rfl

theorem performAll?_eq (h : Call.Known calls) :
    performAll? { pageCount } calls = some (ofCalls pageCount calls, nodesOf calls) := by
  have hall : (ofCalls pageCount []).performAll? calls = _ := performAll?_append h
  rw [nodesOf, List.range_eq_range']
  exact hall

end Bookmarks.Draft
