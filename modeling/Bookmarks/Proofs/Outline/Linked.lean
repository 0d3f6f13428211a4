/-
# Linked drafts are drafts

The lists of children in a linked draft hold what a search of the entries by their parents finds.
`Consistent` says so, and an entry that is added keeps it. So a linked draft describes the same
outline as the draft that is left of it without its lists (`toOutline_eq`), and is read alike
(`Consistent.read_outline`); adding an entry to the one is adding it to the other
(`Consistent.push`, `draft_push`).
-/
import Bookmarks.Outline.LinkedDraft
import Bookmarks.Proofs.Outline.Calls
import Bookmarks.Proofs.Walk.Trace

namespace Bookmarks

/-- The place behind the first place of an element is that of its successor. -/
theorem bind_idxOf?_eq_successor? {α : Type} [DecidableEq α] (element : α) (elements : Array α) :
    ((elements.idxOf? element).bind fun place => elements[place + 1]?) =
      successor? element elements.toList := by
  obtain ⟨elements⟩ := elements
  simp only [List.idxOf?_toArray, List.getElem?_toArray]
  induction elements with
  | nil => rfl
  | cons first rest ih =>
      rw [List.idxOf?_cons, successor?]
      by_cases h : first = element
      · rw [if_pos h, if_pos (beq_iff_eq.2 h), Option.bind_some, List.getElem?_cons_succ,
          List.head?_eq_getElem?]
      · rw [if_neg h, if_neg (mt beq_iff_eq.1 h), Option.bind_map, ← ih]
        rfl

namespace LinkedDraft

open Draft (Node Item nodeAt)

/-- An entry without the list of its children. -/
def Entry.item (entry : Entry) : Item where
  parent := entry.parent.getD ⟨0⟩
  title := entry.title
  page := entry.page
  destination := entry.destination

/-- What is left of a linked draft without its lists of children. -/
def draft (linked : LinkedDraft) : Draft where
  pageCount := linked.pageCount
  hasOutline := linked.hasOutline
  items := (linked.entries.toList.tail.map Entry.item).toArray

/-- The root has no parent and nothing to say, every other node was added under an earlier one, and
the lists of children are those that the parents of the entries give. -/
structure Consistent (linked : LinkedDraft) : Prop where
  root : ∃ children, linked.entries[0]? = some ⟨"", none, none, none, children⟩
  parent : ∀ {place entry}, linked.entries[place + 1]? = some entry →
    ∃ above, entry.parent = some above ∧ above.index ≤ place
  children_eq : ∀ {node entry}, linked.entries[node.index]? = some entry →
    entry.children.toList = linked.draft.children node

variable {linked : LinkedDraft} {node above : Node} {entry other : Entry}

/-! ## Entries and items -/

theorem getElem?_items_draft (linked : LinkedDraft) (place : Nat) :
    linked.draft.items[place]? = (linked.entries[place + 1]?).map Entry.item := by
  rw [draft, List.getElem?_toArray, List.getElem?_map, List.getElem?_tail, Array.getElem?_toList]

theorem size_draft (linked : LinkedDraft) : linked.draft.size = linked.size := by
  rw [Draft.size, draft, List.size_toArray, List.length_map, List.length_tail, Array.length_toList,
    size]

namespace Consistent

theorem size_entries (h : linked.Consistent) : linked.entries.size = linked.draft.size + 1 := by
  obtain ⟨children, hroot⟩ := h.root
  have hsize := (Array.getElem?_eq_some_iff.1 hroot).1
  rw [size_draft, size]
  omega

theorem holds_iff (h : linked.Consistent) :
    linked.draft.Holds node ↔ node.index < linked.entries.size := by
  rw [Draft.Holds, h.size_entries, Nat.lt_succ_iff]

/-- The node of an entry is the root, or there is an item for it. -/
theorem item?_eq (h : linked.Consistent) (hentry : linked.entries[node.index]? = some entry) :
    (∃ children, entry = ⟨"", none, none, none, children⟩) ∧ linked.draft.item? node = none ∨
      (∃ parent, entry.parent = some parent) ∧ linked.draft.item? node = some entry.item := by
  obtain ⟨index⟩ := node
  cases index with
  | zero =>
      obtain ⟨children, hroot⟩ := h.root
      exact Or.inl ⟨⟨children, Option.some.inj (hentry.symm.trans hroot)⟩, rfl⟩
  | succ place =>
      obtain ⟨parent, hparent, -⟩ := h.parent hentry
      refine Or.inr ⟨⟨parent, hparent⟩, ?_⟩
      have hitem := Draft.item?_nodeAt linked.draft place
      rw [getElem?_items_draft, hentry] at hitem
      exact hitem

end Consistent

/-! ## One more entry -/

theorem getElem?_push (index : Nat) :
    (linked.push above entry).entries[index]? =
      if above.index = index then
        ((linked.entries.push entry)[index]?).map fun other =>
          { other with children := other.children.push ⟨linked.entries.size⟩ }
      else (linked.entries.push entry)[index]? := by
  rw [push, Array.getElem?_modify]

/-- Leaving the lists out, an entry that is added is one more item. -/
theorem draft_push (h : linked.Consistent) :
    (linked.push above entry).draft = linked.draft.push entry.item := by
  have hitems : (linked.push above entry).draft.items = linked.draft.items.push entry.item := by
    apply Array.ext_getElem?
    intro place
    have hpush : (linked.push above entry).draft.items[place]? =
        ((linked.entries.push entry)[place + 1]?).map Entry.item := by
      rw [getElem?_items_draft, getElem?_push]
      split
      · rw [Option.map_map]
        rfl
      · rfl
    have hsize : linked.draft.items.size = linked.draft.size := rfl
    rw [hpush, Array.getElem?_push, Array.getElem?_push, getElem?_items_draft, h.size_entries,
      hsize]
    by_cases hplace : place = linked.draft.size
    · rw [if_pos hplace, if_pos (congrArg (· + 1) hplace)]
      rfl
    · rw [if_neg hplace, if_neg (mt Nat.succ.inj hplace)]
  rw [Draft.push, ← hitems]
  rfl

/-- No entry has been added under the node that is to come. -/
theorem Consistent.children_eq_nil (h : linked.Consistent) :
    linked.draft.children ⟨linked.entries.size⟩ = [] := by
  apply List.eq_nil_iff_forall_not_mem.2
  intro child hchild
  obtain ⟨item, hitem, hparent⟩ := Draft.mem_children.1 hchild
  obtain ⟨place, hplace, -, hget⟩ := Draft.exists_place hitem
  rw [getElem?_items_draft, Option.map_eq_some_iff] at hget
  obtain ⟨entry, hentry, rfl⟩ := hget
  obtain ⟨above, habove, hlt⟩ := h.parent hentry
  have hindex : above.index = linked.entries.size := by
    rw [Entry.item, habove] at hparent
    exact congrArg Node.index hparent
  have hsize := h.size_entries
  omega

/-- An entry that is added under a node that is there keeps the lists right. -/
theorem Consistent.push (h : linked.Consistent) (habove : above.index < linked.entries.size)
    (hparent : entry.parent = some above) (hchildren : entry.children = #[]) :
    (linked.push above entry).Consistent := by
  have hnew : nodeAt linked.draft.size = ⟨linked.entries.size⟩ := by
    rw [h.size_entries]
    rfl
  have hitem : entry.item.parent = above := by rw [Entry.item, hparent, Option.getD_some]
  have hdraft : ∀ node, (linked.push above entry).draft.children node =
      linked.draft.children node ++ if above = node then [⟨linked.entries.size⟩] else [] := by
    intro node
    rw [draft_push h, Draft.children_push, hitem, hnew]
  refine ⟨?root, ?parent, ?children⟩
  case root =>
    obtain ⟨children, hroot⟩ := h.root
    have hpos := (Array.getElem?_eq_some_iff.1 hroot).1
    rw [getElem?_push, Array.getElem?_push, if_neg (Nat.ne_of_lt hpos), hroot]
    split
    · exact ⟨_, rfl⟩
    · exact ⟨_, rfl⟩
  case parent =>
    intro place other hother
    -- Only lists of children change where the entry is appended.
    have hsame : ∃ found, (linked.entries.push entry)[place + 1]? = some found ∧
        found.parent = other.parent := by
      rw [getElem?_push] at hother
      split at hother
      · obtain ⟨found, hfound, rfl⟩ := Option.map_eq_some_iff.1 hother
        exact ⟨found, hfound, rfl⟩
      · exact ⟨other, hother, rfl⟩
    obtain ⟨found, hfound, hsame⟩ := hsame
    rw [← hsame]
    rw [Array.getElem?_push] at hfound
    split at hfound
    · cases hfound
      exact ⟨above, hparent, by omega⟩
    · exact h.parent hfound
  case children =>
    intro node other hother
    rw [hdraft]
    rw [getElem?_push, Array.getElem?_push] at hother
    by_cases hindex : node.index = linked.entries.size
    · have hne : above.index ≠ node.index := by omega
      obtain rfl : node = ⟨linked.entries.size⟩ := congrArg Node.mk hindex
      rw [if_neg hne, if_pos rfl] at hother
      cases hother
      rw [h.children_eq_nil, hchildren, if_neg fun heq => hne (congrArg Node.index heq)]
      rfl
    · rw [if_neg hindex] at hother
      by_cases hsame : above = node
      · obtain rfl := hsame
        rw [if_pos rfl] at hother
        obtain ⟨found, hfound, rfl⟩ := Option.map_eq_some_iff.1 hother
        rw [if_pos rfl, ← h.children_eq hfound, Array.toList_push]
      · rw [if_neg fun heq => hsame (congrArg Node.mk heq)] at hother
        rw [if_neg hsame, List.append_nil, h.children_eq hother]

theorem consistent_empty (pageCount : UInt32) (hasOutline : Bool) :
    (empty pageCount hasOutline).Consistent where
  root := ⟨_, rfl⟩
  parent h := by cases h
  children_eq {node entry} h := by
    obtain ⟨index⟩ := node
    cases index with
    | zero => cases h; rfl
    | succ place => cases h

/-! ## The same outline -/

/-- What is kept for a node answers like a draft that holds the same value. -/
theorem Consistent.map_entry (h : linked.Consistent) {α : Type} {f : Entry → α} {value : α}
    (hvalue : ∀ entry, linked.entries[node.index]? = some entry → f entry = value) :
    (linked.entry node).map f = linked.draft.answer node value := by
  by_cases hnode : node.index < linked.entries.size
  · have hentry := Array.getElem?_eq_getElem hnode
    rw [linked.entry_eq_ok.2 hentry, Draft.answer, if_pos (h.holds_iff.2 hnode),
      ← hvalue _ hentry]
    rfl
  · have hentry := Array.getElem?_eq_none (Nat.le_of_not_lt hnode)
    rw [LinkedDraft.entry, hentry, Draft.answer, if_neg (mt h.holds_iff.1 hnode)]
    rfl

theorem Consistent.children_draft (h : linked.Consistent)
    (hnode : node.index < linked.entries.size) :
    (linked.children node).toList = linked.draft.children node := by
  have hentry := Array.getElem?_eq_getElem hnode
  rw [children, hentry, Option.elim_some, h.children_eq hentry]

/-- What an entry says by itself is what its item says. -/
theorem Consistent.map_entry_item (h : linked.Consistent) {α : Type} {f : Entry → α}
    (g : Option Item → α) (hroot : ∀ children, f ⟨"", none, none, none, children⟩ = g none)
    (hadded : ∀ entry, f entry = g (some entry.item)) (node : Node) :
    (linked.entry node).map f = linked.draft.answer node (g (linked.draft.item? node)) := by
  refine h.map_entry fun entry hentry => ?_
  rcases h.item?_eq hentry with ⟨⟨children, rfl⟩, hitem⟩ | ⟨-, hitem⟩
  · rw [hitem, hroot]
  · rw [hitem, hadded]

/-- The child behind a child is the one that a draft has next. -/
theorem Consistent.next_eq (h : linked.Consistent)
    (hentry : linked.entries[node.index]? = some entry) :
    (do
      let siblings := linked.children (← entry.parent)
      let place ← siblings.idxOf? node
      siblings[place + 1]?) = linked.draft.next? node := by
  rw [Draft.next?_eq_successor?]
  rcases h.item?_eq hentry with ⟨⟨children, rfl⟩, hitem⟩ | ⟨⟨parent, hparent⟩, hitem⟩
  · rw [hitem]
    rfl
  · obtain ⟨index⟩ := node
    cases index with
    | zero => cases hitem
    | succ place =>
        obtain ⟨above, habove, hle⟩ := h.parent hentry
        have hsize := (Array.getElem?_eq_some_iff.1 hentry).1
        have hchildren := h.children_draft (show above.index < _ by simp only at hsize; omega)
        rw [hitem, Option.bind_some, Entry.item, habove, Option.getD_some, ← hchildren,
          ← bind_idxOf?_eq_successor?]
        rfl

/-- A consistent linked draft describes the outline of the draft without its lists. -/
theorem toOutline_eq (h : linked.Consistent) : linked.toOutline = linked.draft.toOutline := by
  have hfirst : linked.first = fun node => linked.draft.answer node (linked.draft.first? node) := by
    funext node
    refine h.map_entry fun entry hentry => ?_
    rw [Draft.first?_eq_head?, ← h.children_eq hentry, List.head?_eq_getElem?,
      Array.getElem?_toList]
  have hlast : linked.last = fun node => linked.draft.answer node (linked.draft.last? node) := by
    funext node
    refine h.map_entry fun entry hentry => ?_
    rw [Draft.last?_eq_getLast?, ← h.children_eq hentry, Array.getLast?_toList]
  have hnext : linked.next = fun node => linked.draft.answer node (linked.draft.next? node) := by
    funext node
    exact h.map_entry fun entry hentry => h.next_eq hentry
  have htitle : ∀ node, (linked.entry node).map Entry.title =
      linked.draft.answer node ((linked.draft.item? node).elim "" Item.title) :=
    h.map_entry_item (fun item => item.elim "" Item.title) (fun _ => rfl) fun _ => rfl
  have hdestination : ∀ node, (linked.entry node).map Entry.destination =
      linked.draft.answer node ((linked.draft.item? node).bind Item.destination) :=
    h.map_entry_item (fun item => item.bind Item.destination) (fun _ => rfl) fun _ => rfl
  have hpage : ∀ node, (linked.entry node).map Entry.page =
      linked.draft.answer node ((linked.draft.item? node).bind Item.page) :=
    h.map_entry_item (fun item => item.bind Item.page) (fun _ => rfl) fun _ => rfl
  simp only [toOutline, Draft.toOutline, hfirst, hlast, hnext, htitle, hdestination, hpage]
  rfl

/-- A linked draft is read as the draft that is left of it. -/
theorem Consistent.read_outline (h : linked.Consistent) (settings : Settings) :
    linked.outline.read settings = linked.draft.outline.read settings :=
  FiniteOutline.read_eq_of_toOutline (toOutline_eq h) settings

end LinkedDraft

end Bookmarks
