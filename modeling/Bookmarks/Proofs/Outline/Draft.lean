/-
# Drafts are trees

The entries added under a node of a draft are its `children`, in the order in which they were
added. The links of a draft follow these lists: to the first child, to the last one, and from a
child to the one after it. As every entry is in one of the lists, and just once, the outline of a
draft is a tree, and it always answers.
-/
import Bookmarks.Outline.Draft
import Bookmarks.Proofs.Page.Index
import Bookmarks.Proofs.Siblings
import Bookmarks.Proofs.Walk.Tree

namespace Bookmarks.Draft

/-- A draft put together by adding entries, each to an outline that was there before. -/
inductive Made : Draft → Prop where
  | new (pageCount : UInt32) : Made { pageCount }
  | entry {draft : Draft} {parent : Node} {title : String} {page : Option UInt32}
      {extended : Draft × Node} (hmade : Made draft)
      (hadd : draft.addEntry? parent title page = some extended) : Made extended.1
  | entryAt {draft : Draft} {parent : Node} {title : String} {page : Option UInt32}
      {destination : Destination} {extended : Draft × Node} (hmade : Made draft)
      (hadd : draft.add? parent title page (some destination) = some extended) : Made extended.1

variable {draft : Draft} {node entry : Node}

theorem add?_eq_some {parent : Node} {title : String} {page : Option UInt32}
    {destination : Option Destination} {extended : Draft × Node}
    (h : draft.add? parent title page destination = some extended) :
    extended.1 = { draft with items := draft.items.push ⟨parent, title, page, destination⟩ } := by
  unfold add? at h
  split at h
  · rw [← Option.some.inj h]
  · cases h

theorem Made.hasOutline (h : draft.Made) : draft.hasOutline = true := by
  induction h with
  | new _ => rfl
  | entry _ hadd ih => rw [add?_eq_some hadd]; exact ih
  | entryAt _ hadd ih => rw [add?_eq_some hadd]; exact ih

/-- An entry without a destination has no page. -/
theorem Made.page_eq_none (h : draft.Made) {item : Item} (hitem : item ∈ draft.items)
    (hdestination : item.destination = none) : item.page = none := by
  induction h with
  | new _ => exact absurd hitem (Array.not_mem_empty item)
  | entry _ hadd ih =>
      rw [add?_eq_some hadd, Array.mem_push] at hitem
      rcases hitem with hold | rfl
      · exact ih hold
      · exact Option.map_eq_none_iff.1 hdestination
  | entryAt _ hadd ih =>
      rw [add?_eq_some hadd, Array.mem_push] at hitem
      rcases hitem with hold | rfl
      · exact ih hold
      · cases hdestination

/-! ## Children -/

/-- The entries added under a node, in order. -/
def children (draft : Draft) (node : Node) : List Node :=
  ((List.range draft.size).filter (draft.isUnder node)).map nodeAt

theorem nodeAt_injective : Function.Injective nodeAt := by
  intro place other h
  exact Nat.succ.inj (congrArg Node.index h)

theorem item?_nodeAt (draft : Draft) (place : Nat) :
    draft.item? (nodeAt place) = draft.items[place]? :=
  if_neg (Nat.succ_ne_zero place)

/-- Whatever has an entry is at a place. -/
theorem exists_place {item : Item} (h : draft.item? entry = some item) :
    ∃ place < draft.size, entry = nodeAt place ∧ draft.items[place]? = some item := by
  unfold item? at h
  split at h
  · cases h
  · next hindex =>
    refine ⟨entry.index - 1, (Array.getElem?_eq_some_iff.1 h).1, ?_, h⟩
    rw [nodeAt, Nat.sub_add_cancel (Nat.pos_of_ne_zero hindex)]

theorem holds_of_item? {item : Item} (h : draft.item? entry = some item) : draft.Holds entry := by
  obtain ⟨place, hplace, rfl, -⟩ := exists_place h
  exact hplace

theorem mem_items {item : Item} (h : draft.item? entry = some item) : item ∈ draft.items := by
  obtain ⟨place, -, -, hget⟩ := exists_place h
  exact Array.mem_of_getElem? hget

theorem isUnder_eq_true {place : Nat} :
    draft.isUnder node place = true ↔ ∃ item, draft.items[place]? = some item ∧
      item.parent = node := by
  simp only [isUnder, Option.any_eq_true, decide_eq_true_eq]

theorem mem_children :
    entry ∈ draft.children node ↔ ∃ item, draft.item? entry = some item ∧ item.parent = node := by
  simp only [children, List.mem_map, List.mem_filter, List.mem_range, isUnder_eq_true]
  constructor
  · intro h
    obtain ⟨place, ⟨-, item, hitem, hparent⟩, rfl⟩ := h
    exact ⟨item, (item?_nodeAt draft place).trans hitem, hparent⟩
  · intro h
    obtain ⟨item, hitem, hparent⟩ := h
    obtain ⟨place, hplace, rfl, hget⟩ := exists_place hitem
    exact ⟨place, ⟨hplace, item, hget, hparent⟩, rfl⟩

theorem nodup_children (draft : Draft) (node : Node) : (draft.children node).Nodup :=
  (List.nodup_range.filter _).map nodeAt_injective

/-! ## Links -/

theorem first?_eq_head? (draft : Draft) (node : Node) :
    draft.first? node = (draft.children node).head? := by
  rw [children, List.head?_map, List.head?_filter, first?]

theorem last?_eq_getLast? (draft : Draft) (node : Node) :
    draft.last? node = (draft.children node).getLast? := by
  rw [children, List.getLast?_map, List.getLast?_filter, last?]

/-- The children of a node before and after one of them. -/
theorem children_split {place : Nat} (hplace : place < draft.size)
    (hunder : draft.isUnder node place = true) :
    draft.children node =
      ((List.range' 0 place).filter (draft.isUnder node)).map nodeAt ++ nodeAt place ::
        ((List.range' (place + 1) (draft.size - (place + 1))).filter (draft.isUnder node)).map
          nodeAt := by
  have hrange : List.range draft.size = List.range' 0 place ++ place ::
      List.range' (place + 1) (draft.size - (place + 1)) := by
    have hsize : draft.size = place + (draft.size - (place + 1) + 1) := by omega
    have hsplit : List.range' 0 place ++ List.range' (0 + place) (draft.size - (place + 1) + 1) =
        List.range' 0 (place + (draft.size - (place + 1) + 1)) := List.range'_append_1
    rw [← hsize, Nat.zero_add, List.range'_succ] at hsplit
    exact List.range_eq_range'.trans hsplit.symm
  rw [children, hrange, List.filter_append, List.filter_cons_of_pos hunder, List.map_append,
    List.map_cons]

theorem next?_eq_successor? (draft : Draft) (node : Node) :
    draft.next? node =
      (draft.item? node).bind fun item => successor? node (draft.children item.parent) := by
  unfold next?
  cases hitem : draft.item? node with
  | none => rfl
  | some item =>
      obtain ⟨place, hplace, rfl, hget⟩ := exists_place hitem
      have hunder := isUnder_eq_true.2 ⟨item, hget, rfl⟩
      have hearlier : nodeAt place ∉
          ((List.range' 0 place).filter (draft.isUnder item.parent)).map nodeAt := by
        rw [List.mem_map_of_injective nodeAt_injective]
        intro hmem
        have hrange := List.mem_range'_1.1 (List.mem_filter.1 hmem).1
        omega
      rw [Option.bind_some, children_split hplace hunder, successor?_append hearlier,
        List.head?_map, List.head?_filter]
      rfl

/-! ## Pages -/

theorem length_pages (draft : Draft) : draft.pages.length = draft.pageCount.toNat := by
  rw [pages, List.length_map, List.length_range]

theorem getElem?_pages {place : Nat} (h : place < draft.pageCount.toNat) :
    draft.pages[place]? = some (UInt32.ofNat (place + 1)) := by
  rw [pages, List.getElem?_map, List.getElem?_range h]
  rfl

/-- The number of a page is small enough to be kept. -/
theorem toNat_page {place : Nat} (h : place < draft.pageCount.toNat) :
    (UInt32.ofNat (place + 1)).toNat = place + 1 := by
  have hcount := draft.pageCount.toNat_lt
  exact Nat.mod_eq_of_lt (by omega)

theorem nodup_pages (draft : Draft) : draft.pages.Nodup := by
  apply List.Nodup.map_on _ List.nodup_range
  intro place hplace other hother h
  have hnumber := congrArg UInt32.toNat h
  rw [toNat_page (List.mem_range.1 hplace), toNat_page (List.mem_range.1 hother)] at hnumber
  exact Nat.succ.inj hnumber

/-- A page of a draft has its own number, if the document has so many pages. -/
theorem scanPages_pages (draft : Draft) (page : UInt32) :
    scanPages draft.pages page =
      if 1 ≤ page.toNat ∧ page.toNat ≤ draft.pageCount.toNat then some page.toNat else none := by
  split
  · next hrange =>
    have hplace : page.toNat - 1 < draft.pageCount.toNat := by omega
    have hpage := getElem?_pages hplace
    rw [Nat.sub_add_cancel hrange.1, UInt32.ofNat_toNat] at hpage
    rw [scanPages_getElem (nodup_pages draft) hpage, Nat.sub_add_cancel hrange.1]
  · next hrange =>
    apply scanPages_eq_none_iff.2
    intro hmem
    obtain ⟨place, hplace, rfl⟩ := List.mem_map.1 hmem
    rw [toNat_page (List.mem_range.1 hplace)] at hrange
    exact hrange ⟨Nat.succ_pos place, List.mem_range.1 hplace⟩

/-! ## The tree -/

theorem toOutline_first (h : draft.Holds node) :
    draft.toOutline.first node = .ok (draft.children node).head? := by
  rw [← first?_eq_head?]
  exact if_pos h

theorem toOutline_last (h : draft.Holds node) :
    draft.toOutline.last node = .ok (draft.children node).getLast? := by
  rw [← last?_eq_getLast?]
  exact if_pos h

theorem toOutline_next {item : Item} (h : draft.item? node = some item) :
    draft.toOutline.next node = .ok (successor? node (draft.children item.parent)) := by
  have hnext := next?_eq_successor? draft node
  rw [h, Option.bind_some] at hnext
  rw [← hnext]
  exact if_pos (holds_of_item? h)

theorem toOutline_title {item : Item} (h : draft.item? node = some item) :
    draft.toOutline.title node = .ok item.title := by
  have htitle : draft.toOutline.title node = .ok ((draft.item? node).elim "" Item.title) :=
    if_pos (holds_of_item? h)
  rw [htitle, h, Option.elim_some]

theorem result_destination {item : Item} (h : draft.item? node = some item) :
    (draft.toOutline.destination node).result = .ok item.destination := by
  have hdestination : (draft.toOutline.destination node).result =
      .ok ((draft.item? node).bind Item.destination) := if_pos (holds_of_item? h)
  rw [hdestination, h, Option.bind_some]

theorem result_page {item : Item} (h : draft.item? node = some item) :
    (draft.toOutline.page node).result = .ok item.page := by
  have hpage : (draft.toOutline.page node).result = .ok ((draft.item? node).bind Item.page) :=
    if_pos (holds_of_item? h)
  rw [hpage, h, Option.bind_some]

theorem holds_root (draft : Draft) : draft.Holds ⟨0⟩ :=
  Nat.zero_le _

theorem mem_children_of_first (h : draft.toOutline.first node = .ok (some entry)) :
    entry ∈ draft.children node := by
  have hfirst := answer_eq_ok h
  rw [first?_eq_head?] at hfirst
  exact List.mem_of_head? hfirst

theorem next_eq_some (h : draft.toOutline.next node = .ok (some entry)) :
    ∃ item, draft.item? node = some item ∧
      successor? node (draft.children item.parent) = some entry := by
  have hnext := answer_eq_ok h
  rw [next?_eq_successor?] at hnext
  exact Option.bind_eq_some_iff.1 hnext

theorem exists_item_of_reachable (h : draft.toOutline.Reachable ⟨0⟩ entry) :
    ∃ item, draft.item? entry = some item := by
  have hchild : ∃ node, entry ∈ draft.children node := by
    obtain ⟨level, h⟩ := h
    cases h with
    | top hfirst => exact ⟨_, mem_children_of_first hfirst⟩
    | under _ hfirst => exact ⟨_, mem_children_of_first hfirst⟩
    | beside _ hnext =>
        obtain ⟨item, -, hsuccessor⟩ := next_eq_some hnext
        exact ⟨_, List.mem_of_mem_tail (mem_tail_of_successor? hsuccessor)⟩
  obtain ⟨node, hchild⟩ := hchild
  obtain ⟨item, hitem, -⟩ := mem_children.1 hchild
  exact ⟨item, hitem⟩

theorem holds_of_reachable (h : node = ⟨0⟩ ∨ draft.toOutline.Reachable ⟨0⟩ node) :
    draft.Holds node := by
  rcases h with rfl | h
  · exact holds_root draft
  · obtain ⟨item, hitem⟩ := exists_item_of_reachable h
    exact holds_of_item? hitem

theorem toOutline_answers (draft : Draft) : draft.toOutline.Answers ⟨0⟩ where
  pages := ⟨_, rfl⟩
  title h := ⟨_, if_pos (holds_of_reachable (Or.inr h))⟩
  destination h := ⟨_, if_pos (holds_of_reachable (Or.inr h))⟩
  page h := ⟨_, if_pos (holds_of_reachable (Or.inr h))⟩
  first h herror :=
    absurd herror (Outline.ne_error_of_intact ⟨_, toOutline_first (holds_of_reachable h)⟩)
  last h herror :=
    absurd herror (Outline.ne_error_of_intact ⟨_, toOutline_last (holds_of_reachable h)⟩)
  next h herror := by
    obtain ⟨item, hitem⟩ := exists_item_of_reachable h
    exact absurd herror (Outline.ne_error_of_intact ⟨_, toOutline_next hitem⟩)

theorem ne_root_of_item? {item : Item} (h : draft.item? entry = some item) : entry ≠ ⟨0⟩ := by
  intro hroot
  subst hroot
  cases h

/-- A link leads to a child of the node that it belongs to or to a child of the same node. -/
theorem link_target {link : Outline.Link Node} (hlive : link.Live draft.toOutline ⟨0⟩)
    (h : link.target draft.toOutline ⟨0⟩ = .ok (some entry)) :
    ∃ above, entry ∈ draft.children above ∧
      (link = .top ∧ above = ⟨0⟩ ∧ (draft.children above).head? = some entry ∨
        link = .first above ∧ above ≠ ⟨0⟩ ∧ (draft.children above).head? = some entry ∨
        ∃ previous, link = .next previous ∧
          successor? previous (draft.children above) = some entry) := by
  have hfirst : ∀ {node}, draft.toOutline.first node = .ok (some entry) →
      (draft.children node).head? = some entry := by
    intro node hnode
    rw [← first?_eq_head?]
    exact answer_eq_ok hnode
  cases link with
  | top =>
      have hhead := hfirst h
      exact ⟨⟨0⟩, List.mem_of_head? hhead, Or.inl ⟨rfl, rfl, hhead⟩⟩
  | first above =>
      have hhead := hfirst h
      obtain ⟨item, hitem⟩ := exists_item_of_reachable hlive
      exact ⟨above, List.mem_of_head? hhead, Or.inr (Or.inl ⟨rfl, ne_root_of_item? hitem, hhead⟩)⟩
  | next previous =>
      obtain ⟨item, -, hsuccessor⟩ := next_eq_some h
      exact ⟨item.parent, List.mem_of_mem_tail (mem_tail_of_successor? hsuccessor),
        Or.inr (Or.inr ⟨previous, rfl, hsuccessor⟩)⟩

/-- A single link leads to each entry. -/
theorem link_inj {first second : Outline.Link Node} (hfirst : first.Live draft.toOutline ⟨0⟩)
    (hsecond : second.Live draft.toOutline ⟨0⟩)
    (hfirstTarget : first.target draft.toOutline ⟨0⟩ = .ok (some entry))
    (hsecondTarget : second.target draft.toOutline ⟨0⟩ = .ok (some entry)) : first = second := by
  obtain ⟨above, habove, hfirst⟩ := link_target hfirst hfirstTarget
  obtain ⟨above', habove', hsecond⟩ := link_target hsecond hsecondTarget
  obtain rfl : above = above' := by
    obtain ⟨item, hitem, rfl⟩ := mem_children.1 habove
    obtain ⟨item', hitem', rfl⟩ := mem_children.1 habove'
    rw [Option.some.inj (hitem.symm.trans hitem')]
  have hnodup := nodup_children draft above
  rcases hfirst with ⟨rfl, hroot, hhead⟩ | ⟨rfl, hroot, hhead⟩ | ⟨previous, rfl, hprevious⟩ <;>
    rcases hsecond with ⟨rfl, hroot', hhead'⟩ | ⟨rfl, hroot', hhead'⟩ | ⟨other, rfl, hother⟩
  · rfl
  · exact absurd hroot hroot'
  · exact absurd hother (successor?_ne_head? hnodup hhead)
  · exact absurd hroot' hroot
  · rfl
  · exact absurd hother (successor?_ne_head? hnodup hhead)
  · exact absurd hprevious (successor?_ne_head? hnodup hhead')
  · exact absurd hprevious (successor?_ne_head? hnodup hhead')
  · rw [successor?_inj hnodup hprevious hother]

/-- The outline of a draft is a tree. -/
theorem isTree (draft : Draft) : draft.toOutline.IsTree ⟨0⟩ where
  first_intact h := ⟨_, toOutline_first (holds_of_reachable h)⟩
  last_intact h := ⟨_, toOutline_last (holds_of_reachable h)⟩
  next_intact h := by
    obtain ⟨item, hitem⟩ := exists_item_of_reachable h
    exact ⟨_, toOutline_next hitem⟩
  root_unreachable h := by
    obtain ⟨item, hitem⟩ := exists_item_of_reachable h
    exact ne_root_of_item? hitem rfl
  unique h := h.unique_link fun _ _ => link_inj

end Bookmarks.Draft
