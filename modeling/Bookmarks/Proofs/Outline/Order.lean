/-
# Calls in another order

The calls that make a draft can come in many orders: an entry can be added as soon as its parent is
there, and how the entries of one branch are mixed with those of another makes no difference to the
forest that is described. It makes a difference to the draft, where every entry has another number
and stands in another place. Reading the draft does not tell: if the calls of two lists add the same
entries under corresponding parents, and siblings in the same order, the same table of contents is
read from both drafts, or both are too deep for the reader (`Rearranges.read_congr`).
-/
import Bookmarks.Proofs.Outline.Calls
import Bookmarks.Proofs.Walk.Renaming
import Mathlib.Data.List.Sort
import Mathlib.Logic.Equiv.Defs

namespace Bookmarks.Draft

/-! ## What calls leave behind -/

theorem perform?_eq_some {draft : Draft} {call : Call} {extended : Draft × Node}
    (h : draft.perform? call = some extended) : extended.1 = draft.push call.item := by
  obtain ⟨parent, title, page, destination⟩ := call
  cases destination with
  | none => exact add?_eq_some h
  | some destination => exact add?_eq_some h

/-- Calls that succeed add their entries one after another, and change nothing else. -/
theorem performAll?_eq_some {draft extended : Draft} {calls : List Call} {nodes : List Node}
    (h : draft.performAll? calls = some (extended, nodes)) :
    extended = { draft with items := draft.items ++ (calls.map Call.item).toArray } := by
  induction calls generalizing draft nodes with
  | nil =>
      cases h
      simp
  | cons call calls ih =>
      obtain ⟨⟨next, node⟩, hnext, hrest⟩ := Option.bind_eq_some_iff.1 h
      obtain ⟨⟨last, rest⟩, hlast, heq⟩ := Option.bind_eq_some_iff.1 hrest
      cases heq
      have hpush : next = draft.push call.item := perform?_eq_some hnext
      rw [ih hlast, hpush, push]
      simp

theorem read_of_no_outline {draft : Draft} {settings : Settings} (h : draft.hasOutline = false) :
    (draft.outline.read settings).result = .ok (draft.outline.contentsOf settings .nil) := by
  refine FiniteOutline.read_eq_ok.2 ⟨.nil, .bare ?_, rfl⟩
  exact congrArg Except.ok (if_neg (ne_true_of_eq_false h))

/-! ## Entries that go to other places -/

variable {σ : Equiv.Perm Nat}

/-- The node that corresponds to a node if every entry goes to the place that `σ` names. -/
def Node.moved (σ : Equiv.Perm Nat) : Node → Node
  | ⟨0⟩ => ⟨0⟩
  | ⟨place + 1⟩ => nodeAt (σ place)

/-- An entry under the node that corresponds to its parent. -/
def Item.moved (σ : Equiv.Perm Nat) (item : Item) : Item :=
  { item with parent := item.parent.moved σ }

/-- The entries of the second list are those of the first, each at the place that `σ` names: the
same title, page and destination, under corresponding parents, with siblings in the same order. -/
structure Rearranges (σ : Equiv.Perm Nat) (items items' : List Item) : Prop where
  item_eq : ∀ place, items'[σ place]? = items[place]?.map (Item.moved σ)
  order : ∀ {place later item other}, items[place]? = some item → items[later]? = some other →
    item.parent = other.parent → place < later → σ place < σ later

@[simp] theorem moved_nodeAt (place : Nat) : (nodeAt place).moved σ = nodeAt (σ place) := rfl

theorem moved_injective : (Node.moved σ).Injective := by
  intro node other h
  obtain ⟨_ | place⟩ := node <;> obtain ⟨_ | place'⟩ := other
  · rfl
  · cases h
  · cases h
  · have hplace : place = place' := σ.injective (nodeAt_injective h)
    rw [hplace]

theorem exists_moved_eq (node : Node) : ∃ other, Node.moved σ other = node := by
  obtain ⟨_ | place⟩ := node
  · exact ⟨⟨0⟩, rfl⟩
  · refine ⟨nodeAt (σ.symm place), ?_⟩
    rw [moved_nodeAt, σ.apply_symm_apply]
    rfl

/-! ## Drafts with the same entries in other places -/

section Moved

variable {draft draft' : Draft} (h : Rearranges σ draft.items.toList draft'.items.toList)
include h

theorem item?_moved (node : Node) :
    draft'.item? (node.moved σ) = (draft.item? node).map (Item.moved σ) := by
  obtain ⟨_ | place⟩ := node
  · rfl
  · have hplace := h.item_eq place
    rw [Array.getElem?_toList, Array.getElem?_toList] at hplace
    have hnode : draft.item? ⟨place + 1⟩ = draft.items[place]? := item?_nodeAt draft place
    rw [hnode, ← hplace]
    exact item?_nodeAt draft' (σ place)

theorem holds_moved (node : Node) : draft'.Holds (node.moved σ) ↔ draft.Holds node := by
  obtain ⟨_ | place⟩ := node
  · exact iff_of_true (Nat.zero_le _) (Nat.zero_le _)
  · have hnone : draft'.items.toList[σ place]? = none ↔ draft.items.toList[place]? = none := by
      rw [h.item_eq, Option.map_eq_none_iff]
    rw [List.getElem?_eq_none_iff, List.getElem?_eq_none_iff] at hnone
    exact lt_iff_lt_of_le_iff_le hnone

/-- The children of a node are moved in their order. -/
theorem children_moved (node : Node) :
    draft'.children (node.moved σ) = (draft.children node).map (Node.moved σ) := by
  have hsorted (draft : Draft) (node : Node) :
      (draft.children node).Pairwise fun earlier later => earlier.index < later.index := by
    refine List.pairwise_map.2 ((List.pairwise_lt_range.filter _).imp ?_)
    exact fun hlt => Nat.succ_lt_succ hlt
  have hmoved : ((draft.children node).map (Node.moved σ)).Pairwise
      fun earlier later => earlier.index < later.index := by
    refine List.pairwise_map.2 ((hsorted draft node).imp_of_mem ?_)
    intro earlier later hearlier hlater hlt
    obtain ⟨item, hitem, hparent⟩ := mem_children.1 hearlier
    obtain ⟨other, hother, hparent'⟩ := mem_children.1 hlater
    obtain ⟨place, -, rfl, hget⟩ := exists_place hitem
    obtain ⟨place', -, rfl, hget'⟩ := exists_place hother
    rw [← Array.getElem?_toList] at hget hget'
    exact Nat.succ_lt_succ
      (h.order hget hget' (hparent.trans hparent'.symm) (Nat.lt_of_succ_lt_succ hlt))
  have hmem (entry : Node) : entry ∈ draft'.children (node.moved σ) ↔
      entry ∈ (draft.children node).map (Node.moved σ) := by
    obtain ⟨entry, rfl⟩ := exists_moved_eq (σ := σ) entry
    rw [List.mem_map_of_injective moved_injective, mem_children, mem_children, item?_moved h]
    simp [Item.moved, moved_injective.eq_iff]
  have : Std.Irrefl fun earlier later : Node => earlier.index < later.index :=
    ⟨fun _ => Nat.lt_irrefl _⟩
  have : Std.Antisymm fun earlier later : Node => earlier.index < later.index :=
    ⟨fun _ _ hlt hgt => absurd hgt (Nat.lt_asymm hlt)⟩
  exact (hsorted draft' _).eq_of_mem_iff hmoved hmem

theorem sameAnswer_moved {α β : Type} {S : α → β → Prop} (node : Node) {value : α} {other : β}
    (hvalue : S value other) :
    SameAnswer S (draft.answer node value) (draft'.answer (node.moved σ) other) := by
  rw [answer, answer]
  by_cases hholds : draft.Holds node
  · rw [if_pos hholds, if_pos ((holds_moved h node).2 hholds)]
    exact .ok hvalue
  · rw [if_neg hholds, if_neg (mt (holds_moved h node).1 hholds)]
    exact .error rfl

/-- The outlines of the two drafts differ in the names of their nodes. -/
theorem renames_moved (hcount : draft.pageCount = draft'.pageCount)
    (houtline : draft.hasOutline = draft'.hasOutline) :
    draft.toOutline.Renames (Node.moved σ) id draft'.toOutline where
  pageCount_eq := hcount
  root_eq := by
    refine .ok ?_
    rw [← houtline]
    cases draft.hasOutline <;> rfl
  pages_eq := by
    refine .ok ?_
    rw [List.map_id, pages, pages, hcount]
  first_eq node := by
    refine sameAnswer_moved h node ?_
    rw [first?_eq_head?, first?_eq_head?, children_moved h, List.head?_map]
  last_eq node := by
    refine sameAnswer_moved h node ?_
    rw [last?_eq_getLast?, last?_eq_getLast?, children_moved h, List.getLast?_map]
  next_eq node := by
    refine sameAnswer_moved h node ?_
    rw [next?_eq_successor?, next?_eq_successor?, item?_moved h]
    cases draft.item? node with
    | none => rfl
    | some item =>
        simp only [Option.map_some, Option.bind_some]
        rw [Item.moved, children_moved h, successor?_map moved_injective]
  title_eq node := by
    refine sameAnswer_moved h node ?_
    rw [item?_moved h]
    cases draft.item? node <;> rfl
  destination_eq node := by
    refine sameAnswer_moved h node ?_
    rw [item?_moved h]
    cases draft.item? node <;> rfl
  page_eq node := by
    refine sameAnswer_moved h node ?_
    rw [item?_moved h]
    cases draft.item? node with
    | none => rfl
    | some item => exact congrFun Option.map_id _

theorem alikeFrom_moved (hcount : draft.pageCount = draft'.pageCount)
    (houtline : draft.hasOutline = true) (houtline' : draft'.hasOutline = true) :
    Outline.AlikeFrom (Node.moved σ · = ·) draft.toOutline ⟨0⟩ draft.pages draft'.toOutline ⟨0⟩
      draft'.pages where
  toAlike := by
    refine (renames_moved h hcount (houtline.trans houtline'.symm)).alike moved_injective ?_
    intro page
    rw [pages, pages, hcount]
    rfl
  root_eq := congrArg Except.ok (if_pos houtline)
  root_eq' := congrArg Except.ok (if_pos houtline')
  pages_eq := rfl
  pages_eq' := rfl
  first_root := ((renames_moved h hcount (houtline.trans houtline'.symm)).first_eq ⟨0⟩).mono
    Outline.optionRel_of_map_eq
  last_root := ((renames_moved h hcount (houtline.trans houtline'.symm)).last_eq ⟨0⟩).mono
    Outline.optionRel_of_map_eq

/-- Drafts with the same entries in other places are read alike. -/
theorem read_eq_moved (hcount : draft.pageCount = draft'.pageCount)
    (houtline : draft.hasOutline = draft'.hasOutline) (settings : Settings) :
    (draft.outline.read settings).result = (draft'.outline.read settings).result := by
  cases hbare : draft.hasOutline with
  | false =>
      have hcount' : draft.outline.pageCount = draft'.outline.pageCount := hcount
      rw [read_of_no_outline hbare, read_of_no_outline (houtline.symm.trans hbare),
        Outline.contentsOf, Outline.contentsOf, hcount']
  | true =>
      have halike := alikeFrom_moved h hcount hbare (houtline.symm.trans hbare)
      cases hread : (draft.outline.read settings).result with
      | ok contents => exact (halike.read_eq_ok hread).symm
      | error fault =>
          cases hread' : (draft'.outline.read settings).result with
          | ok contents =>
              rw [halike.symm.read_eq_ok hread'] at hread
              cases hread
          | error fault' =>
              -- A draft is a tree, so in both cases the fault is that it is too deep.
              have hfault := FiniteOutline.depthFault_of_read halike.root_eq
                (toOutline_answers draft) (isTree draft) hread
              have hfault' := FiniteOutline.depthFault_of_read halike.root_eq'
                (toOutline_answers draft') (isTree draft') hread'
              rw [hfault.2.1, hfault'.2.1]

end Moved

/-- Two lists of calls that add the same entries under corresponding parents, with siblings in the
same order, make drafts that are read with the same result, whatever the reader puts up with. How
they mix the entries of one branch with those of another makes no difference. -/
theorem Rearranges.read_congr {calls calls' : List Call}
    (h : Rearranges σ (calls.map Call.item) (calls'.map Call.item)) {pageCount : UInt32}
    {hasOutline : Bool} {draft draft' : Draft} {nodes nodes' : List Node}
    (hdraft : performAll? { pageCount, hasOutline } calls = some (draft, nodes))
    (hdraft' : performAll? { pageCount, hasOutline } calls' = some (draft', nodes'))
    (settings : Settings) :
    (draft.outline.read settings).result = (draft'.outline.read settings).result := by
  have hmade := performAll?_eq_some hdraft
  have hmade' := performAll?_eq_some hdraft'
  have hmoved : Rearranges σ draft.items.toList draft'.items.toList := by
    rw [hmade, hmade']
    simpa using h
  exact read_eq_moved hmoved (by rw [hmade, hmade']) (by rw [hmade, hmade']) settings

/-- Two chapters and then their sections, the last one first. -/
def levelByLevel : List Call := [
  { parent := none, title := "Chapter 1", page := some 1, destination := none },
  { parent := none, title := "Chapter 2", page := some 4, destination := none },
  { parent := some ⟨2⟩, title := "Section 2", page := some 5, destination := none },
  { parent := some ⟨1⟩, title := "Section 1", page := some 2, destination := some .fit }]

/-- The same chapters, each with its section. -/
def branchByBranch : List Call := [
  { parent := none, title := "Chapter 1", page := some 1, destination := none },
  { parent := some ⟨1⟩, title := "Section 1", page := some 2, destination := none },
  { parent := none, title := "Chapter 2", page := some 4, destination := none },
  { parent := some ⟨3⟩, title := "Section 2", page := some 5, destination := none }]

/-- Where the entries of the first list are in the second. -/
def byBranch : Equiv.Perm Nat :=
  (Equiv.swap 2 3).trans (Equiv.swap 1 2)

theorem rearranges_byBranch :
    Rearranges byBranch (levelByLevel.map Call.item) (branchByBranch.map Call.item) where
  item_eq place := by
    rcases place with _ | _ | _ | _ | place
    · decide
    · decide
    · decide
    · decide
    · have hplace : byBranch (place + 4) = place + 4 := by
        have hlast : Equiv.swap 2 3 (place + 4) = place + 4 :=
          Equiv.swap_apply_of_ne_of_ne (by omega) (by omega)
        rw [byBranch, Equiv.trans_apply, hlast]
        exact Equiv.swap_apply_of_ne_of_ne (by omega) (by omega)
      rw [hplace]
      rfl
  order {place later item other} hitem hother hparent hlt := by
    have hlater : later < 4 := (List.getElem?_eq_some_iff.1 hother).1
    have hsame : (levelByLevel.map Call.item)[place]?.map Item.parent =
        (levelByLevel.map Call.item)[later]?.map Item.parent := by
      rw [hitem, hother, Option.map_some, Option.map_some, hparent]
    have hcheck : ∀ later < 4, ∀ place < later,
        (levelByLevel.map Call.item)[place]?.map Item.parent =
          (levelByLevel.map Call.item)[later]?.map Item.parent →
        byBranch place < byBranch later := by decide
    exact hcheck later hlater place hlt hsame

/-- The drafts differ, and they are read alike. -/
theorem read_byBranch :
    Rearranges byBranch (levelByLevel.map Call.item) (branchByBranch.map Call.item) ∧
      ∃ draft draft' nodes nodes',
        performAll? { pageCount := 6 } levelByLevel = some (draft, nodes) ∧
        performAll? { pageCount := 6 } branchByBranch = some (draft', nodes') ∧
        draft ≠ draft' ∧
        ∀ settings,
          (draft.outline.read settings).result = (draft'.outline.read settings).result := by
  refine ⟨rearranges_byBranch, _, _, _, _, rfl, rfl, by decide, fun settings => ?_⟩
  exact rearranges_byBranch.read_congr rfl rfl settings

end Bookmarks.Draft
