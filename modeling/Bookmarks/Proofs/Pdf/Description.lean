/-
# Documents that describe a draft

A draft can be written into a PDF document: a dictionary for each entry, with the title as a text
string, references to the entry's children and to its next sibling, and its destination as an
array. `Describes` says what such a document looks like, whatever else it holds and whatever its
objects are called. From a document that describes a draft the same table of contents is read as
from the draft, or the same fault comes of reading it (`Describes.read_eq`).
-/
import Bookmarks.Pdf.PageTree
import Bookmarks.Proofs.Outline.Draft
import Bookmarks.Proofs.Pdf.Entries
import Bookmarks.Proofs.Text.Utf16
import Bookmarks.Proofs.Walk.Likeness

namespace Bookmarks.Pdf

open Draft (Node Item)

/-- What leads to the page of an entry: a reference to the page of that number, or to an object
that is no page if the document does not have so many, or null if there is no page. -/
inductive LeadsTo (pages : List ObjectId) : Option UInt32 → Object → Prop where
  | page {number : UInt32} {id : ObjectId} (hnumber : 1 ≤ number.toNat)
      (hid : pages[number.toNat - 1]? = some id) : LeadsTo pages (some number) (.reference id)
  | noPage {number : UInt32} {id : ObjectId}
      (hnumber : number.toNat = 0 ∨ pages.length < number.toNat) (hid : id ∉ pages) :
      LeadsTo pages (some number) (.reference id)
  | nowhere : LeadsTo pages none .null

/-- The dictionary is that of an entry of a draft, whose entries are stored under `id`. -/
structure DescribesEntry (pages : List ObjectId) (draft : Draft) (id : Node → ObjectId)
    (node : Node) (item : Item) (entries : Dictionary) : Prop where
  title : entries.get? "Title" = some (.string (TextString.encode item.title))
  first : Dictionary.reference? entries "First" = (draft.children node).head?.map id
  last : Dictionary.reference? entries "Last" = (draft.children node).getLast?.map id
  next : Dictionary.reference? entries "Next" =
    (successor? node (draft.children item.parent)).map id
  destination : ∀ {destination}, item.destination = some destination →
    ∃ target, LeadsTo pages item.page target ∧
      entries.get? "Dest" = some (.array (destinationItems target destination))
  noDestination : item.destination = none →
    entries.get? "Dest" = none ∧ entries.get? "A" = none

/-- The document is that of a draft, whose entries are stored under `id`. -/
structure Describes (document : Document) (draft : Draft) (id : Node → ObjectId) : Prop where
  nodup_pages : document.pages.Nodup
  length_pages : document.pages.length = draft.pageCount.toNat
  outlines : ∃ catalog value entries, document.catalog = .ok catalog ∧
    Dictionary.get? catalog "Outlines" = some value ∧
    document.resolve value = .ok (.dictionary entries) ∧
    Dictionary.reference? entries "First" = (draft.children ⟨0⟩).head?.map id ∧
    Dictionary.reference? entries "Last" = (draft.children ⟨0⟩).getLast?.map id
  id_injective : ∀ {node other item item'}, draft.item? node = some item →
    draft.item? other = some item' → id node = id other → node = other
  entry : ∀ {node item}, draft.item? node = some item →
    ∃ entries, document.object (id node) = .ok (.dictionary entries) ∧
      DescribesEntry document.pages draft id node item entries

/-! ## Entries -/

/-- What leads to the page of an entry leads to the page of its number. -/
theorem LeadsTo.scanPages_eq {document : Document} {draft : Draft}
    (hnodup : document.pages.Nodup) (hlength : document.pages.length = draft.pageCount.toNat)
    {page : Option UInt32} {target : Object} (h : LeadsTo document.pages page target) :
    (Document.targetPage? [target]).bind (scanPages document.pages) =
      page.bind (scanPages draft.pages) := by
  cases h with
  | @page number id hnumber hid =>
      have hplace := (List.getElem?_eq_some_iff.1 hid).1
      rw [Document.targetPage?, Option.bind_some, Option.bind_some, Draft.scanPages_pages,
        if_pos ⟨hnumber, by omega⟩, scanPages_getElem hnodup hid, Nat.sub_add_cancel hnumber]
  | @noPage number id hnumber hid =>
      rw [Document.targetPage?, Option.bind_some, Option.bind_some, Draft.scanPages_pages,
        if_neg (by omega), scanPages_eq_none_iff.2 hid]
  | nowhere => rfl

namespace DescribesEntry

variable {document : Document} {draft : Draft} {id : Node → ObjectId} {node : Node} {item : Item}
  {entries : Dictionary}

theorem toOutline_title (h : DescribesEntry document.pages draft id node item entries)
    (hobject : document.object (id node) = .ok (.dictionary entries)) :
    document.toOutline.title (.item (id node)) = .ok item.title := by
  have hdictionary := Document.nodeDictionary_item hobject
  change orFault (document.itemTitle _) = _
  rw [Document.itemTitle_eq hdictionary h.title, TextString.decode_encode]
  rfl

theorem result_destination (h : DescribesEntry document.pages draft id node item entries)
    (hobject : document.object (id node) = .ok (.dictionary entries)) :
    (document.toOutline.destination (.item (id node))).result = .ok item.destination := by
  have hdictionary := Document.nodeDictionary_item hobject
  cases hitem : item.destination with
  | none =>
      obtain ⟨hnone, haction⟩ := h.noDestination hitem
      exact Document.result_destination
        (Document.result_itemDestination_none hdictionary hnone haction)
  | some destination =>
      obtain ⟨target, -, hsome⟩ := h.destination hitem
      rw [Document.result_destination (Document.result_itemDestination hdictionary hsome),
        Option.bind_some, destinationOf?_destinationItems]

/-- An entry has the same page in the document as in the draft. -/
theorem exists_page (h : DescribesEntry document.pages draft id node item entries)
    (hobject : document.object (id node) = .ok (.dictionary entries))
    (hnodup : document.pages.Nodup) (hlength : document.pages.length = draft.pageCount.toNat)
    (hpage : item.destination = none → item.page = none) :
    ∃ page, (document.toOutline.page (.item (id node))).result = .ok page ∧
      page.bind (scanPages document.pages) = item.page.bind (scanPages draft.pages) := by
  have hdictionary := Document.nodeDictionary_item hobject
  cases hitem : item.destination with
  | none =>
      obtain ⟨hnone, haction⟩ := h.noDestination hitem
      refine ⟨none, Document.result_page
        (Document.result_itemDestination_none hdictionary hnone haction), ?_⟩
      rw [hpage hitem]
      rfl
  | some destination =>
      obtain ⟨target, htarget, hsome⟩ := h.destination hitem
      refine ⟨_, Document.result_page (Document.result_itemDestination hdictionary hsome), ?_⟩
      rw [Option.bind_some, targetPage?_destinationItems]
      exact htarget.scanPages_eq hnodup hlength

end DescribesEntry

/-! ## The document as a whole -/

/-- The node of a document that stands for an entry of a draft. -/
def StandsFor (draft : Draft) (id : Node → ObjectId) (node : Node) (other : OutlineNode) : Prop :=
  (∃ item, draft.item? node = some item) ∧ other = .item (id node)

namespace Describes

variable {document : Document} {draft : Draft} {id : Node → ObjectId}

/-- A key that refers to an entry, if anything, links to the node that stands for it. -/
theorem linked_alike (h : Describes document draft id) {node : OutlineNode} {entries : Dictionary}
    {key : String} (hdictionary : document.nodeDictionary node = .ok entries)
    {target : Option Node} (hkey : Dictionary.reference? entries key = target.map id)
    (htarget : ∀ entry, target = some entry → ∃ item, draft.item? entry = some item) :
    SameAnswer (Option.Rel (StandsFor draft id)) (.ok target) (document.linked node key) := by
  cases target with
  | none =>
      rw [Document.linked_eq_none hdictionary hkey]
      exact .ok .none
  | some entry =>
      obtain ⟨item, hitem⟩ := htarget entry rfl
      obtain ⟨_, hobject, -⟩ := h.entry hitem
      rw [Document.linked_eq_some hdictionary hkey hobject]
      exact .ok (.some ⟨⟨item, hitem⟩, rfl⟩)

theorem exists_item_of_mem {node entry : Node} (h : entry ∈ draft.children node) :
    ∃ item, draft.item? entry = some item := by
  rcases Draft.mem_children.1 h with ⟨item, hitem, -⟩
  exact ⟨item, hitem⟩

/-- A node that stands for an entry has the dictionary of that entry. -/
theorem exists_entry (h : Describes document draft id) {node : Node} {other : OutlineNode}
    (hstands : StandsFor draft id node other) :
    ∃ item entries, draft.item? node = some item ∧ other = .item (id node) ∧
      document.object (id node) = .ok (.dictionary entries) ∧
      DescribesEntry document.pages draft id node item entries := by
  rcases hstands with ⟨⟨item, hitem⟩, hother⟩
  rcases h.entry hitem with ⟨entries, hobject, hentry⟩
  exact ⟨item, entries, hitem, hother, hobject, hentry⟩

/-- The entries of a draft and the nodes that stand for them are alike. -/
theorem alike (h : Describes document draft id) (hmade : draft.Made) :
    Outline.Alike (StandsFor draft id) draft.toOutline (PageIndex.ofList draft.pages).number?
      document.toOutline (PageIndex.ofList document.pages).number? where
  pageCount_eq := by
    change draft.pageCount = UInt32.ofNat document.pages.length
    rw [h.length_pages, UInt32.ofNat_toNat]
  eq_iff {node node' other other'} hstands hstands' := by
    rcases h.exists_entry hstands with ⟨item, _, hitem, rfl, -, -⟩
    rcases h.exists_entry hstands' with ⟨item', _, hitem', rfl, -, -⟩
    constructor
    · intro hsame
      rw [hsame]
    · intro hsame
      exact h.id_injective hitem hitem' (OutlineNode.item.inj hsame)
  first_alike hstands := by
    rcases h.exists_entry hstands with ⟨item, entries, hitem, rfl, hobject, hentry⟩
    rw [Draft.toOutline_first (Draft.holds_of_item? hitem)]
    apply h.linked_alike (Document.nodeDictionary_item hobject) hentry.first
    intro child hchild
    exact exists_item_of_mem (List.mem_of_head? hchild)
  last_alike hstands := by
    rcases h.exists_entry hstands with ⟨item, entries, hitem, rfl, hobject, hentry⟩
    rw [Draft.toOutline_last (Draft.holds_of_item? hitem)]
    apply h.linked_alike (Document.nodeDictionary_item hobject) hentry.last
    intro child hchild
    exact exists_item_of_mem (List.mem_of_getLast? hchild)
  next_alike hstands := by
    rcases h.exists_entry hstands with ⟨item, entries, hitem, rfl, hobject, hentry⟩
    rw [Draft.toOutline_next hitem]
    apply h.linked_alike (Document.nodeDictionary_item hobject) hentry.next
    intro sibling hnext
    exact exists_item_of_mem (List.mem_of_mem_tail (mem_tail_of_successor? hnext))
  title_alike hstands := by
    rcases h.exists_entry hstands with ⟨item, entries, hitem, rfl, hobject, hentry⟩
    rw [Draft.toOutline_title hitem, hentry.toOutline_title hobject]
    exact .ok rfl
  position_alike hstands := by
    rcases h.exists_entry hstands with ⟨item, entries, hitem, rfl, hobject, hentry⟩
    rw [Outline.result_position (Draft.result_destination hitem),
      Outline.result_position (hentry.result_destination hobject)]
    exact .ok rfl
  pageNumber_alike {node other} hstands := by
    rcases h.exists_entry hstands with ⟨item, entries, hitem, rfl, hobject, hentry⟩
    rcases hentry.exists_page hobject h.nodup_pages h.length_pages
      (hmade.page_eq_none (Draft.mem_items hitem)) with ⟨page, hpage, hscan⟩
    have hdraft : (draft.toOutline.pageNumber (scanPages draft.pages) (some node)).result = _ :=
      Outline.pageNumber_some_eq_ok.2 ⟨item.page, Draft.result_page hitem, rfl⟩
    have hdocument : (document.toOutline.pageNumber (scanPages document.pages)
        (some (.item (id node)))).result = _ :=
      Outline.pageNumber_some_eq_ok.2 ⟨page, hpage, rfl⟩
    rw [PageIndex.number?_ofList, PageIndex.number?_ofList, hdraft, hdocument, hscan]
    exact .ok rfl

theorem exists_outlines (h : Describes document draft id) :
    document.outlineRoot = .ok (some .outlines) ∧
      ∃ entries, document.nodeDictionary .outlines = .ok entries ∧
        Dictionary.reference? entries "First" = (draft.children ⟨0⟩).head?.map id ∧
        Dictionary.reference? entries "Last" = (draft.children ⟨0⟩).getLast?.map id := by
  obtain ⟨catalog, value, entries, hcatalog, hvalue, hresolve, hfirst, hlast⟩ := h.outlines
  constructor
  · simp only [Document.outlineRoot, hcatalog, bind, Except.bind, hvalue, hresolve]
    rfl
  · refine ⟨entries, ?_, hfirst, hlast⟩
    simp only [Document.nodeDictionary, hcatalog, bind, Except.bind, Dictionary.require, hvalue,
      hresolve]
    rfl

/-- The outline of the document and that of the draft are alike from their roots on. -/
theorem alikeFrom (h : Describes document draft id) (hmade : draft.Made) :
    Outline.AlikeFrom (StandsFor draft id) draft.outline.toOutline ⟨0⟩ draft.pages
      document.outline.toOutline .outlines document.pages where
  toAlike := h.alike hmade
  root_eq := by
    change Except.ok (if draft.hasOutline then some (⟨0⟩ : Node) else none) = _
    rw [if_pos hmade.hasOutline]
  root_eq' := by
    change orFault document.outlineRoot = _
    rw [h.exists_outlines.1]
    rfl
  pages_eq := rfl
  pages_eq' := rfl
  first_root := by
    obtain ⟨-, entries, hdictionary, hfirst, -⟩ := h.exists_outlines
    change SameAnswer _ (draft.toOutline.first ⟨0⟩) (document.linked .outlines "First")
    rw [Draft.toOutline_first (Draft.holds_root draft)]
    exact h.linked_alike hdictionary hfirst
      fun _ hchild => exists_item_of_mem (List.mem_of_head? hchild)
  last_root := by
    obtain ⟨-, entries, hdictionary, -, hlast⟩ := h.exists_outlines
    change SameAnswer _ (draft.toOutline.last ⟨0⟩) (document.linked .outlines "Last")
    rw [Draft.toOutline_last (Draft.holds_root draft)]
    exact h.linked_alike hdictionary hlast
      fun _ hchild => exists_item_of_mem (List.mem_of_getLast? hchild)

theorem isTree (h : Describes document draft id) (hmade : draft.Made) :
    document.outline.toOutline.IsTree .outlines := by
  apply (h.alikeFrom hmade).symm.isTree (Draft.isTree draft)
  intro node hstands
  cases hstands.2

/-- What the outline of the document reaches stands for an entry. -/
theorem exists_standsFor (h : Describes document draft id) (hmade : draft.Made)
    {other : OutlineNode} (hother : document.outline.Reachable .outlines other) :
    ∃ node, StandsFor draft id node other := by
  rcases (h.alikeFrom hmade).symm.reachable hother with ⟨node, hstands, -⟩
  exact ⟨node, hstands⟩

theorem answers (h : Describes document draft id) (hmade : draft.Made) :
    document.outline.Answers .outlines where
  pages := ⟨document.pages, rfl⟩
  title hother := by
    rcases h.exists_standsFor hmade hother with ⟨node, hstands⟩
    rcases h.exists_entry hstands with ⟨item, entries, hitem, rfl, hobject, hentry⟩
    exact ⟨item.title, hentry.toOutline_title hobject⟩
  destination hother := by
    rcases h.exists_standsFor hmade hother with ⟨node, hstands⟩
    rcases h.exists_entry hstands with ⟨item, entries, hitem, rfl, hobject, hentry⟩
    exact ⟨item.destination, hentry.result_destination hobject⟩
  page hother := by
    rcases h.exists_standsFor hmade hother with ⟨node, hstands⟩
    rcases h.exists_entry hstands with ⟨item, entries, hitem, rfl, hobject, hentry⟩
    rcases hentry.exists_page hobject h.nodup_pages h.length_pages
      (hmade.page_eq_none (Draft.mem_items hitem)) with ⟨page, hpage, -⟩
    exact ⟨page, hpage⟩
  first hnode herror :=
    absurd herror (Outline.ne_error_of_intact ((h.isTree hmade).first_intact hnode))
  last hnode herror :=
    absurd herror (Outline.ne_error_of_intact ((h.isTree hmade).last_intact hnode))
  next hentry herror :=
    absurd herror (Outline.ne_error_of_intact ((h.isTree hmade).next_intact hentry))

/-- From a document that describes a draft, the same table of contents is read as from the draft,
or reading both fails for the same reason. -/
theorem read_eq (h : Describes document draft id) (hmade : draft.Made) (settings : Settings) :
    (document.outline.read settings).result = (draft.outline.read settings).result := by
  have halike := h.alikeFrom hmade
  cases hdraft : (draft.outline.read settings).result with
  | ok contents => exact halike.read_eq_ok hdraft
  | error fault =>
      cases hdocument : (document.outline.read settings).result with
      | ok contents =>
          rw [halike.symm.read_eq_ok hdocument] at hdraft
          cases hdraft
      | error fault' =>
          have hfault := FiniteOutline.depthFault_of_read halike.root_eq
            (Draft.toOutline_answers draft) (Draft.isTree draft) hdraft
          have hfault' := FiniteOutline.depthFault_of_read halike.root_eq' (h.answers hmade)
            (h.isTree hmade) hdocument
          rw [hfault.2.1, hfault'.2.1]

end Describes

/-! ## A document that describes a draft -/

/-- A chapter on the second page, with a section on a page that is not there, and an entry that
leads nowhere. -/
def sampleDraft : Draft where
  pageCount := 2
  items := #[
    ⟨⟨0⟩, "Größe 😀", some 2, some (.xyz none (some (Binary32.ofInt 700)) none)⟩,
    ⟨⟨1⟩, "Section", some 5, some .fit⟩,
    ⟨⟨0⟩, "Notes", none, none⟩]

/-- The dictionary of an entry with a title, references under some keys, and further pairs. -/
def entryDictionary (title : String) (links : List (String × Nat)) (rest : Dictionary) :
    Dictionary :=
  (ascii "Title", .string (TextString.encode title)) ::
    (links.map fun link => (ascii link.1, .reference ⟨link.2, 0⟩)) ++ rest

/-- The dictionaries of the three entries of the draft. -/
def sampleEntries : List Dictionary := [
  entryDictionary "Größe 😀" [("First", 7), ("Last", 7), ("Next", 8)]
    [(ascii "Dest", .array (destinationItems (.reference ⟨4, 0⟩)
      (.xyz none (some (Binary32.ofInt 700)) none)))],
  entryDictionary "Section" []
    [(ascii "Dest", .array (destinationItems (.reference ⟨99, 0⟩) .fit))],
  entryDictionary "Notes" [] []]

/-- A document with two pages and an outline, the entries of the draft from object six on. -/
def sampleDocument : Document := Store.document {
  version := "1.5"
  trailer := [(ascii "Root", .reference ⟨1, 0⟩)]
  objects := .ofList ([
    (⟨1, 0⟩, .dictionary [(ascii "Pages", .reference ⟨2, 0⟩),
      (ascii "Outlines", .reference ⟨5, 0⟩)]),
    (⟨2, 0⟩, .dictionary [(ascii "Type", .name (ascii "Pages")),
      (ascii "Kids", .array [.reference ⟨3, 0⟩, .reference ⟨4, 0⟩])]),
    (⟨3, 0⟩, .dictionary [(ascii "Type", .name (ascii "Page"))]),
    (⟨4, 0⟩, .dictionary [(ascii "Type", .name (ascii "Page"))]),
    (⟨5, 0⟩, .dictionary [(ascii "First", .reference ⟨6, 0⟩),
      (ascii "Last", .reference ⟨8, 0⟩)])] ++
    sampleEntries.zipIdx.map fun entry => (⟨entry.2 + 6, 0⟩, .dictionary entry.1)) ObjectId.order }

theorem made_sampleDraft : sampleDraft.Made := by
  have hempty : Draft.Made { pageCount := 2 } := .new 2
  have hchapter := hempty.entryAt
    (show Draft.add? _ ⟨0⟩ "Größe 😀" (some 2)
      (some (.xyz none (some (Binary32.ofInt 700)) none)) = some _ from rfl)
  have hsection := hchapter.entry (show Draft.addEntry? _ ⟨1⟩ "Section" (some 5) = some _ from rfl)
  exact hsection.entry (show Draft.addEntry? _ ⟨0⟩ "Notes" none = some _ from rfl)

theorem pages_sampleDocument : sampleDocument.pages = [⟨3, 0⟩, ⟨4, 0⟩] := by decide +kernel

theorem describes_sampleDocument :
    Describes sampleDocument sampleDraft fun node => ⟨node.index + 5, 0⟩ where
  nodup_pages := by rw [pages_sampleDocument]; decide
  length_pages := by rw [pages_sampleDocument]; rfl
  outlines := ⟨_, _, _, rfl, rfl, rfl, rfl, rfl⟩
  id_injective {node other _ _} _ _ h := by
    have hindex : node.index + 5 = other.index + 5 := congrArg ObjectId.number h
    exact congrArg Node.mk (Nat.add_right_cancel hindex)
  entry {node item} hitem := by
    obtain ⟨place, hplace, rfl, hget⟩ := Draft.exists_place hitem
    rw [pages_sampleDocument]
    have hplaces : place = 0 ∨ place = 1 ∨ place = 2 := by
      have hsize : sampleDraft.size = 3 := rfl
      omega
    rcases hplaces with rfl | rfl | rfl
    · have hitem := Option.some.inj hget
      subst hitem
      refine ⟨_, rfl, ⟨rfl, rfl, rfl, rfl, ?_, fun hnone => (by cases hnone)⟩⟩
      intro destination hdestination
      cases hdestination
      exact ⟨_, .page (by decide) rfl, rfl⟩
    · have hitem := Option.some.inj hget
      subst hitem
      refine ⟨_, rfl, ⟨rfl, rfl, rfl, rfl, ?_, fun hnone => (by cases hnone)⟩⟩
      intro destination hdestination
      cases hdestination
      exact ⟨_, .noPage (by decide) (by decide), rfl⟩
    · have hitem := Option.some.inj hget
      subst hitem
      exact ⟨_, rfl, ⟨rfl, rfl, rfl, rfl, fun hsome => (by cases hsome), fun _ => ⟨rfl, rfl⟩⟩⟩

/-- The sample is read alike from the document and from the draft. -/
theorem read_sampleDocument :
    sampleDraft.Made ∧
      (Describes sampleDocument sampleDraft fun node => ⟨node.index + 5, 0⟩) ∧
      (sampleDocument.outline.read {}).result = (sampleDraft.outline.read {}).result :=
  ⟨made_sampleDraft, describes_sampleDocument,
    describes_sampleDocument.read_eq made_sampleDraft {}⟩

end Bookmarks.Pdf
