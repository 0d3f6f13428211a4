/-
# What keeps a document from being read

Objects of a PDF document may be missing, be of the wrong kind or refer to each other in circles,
and yet there is little that keeps its outline from being read. The catalog has to be there, the
outline that it refers to, and the titles that entries refer to (`Unreadable`). All else is put up
with: a destination that leads nowhere is none, and a broken link is damage, for which only a strict
reader fails (`Document.readContents_cases`).
-/
import Bookmarks.Pdf.PageTree
import Bookmarks.Pdf.Reading
import Bookmarks.Proofs.Pdf.Entries
import Bookmarks.Proofs.Pdf.NameTree
import Bookmarks.Proofs.Walk.Reading

namespace Bookmarks

/-- Two steps fail where the first of them does. -/
theorem Except.eq_error_of_bind {ε α β : Type} {x : Except ε α} {f : α → Except ε β} {error : ε}
    (h : x >>= f = .error error) : x = .error error ∨ ∃ a, x = .ok a ∧ f a = .error error := by
  cases x with
  | error other =>
      cases h
      exact Or.inl rfl
  | ok a => exact Or.inr ⟨a, rfl, h⟩

/-- Two readings one after the other succeed if the second does whatever the first brings. -/
theorem Noted.exists_result_bind {ε α β : Type} {x : Noted ε α} {f : α → Noted ε β}
    (hx : ∃ a, x.result = .ok a) (hf : ∀ a, ∃ b, (f a).result = .ok b) :
    ∃ b, (x >>= f).result = .ok b := by
  obtain ⟨a, ha⟩ := hx
  obtain ⟨b, hb⟩ := hf a
  exact ⟨b, Noted.result_bind_eq_ok.2 ⟨a, ha, hb⟩⟩

namespace Pdf

/-! ## Access to objects -/

/-- Defects that come of looking an object up: something is not there, is of the wrong kind, or is
referred to in a circle. -/
inductive Defect.OfAccess : Defect → Prop where
  | missingKey : OfAccess .missingKey
  | missingObject : OfAccess .missingObject
  | wrongKind : OfAccess .wrongKind
  | referenceLimit : OfAccess .referenceLimit
  | referenceCycle : OfAccess .referenceCycle

/-- To a reader such a defect means that the file is malformed. -/
theorem Defect.OfAccess.toFault_eq {defect : Defect} (h : defect.OfAccess) :
    defect.toFault = .malformed defect.message := by
  cases h <;> rfl

theorem ofAccess_of_require {entries : Dictionary} {key : String} {defect : Defect}
    (h : entries.require key = .error defect) : defect.OfAccess := by
  unfold Dictionary.require at h
  split at h
  · cases h
  · cases h
    exact .missingKey

theorem ofAccess_of_asReference {object : Object} {defect : Defect}
    (h : object.asReference = .error defect) : defect.OfAccess := by
  unfold Object.asReference at h
  split at h
  · cases h
  · cases h
    exact .wrongKind

theorem ofAccess_of_asDictionary {object : Object} {defect : Defect}
    (h : object.asDictionary = .error defect) : defect.OfAccess := by
  unfold Object.asDictionary at h
  split at h
  · cases h
  · cases h
    exact .wrongKind

namespace Document

/-- A library does not find the catalog or an object only for defects of access. -/
structure FailsByAccess (document : Document) : Prop where
  catalog : ∀ {defect}, document.catalog = .error defect → defect.OfAccess
  object : ∀ {id defect}, document.object id = .error defect → defect.OfAccess

variable {document : Document} {settings : Settings}

variable (document) in
/-- A value is a reference that leads to no object. -/
def Dangles (value : Object) (defect : Defect) : Prop :=
  ∃ id, value = .reference id ∧ document.object id = .error defect

/-- Nothing but a reference can fail to stand for an object. -/
theorem dangles_of_resolve {value : Object} {defect : Defect}
    (h : document.resolve value = .error defect) : document.Dangles value defect := by
  unfold resolve at h
  split at h
  · next id => exact ⟨id, rfl, h⟩
  · cases h

theorem Dangles.ofAccess {value : Object} {defect : Defect} (h : document.Dangles value defect)
    (hfails : document.FailsByAccess) : defect.OfAccess := by
  obtain ⟨id, _, hobject⟩ := h
  exact hfails.object hobject

variable (document) in
/-- What keeps the outline of a document from being read. -/
inductive Unreadable : Defect → Prop where
  /-- There is no catalog. -/
  | catalog {defect : Defect} (hcatalog : document.catalog = .error defect) : Unreadable defect
  /-- The catalog refers to an outline that is not there. -/
  | outlines {defect : Defect} {catalog : Dictionary} {value : Object}
      (hcatalog : document.catalog = .ok catalog)
      (hvalue : catalog.get? "Outlines" = some value)
      (hdangles : document.Dangles value defect) : Unreadable defect
  /-- The dictionary of an entry of the outline refers to a title that is not there. -/
  | title {defect : Defect} {id : ObjectId} {entries : Dictionary} {value : Object}
      (hreached : document.toOutline.Reachable .outlines (.item id))
      (hentries : document.dictionary id = .ok entries)
      (hvalue : entries.get? "Title" = some value)
      (hdangles : document.Dangles value defect) : Unreadable defect

theorem Unreadable.toFault_eq {defect : Defect} (h : document.Unreadable defect)
    (hfails : document.FailsByAccess) : defect.toFault = .malformed defect.message := by
  cases h with
  | catalog hcatalog => exact (hfails.catalog hcatalog).toFault_eq
  | outlines _ _ hdangles => exact (hdangles.ofAccess hfails).toFault_eq
  | title _ _ _ hdangles => exact (hdangles.ofAccess hfails).toFault_eq

/-! ## Destinations -/

section Noted

variable {ε : Type}

theorem exists_namedDestination (name : Bytes) :
    ∃ value,
      (document.namedDestination name : Noted ε (Option Object)).result = .ok value := by
  unfold namedDestination
  split
  · exact ⟨none, rfl⟩
  · dsimp only
    split
    · refine Noted.exists_result_bind ⟨_, result_findName nameDepth _⟩ fun found => ?_
      cases found with
      | none => exact ⟨_, rfl⟩
      | some value => exact ⟨_, rfl⟩
    · exact ⟨_, rfl⟩

/-- A destination comes down to an array or to nothing, be it broken or lead round in circles. -/
theorem exists_destinationWithin (hops : Nat) (destination : Object) :
    ∃ items, (document.destinationWithin hops destination :
      Noted ε (Option (List Object))).result = .ok items := by
  induction hops generalizing destination with
  | zero => exact ⟨none, rfl⟩
  | succ hops ih =>
      unfold destinationWithin
      split
      · exact ⟨none, rfl⟩
      · exact ⟨_, rfl⟩
      · split
        · exact ih _
        · exact ⟨none, rfl⟩
      · refine Noted.exists_result_bind (exists_namedDestination _) fun found => ?_
        cases found with
        | none => exact ⟨none, rfl⟩
        | some target => exact ih target
      · refine Noted.exists_result_bind (exists_namedDestination _) fun found => ?_
        cases found with
        | none => exact ⟨none, rfl⟩
        | some target => exact ih target
      · exact ⟨none, rfl⟩

end Noted

/-! ## Nodes of the outline -/

variable (document) in
/-- There is a dictionary for a node. -/
def HasDictionary (node : OutlineNode) : Prop :=
  ∃ entries, document.nodeDictionary node = .ok entries

theorem unreadable_of_outlineRoot {defect : Defect} (h : document.outlineRoot = .error defect) :
    document.Unreadable defect := by
  rcases Except.eq_error_of_bind h with hcatalog | ⟨catalog, hcatalog, h⟩
  · exact .catalog hcatalog
  split at h
  · cases h
  · next value hvalue =>
    rcases Except.eq_error_of_bind h with hresolve | ⟨object, _, h⟩
    · exact .outlines hcatalog hvalue (dangles_of_resolve hresolve)
    · split at h <;> cases h

/-- An outline begins at its dictionary. -/
theorem hasDictionary_of_outlineRoot {root : OutlineNode}
    (h : document.outlineRoot = .ok (some root)) :
    root = .outlines ∧ document.HasDictionary .outlines := by
  cases hcatalog : document.catalog with
  | error defect =>
      rw [outlineRoot, hcatalog] at h
      cases h
  | ok catalog =>
      simp only [outlineRoot, hcatalog, bind, Except.bind] at h
      split at h
      · cases h
      · next value hvalue =>
        cases hresolve : document.resolve value with
        | error defect =>
            rw [hresolve] at h
            cases h
        | ok object =>
            rw [hresolve] at h
            dsimp only at h
            split at h
            · next entries =>
              cases h
              refine ⟨rfl, entries, ?_⟩
              simp only [nodeDictionary, hcatalog, bind, Except.bind, Dictionary.require, hvalue,
                hresolve]
              rfl
            · cases h

/-- A link leads to an entry with a dictionary. -/
theorem hasDictionary_of_linked {node target : OutlineNode} {key : String}
    (h : document.linked node key = .ok (some target)) :
    ∃ id, target = .item id ∧ document.HasDictionary (.item id) := by
  rcases hnode : document.nodeDictionary node with _ | entries
  · rw [linked, hnode] at h
    cases h
  · rw [linked_eq hnode] at h
    split at h
    · next id _ =>
      split at h
      · next target hobject =>
        cases h
        refine ⟨id, rfl, target, ?_⟩
        rw [nodeDictionary, dictionary, hobject]
        rfl
      · cases h
    · cases h

/-- A link that cannot be followed is damage. -/
theorem kind_of_linked {node : OutlineNode} {key : String} {fault : Fault}
    (hnode : document.HasDictionary node) (h : document.linked node key = .error fault) :
    fault.kind = .corrupted := by
  obtain ⟨entries, hentries⟩ := hnode
  rw [linked_eq hentries] at h
  split at h
  · split at h
    · cases h
    · cases h
      rfl
  · cases h

theorem hasDictionary_of_reachable {node : OutlineNode}
    (h : document.toOutline.Reachable .outlines node) :
    ∃ id, node = .item id ∧ document.HasDictionary (.item id) := by
  obtain ⟨level, h⟩ := h
  cases h with
  | top hfirst => exact hasDictionary_of_linked hfirst
  | under _ hfirst => exact hasDictionary_of_linked hfirst
  | @beside _ previous _ _ hnext =>
      change document.nextItem previous = _ at hnext
      cases previous with
      | outlines => cases hnext
      | item id => exact hasDictionary_of_linked hnext

theorem exists_itemDestination {node : OutlineNode} (h : document.HasDictionary node) :
    ∃ items, (document.itemDestination node).result = .ok items := by
  obtain ⟨entries, hentries⟩ := h
  refine Noted.exists_result_bind ⟨entries, ?_⟩ fun entries => ?_
  · rw [hentries]
    rfl
  · split
    · exact exists_destinationWithin _ _
    · exact ⟨none, rfl⟩

/-- From the dictionary of an outline on, only titles and broken links are in the way. -/
theorem navigable (h : document.HasDictionary .outlines) :
    document.toOutline.Navigable .outlines := by
  have hscope : ∀ {node},
      node = OutlineNode.outlines ∨ document.toOutline.Reachable .outlines node →
        document.HasDictionary node := by
    rintro node (rfl | hreached)
    · exact h
    · obtain ⟨id, rfl, hid⟩ := hasDictionary_of_reachable hreached
      exact hid
  refine ⟨?_, ?_, fun hnode => kind_of_linked (hscope hnode),
    fun hnode => kind_of_linked (hscope hnode), ?_⟩
  · intro entry hentry
    obtain ⟨items, hitems⟩ := exists_itemDestination (hscope (Or.inr hentry))
    exact ⟨_, result_destination hitems⟩
  · intro entry hentry
    obtain ⟨items, hitems⟩ := exists_itemDestination (hscope (Or.inr hentry))
    exact ⟨_, result_page hitems⟩
  · intro entry fault hentry hnext
    obtain ⟨id, rfl, hid⟩ := hasDictionary_of_reachable hentry
    exact kind_of_linked hid hnext

/-- A title that cannot be read is a reference that leads to no object. -/
theorem unreadable_of_titleFault {fault : Fault}
    (h : document.toOutline.TitleFault .outlines fault) :
    ∃ defect, document.Unreadable defect ∧ fault = defect.toFault := by
  obtain ⟨entry, hreached, htitle⟩ := h
  obtain ⟨id, rfl, entries, hentries⟩ := hasDictionary_of_reachable hreached
  change orFault (document.itemTitle (.item id)) = _ at htitle
  rcases hdefect : document.itemTitle (.item id) with defect | title
  · rw [hdefect] at htitle
    refine ⟨defect, ?_, (Except.error.inj htitle).symm⟩
    simp only [itemTitle, hentries, bind, Except.bind] at hdefect
    split at hdefect
    · cases hdefect
    · next value hvalue =>
      rcases Except.eq_error_of_bind hdefect with hresolve | ⟨object, _, hdefect⟩
      · exact .title hreached hentries hvalue (dangles_of_resolve hresolve)
      · split at hdefect <;> cases hdefect
  · rw [hdefect] at htitle
    cases htitle

/-! ## Readings -/

/-- What a reading of a document fails for. -/
theorem fault_of_read {fault : Fault} (hfails : document.FailsByAccess)
    (h : (document.outline.read settings).result = .error fault) :
    (∃ defect, document.Unreadable defect ∧ fault = .malformed defect.message) ∨
      Outline.StrictFault settings fault := by
  have hforest := Outline.readWithin_eq_error.1 (FiniteOutline.read_eq_error_iff_readWithin.1 h)
  rcases Outline.forestWithin_eq_fault hforest with
    hfault | ⟨root, hroot, hpages | ⟨pages, -, hwalk⟩⟩
  · change orFault document.outlineRoot = _ at hfault
    rcases hroot : document.outlineRoot with defect | root
    · rw [hroot] at hfault
      cases hfault
      have hdefect := unreadable_of_outlineRoot hroot
      exact Or.inl ⟨defect, hdefect, hdefect.toFault_eq hfails⟩
    · rw [hroot] at hfault
      cases hfault
  · cases hpages
  · change orFault document.outlineRoot = _ at hroot
    rcases hok : document.outlineRoot with defect | found
    · rw [hok] at hroot
      cases hroot
    rw [hok] at hroot
    cases hroot
    obtain ⟨rfl, hdictionary⟩ := hasDictionary_of_outlineRoot hok
    rcases (navigable hdictionary).walk_fault hwalk with hstrict | htitle
    · exact Or.inr hstrict
    · obtain ⟨defect, hdefect, rfl⟩ := unreadable_of_titleFault htitle
      exact Or.inl ⟨defect, hdefect, hdefect.toFault_eq hfails⟩

/-- Reading a document succeeds, or fails because the document is unreadable, or fails for damage,
the last of these only if the reader is strict. No array of a destination is read beyond its end. -/
theorem readContents_cases (document : Document) (hfails : document.FailsByAccess)
    (settings : Settings) :
    ((∃ contents, (document.readContents settings).result = .ok contents) ∨
      (∃ defect, document.Unreadable defect ∧
        (document.readContents settings).result = .error (.malformed defect.message)) ∨
      settings.tolerance = .strict ∧
        ∃ damage, (document.readContents settings).result = .error (.corrupted damage)) ∧
    ∀ items, destinationByPlace? items = some (destinationOf? items) := by
  refine ⟨?_, fun items => (Option.some_get _).symm⟩
  change (∃ contents, (document.outline.read settings).result = .ok contents) ∨
    (∃ defect, document.Unreadable defect ∧
      (document.outline.read settings).result = .error (.malformed defect.message)) ∨
    settings.tolerance = .strict ∧
      ∃ damage, (document.outline.read settings).result = .error (.corrupted damage)
  rcases hread : (document.outline.read settings).result with fault | contents
  · rcases fault_of_read hfails hread with ⟨defect, hdefect, rfl⟩ | ⟨hstrict, damage, rfl⟩
    · exact Or.inr (Or.inl ⟨defect, hdefect, rfl⟩)
    · exact Or.inr (Or.inr ⟨hstrict, damage, rfl⟩)
  · exact Or.inl ⟨contents, rfl⟩

end Document

/-! ## Stored objects -/

namespace Store

variable {store : Store}

theorem ofAccess_of_follow {limit : Nat} {object : Object} {defect : Defect}
    (h : store.follow limit object = .error defect) : defect.OfAccess := by
  induction limit generalizing object with
  | zero =>
      unfold follow at h
      split at h
      · split at h
        · cases h
          exact .missingObject
        · cases h
          exact .referenceLimit
      · cases h
  | succ limit ih =>
      unfold follow at h
      split at h
      · split at h
        · cases h
          exact .missingObject
        · exact ih h
      · cases h

theorem ofAccess_of_object {id : ObjectId} {defect : Defect}
    (h : store.object id = .error defect) : defect.OfAccess := by
  unfold object at h
  split at h
  · cases h
    exact .missingObject
  · exact ofAccess_of_follow h

theorem ofAccess_of_catalog {defect : Defect} (h : store.catalog = .error defect) :
    defect.OfAccess := by
  rcases Except.eq_error_of_bind h with h | ⟨root, _, h⟩
  · exact ofAccess_of_require h
  rcases Except.eq_error_of_bind h with h | ⟨id, _, h⟩
  · exact ofAccess_of_asReference h
  rcases Except.eq_error_of_bind h with h | ⟨object, _, h⟩
  · exact ofAccess_of_object h
  · exact ofAccess_of_asDictionary h

/-- From a store an object is given if it is there and of the right kind. -/
theorem failsByAccess_document (store : Store) : store.document.FailsByAccess where
  catalog := ofAccess_of_catalog
  object := ofAccess_of_object

end Store

/-- A store whose only entry refers to a title that is not there, next to broken links. -/
def untitledStore : Store where
  version := "1.5"
  trailer := [(ascii "Root", .reference ⟨1, 0⟩)]
  objects := .ofList [
    (⟨1, 0⟩, .dictionary [(ascii "Outlines", .reference ⟨2, 0⟩)]),
    (⟨2, 0⟩, .dictionary [(ascii "First", .reference ⟨3, 0⟩)]),
    (⟨3, 0⟩, .dictionary [(ascii "Title", .reference ⟨9, 0⟩), (ascii "Dest", .reference ⟨3, 0⟩),
      (ascii "Next", .reference ⟨8, 0⟩)])] ObjectId.order

/-- Even a lenient reader fails for the title, and for nothing else. -/
theorem readContents_untitled :
    untitledStore.document.FailsByAccess ∧
      (untitledStore.document.readContents { tolerance := .lenient }).result =
        .error (.malformed "A required object was not found") ∧
      ∃ defect, untitledStore.document.Unreadable defect ∧
        defect.message = "A required object was not found" := by
  have hfails := untitledStore.failsByAccess_document
  have hresult : (untitledStore.document.readContents { tolerance := .lenient }).result =
      .error (.malformed "A required object was not found") := by
    decide +kernel
  refine ⟨hfails, hresult, ?_⟩
  have hcases :=
    (Document.readContents_cases untitledStore.document hfails { tolerance := .lenient }).1
  rcases hcases with ⟨contents, hok⟩ | ⟨defect, hdefect, herror⟩ | ⟨hstrict, -⟩
  · cases hok.symm.trans hresult
  · exact ⟨defect, hdefect, Fault.malformed.inj (Except.error.inj (herror.symm.trans hresult))⟩
  · cases hstrict

end Pdf

end Bookmarks
