/-
# Names in trees

A tree of names is searched depth first, and the search of a node can end early: at a name that it
finds, at pairs that are no array, at a depth limit. What it finds is nevertheless what one scan of
a flat list finds, that of the pairs of a node in their order and of all its children in turn
(`Document.pairs`). So a broken child hides no name but its own, and in a sound tree that is not too
high every name is found (`Document.findName_eq_scan`).
-/
import Bookmarks.Pdf.NamedDestination
import Bookmarks.Pdf.PageTree

namespace Bookmarks.Pdf

/-! ## Dictionaries put together -/

namespace Dictionary

variable {key : Bytes}

theorem value?_append (first second : Dictionary) :
    value? (first ++ second) key = (value? first key).or (value? second key) := by
  rw [value?, List.find?_append, Option.map_or]
  rfl

theorem value?_flatMap {α : Type} (entries : α → Dictionary) (sources : List α) :
    value? (sources.flatMap entries) key =
      sources.findSome? fun source => value? (entries source) key := by
  rw [value?, List.find?_flatMap, List.map_findSome?]
  rfl

theorem value?_eq_none_iff {entries : Dictionary} :
    value? entries key = none ↔ ∀ entry ∈ entries, entry.1 ≠ key := by
  simp [value?]

theorem mem_of_value?_eq_some {entries : Dictionary} {value : Object}
    (h : value? entries key = some value) : (key, value) ∈ entries := by
  obtain ⟨entry, hentry, rfl⟩ := Option.map_eq_some_iff.1 h
  have hkey : entry.1 = key := by simpa using List.find?_some hentry
  rw [← hkey]
  exact List.mem_of_find?_eq_some hentry

end Dictionary

namespace Document

section Pairs

variable (document : Document)

/-- Items two by two. A last item without a partner is left out. -/
def inPairs : List Object → List (Object × Object)
  | key :: value :: rest => (key, value) :: inPairs rest
  | _ => []

/-- The entry that a key and a value make, if the key stands for a string. -/
def entryOf? (pair : Object × Object) : Option (Bytes × Object) :=
  match document.resolve pair.1 with
  | .ok (.string key) => some (key, pair.2)
  | _ => none

/-- The pairs of a node itself, which cannot be told if what should be their array is not one. -/
def ownPairs? (node : Dictionary) : Option Dictionary :=
  match node.get? "Names" with
  | none => some []
  | some names =>
      (document.array? names).map fun items => (inPairs items).filterMap document.entryOf?

/-- The dictionaries among the children of a node. -/
def childNodes (node : Dictionary) : List Dictionary :=
  (((node.get? "Kids").bind document.array?).getD []).filterMap document.dictionary?

/-- All pairs of a tree down to so many levels, those of a node before those of its children. A node
whose own pairs cannot be told has no pairs at all. -/
def pairs : Nat → Dictionary → Dictionary
  | 0, _ => []
  | levels + 1, node =>
      match document.ownPairs? node with
      | none => []
      | some own => own ++ (document.childNodes node).flatMap (pairs levels)

/-- A pair is kept somewhere in a tree, at whatever depth. -/
inductive Keeps : Dictionary → Bytes → Object → Prop where
  | here {node own : Dictionary} {key : Bytes} {value : Object}
      (hown : document.ownPairs? node = some own) (hmem : (key, value) ∈ own) : Keeps node key value
  | inChild {node child : Dictionary} {key : Bytes} {value : Object}
      (hchild : child ∈ document.childNodes node) (hkeeps : Keeps child key value) :
      Keeps node key value

/-- A tree of names that is sound and no higher than so many levels: the pairs of each node are an
array, and its children are such trees themselves. -/
inductive IsNameTree : Nat → Dictionary → Prop where
  | node {levels : Nat} {node own : Dictionary} (hown : document.ownPairs? node = some own)
      (hchildren : ∀ child ∈ document.childNodes node, IsNameTree levels child) :
      IsNameTree (levels + 1) node

end Pairs

/-! ## The search -/

variable {ε : Type} {document : Document} {name : Bytes}

theorem findPair_eq (items : List Object) :
    document.findPair name items =
      Dictionary.value? ((inPairs items).filterMap document.entryOf?) name := by
  fun_induction inPairs items with
  | case1 key value rest ih =>
      rw [findPair, ih]
      split
      · next found hkey =>
        have hentry : document.entryOf? (key, value) = some (found, value) := by
          rw [entryOf?, hkey]
        rw [List.filterMap_cons_some hentry]
        by_cases hfound : found = name <;> simp [Dictionary.value?, hfound]
      · next hkey =>
        have hentry : document.entryOf? (key, value) = none := by
          rw [entryOf?]
          split
          · next found hfound => exact absurd hfound (hkey found)
          · rfl
        rw [List.filterMap_cons_none hentry]
  | case2 items hitems =>
      rw [findPair]
      · rfl
      · exact hitems

theorem result_findFirst {search : Dictionary → Noted ε (Option Object)}
    {value : Dictionary → Option Object}
    (hsearch : ∀ node, (search node).result = .ok (value node)) (nodes : List Dictionary) :
    (findFirst search nodes).result = .ok (nodes.findSome? value) := by
  induction nodes with
  | nil => rfl
  | cons node nodes ih =>
      rw [findFirst, List.findSome?_cons, Noted.result_bind_eq_ok]
      refine ⟨value node, hsearch node, ?_⟩
      cases value node with
      | none => exact ih
      | some found => rfl

/-- A search down to some depth finds what a scan of the pairs down to that depth finds. -/
theorem result_findName (levels : Nat) (node : Dictionary) :
    (document.findName name levels node : Noted ε (Option Object)).result =
      .ok (Dictionary.value? (document.pairs levels node) name) := by
  induction levels generalizing node with
  | zero => rfl
  | succ levels ih =>
      have hbelow := result_findFirst ih (document.childNodes node)
      rw [← Dictionary.value?_flatMap] at hbelow
      rw [findName, pairs, ownPairs?]
      cases node.get? "Names" with
      | none => exact hbelow
      | some names =>
          dsimp only
          cases document.array? names with
          | none => rfl
          | some items =>
              dsimp only [Option.map_some]
              rw [findPair_eq, Dictionary.value?_append]
              -- The children are searched only for a name that the node itself does not have.
              cases Dictionary.value? ((inPairs items).filterMap document.entryOf?) name with
              | none => exact hbelow
              | some value => rfl

/-! ## What a tree keeps -/

theorem keeps_of_mem_pairs {levels : Nat} {node : Dictionary} {key : Bytes} {value : Object}
    (h : (key, value) ∈ document.pairs levels node) : document.Keeps node key value := by
  induction levels generalizing node with
  | zero => cases h
  | succ levels ih =>
      rw [pairs] at h
      split at h
      · cases h
      · next own hown =>
        obtain hmem | hmem := List.mem_append.1 h
        · exact .here hown hmem
        · obtain ⟨child, hchild, hmem⟩ := List.mem_flatMap.1 hmem
          exact .inChild hchild (ih hmem)

/-- In a sound tree the pairs are all that is kept. -/
theorem IsNameTree.mem_pairs {levels : Nat} {node : Dictionary}
    (h : document.IsNameTree levels node) {key : Bytes} {value : Object}
    (hkeeps : document.Keeps node key value) : (key, value) ∈ document.pairs levels node := by
  induction h with
  | node hown hchildren ih =>
      rw [pairs, hown, List.mem_append]
      cases hkeeps with
      | here hown' hmem =>
          rw [hown, Option.some.injEq] at hown'
          subst hown'
          exact Or.inl hmem
      | inChild hchild hkeeps =>
          exact Or.inr (List.mem_flatMap.2 ⟨_, hchild, ih _ hchild hkeeps⟩)

/-- The search of a tree of names ends, and finds what one scan of all its pairs finds: the value of
the first one with the name, if there is one. So in a sound tree that is not higher than the search
goes, every name that is kept somewhere is found. -/
theorem findName_eq_scan (document : Document) (tree : Dictionary) (name : Bytes) :
    (document.findName name nameDepth tree : Noted ε (Option Object)).result =
      .ok (((document.pairs nameDepth tree).find? fun pair => pair.1 = name).map Prod.snd) ∧
    ((document.findName name nameDepth tree : Noted ε (Option Object)).result = .ok none ↔
      ∀ pair ∈ document.pairs nameDepth tree, pair.1 ≠ name) ∧
    (document.IsNameTree nameDepth tree → ∀ value, document.Keeps tree name value →
      ∃ found, (document.findName name nameDepth tree : Noted ε (Option Object)).result =
        .ok (some found) ∧ document.Keeps tree name found) := by
  have hscan : (document.findName name nameDepth tree : Noted ε (Option Object)).result = _ :=
    result_findName nameDepth tree
  refine ⟨hscan, ?_, fun htree value hkeeps => ?_⟩
  · rw [hscan, Except.ok.injEq, Dictionary.value?_eq_none_iff]
  · cases hfound : Dictionary.value? (document.pairs nameDepth tree) name with
    | none =>
        have hmem := htree.mem_pairs hkeeps
        exact absurd rfl (Dictionary.value?_eq_none_iff.1 hfound _ hmem)
    | some found =>
        rw [hfound] at hscan
        exact ⟨found, hscan, keeps_of_mem_pairs (Dictionary.mem_of_value?_eq_some hfound)⟩

end Document

/-! ## A tree of names -/

/-- The names of an atlas, in two leaves at different heights below the root. Another node leads
back to itself and to the root, and to an object that is not there. -/
def atlas : Document := Store.document {
  version := "1.5"
  trailer := []
  objects := .ofList [
    (⟨1, 0⟩, .dictionary [(ascii "Kids", .array [.reference ⟨2, 0⟩, .reference ⟨3, 0⟩])]),
    (⟨2, 0⟩, .dictionary [(ascii "Names", .array [.string (ascii "Coast"), .integer 3])]),
    (⟨3, 0⟩, .dictionary [(ascii "Kids", .array [.reference ⟨4, 0⟩])]),
    (⟨4, 0⟩, .dictionary [(ascii "Names",
      .array [.string (ascii "Harbour"), .integer 5, .string (ascii "Island")])]),
    (⟨5, 0⟩, .dictionary [(ascii "Kids",
      .array [.reference ⟨5, 0⟩, .reference ⟨9, 0⟩, .reference ⟨1, 0⟩])])] ObjectId.order }

/-- The root of the names of the atlas. -/
def atlasNames : Dictionary :=
  [(ascii "Kids", .array [.reference ⟨2, 0⟩, .reference ⟨3, 0⟩])]

/-- The harbour is kept two levels below the root, and found there. -/
theorem findName_atlas :
    atlas.IsNameTree nameDepth atlasNames ∧
      atlas.Keeps atlasNames (ascii "Harbour") (.integer 5) ∧
      ∃ found, (atlas.findName (ascii "Harbour") nameDepth atlasNames :
        Noted Fault (Option Object)).result = .ok (some found) ∧
        atlas.Keeps atlasNames (ascii "Harbour") found := by
  have hleaf : ∀ {levels node own}, atlas.ownPairs? node = some own →
      atlas.childNodes node = [] → atlas.IsNameTree (levels + 1) node :=
    fun hown hchildren => .node hown (by simp [hchildren])
  have hharbour : ∀ child ∈ atlas.childNodes [(ascii "Kids", .array [.reference ⟨4, 0⟩])],
      atlas.IsNameTree 31 child :=
    List.forall_mem_singleton.2 (hleaf rfl rfl)
  have htree : atlas.IsNameTree nameDepth atlasNames :=
    .node rfl (List.forall_mem_cons.2 ⟨hleaf rfl rfl,
      List.forall_mem_singleton.2 (.node rfl hharbour)⟩)
  have hkeeps : atlas.Keeps atlasNames (ascii "Harbour") (.integer 5) :=
    .inChild (.tail _ (.head _)) (.inChild (.head _) (.here rfl (.head _)))
  exact ⟨htree, hkeeps, (atlas.findName_eq_scan atlasNames _).2.2 htree _ hkeeps⟩

/-- A circle and a gap in a tree do not keep a name from being found. -/
example : (atlas.findName (ascii "Coast") nameDepth
    [(ascii "Kids", .array [.reference ⟨5, 0⟩])] : Noted Fault (Option Object)).result =
      .ok (some (.integer 3)) := rfl

end Bookmarks.Pdf
