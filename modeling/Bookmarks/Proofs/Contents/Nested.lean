/-
# The nested form of a table of contents

The nested form of a table says everything about it. In either layout its text is read back as one
and the same value; in that value each section is an object of its members and of the objects of its
children (`Encodes`); and the table is rebuilt from the value (`Contents.ofRecord?`), so that two
tables with the same text are equal (`readWithin_record`).
-/
import Bookmarks.Contents.Record
import Bookmarks.Proofs.Contents.Numbering
import Bookmarks.Proofs.Json.RoundTrip
import Bookmarks.Proofs.Walk.Likeness

namespace Bookmarks

variable {ν : Type}

/-! ## Every number is an integer -/

theorem Section.proper_members (s : Section) : ∀ member ∈ s.members, member.2.Proper := by
  simp [Section.members, Json.proper_ofInt]

/-- A section without those below it, and with some values for them. -/
theorem Section.proper_append_children (s : Section) {items : List Json}
    (hitems : ∀ item ∈ items, item.Proper) :
    (Json.object (s.members ++ [("children", .array items)])).Proper := by
  rw [Json.proper_object]
  intro member hmember
  rcases List.mem_append.1 hmember with hown | hchildren
  · exact s.proper_members member hown
  · obtain rfl := List.mem_singleton.1 hchildren
    exact Json.proper_array.2 hitems

theorem Contents.proper_nest (contents : Contents) (depth : Nat) (s : Section) :
    (contents.nest depth s).Proper := by
  induction depth generalizing s with
  | zero => exact s.proper_append_children fun _ h => absurd h List.not_mem_nil
  | succ depth ih =>
      refine s.proper_append_children fun item hitem => ?_
      obtain ⟨child, -, rfl⟩ := List.mem_map.1 hitem
      exact ih child

theorem Contents.proper_record (contents : Contents) : contents.record.Proper :=
  contents.proper_nest contents.size contents.root

/-! ## The objects of a forest -/

/-- The members of a section without those below it. -/
def Heading.members (heading : Heading) (level : Int) : List (String × Json) :=
  [("title", .string heading.title),
    ("level", Json.ofInt level),
    ("start_page_number", Json.ofInt heading.startPage),
    ("end_page_number", Json.ofInt heading.endPage),
    ("position", Json.ofInt heading.position)]

/-- The objects of a forest whose top entries stand at a level. -/
def Forest.records (level : Int) : Forest ν → List Json
  | .nil => []
  | .cons _ heading below after =>
      .object (heading.members level ++ [("children", .array (below.records (level + 1)))])
        :: after.records level

mutual

/-- The heading of an object and what is below it. -/
def Forest.ofRecord? : Json → Option (Heading × Forest Unit)
  | .object [("title", .string title), ("level", .number _), ("start_page_number", .number start),
      ("end_page_number", .number stop), ("position", .number position),
      ("children", .array items)] => do
      let startPage ← start.toInt?
      let endPage ← stop.toInt?
      let position ← position.toInt?
      let below ← Forest.ofRecords? items
      some (⟨title, startPage, endPage, position⟩, below)
  | _ => none

/-- The forest of objects in a row. -/
def Forest.ofRecords? : List Json → Option (Forest Unit)
  | [] => some .nil
  | item :: items => do
      let (heading, below) ← Forest.ofRecord? item
      let after ← Forest.ofRecords? items
      some (.cons () heading below after)

end

theorem Forest.ofRecord?_object {heading : Heading} {level : Int} {items : List Json}
    {below : Forest Unit} (hbelow : ofRecords? items = some below) :
    ofRecord? (.object (heading.members level ++ [("children", .array items)])) =
      some (heading, below) := by
  simp only [Heading.members, Json.ofInt, List.cons_append, List.nil_append]
  rw [ofRecord?, hbelow, Numeral.toInt?_ofInt, Numeral.toInt?_ofInt, Numeral.toInt?_ofInt]
  rfl

/-- A forest is read back from its objects, but for its nodes. -/
theorem Forest.exists_ofRecords? (forest : Forest ν) (level : Int) :
    ∃ bare, ofRecords? (forest.records level) = some bare ∧
      forest.Alike (fun _ _ => True) bare := by
  induction forest generalizing level with
  | nil => exact ⟨.nil, rfl, .nil⟩
  | cons node heading below after ihBelow ihAfter =>
      obtain ⟨below', hbelow, hbelowAlike⟩ := ihBelow (level + 1)
      obtain ⟨after', hafter, hafterAlike⟩ := ihAfter level
      refine ⟨.cons () heading below' after', ?_, .cons trivial hbelowAlike hafterAlike⟩
      rw [records, ofRecords?, ofRecord?_object hbelow, hafter]
      rfl

namespace Contents

variable {contents : Contents}

/-- A value encodes the section of a number: it is an object of the section's title, level, span
and position and of an array that encodes its children, each at its place. -/
inductive Encodes (contents : Contents) : Nat → Json → Prop where
  | intro {number : Nat} {s : Section} {items : List Json}
      (hs : contents.get? number = some s)
      (hitems : List.Forall₂ (Encodes contents) s.children items) :
      Encodes contents number (.object [("title", .string s.title), ("level", Json.ofInt s.level),
        ("start_page_number", Json.ofInt s.startPage), ("end_page_number", Json.ofInt s.endPage),
        ("position", Json.ofInt s.position), ("children", .array items)])

namespace Lays

variable {sources : Nat → Option ν} {parent start : Nat} {level : Int} {forest : Forest ν}

/-- Nesting goes down through a forest, no less deep than it is large. -/
theorem map_nest (h : contents.Lays sources parent level start forest) {depth : Nat}
    (hdepth : forest.size ≤ depth) :
    ((forest.topNumbers start).filterMap contents.get?).map (contents.nest depth) =
      forest.records level := by
  induction forest generalizing parent level start depth with
  | nil => rfl
  | cons node heading below after ihBelow ihAfter =>
      simp only [Forest.size] at hdepth
      obtain ⟨depth, rfl⟩ : ∃ smaller, depth = smaller + 1 := ⟨depth - 1, by omega⟩
      have hbelow : ((below.topNumbers (start + 1)).filterMap contents.get?).map
          (contents.nest depth) = _ := ihBelow h.down (by omega)
      have hafter : ((after.topNumbers (start + below.size + 1)).filterMap contents.get?).map
          (contents.nest (depth + 1)) = _ := ihAfter h.along (by omega)
      rw [Forest.topNumbers, List.filterMap_cons_some h.get?_head, List.map_cons, hafter, nest,
        children, hbelow, Forest.records]
      rfl

/-- The objects of a forest encode its top entries. -/
theorem encodes (h : contents.Lays sources parent level start forest) :
    List.Forall₂ contents.Encodes (forest.topNumbers start) (forest.records level) := by
  induction forest generalizing parent level start with
  | nil => exact .nil
  | cons node heading below after ihBelow ihAfter =>
      exact .cons (.intro h.get?_head (ihBelow h.down)) (ihAfter h.along)

end Lays

/-- The table that a nested object describes. -/
def ofRecord? (value : Json) : Option Contents := do
  let (heading, forest) ← Forest.ofRecord? value
  some (ofForest heading.title heading.endPage forest)

section OfForest

variable (title : String) (pageCount : Int) (forest : Forest ν)

theorem record_ofForest :
    (ofForest title pageCount forest).record =
      .object ((⟨title, 1, pageCount, 0⟩ : Heading).members (-1) ++
        [("children", .array (forest.records 0))]) := by
  have hlays := lays_ofForest_nodes title pageCount forest
  rw [record, size_ofForest, root_ofForest, nest, children, rootSection,
    hlays.map_nest (Nat.le_refl _)]
  rfl

theorem encodes_ofForest :
    (ofForest title pageCount forest).Encodes 0 (ofForest title pageCount forest).record := by
  have hlays := lays_ofForest_nodes title pageCount forest
  rw [record_ofForest]
  exact .intro (get?_ofForest_zero title pageCount forest) hlays.encodes

theorem ofRecord?_ofForest :
    ofRecord? (ofForest title pageCount forest).record =
      some (ofForest title pageCount forest) := by
  obtain ⟨bare, hbare, halike⟩ := forest.exists_ofRecords? 0
  rw [record_ofForest, ofRecord?, Forest.ofRecord?_object hbare, halike.ofForest_eq]
  rfl

end OfForest

end Contents

/-! ## The record of a table that was read from an outline -/

section Reading

variable {π : Type} [DecidableEq ν] [BEq π] [Hashable π] {outline : Outline ν π}
  {settings : Settings} {fuel : Nat} {contents : Contents}

theorem Outline.ofRecord?_readWithin
    (h : (outline.readWithin settings fuel).result = .ok contents) :
    Contents.ofRecord? contents.record = some contents := by
  obtain ⟨forest, -, rfl⟩ := readWithin_yields h
  exact Contents.ofRecord?_ofForest _ _ forest

/-- Whatever outline a table of contents is read from, both texts of its nested form are read back
as one value. That value encodes the sections, each by its members and the encodings of its
children, and the table is rebuilt from it; so a table with the same text in some layout is the same
table. -/
theorem Outline.readWithin_record
    (h : (outline.readWithin settings fuel).result = .ok contents) :
    (∀ layout, Json.read (contents.record.write layout) = some contents.record) ∧
      contents.Encodes 0 contents.record ∧
      Contents.ofRecord? contents.record = some contents ∧
      ∀ {μ ρ : Type} [DecidableEq μ] [BEq ρ] [Hashable ρ] (second : Outline μ ρ)
        (settings' : Settings) (fuel' : Nat) (other : Contents) (layout layout' : Layout),
        (second.readWithin settings' fuel').result = .ok other →
        contents.record.write layout = other.record.write layout' → contents = other := by
  refine ⟨Json.read_write contents.proper_record, ?encodes, ofRecord?_readWithin h, ?same⟩
  case encodes =>
    obtain ⟨forest, -, rfl⟩ := readWithin_yields h
    exact Contents.encodes_ofForest _ _ forest
  case same =>
    intro μ ρ _ _ _ second settings' fuel' other layout layout' hother htext
    have hrecord : contents.record = other.record :=
      Json.write_inj contents.proper_record other.proper_record htext
    have hrebuilt := ofRecord?_readWithin h
    rw [hrecord, ofRecord?_readWithin hother] at hrebuilt
    exact (Option.some.inj hrebuilt).symm

end Reading

/-- A chapter whose title needs escapes, a section of it whose title lies past the first plane, and
a chapter without a title. -/
def scribbles : OutlineTable where
  pageCount := 7
  root := .ok (some 0)
  pages := .ok ["p1", "p2"]
  rows := [
    (0, { first := .ok (some 1) }),
    (1, { first := .ok (some 2), next := .ok (some 3), title := .ok "\"Back\\slash\"\t\x01",
          page := .ok (some "p1") }),
    (2, { title := .ok "😀" }),
    (3, { page := .ok (some "p2") })]

/-- The texts of the scribbles are read back as one value, and the table is rebuilt from it. -/
theorem record_scribbles :
    ∃ contents, (scribbles.toOutline.readWithin { tolerance := .lenient } 3).result = .ok contents ∧
      (∀ layout, Json.read (contents.record.write layout) = some contents.record) ∧
      contents.Encodes 0 contents.record ∧ Contents.ofRecord? contents.record = some contents := by
  have hforest : (scribbles.toOutline.forestWithin { tolerance := .lenient } 3).result =
      .ok (.cons 1 ⟨"\"Back\\slash\"\t\x01", 1, 2, 0⟩ (.cons 2 ⟨"😀", -1, 7, 0⟩ .nil .nil)
        (.cons 3 ⟨"", 2, 7, 0⟩ .nil .nil)) := by
    simp only [Outline.forestWithin, PageIndex.number?_ofList]
    decide +kernel
  have hread := Outline.readWithin_eq_ok.2 ⟨_, hforest, rfl⟩
  obtain ⟨htexts, hencodes, hrebuilt, -⟩ := Outline.readWithin_record hread
  exact ⟨_, hread, htexts, hencodes, hrebuilt⟩

end Bookmarks
