/-
# Destinations read back from their records

A destination is read back from the members of its record in any order, whatever other members stand
among them, with every coordinate that is infinite or a NaN made absent. The tag alone tells the
kinds apart, though their coordinates share names. So destinations whose coordinates are all finite
or absent are read back as they were, and no two of them have the same text (`legible`).

That a number is read back from its digits (`Binary32.ReadsBack`) is a matter of rounding, and is
asked of the coordinates here.
-/
import Bookmarks.Destination.Record
import Bookmarks.Proofs.Json.Decimals
import Bookmarks.Proofs.Json.RoundTrip
import Mathlib.Data.List.Nodup
import Mathlib.Data.List.Perm.Basic

namespace Bookmarks

/-- What is found under each name of a list is found under all of them. -/
theorem mapM_eq_some_map {α β γ : Type} {f : α → Option γ} {g : β → γ} {names : List α}
    {values : List β} (hlength : values.length = names.length)
    (h : ∀ pair ∈ names.zip values, f pair.1 = some (g pair.2)) :
    names.mapM f = some (values.map g) := by
  induction names generalizing values with
  | nil =>
      obtain rfl := List.eq_nil_of_length_eq_zero hlength
      rfl
  | cons name names ih =>
      obtain ⟨value, values, rfl⟩ := List.exists_cons_of_length_eq_add_one hlength
      rw [List.zip_cons_cons] at h
      have hvalues := ih (Nat.succ.inj hlength) fun pair hpair =>
        h pair (List.mem_cons_of_mem _ hpair)
      rw [List.mapM_cons, h (name, value) List.mem_cons_self, hvalues]
      rfl

namespace Destination

/-! ## Coordinates -/

/-- The destination with other coordinates. -/
def mapNumbers (f : Option Binary32 → Option Binary32) : Destination → Destination
  | .xyz left top zoom => .xyz (f left) (f top) (f zoom)
  | .fit => .fit
  | .fitH top => .fitH (f top)
  | .fitV left => .fitV (f left)
  | .fitR left bottom right top => .fitR (f left) (f bottom) (f right) (f top)
  | .fitB => .fitB
  | .fitBH top => .fitBH (f top)
  | .fitBV left => .fitBV (f left)

/-- The destination with every coordinate that is infinite or a NaN made absent. -/
def finitePart (destination : Destination) : Destination :=
  destination.mapNumbers (Option.filter Binary32.isFinite)

/-- Every coordinate is finite or absent. -/
def IsFinite (destination : Destination) : Prop :=
  ∀ number ∈ destination.numbers, ∀ x ∈ number, x.isFinite

/-- Every finite coordinate is read back from its digits. -/
def NumbersReadBack (destination : Destination) : Prop :=
  ∀ number ∈ destination.numbers, ∀ x ∈ number, x.isFinite → x.ReadsBack

instance (destination : Destination) : Decidable destination.NumbersReadBack :=
  inferInstanceAs (Decidable (∀ number ∈ destination.numbers, _))

/-- The kind of a destination and its coordinates make the destination. -/
theorem build_map_numbers (f : Option Binary32 → Option Binary32) (destination : Destination) :
    destination.recordKind.build (destination.numbers.map f) = destination.mapNumbers f := by
  cases destination <;> rfl

theorem length_numbers (destination : Destination) :
    destination.numbers.length = destination.recordKind.fields.length := by
  cases destination <;> rfl

theorem mapNumbers_congr {f g : Option Binary32 → Option Binary32} {destination : Destination}
    (h : ∀ number ∈ destination.numbers, f number = g number) :
    destination.mapNumbers f = destination.mapNumbers g := by
  rw [← build_map_numbers, ← build_map_numbers, List.map_congr_left h]

theorem mapNumbers_id (destination : Destination) : destination.mapNumbers id = destination := by
  cases destination <;> rfl

theorem IsFinite.finitePart_eq {destination : Destination} (h : destination.IsFinite) :
    destination.finitePart = destination := by
  refine Eq.trans (mapNumbers_congr fun number hnumber => ?_) (mapNumbers_id destination)
  cases number with
  | none => rfl
  | some x => exact Option.filter_some_pos (h _ hnumber x rfl)

/-- A coordinate is read back, unless it is infinite or a NaN. -/
theorem readCoordinate?_coordinateRecord {number : Option Binary32}
    (h : ∀ x ∈ number, x.isFinite → x.ReadsBack) :
    readCoordinate? (coordinateRecord number) = some (number.filter Binary32.isFinite) := by
  cases number with
  | none => rfl
  | some x =>
      by_cases hfinite : x.isFinite
      · have hread := h x rfl hfinite
        obtain ⟨numeral, hnumeral, hvalue⟩ := Option.bind_eq_some_iff.1 hread
        rw [coordinateRecord, Option.bind_some, hnumeral, Option.filter_some_pos hfinite]
        exact congrArg (Option.map some) hvalue
      · rw [coordinateRecord, Option.bind_some, Numeral.ofBinary32?, if_neg hfinite,
          Option.filter_some_neg (Bool.eq_false_iff.2 hfinite)]
        rfl

/-! ## Members in any order -/

namespace Kind

theorem ofTag?_tag (kind : Kind) : ofTag? kind.tag = some kind := by
  cases kind <;> decide

/-- No record names two things alike. -/
theorem nodup_keys (kind : Kind) : (kindKey :: kind.fields).Nodup := by
  cases kind <;> decide

end Kind

variable {destination : Destination} {own members extra : List (String × Json)}

/-- The members of a record in any order, with others among them that have nothing to do with its
kind. -/
structure Scatters (destination : Destination) (members extra : List (String × Json)) : Prop where
  perm : ∃ own, destination.record = .object own ∧ members.Perm (own ++ extra)
  foreign : ∀ member ∈ extra, member.1 ≠ kindKey ∧ member.1 ∉ destination.recordKind.fields

/-- The keys of a record are the one for the kind and those of its coordinates. -/
theorem nodup_keys_own (h : destination.record = .object own) : (own.map Prod.fst).Nodup := by
  cases h
  rw [List.map_cons, List.map_fst_zip]
  · exact Kind.nodup_keys _
  · rw [List.length_map, length_numbers]

/-- A member that no other one shares its key with is found wherever it stands, whatever is added
under other keys. -/
theorem member?_of_perm {key : String} {value : Json} (hperm : members.Perm (own ++ extra))
    (hnodup : (own.map Prod.fst).Nodup) (hmem : (key, value) ∈ own)
    (hextra : ∀ member ∈ extra, member.1 ≠ key) : member? members key = some (some value) := by
  have hown : (own.filter fun member => member.1 = key).Perm [(key, value)] := by
    refine (List.perm_ext_iff_of_nodup (hnodup.of_map.filter _) (List.nodup_singleton _)).2 ?_
    intro member
    rw [List.mem_filter, List.mem_singleton, decide_eq_true_iff]
    constructor
    · rintro ⟨hmember, hkey⟩
      exact List.inj_on_of_nodup_map hnodup hmember hmem hkey
    · rintro rfl
      exact ⟨hmem, rfl⟩
  have hnone : extra.filter (fun member => member.1 = key) = [] :=
    List.filter_eq_nil_iff.2 fun member hmember => by simpa using hextra member hmember
  have hfilter : (members.filter fun member => member.1 = key).Perm [(key, value)] := by
    refine (hperm.filter _).trans ?_
    rwa [List.filter_append, hnone, List.append_nil]
  rw [member?, List.perm_singleton.1 hfilter]

/-- The coordinates are read from scattered members. -/
theorem Scatters.mapM_readField? (h : destination.Scatters members extra)
    (hnumbers : destination.NumbersReadBack) :
    destination.recordKind.fields.mapM (readField? members) =
      some (destination.numbers.map (Option.filter Binary32.isFinite)) := by
  obtain ⟨own, hown, hperm⟩ := h.perm
  refine mapM_eq_some_map (length_numbers destination) ?_
  rintro ⟨field, number⟩ hpair
  have hmem : (field, coordinateRecord number) ∈ own := by
    cases hown
    rw [List.zip_map_right]
    exact List.mem_cons_of_mem _ (List.mem_map_of_mem hpair)
  have hfield := (List.of_mem_zip hpair).1
  have hmember := member?_of_perm hperm (nodup_keys_own hown) hmem fun member hmember hkey =>
    (h.foreign member hmember).2 (hkey ▸ hfield)
  have hread := readCoordinate?_coordinateRecord (hnumbers number (List.of_mem_zip hpair).2)
  rw [readField?, hmember]
  exact hread

/-- A destination is read from the scattered members of its record. -/
theorem Scatters.ofMembers?_eq (h : destination.Scatters members extra)
    (hnumbers : destination.NumbersReadBack) : ofMembers? members = some destination.finitePart := by
  obtain ⟨own, hown, hperm⟩ := h.perm
  have htag : (kindKey, .string destination.recordKind.tag) ∈ own := by
    cases hown
    exact List.mem_cons_self
  have hmember := member?_of_perm hperm (nodup_keys_own hown) htag fun member hmember =>
    (h.foreign member hmember).1
  have hkind : readKind? (.string destination.recordKind.tag) = some destination.recordKind :=
    Kind.ofTag?_tag _
  rw [ofMembers?, hmember]
  simp only [Option.bind_eq_bind, Option.bind_some, hkind, h.mapM_readField? hnumbers,
    build_map_numbers]
  rfl

theorem scatters_own (hown : destination.record = .object own) : destination.Scatters own [] where
  perm := ⟨own, hown, List.Perm.of_eq (List.append_nil own).symm⟩
  foreign _ h := absurd h List.not_mem_nil

/-! ## Texts -/

/-- A reader puts up with the value inside an object: the value is not nested too deeply, and every
number in it is a number that a double can hold. -/
def Readable (value : Json) : Prop :=
  value.depth < greatestDepth ∧ ∀ n ∈ value.numerals, n.toBinary32?.isSome

instance (value : Json) : Decidable (Readable value) :=
  inferInstanceAs (Decidable (_ ∧ _))

theorem greatestDepth_pos : 0 < greatestDepth := by decide

/-- A text that holds an object is read as the object, if the reader puts up with every value. -/
theorem read?_of_readable {text : String} (htext : Json.read text = some (.object members))
    (hreadable : ∀ member ∈ members, Readable member.2) : read? text = ofMembers? members := by
  have hdepth : (Json.object members).depth ≤ greatestDepth := by
    rw [Json.depth, Json.depthMembers_eq]
    refine Json.depthItems_lt greatestDepth_pos ?_
    rw [List.forall_mem_map]
    exact fun member hmember => (hreadable member hmember).1
  have hnumerals : (Json.object members).numerals.all fun n => n.toBinary32?.isSome := by
    rw [Json.numerals, Json.numeralsMembers_eq, Json.numeralsItems_eq, List.all_eq_true]
    intro n hn
    obtain ⟨value, hvalue, hmem⟩ := List.mem_flatMap.1 hn
    obtain ⟨member, hmember, rfl⟩ := List.mem_map.1 hvalue
    exact (hreadable member hmember).2 n hmem
  rw [read?, htext, Option.bind_eq_bind, Option.bind_some, hnumerals, decide_eq_true hdepth]
  rfl

/-- A coordinate is null or a number that is spelled as numbers are. -/
theorem coordinateRecord_eq (number : Option Binary32) :
    coordinateRecord number = .null ∨ ∃ x n, number = some x ∧ x.isFinite ∧
      Numeral.ofBinary32? x = some n ∧ coordinateRecord number = .number n ∧ n.Proper := by
  cases number with
  | none => exact Or.inl rfl
  | some x =>
      by_cases hfinite : x.isFinite
      · have hspell : Numeral.ofBinary32? x = some _ := if_pos hfinite
        refine Or.inr ⟨x, _, rfl, hfinite, hspell, ?_, DecimalLayout.proper_spell _ _ _⟩
        rw [coordinateRecord, Option.bind_some, hspell]
      · have hnone : Numeral.ofBinary32? x = none := if_neg hfinite
        rw [coordinateRecord, Option.bind_some, hnone]
        exact Or.inl rfl

theorem readable_coordinateRecord {number : Option Binary32}
    (h : ∀ x ∈ number, x.isFinite → x.ReadsBack) : Readable (coordinateRecord number) := by
  obtain hnull | ⟨x, n, rfl, hfinite, hspell, hrecord, -⟩ := coordinateRecord_eq number
  · rw [hnull]
    exact ⟨greatestDepth_pos, nofun⟩
  · have hread := h x rfl hfinite
    rw [Binary32.ReadsBack, hspell, Option.bind_some] at hread
    rw [hrecord]
    refine ⟨greatestDepth_pos, fun m hm => ?_⟩
    obtain rfl := List.mem_singleton.1 hm
    rw [hread]
    rfl

theorem proper_coordinateRecord (number : Option Binary32) : (coordinateRecord number).Proper := by
  obtain hnull | ⟨x, n, -, -, -, hrecord, hproper⟩ := coordinateRecord_eq number
  · rw [hnull]
    exact Json.proper_null
  · rw [hrecord]
    exact Json.proper_number.2 hproper

/-- A member of a record is the tag or a coordinate. -/
theorem mem_own (hown : destination.record = .object own) {member : String × Json}
    (hmember : member ∈ own) :
    member = (kindKey, .string destination.recordKind.tag) ∨
      ∃ number ∈ destination.numbers, member.2 = coordinateRecord number := by
  cases hown
  obtain rfl | hfield := List.mem_cons.1 hmember
  · exact Or.inl rfl
  · obtain ⟨key, value⟩ := member
    obtain ⟨number, hnumber, rfl⟩ := List.mem_map.1 (List.of_mem_zip hfield).2
    exact Or.inr ⟨number, hnumber, rfl⟩

theorem readable_own (hnumbers : destination.NumbersReadBack)
    (hown : destination.record = .object own) : ∀ member ∈ own, Readable member.2 := by
  intro member hmember
  obtain rfl | ⟨number, hnumber, hvalue⟩ := mem_own hown hmember
  · exact ⟨greatestDepth_pos, nofun⟩
  · rw [hvalue]
    exact readable_coordinateRecord (hnumbers number hnumber)

theorem proper_record (destination : Destination) : destination.record.Proper := by
  refine Json.proper_object.2 fun member hmember => ?_
  obtain rfl | ⟨number, -, hvalue⟩ := mem_own (rfl : destination.record = _) hmember
  · exact Json.proper_string _
  · rw [hvalue]
    exact proper_coordinateRecord number

theorem Scatters.read?_eq {text : String} (h : destination.Scatters members extra)
    (hnumbers : destination.NumbersReadBack) (htext : Json.read text = some (.object members))
    (hreadable : ∀ member ∈ extra, Readable member.2) :
    read? text = some destination.finitePart := by
  rw [read?_of_readable htext, h.ofMembers?_eq hnumbers]
  obtain ⟨own, hown, hperm⟩ := h.perm
  intro member hmember
  rcases List.mem_append.1 (hperm.subset hmember) with hmem | hmem
  · exact readable_own hnumbers hown member hmem
  · exact hreadable member hmem

theorem read?_write (hnumbers : destination.NumbersReadBack) :
    read? destination.write = some destination.finitePart :=
  (scatters_own rfl).read?_eq hnumbers (Json.read_write (proper_record destination) .compact)
    fun _ h => absurd h List.not_mem_nil

/-- A destination is read back from its record, as an object and as a text. -/
structure Legible (destination : Destination) : Prop where
  /-- The members of the record may be scattered. -/
  ofRecord?_eq : ∀ {members extra}, destination.Scatters members extra →
    ofRecord? (.object members) = some destination.finitePart
  /-- So may they in any text of the object, if the reader puts up with the other members. -/
  read?_eq : ∀ {members extra text}, destination.Scatters members extra →
    Json.read text = some (.object members) → (∀ member ∈ extra, Readable member.2) →
    read? text = some destination.finitePart
  /-- The text that is written is read, and nothing is lost if no coordinate is infinite or a
  NaN. -/
  read?_write : read? destination.write = some destination.finitePart ∧
    (destination.IsFinite → read? destination.write = some destination)
  /-- No two such destinations have the same text. -/
  write_inj : ∀ {other : Destination}, destination.IsFinite → other.IsFinite →
    other.NumbersReadBack → destination.write = other.write → destination = other

/-- Every destination is read back from its record, as long as its finite coordinates are read back
from their digits. -/
theorem legible (destination : Destination) (hnumbers : destination.NumbersReadBack) :
    destination.Legible := by
  have hexact : ∀ {destination : Destination}, destination.NumbersReadBack →
      destination.IsFinite → read? destination.write = some destination := by
    intro destination hnumbers hfinite
    rw [read?_write hnumbers, hfinite.finitePart_eq]
  refine
    { ofRecord?_eq := fun h => h.ofMembers?_eq hnumbers
      read?_eq := fun h => h.read?_eq hnumbers
      read?_write := ⟨read?_write hnumbers, hexact hnumbers⟩
      write_inj := ?_ }
  intro other hfinite hfinite' hnumbers' hwrite
  have hread := hexact hnumbers hfinite
  rw [hwrite, hexact hnumbers' hfinite'] at hread
  exact (Option.some.inj hread).symm

/-- A rectangle with one side absent, one that is a NaN and one that is infinite. -/
def sliver : Destination :=
  .fitR (some ⟨0x42910000⟩) (some .nan) none (some (.infinity true))

/-- The members of its record. -/
def sliverMembers : List (String × Json) :=
  [(kindKey, .string "fit_r"), ("left", coordinateRecord (some ⟨0x42910000⟩)), ("bottom", .null),
    ("right", .null), ("top", .null)]

/-- Members that no rectangle has: a coordinate of another kind, and another kind inside a note. -/
def strangeMembers : List (String × Json) :=
  [("zoom", Json.ofInt 2), ("note", .object [(kindKey, .array [.string "fit"])])]

/-- The members come in the opposite order, so that the tag is the last of all. -/
theorem legible_sliver :
    sliver.NumbersReadBack ∧
      ofRecord? (.object (sliverMembers ++ strangeMembers).reverse) =
        some (.fitR (some ⟨0x42910000⟩) none none none) ∧
      read? ((Json.object (sliverMembers ++ strangeMembers).reverse).write .pretty) =
        some (.fitR (some ⟨0x42910000⟩) none none none) := by
  have hnumbers : sliver.NumbersReadBack := by decide +kernel
  have hlegible := legible sliver hnumbers
  have hscatters : sliver.Scatters (sliverMembers ++ strangeMembers).reverse strangeMembers :=
    ⟨⟨sliverMembers, rfl, List.reverse_perm _⟩, by decide⟩
  have hreadable : ∀ member ∈ strangeMembers, Readable member.2 := by decide +kernel
  have hproper : (Json.object (sliverMembers ++ strangeMembers).reverse).Proper := by
    simp [sliverMembers, strangeMembers, proper_coordinateRecord, Json.proper_ofInt]
  have hfinite : sliver.finitePart = .fitR (some ⟨0x42910000⟩) none none none := by
    decide +kernel
  rw [← hfinite]
  exact ⟨hnumbers, hlegible.ofRecord?_eq hscatters,
    hlegible.read?_eq hscatters (Json.read_write hproper .pretty) hreadable⟩

end Destination

end Bookmarks
