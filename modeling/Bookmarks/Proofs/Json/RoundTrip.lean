/-
# Reading what was written

A JSON text is read back as the value that it was written from, in either layout (`read_write`): its
strings character by character, its numbers as they are spelled, its arrays and objects with every
item in its place. Nothing is asked of a value but that its numbers are spelled as numbers are, and
integers always are. So no two such values have the same text.
-/
import Bookmarks.Proofs.Json.Tokens

namespace Bookmarks

/-! ## Blanks and brackets -/

theorem stops_comma (text : List Char) : Stops (',' :: text) := by
  rintro _ ⟨⟩
  decide

namespace Layout

variable (layout : Layout) (depth : Nat)

theorem isBlank_newline : ∀ c ∈ layout.newline depth, Json.isBlank c := by
  intro c hc
  cases layout with
  | compact => exact absurd hc List.not_mem_nil
  | pretty =>
      rcases List.mem_cons.1 hc with rfl | hspace
      · rfl
      · rw [List.eq_of_mem_replicate hspace]
        rfl

theorem skipBlanks_newline (text : List Char) :
    Json.skipBlanks (layout.newline depth ++ text) = Json.skipBlanks text :=
  List.dropWhile_append_of_pos (layout.isBlank_newline depth)

/-- A number does not go on with the next line, nor with what the next line begins with. -/
theorem stops_newline {c : Char} (text : List Char)
    (hc : c.isDigit = false ∧ c ≠ '.' ∧ c ≠ 'e' ∧ c ≠ 'E') :
    Stops (layout.newline depth ++ c :: text) := by
  cases layout with
  | compact =>
      rintro _ ⟨⟩
      exact hc
  | pretty =>
      rintro _ ⟨⟩
      decide

/-- The parts that follow the first one between brackets. -/
def others (layout : Layout) (depth : Nat) (parts : List (List Char)) : List Char :=
  parts.flatMap fun part => ',' :: (layout.newline (depth + 1) ++ part)

theorem exists_enclose (opening closing : Char) (parts : List (List Char)) :
    ∃ text, layout.enclose depth opening closing parts = opening :: text := by
  cases parts <;> exact ⟨_, rfl⟩

theorem length_enclose_pos (opening closing : Char) (parts : List (List Char)) :
    0 < (layout.enclose depth opening closing parts).length := by
  obtain ⟨text, htext⟩ := layout.exists_enclose depth opening closing parts
  rw [htext]
  exact Nat.succ_pos _

theorem enclose_cons (opening closing : Char) (first : List Char) (parts : List (List Char))
    (rest : List Char) :
    layout.enclose depth opening closing (first :: parts) ++ rest =
      opening :: (layout.newline (depth + 1) ++ (first ++ (layout.others depth parts ++
        (layout.newline depth ++ closing :: rest)))) := by
  simp only [enclose, others, List.append_assoc, List.cons_append, List.nil_append]

theorem others_nil : layout.others depth [] = [] := rfl

theorem others_cons (part : List Char) (parts : List (List Char)) (rest : List Char) :
    layout.others depth (part :: parts) ++ rest =
      ',' :: (layout.newline (depth + 1) ++ (part ++ (layout.others depth parts ++ rest))) := by
  simp only [others, List.flatMap_cons, List.append_assoc, List.cons_append]

/-- The blanks between a colon and the value that comes after it. -/
def gap (layout : Layout) : List Char :=
  layout.colon.tail

theorem colon_eq : layout.colon = ':' :: layout.gap := by
  cases layout <;> rfl

theorem isBlank_gap : ∀ c ∈ layout.gap, Json.isBlank c := by
  intro c hc
  cases layout with
  | compact => exact absurd hc List.not_mem_nil
  | pretty =>
      obtain rfl := List.mem_singleton.1 hc
      rfl

theorem member_eq (key : String) (value rest : List Char) :
    (Json.quote key ++ layout.colon ++ value) ++ rest =
      '"' :: (key.toList.flatMap Json.escapeChar ++
        '"' :: ':' :: (layout.gap ++ (value ++ rest))) := by
  simp only [Json.quote, colon_eq, List.append_assoc, List.cons_append, List.nil_append]

theorem length_le_length_others (parts : List (List Char)) :
    parts.length ≤ (layout.others depth parts).length := by
  induction parts with
  | nil => exact Nat.zero_le _
  | cons part parts ih =>
      rw [others, List.flatMap_cons, ← others, List.length_append, List.length_cons,
        List.length_cons]
      omega

theorem length_lt_length_enclose (opening closing : Char) {part : List Char}
    {parts : List (List Char)} (h : part ∈ parts) :
    part.length < (layout.enclose depth opening closing parts).length := by
  cases parts with
  | nil => exact absurd h List.not_mem_nil
  | cons first parts =>
      have hothers : part.length ≤ (first ++ layout.others depth parts).length := by
        rw [List.length_append]
        rcases List.mem_cons.1 h with rfl | hmem
        · omega
        · have hsub : part.Sublist (layout.others depth parts) := by
            refine List.Sublist.trans ?_ (List.sublist_flatten_of_mem (List.mem_map_of_mem hmem))
            exact (List.sublist_append_right _ part).cons _
          have hlength := hsub.length_le
          omega
      have henclose :=
        congrArg List.length (layout.enclose_cons depth opening closing first parts [])
      simp only [List.length_append, List.length_cons, List.length_nil] at henclose hothers
      omega

end Layout

namespace Json

variable {layout : Layout} {depth : Nat}

theorem skipBlanks_cons {c : Char} (hc : isBlank c = false) (text : List Char) :
    skipBlanks (c :: text) = c :: text :=
  List.dropWhile_cons_of_neg (by simp [hc])

/-- Blanks before a value do not matter. -/
theorem readValue_append {blanks : List Char} (hblanks : ∀ c ∈ blanks, isBlank c) (bound : Nat)
    (text : List Char) : readValue bound (blanks ++ text) = readValue bound text := by
  cases bound with
  | zero => rfl
  | succ bound =>
      have hskip : skipBlanks (blanks ++ text) = skipBlanks text :=
        List.dropWhile_append_of_pos hblanks
      rw [readValue, hskip, ← readValue]

/-! ## How values begin -/

/-- The numbers of the value are spelled the way that JSON spells numbers. -/
def Proper (value : Json) : Prop :=
  ∀ n ∈ value.numerals, n.Proper

theorem isBlank_of_isDigit {c : Char} (hc : c.isDigit) : isBlank c = false := by
  simp only [isBlank, Bool.or_eq_false_iff, decide_eq_false_iff_not]
  refine ⟨⟨⟨?_, ?_⟩, ?_⟩, ?_⟩
  all_goals
    rintro rfl
    exact absurd hc (by decide)

/-- The first character of a number. -/
theorem exists_spell_numeral {n : Numeral} (hn : n.Proper) :
    ∃ c text, n.spell = c :: text ∧ (c = '-' ∨ c.isDigit) := by
  rw [Numeral.spell_eq]
  cases hnegative : n.negative with
  | true => exact ⟨'-', _, rfl, .inl rfl⟩
  | false =>
      cases hwhole : n.whole with
      | nil => exact absurd hwhole hn.whole_ne_nil
      | cons c whole => exact ⟨c, _, rfl, .inr (hn.isDigit_whole c (by simp [hwhole]))⟩

/-- No value begins with a blank or with the end of an array or object. -/
theorem exists_spell (layout : Layout) (depth : Nat) {value : Json} (hvalue : value.Proper) :
    ∃ c text, value.spell layout depth = c :: text ∧ isBlank c = false ∧ c ≠ ']' ∧ c ≠ '\x7d' := by
  cases value with
  | null => exact ⟨_, _, rfl, by decide⟩
  | bool value => cases value <;> exact ⟨_, _, rfl, by decide⟩
  | string value => exact ⟨_, _, rfl, by decide⟩
  | array items =>
      obtain ⟨text, htext⟩ :=
        layout.exists_enclose depth '[' ']' (spellItems layout (depth + 1) items)
      exact ⟨_, text, htext, by decide⟩
  | object members =>
      obtain ⟨text, htext⟩ :=
        layout.exists_enclose depth '\x7b' '\x7d' (spellMembers layout (depth + 1) members)
      exact ⟨_, text, htext, by decide⟩
  | number n =>
      obtain ⟨c, text, htext, hc⟩ := exists_spell_numeral (hvalue n (List.mem_singleton.2 rfl))
      refine ⟨c, text, htext, ?_⟩
      rcases hc with rfl | hdigit
      · decide
      · refine ⟨isBlank_of_isDigit hdigit, ?_, ?_⟩
        all_goals
          rintro rfl
          exact absurd hdigit (by decide)

/-! ## Items and members -/

/-- The reader gets a value back from where it is spelled, after any blanks. -/
def Reads (value : List Char → Option (Json × List Char)) (layout : Layout) (depth : Nat)
    (item : Json) : Prop :=
  ∀ blanks rest, (∀ c ∈ blanks, isBlank c) → Stops rest →
    value (blanks ++ (item.spell layout depth ++ rest)) = some (item, rest)

section Parts

variable {value : List Char → Option (Json × List Char)}

/-- An item on a line of its own is read back, and what comes after it decides how to go on. -/
theorem readItems_succ {item : Json} (hitem : Reads value layout (depth + 1) item) (bound : Nat)
    {text : List Char} (htext : Stops text) :
    readItems value (bound + 1)
        (layout.newline (depth + 1) ++ (item.spell layout (depth + 1) ++ text)) =
      match skipBlanks text with
      | ',' :: rest => do
          let (items, rest) ← readItems value bound rest
          some (item :: items, rest)
      | ']' :: rest => some ([item], rest)
      | _ => none := by
  rw [readItems, hitem _ text (layout.isBlank_newline (depth + 1)) htext]
  rfl

/-- The items of an array are read back, up to its closing bracket. -/
theorem readItems_spellItems {item : Json} {items : List Json}
    (hread : ∀ one ∈ item :: items, Reads value layout (depth + 1) one) {bound : Nat}
    (hbound : items.length < bound) (rest : List Char) :
    readItems value bound (layout.newline (depth + 1) ++ (item.spell layout (depth + 1) ++
      (layout.others depth (spellItems layout (depth + 1) items) ++
        (layout.newline depth ++ ']' :: rest)))) = some (item :: items, rest) := by
  induction items generalizing item bound with
  | nil =>
      obtain ⟨bound, rfl⟩ : ∃ smaller, bound = smaller + 1 := ⟨bound - 1, by omega⟩
      rw [spellItems, layout.others_nil, List.nil_append,
        readItems_succ (hread item List.mem_cons_self) bound
          (layout.stops_newline depth rest (by decide)),
        layout.skipBlanks_newline, skipBlanks_cons (by decide)]
      rfl
  | cons next items ih =>
      obtain ⟨bound, rfl⟩ : ∃ smaller, bound = smaller + 1 := ⟨bound - 1, by omega⟩
      have hitems := @ih next (fun one hone => hread one (List.mem_cons_of_mem item hone)) bound
        (by simpa using hbound)
      rw [spellItems, layout.others_cons,
        readItems_succ (hread item List.mem_cons_self) bound (stops_comma _),
        skipBlanks_cons (by decide)]
      simp only [hitems, Option.bind_eq_bind, Option.bind_some]

/-- A member on a line of its own is read back, and what comes after it decides how to go on. -/
theorem readMembers_succ {key : String} {item : Json}
    (hitem : Reads value layout (depth + 1) item) (bound : Nat) {text : List Char}
    (htext : Stops text) :
    readMembers value (bound + 1) (layout.newline (depth + 1) ++
        ((quote key ++ layout.colon ++ item.spell layout (depth + 1)) ++ text)) =
      match skipBlanks text with
      | ',' :: rest => do
          let (members, rest) ← readMembers value bound rest
          some ((key, item) :: members, rest)
      | '\x7d' :: rest => some ([(key, item)], rest)
      | _ => none := by
  rw [readMembers, layout.skipBlanks_newline, layout.member_eq, skipBlanks_cons (by decide)]
  simp only [readString_flatMap_escapeChar, Option.bind_eq_bind, Option.bind_some,
    String.ofList_toList]
  rw [skipBlanks_cons (by decide)]
  simp only [hitem layout.gap text layout.isBlank_gap htext]
  rfl

/-- The members of an object are read back, up to its closing brace. -/
theorem readMembers_spellMembers {key : String} {item : Json} {members : List (String × Json)}
    (hread : ∀ one ∈ (key, item) :: members, Reads value layout (depth + 1) one.2) {bound : Nat}
    (hbound : members.length < bound) (rest : List Char) :
    readMembers value bound (layout.newline (depth + 1) ++
      ((quote key ++ layout.colon ++ item.spell layout (depth + 1)) ++
        (layout.others depth (spellMembers layout (depth + 1) members) ++
          (layout.newline depth ++ '\x7d' :: rest)))) = some ((key, item) :: members, rest) := by
  induction members generalizing key item bound with
  | nil =>
      obtain ⟨bound, rfl⟩ : ∃ smaller, bound = smaller + 1 := ⟨bound - 1, by omega⟩
      rw [spellMembers, layout.others_nil, List.nil_append,
        readMembers_succ (hread (key, item) List.mem_cons_self) bound
          (layout.stops_newline depth rest (by decide)),
        layout.skipBlanks_newline, skipBlanks_cons (by decide)]
      rfl
  | cons next members ih =>
      obtain ⟨name, other⟩ := next
      obtain ⟨bound, rfl⟩ : ∃ smaller, bound = smaller + 1 := ⟨bound - 1, by omega⟩
      have hmembers := @ih name other (fun one hone => hread one (List.mem_cons_of_mem _ hone))
        bound (by simpa using hbound)
      rw [spellMembers, layout.others_cons,
        readMembers_succ (hread (key, item) List.mem_cons_self) bound (stops_comma _),
        skipBlanks_cons (by decide)]
      simp only [hmembers, Option.bind_eq_bind, Option.bind_some]

end Parts

theorem spellItems_eq (items : List Json) :
    spellItems layout depth items = items.map (spell layout depth) := by
  induction items with
  | nil => rfl
  | cons item items ih => rw [spellItems, ih, List.map_cons]

theorem spellMembers_eq (members : List (String × Json)) :
    spellMembers layout depth members =
      members.map fun member => quote member.1 ++ layout.colon ++ member.2.spell layout depth := by
  induction members with
  | nil => rfl
  | cons member members ih => rw [spellMembers, ih, List.map_cons]

/-! ## What holds of a value holds of its parts -/

theorem depth_le_depthItems {item : Json} {items : List Json} (h : item ∈ items) :
    item.depth ≤ depthItems items := by
  induction items with
  | nil => exact absurd h List.not_mem_nil
  | cons first items ih =>
      rw [depthItems]
      rcases List.mem_cons.1 h with rfl | hmem
      · exact Nat.le_max_left _ _
      · exact Nat.le_trans (ih hmem) (Nat.le_max_right _ _)

theorem depthMembers_eq (members : List (String × Json)) :
    depthMembers members = depthItems (members.map Prod.snd) := by
  induction members with
  | nil => rfl
  | cons member members ih => rw [depthMembers, ih, List.map_cons, depthItems]

theorem depth_le_depthMembers {member : String × Json} {members : List (String × Json)}
    (h : member ∈ members) : member.2.depth ≤ depthMembers members := by
  rw [depthMembers_eq]
  exact depth_le_depthItems (List.mem_map_of_mem h)

/-- What bounds the depth of every item bounds the depth of the items. -/
theorem depthItems_lt {items : List Json} {limit : Nat} (hlimit : 0 < limit)
    (h : ∀ item ∈ items, item.depth < limit) : depthItems items < limit := by
  induction items with
  | nil => exact hlimit
  | cons item items ih =>
      rw [depthItems]
      exact Nat.max_lt.2 ⟨h item List.mem_cons_self,
        ih fun other hother => h other (List.mem_cons_of_mem item hother)⟩

theorem numeralsItems_eq (items : List Json) : numeralsItems items = items.flatMap numerals := by
  induction items with
  | nil => rfl
  | cons item items ih => rw [numeralsItems, List.flatMap_cons, ih]

theorem numeralsMembers_eq (members : List (String × Json)) :
    numeralsMembers members = numeralsItems (members.map Prod.snd) := by
  induction members with
  | nil => rfl
  | cons member members ih => rw [numeralsMembers, ih, List.map_cons, numeralsItems]

/-- An array is proper exactly if its items are. -/
@[simp]
theorem proper_array {items : List Json} : (array items).Proper ↔ ∀ item ∈ items, item.Proper := by
  simp only [Proper, numerals, numeralsItems_eq, List.mem_flatMap]
  exact ⟨fun h item hitem n hn => h n ⟨item, hitem, hn⟩, fun h n ⟨item, hitem, hn⟩ =>
    h item hitem n hn⟩

/-- An object is proper exactly if the values of its members are. -/
@[simp]
theorem proper_object {members : List (String × Json)} :
    (object members).Proper ↔ ∀ member ∈ members, member.2.Proper := by
  have hitems : (object members).Proper ↔ (array (members.map Prod.snd)).Proper := by
    simp only [Proper, numerals, numeralsMembers_eq]
  rw [hitems, proper_array, List.forall_mem_map]

@[simp]
theorem proper_null : Json.null.Proper :=
  fun _ h => absurd h List.not_mem_nil

@[simp]
theorem proper_number {n : Numeral} : (number n).Proper ↔ n.Proper := by
  simp [Proper, numerals]

@[simp]
theorem proper_string (text : String) : (string text).Proper := by
  simp [Proper, numerals]

theorem proper_ofInt (i : Int) : (ofInt i).Proper :=
  proper_number.2 (Numeral.proper_ofInt i)

/-! ## Values -/

section Values

variable {bound : Nat} {rest : List Char}

theorem readValue_number {n : Numeral} (hn : n.Proper) (hrest : Stops rest) :
    readValue (bound + 1) (n.spell ++ rest) = some (.number n, rest) := by
  have hread := readNumber_spell hn hrest
  obtain ⟨c, text, htext, hc⟩ := exists_spell_numeral hn
  have hblank : isBlank c = false := by
    rcases hc with rfl | hdigit
    · decide
    · exact isBlank_of_isDigit hdigit
  rw [htext, List.cons_append] at hread ⊢
  rw [readValue, skipBlanks_cons hblank]
  split
  case h_7 => rw [hread]; rfl
  -- No other value begins with a sign or a digit.
  all_goals
    next heq =>
      obtain rfl := (List.cons.inj heq).1
      rcases hc with hsign | hdigit
      · exact absurd hsign (by decide)
      · exact absurd hdigit (by decide)

/-- An array that does not end at once is read item by item. -/
theorem readValue_bracket {c : Char} {text : List Char} (hskip : (skipBlanks text).head? = some c)
    (hc : c ≠ ']') :
    readValue (bound + 1) ('[' :: text) =
      (readItems (readValue bound) (text.length + 1) text).map
        fun (items, rest) => (.array items, rest) := by
  obtain ⟨tail, htail⟩ := List.head?_eq_some_iff.1 hskip
  -- With this at hand, `simp` passes over the alternative of the empty array.
  have hend : ∀ rest, c :: tail = ']' :: rest → False := fun _ heq => hc (List.cons.inj heq).1
  rw [readValue, skipBlanks_cons (by decide)]
  simp only [htail]
  cases readItems (readValue bound) (text.length + 1) text <;> rfl

/-- An object that does not end at once is read member by member. -/
theorem readValue_brace {c : Char} {text : List Char} (hskip : (skipBlanks text).head? = some c)
    (hc : c ≠ '\x7d') :
    readValue (bound + 1) ('\x7b' :: text) =
      (readMembers (readValue bound) (text.length + 1) text).map
        fun (members, rest) => (.object members, rest) := by
  obtain ⟨tail, htail⟩ := List.head?_eq_some_iff.1 hskip
  have hend : ∀ rest, c :: tail = '\x7d' :: rest → False := fun _ heq => hc (List.cons.inj heq).1
  rw [readValue, skipBlanks_cons (by decide)]
  simp only [htail]
  cases readMembers (readValue bound) (text.length + 1) text <;> rfl

theorem readValue_array {items : List Json} (hitems : (array items).Proper)
    (hread : ∀ item ∈ items, Reads (readValue bound) layout (depth + 1) item) :
    readValue (bound + 1) ((array items).spell layout depth ++ rest) =
      some (.array items, rest) := by
  rw [spell]
  cases items with
  | nil => rfl
  | cons item items =>
      obtain ⟨c, text, htext, hblank, hc, -⟩ :=
        exists_spell layout (depth + 1) (proper_array.1 hitems item List.mem_cons_self)
      have hothers := layout.length_le_length_others depth (spellItems layout (depth + 1) items)
      have hlength : (spellItems layout (depth + 1) items).length = items.length := by
        rw [spellItems_eq, List.length_map]
      rw [spellItems, layout.enclose_cons, readValue_bracket _ hc, readItems_spellItems hread]
      · rfl
      · simp only [List.length_append]
        omega
      · rw [layout.skipBlanks_newline, htext, List.cons_append, skipBlanks_cons hblank,
          List.head?_cons]

theorem readValue_object {members : List (String × Json)}
    (hread : ∀ member ∈ members, Reads (readValue bound) layout (depth + 1) member.2) :
    readValue (bound + 1) ((object members).spell layout depth ++ rest) =
      some (.object members, rest) := by
  rw [spell]
  cases members with
  | nil => rfl
  | cons member members =>
      obtain ⟨key, item⟩ := member
      have hothers := layout.length_le_length_others depth (spellMembers layout (depth + 1) members)
      have hlength : (spellMembers layout (depth + 1) members).length = members.length := by
        rw [spellMembers_eq, List.length_map]
      rw [spellMembers, layout.enclose_cons, readValue_brace _ (by decide : '"' ≠ '\x7d'),
        readMembers_spellMembers hread]
      · rfl
      · simp only [List.length_append]
        omega
      · rw [layout.skipBlanks_newline, layout.member_eq, skipBlanks_cons (by decide),
          List.head?_cons]

/-- A value is read back from where it is spelled, nested no deeper than the reader goes. -/
theorem readValue_spell {value : Json} (hvalue : value.Proper) (hdepth : value.depth < bound)
    (layout : Layout) (depth : Nat) (hrest : Stops rest) :
    readValue bound (value.spell layout depth ++ rest) = some (value, rest) := by
  induction bound generalizing value depth rest with
  | zero => omega
  | succ bound ih =>
      have hreads : ∀ {part : Json} {depth : Nat}, part.Proper → part.depth < bound →
          Reads (readValue bound) layout depth part := by
        intro part depth hpart hlt blanks rest hblanks hrest
        rw [readValue_append hblanks, ih hpart hlt depth hrest]
      cases value with
      | null => rfl
      | bool value => cases value <;> rfl
      | number n => exact readValue_number (proper_number.1 hvalue) hrest
      | string text =>
          rw [spell, quote, List.cons_append, List.append_assoc, readValue,
            skipBlanks_cons (by decide)]
          simp only [List.cons_append, List.nil_append, readString_flatMap_escapeChar,
            Option.bind_eq_bind, Option.bind_some, String.ofList_toList]
      | array items =>
          refine readValue_array hvalue fun item hitem => ?_
          have hle := depth_le_depthItems hitem
          rw [Json.depth] at hdepth
          exact hreads (proper_array.1 hvalue item hitem) (by omega)
      | object members =>
          refine readValue_object fun member hmember => ?_
          have hle := depth_le_depthMembers hmember
          rw [Json.depth] at hdepth
          exact hreads (proper_object.1 hvalue member hmember) (by omega)

end Values

/-- A value is nested no deeper than its text is long. -/
theorem depth_le_length_spell (layout : Layout) {value : Json} {bound : Nat}
    (hbound : value.depth ≤ bound) (depth : Nat) :
    value.depth ≤ (value.spell layout depth).length := by
  induction bound generalizing value depth with
  | zero => omega
  | succ bound ih =>
      cases value with
      | null => exact Nat.zero_le _
      | bool value => exact Nat.zero_le _
      | number n => exact Nat.zero_le _
      | string text => exact Nat.zero_le _
      | array items =>
          rw [Json.depth] at hbound
          rw [Json.depth, spell, spellItems_eq]
          refine depthItems_lt (layout.length_enclose_pos depth _ _ _) fun item hitem => ?_
          have hle := depth_le_depthItems hitem
          exact Nat.lt_of_le_of_lt (ih (by omega) (depth + 1))
            (layout.length_lt_length_enclose depth _ _ (List.mem_map_of_mem hitem))
      | object members =>
          rw [Json.depth] at hbound
          rw [Json.depth, depthMembers_eq, spell, spellMembers_eq]
          refine depthItems_lt (layout.length_enclose_pos depth _ _ _) ?_
          rw [List.forall_mem_map]
          intro member hmember
          have hle := depth_le_depthMembers hmember
          have hvalue : member.2.depth ≤ (member.2.spell layout (depth + 1)).length :=
            ih (by omega) (depth + 1)
          refine Nat.lt_of_le_of_lt ?_
            (layout.length_lt_length_enclose depth _ _ (List.mem_map_of_mem hmember))
          simp only [List.length_append]
          omega

/-- What a value was written as is read as that value. -/
theorem read_write {value : Json} (hvalue : value.Proper) (layout : Layout) :
    read (value.write layout) = some value := by
  have hdepth := depth_le_length_spell layout (Nat.le_refl value.depth) 0
  have hend : Stops [] := by rintro _ ⟨⟩
  have hread := readValue_spell hvalue (Nat.lt_succ_of_le hdepth) layout 0 hend
  rw [List.append_nil] at hread
  rw [read, write, String.toList_ofList, hread]
  rfl

/-- Different values have different texts, whatever the layouts. -/
theorem write_inj {value other : Json} (hvalue : value.Proper) (hother : other.Proper)
    {layout layout' : Layout} (h : value.write layout = other.write layout') : value = other := by
  have hread := read_write hvalue layout
  rw [h, read_write hother layout'] at hread
  exact (Option.some.inj hread).symm

end Json

end Bookmarks
