/-
# Strings and numbers of JSON read back

A string is read back character by character, whatever its characters, because each is written
either as itself or as an escape that stands for it (`readString_flatMap_escapeChar`). A number is
read back as it is spelled, up to whatever no number goes on with (`readNumber_spell`); integers are
spelled the way that JSON asks for.
-/
import Bookmarks.Json.Reader
import Bookmarks.Json.Writer
import Bookmarks.Proofs.Text.Utf16
import Mathlib.Data.List.Basic
import Mathlib.Data.Nat.Digits.Defs

namespace Bookmarks

/-! ## Strings -/

namespace Json

theorem readString_quote (rest : List Char) : readString ('"' :: rest) = some ([], rest) := rfl

/-- A letter after a backslash is read as the character that it stands for. -/
theorem readString_letter {letter c : Char} (hletter : letter ≠ 'u')
    (hc : ofLetter? letter = some c) (text : List Char) :
    readString ('\\' :: letter :: text) =
      (readString text).map fun (read, rest) => (c :: read, rest) := by
  rw [readString.eq_4 _ _ (fun _ _ _ _ _ h => absurd h hletter), hc]
  cases readString text <;> rfl

/-- A unit that is no surrogate is read as the character of that code. -/
theorem readString_unit {a b c d : Char} {unit : UInt16} (hunit : hexUnit? a b c d = some unit)
    (hlow : Utf16.isLowSurrogate unit = false) (hhigh : Utf16.isHighSurrogate unit = false)
    (text : List Char) :
    readString ('\\' :: 'u' :: a :: b :: c :: d :: text) =
      (readString text).map fun (read, rest) => (Char.ofNat unit.toNat :: read, rest) := by
  simp only [readString, hunit, hlow, hhigh, Option.bind_eq_bind, Option.bind_some]
  cases readString text <;> rfl

/-- A character that needs no escape is read as it stands. -/
theorem readString_plain {c : Char} (hquote : c ≠ '"') (hslash : c ≠ '\\')
    (hcontrol : 0x20 ≤ c.toNat) (text : List Char) :
    readString (c :: text) = (readString text).map fun (read, rest) => (c :: read, rest) := by
  have hraw : ¬(c = '\\' ∨ c.toNat < 0x20) := by
    rintro (rfl | hlt)
    · exact hslash rfl
    · omega
  rw [readString.eq_5 _ _ hquote (fun _ _ _ _ _ h => absurd h hslash)
      (fun _ _ h => absurd h hslash), if_neg (by simpa using hraw)]
  cases readString text <;> rfl

theorem mem_escapes_of_letterOf? {c letter : Char} (h : letterOf? c = some letter) :
    (letter, c) ∈ escapes := by
  obtain ⟨pair, hfind, rfl⟩ := Option.map_eq_some_iff.1 h
  have hsame : pair.2 = c := by simpa using List.find?_some hfind
  subst hsame
  exact List.mem_of_find?_eq_some hfind

/-- A letter that stands for a character is read as that character. -/
theorem ofLetter?_of_letterOf? {c letter : Char} (h : letterOf? c = some letter) :
    letter ≠ 'u' ∧ ofLetter? letter = some c := by
  have hall : ∀ pair ∈ escapes, pair.1 ≠ 'u' ∧ ofLetter? pair.1 = some pair.2 := by decide
  exact hall _ (mem_escapes_of_letterOf? h)

theorem hexUnit?_control : ∀ code < 0x20,
    hexUnit? '0' '0' (hexDigit (code / 16)) (hexDigit (code % 16)) =
      some (UInt16.ofNat code) := by
  decide

/-- A character that was written inside a string is read back. -/
theorem readString_escapeChar (c : Char) (text : List Char) :
    readString (escapeChar c ++ text) =
      (readString text).map fun (read, rest) => (c :: read, rest) := by
  unfold escapeChar
  cases hletter : letterOf? c with
  | some letter =>
      obtain ⟨hne, hc⟩ := ofLetter?_of_letterOf? hletter
      exact readString_letter hne hc text
  | none =>
      dsimp only
      split
      · next hcontrol =>
          have hcode : (UInt16.ofNat c.toNat).toNat = c.toNat := Utf16.toNat_ofNat (by omega)
          have hlow : Utf16.isLowSurrogate (UInt16.ofNat c.toNat) = false := by
            rw [Utf16.isLowSurrogate_ofNat (by omega), Bool.and_eq_false_iff]
            exact .inl (decide_eq_false (by omega))
          have hhigh : Utf16.isHighSurrogate (UInt16.ofNat c.toNat) = false := by
            rw [Utf16.isHighSurrogate_ofNat (by omega), Bool.and_eq_false_iff]
            exact .inl (decide_eq_false (by omega))
          have hread := readString_unit (hexUnit?_control c.toNat hcontrol) hlow hhigh text
          rwa [hcode, Char.ofNat_toNat] at hread
      · next hplain =>
          have hquote : c ≠ '"' := by
            rintro rfl
            cases hletter
          have hslash : c ≠ '\\' := by
            rintro rfl
            cases hletter
          exact readString_plain hquote hslash (Nat.le_of_not_lt hplain) text

/-- The inside of a quoted string is read back, up to its closing quote. -/
theorem readString_flatMap_escapeChar (text rest : List Char) :
    readString (text.flatMap escapeChar ++ '"' :: rest) = some (text, rest) := by
  induction text with
  | nil => exact readString_quote rest
  | cons c text ih =>
      rw [List.flatMap_cons, List.append_assoc, readString_escapeChar, ih]
      rfl

end Json

/-! ## Numbers -/

/-- No number goes on with what comes next. -/
def Stops (rest : List Char) : Prop :=
  ∀ c ∈ rest.head?, c.isDigit = false ∧ c ≠ '.' ∧ c ≠ 'e' ∧ c ≠ 'E'

namespace Numeral

/-- The number is spelled the way that JSON spells numbers. -/
structure Proper (n : Numeral) : Prop where
  whole_ne_nil : n.whole ≠ []
  isDigit_whole : ∀ c ∈ n.whole, c.isDigit
  /-- A leading zero stands alone. -/
  length_whole : n.whole.head? = some '0' → n.whole.length ≤ 1
  isDigit_fraction : ∀ c ∈ n.fraction, c.isDigit
  /-- A power of ten has digits. -/
  isDigit_exponent : ∀ negative digits, n.exponent = some (negative, digits) →
    digits ≠ [] ∧ ∀ c ∈ digits, c.isDigit

/-- The point of a number and the digits after it. -/
def spellFraction (n : Numeral) : List Char :=
  if n.fraction.isEmpty then [] else '.' :: n.fraction

/-- The power of ten of a number. -/
def spellExponent (n : Numeral) : List Char :=
  match n.exponent with
  | none => []
  | some (negative, digits) => 'e' :: (if negative then '-' else '+') :: digits

/-- A number begins with its sign and its first digit. -/
theorem spell_eq (n : Numeral) :
    n.spell = (if n.negative then ['-'] else []) ++
      (n.whole ++ (n.spellFraction ++ n.spellExponent)) := by
  simp only [spell, List.append_assoc]
  rfl

theorem head?_spellExponent_append {n : Numeral} {rest : List Char} (hrest : Stops rest) :
    ∀ c ∈ (n.spellExponent ++ rest).head?, c.isDigit = false ∧ c ≠ '.' := by
  intro c hc
  unfold spellExponent at hc
  split at hc
  · exact ⟨(hrest c hc).1, (hrest c hc).2.1⟩
  · obtain rfl : 'e' = c := by simpa using hc
    decide

theorem head?_spellFraction_append {n : Numeral} {rest : List Char} (hrest : Stops rest) :
    ∀ c ∈ (n.spellFraction ++ (n.spellExponent ++ rest)).head?, c.isDigit = false := by
  intro c hc
  unfold spellFraction at hc
  split at hc
  · exact (head?_spellExponent_append hrest c hc).1
  · obtain rfl : '.' = c := by simpa using hc
    decide

end Numeral

namespace Json

variable {n : Numeral} {rest : List Char}

/-- Digits are read up to whatever is no digit. -/
theorem readDigits_append {digits : List Char} (hne : digits ≠ [])
    (hdigits : ∀ c ∈ digits, c.isDigit) (hrest : ∀ c ∈ rest.head?, c.isDigit = false) :
    readDigits (digits ++ rest) = some (digits, rest) := by
  have htake : rest.takeWhile Char.isDigit = [] := by
    cases rest with
    | nil => rfl
    | cons c rest => exact List.takeWhile_cons_of_neg (by simp [hrest c rfl])
  have hdrop : rest.dropWhile Char.isDigit = rest := by
    cases rest with
    | nil => rfl
    | cons c rest => exact List.dropWhile_cons_of_neg (by simp [hrest c rfl])
  rw [readDigits, List.takeWhile_append_of_pos hdigits, List.dropWhile_append_of_pos hdigits,
    htake, hdrop, List.append_nil]
  cases digits with
  | nil => exact absurd rfl hne
  | cons c digits => rfl

theorem readWhole_append (hn : n.Proper) (hrest : ∀ c ∈ rest.head?, c.isDigit = false) :
    readWhole (n.whole ++ rest) = some (n.whole, rest) := by
  have hzero : ¬(n.whole.head? = some '0' ∧ 1 < n.whole.length) :=
    fun ⟨hhead, hlength⟩ => absurd (hn.length_whole hhead) (by omega)
  rw [readWhole, readDigits_append hn.whole_ne_nil hn.isDigit_whole hrest]
  exact if_neg (by simpa using hzero)

theorem readFraction_append (hn : n.Proper)
    (hrest : ∀ c ∈ rest.head?, c.isDigit = false ∧ c ≠ '.') :
    readFraction (n.spellFraction ++ rest) = some (n.fraction, rest) := by
  unfold Numeral.spellFraction
  cases hfraction : n.fraction with
  | nil =>
      have hpoint : ∀ text, rest = '.' :: text → False := by
        rintro text rfl
        exact (hrest '.' rfl).2 rfl
      exact readFraction.eq_2 rest hpoint
  | cons c fraction =>
      have hdigits := hn.isDigit_fraction
      rw [hfraction] at hdigits
      exact readDigits_append (List.cons_ne_nil c fraction) hdigits fun c hc => (hrest c hc).1

theorem readExponent_append (hn : n.Proper) (hrest : Stops rest) :
    readExponent (n.spellExponent ++ rest) = some (n.exponent, rest) := by
  unfold Numeral.spellExponent
  cases hexponent : n.exponent with
  | none =>
      cases rest with
      | nil => rfl
      | cons c rest =>
          obtain ⟨-, -, hlower, hupper⟩ := hrest c rfl
          exact if_neg (by simp [hlower, hupper])
  | some power =>
      obtain ⟨negative, digits⟩ := power
      obtain ⟨hne, hdigits⟩ := hn.isDigit_exponent negative digits hexponent
      have hread := readDigits_append hne hdigits fun c hc => (hrest c hc).1
      cases negative <;> simp [readExponent, readSign, hread]

theorem readUnsigned_append (hn : n.Proper) (hrest : Stops rest) :
    readUnsigned n.negative (n.whole ++ (n.spellFraction ++ (n.spellExponent ++ rest))) =
      some (n, rest) := by
  rw [readUnsigned, readWhole_append hn (Numeral.head?_spellFraction_append hrest)]
  simp only [Option.bind_eq_bind, Option.bind_some]
  rw [readFraction_append hn (Numeral.head?_spellExponent_append hrest)]
  simp only [Option.bind_some]
  rw [readExponent_append hn hrest]
  rfl

/-- A number is read back, whatever comes next that no number goes on with. -/
theorem readNumber_spell (hn : n.Proper) (hrest : Stops rest) :
    readNumber (n.spell ++ rest) = some (n, rest) := by
  have hread := readUnsigned_append hn hrest
  rw [Numeral.spell_eq]
  simp only [List.append_assoc]
  cases hnegative : n.negative with
  | true =>
      rw [hnegative] at hread
      exact hread
  | false =>
      rw [hnegative] at hread
      have hsign : ∀ text,
          n.whole ++ (n.spellFraction ++ (n.spellExponent ++ rest)) = '-' :: text → False := by
        intro text htext
        cases hwhole : n.whole with
        | nil => exact hn.whole_ne_nil hwhole
        | cons c whole =>
            rw [hwhole] at htext
            obtain rfl : c = '-' := (List.cons.inj htext).1
            exact absurd (hn.isDigit_whole '-' (by simp [hwhole])) (by decide)
      exact (readNumber.eq_2 _ hsign).trans hread

end Json

namespace Numeral

/-! ## Integers -/

theorem valueOf_digitsOf (n : Nat) : valueOf (digitsOf n) = n := by
  have hvalue : valueOf (digitsOf n) = Nat.ofDigitChars 10 (Nat.toDigits 10 n) 0 := by
    rw [Nat.ofDigitChars_eq_foldl, valueOf, digitsOf]
    simp only [Nat.mul_comm]
  rw [hvalue, Nat.ofDigitChars_ten_toDigits]

/-- Digits without a leading zero, unless the zero stands alone. -/
theorem head?_digitsOf {n : Nat} (h : (digitsOf n).head? = some '0') : n = 0 := by
  induction n using Nat.strongRecOn with
  | ind n ih =>
      by_cases hsmall : n < 10
      · have hdigits : ∀ n < 10, [Nat.digitChar n].head? = some '0' → n = 0 := by decide
        rw [digitsOf, Nat.toDigits_of_lt_base hsmall] at h
        exact hdigits n hsmall h
      · have hhead : (digitsOf (n / 10)).head? = some '0' := by
          rw [digitsOf, Nat.toDigits_of_base_le (by decide) (Nat.le_of_not_lt hsmall),
            List.head?_append_of_ne_nil _ Nat.toDigits_ne_nil] at h
          exact h
        have hzero := ih (n / 10) (by omega) hhead
        omega

/-- An integer is spelled the way that JSON spells numbers. -/
theorem proper_ofInt (i : Int) : (ofInt i).Proper where
  whole_ne_nil := Nat.toDigits_ne_nil
  isDigit_whole _ := Nat.isDigit_of_mem_toDigits (by decide) (by decide)
  length_whole hhead := by
    have hzero : i.natAbs = 0 := head?_digitsOf hhead
    have hwhole : (ofInt i).whole = ['0'] := by rw [ofInt, hzero]; rfl
    rw [hwhole]
    decide
  isDigit_fraction _ h := absurd h List.not_mem_nil
  isDigit_exponent _ _ h := nomatch h

/-- The integer that a number without fraction and power of ten stands for. -/
def toInt? (n : Numeral) : Option Int :=
  if n.fraction.isEmpty && n.exponent.isNone then
    some (if n.negative then -(valueOf n.whole : Int) else valueOf n.whole)
  else none

theorem toInt?_ofInt (i : Int) : (ofInt i).toInt? = some i := by
  have hvalue : valueOf (ofInt i).whole = i.natAbs := valueOf_digitsOf i.natAbs
  rw [toInt?, hvalue]
  refine congrArg some ?_
  simp only [ofInt, decide_eq_true_eq]
  omega

theorem ofInt_inj {i j : Int} : ofInt i = ofInt j ↔ i = j := by
  refine ⟨fun h => ?_, congrArg ofInt⟩
  have hvalue := toInt?_ofInt i
  rw [h, toInt?_ofInt] at hvalue
  exact (Option.some.inj hvalue).symm

end Numeral

end Bookmarks
