/-
# UTF-16 texts read back

No character is a surrogate, so the units of a text are read one character at a time, whatever
comes after them (`decodeLossy_encodeChar_append`). A text written as a text string is read back as
it was.
-/
import Bookmarks.Text.TextString

namespace Bookmarks

namespace Utf16

/-- The code of a character lies below the surrogates or above them. -/
theorem toNat_range (c : Char) :
    c.toNat < 0xD800 ∨ 0xDFFF < c.toNat ∧ c.toNat < 0x110000 := by
  have h := c.valid
  simp only [UInt32.isValidChar, Nat.isValidChar] at h
  exact h

theorem toNat_ofNat {code : Nat} (h : code < 0x10000) : (UInt16.ofNat code).toNat = code :=
  Nat.mod_eq_of_lt h

theorem isHighSurrogate_ofNat {code : Nat} (h : code < 0x10000) :
    isHighSurrogate (UInt16.ofNat code) = (decide (0xD800 ≤ code) && decide (code ≤ 0xDBFF)) := by
  simp only [isHighSurrogate, UInt16.le_iff_toNat_le, toNat_ofNat h]
  rfl

theorem isLowSurrogate_ofNat {code : Nat} (h : code < 0x10000) :
    isLowSurrogate (UInt16.ofNat code) = (decide (0xDC00 ≤ code) && decide (code ≤ 0xDFFF)) := by
  simp only [isLowSurrogate, UInt16.le_iff_toNat_le, toNat_ofNat h]
  rfl

/-- A unit that is no surrogate is a character. -/
theorem decodeLossy_cons {unit : UInt16} (hhigh : isHighSurrogate unit = false)
    (hlow : isLowSurrogate unit = false) (rest : List UInt16) :
    decodeLossy (unit :: rest) = Char.ofNat unit.toNat :: decodeLossy rest := by
  cases rest with
  | nil => simp [decodeLossy, hhigh, hlow]
  | cons next rest => simp [decodeLossy, hhigh, hlow]

/-- A pair of surrogates is a character. -/
theorem decodeLossy_pair {high low : UInt16} (hhigh : isHighSurrogate high = true)
    (hlow : isLowSurrogate low = true) (rest : List UInt16) :
    decodeLossy (high :: low :: rest) = pair high low :: decodeLossy rest := by
  simp [decodeLossy, hhigh, hlow]

/-- The units of a character are read as that character. -/
theorem decodeLossy_encodeChar_append (c : Char) (rest : List UInt16) :
    decodeLossy (encodeChar c ++ rest) = c :: decodeLossy rest := by
  have hrange := toNat_range c
  by_cases hplane : c.toNat < 0x10000
  · have hhigh : isHighSurrogate (UInt16.ofNat c.toNat) = false := by
      rw [isHighSurrogate_ofNat hplane]
      simp only [Bool.and_eq_false_iff, decide_eq_false_iff_not]
      omega
    have hlow : isLowSurrogate (UInt16.ofNat c.toNat) = false := by
      rw [isLowSurrogate_ofNat hplane]
      simp only [Bool.and_eq_false_iff, decide_eq_false_iff_not]
      omega
    rw [encodeChar, if_pos hplane, List.singleton_append, decodeLossy_cons hhigh hlow,
      toNat_ofNat hplane, Char.ofNat_toNat]
  · have hupper : 0xD800 + (c.toNat - 0x10000) / 0x400 < 0x10000 := by omega
    have hlower : 0xDC00 + (c.toNat - 0x10000) % 0x400 < 0x10000 := by omega
    have hhigh : isHighSurrogate (UInt16.ofNat (0xD800 + (c.toNat - 0x10000) / 0x400)) = true := by
      rw [isHighSurrogate_ofNat hupper]
      simp only [Bool.and_eq_true, decide_eq_true_eq]
      omega
    have hlow : isLowSurrogate (UInt16.ofNat (0xDC00 + (c.toNat - 0x10000) % 0x400)) = true := by
      rw [isLowSurrogate_ofNat hlower]
      simp only [Bool.and_eq_true, decide_eq_true_eq]
      omega
    rw [encodeChar, if_neg hplane, List.cons_append, List.singleton_append,
      decodeLossy_pair hhigh hlow, pair, toNat_ofNat hupper, toNat_ofNat hlower]
    have hcode : 0x10000 + (0xD800 + (c.toNat - 0x10000) / 0x400 - 0xD800) * 0x400 +
        (0xDC00 + (c.toNat - 0x10000) % 0x400 - 0xDC00) = c.toNat := by omega
    rw [hcode, Char.ofNat_toNat]

theorem encode_cons (c : Char) (text : List Char) :
    encode (c :: text) = encodeChar c ++ encode text :=
  List.flatMap_cons

/-- The units of a text are read as that text, whatever comes after them. -/
theorem decodeLossy_encode_append (text : List Char) (rest : List UInt16) :
    decodeLossy (encode text ++ rest) = text ++ decodeLossy rest := by
  induction text with
  | nil => rfl
  | cons c text ih =>
      rw [encode_cons, List.append_assoc, decodeLossy_encodeChar_append, ih, List.cons_append]

theorem decodeLossy_encode (text : List Char) : decodeLossy (encode text) = text := by
  simpa [decodeLossy] using decodeLossy_encode_append text []

theorem ofBytes_toBytes_append (units : List UInt16) (rest : Bytes) :
    ofBytes (toBytes units ++ rest) = units ++ ofBytes rest := by
  induction units with
  | nil => rfl
  | cons unit units ih =>
      have hbytes : toBytes (unit :: units) =
          UInt8.ofNat (unit.toNat / 256) :: UInt8.ofNat (unit.toNat % 256) :: toBytes units :=
        List.flatMap_cons
      have hunit := unit.toNat_lt
      have hhigh : (UInt8.ofNat (unit.toNat / 256)).toNat = unit.toNat / 256 :=
        Nat.mod_eq_of_lt (by omega)
      have hlow : (UInt8.ofNat (unit.toNat % 256)).toNat = unit.toNat % 256 :=
        Nat.mod_eq_of_lt (by omega)
      rw [hbytes, List.cons_append, List.cons_append, ofBytes, ih, hhigh, hlow, Nat.div_add_mod',
        UInt16.ofNat_toNat, List.cons_append]

theorem ofBytes_toBytes (units : List UInt16) : ofBytes (toBytes units) = units := by
  simpa [ofBytes] using ofBytes_toBytes_append units []

end Utf16

/-- A text is read back from its text string. -/
theorem TextString.decode_encode (text : String) : decode (encode text) = text := by
  have hencode : encode text = 0xFE :: 0xFF :: Utf16.toBytes (Utf16.encode text.toList) := rfl
  rw [hencode, decode, Utf16.ofBytes_toBytes, Utf16.decodeLossy_encode, String.ofList_toList]

end Bookmarks
