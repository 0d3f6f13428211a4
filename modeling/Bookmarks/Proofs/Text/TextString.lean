/-
# Text strings read back

A text string does not say how it is written. It is told by what it holds, and nothing is lost by
that: no text in UTF-8 begins like a byte-order mark. A text in UTF-16 that is damaged by surrogates
without partners shows one replacement character for each of them and is whole again right after it,
and a single byte at its end goes unnoticed. All other bytes are characters
(`TextString.decode_reads_back`).
-/
import Bookmarks.Proofs.Text.Utf16
import Mathlib.Data.List.Chain

namespace Bookmarks

/-! ## UTF-8 -/

namespace Utf8

theorem mk_encode (text : String) : ByteArray.mk (encode text).toArray = text.toByteArray :=
  congrArg ByteArray.mk Array.toArray_toList

theorem decode?_encode (text : String) : decode? (encode text) = some text := by
  rw [decode?, mk_encode, String.fromUTF8?, dif_pos text.isValidUTF8]
  rfl

theorem encode_of_decode? {bytes : Bytes} {text : String} (h : decode? bytes = some text) :
    encode text = bytes := by
  unfold decode? String.fromUTF8? at h
  split at h
  · cases h
    rfl
  · cases h

/-- No text begins with the first byte of a byte-order mark. -/
theorem encode_ne_mark (text : String) (rest : Bytes) : encode text ≠ 0xFE :: rest := by
  intro h
  have hbytes : text.toByteArray = ByteArray.mk (0xFE :: rest).toArray := by
    rw [← mk_encode, h]
  have hvalid : (ByteArray.mk (0xFE :: rest).toArray).IsValidUTF8 := hbytes ▸ text.isValidUTF8
  have hfirst : UInt8.IsUTF8FirstByte 0xFE :=
    hvalid.isUTF8FirstByte_getElem_zero (Nat.succ_pos _)
  exact absurd hfirst (by decide)

end Utf8

/-! ## UTF-16 with damage -/

namespace Utf16

/-- A surrogate that has no partner, and the text that comes after it. -/
structure Stray where
  unit : UInt16
  isSurrogate : (isHighSurrogate unit || isLowSurrogate unit) = true
  after : String

namespace Stray

/-- A surrogate and the next one do not make a pair. -/
def Apart (stray next : Stray) : Prop :=
  ¬ (isHighSurrogate stray.unit = true ∧ stray.after = "" ∧ isLowSurrogate next.unit = true)

instance : DecidableRel Apart := fun stray next =>
  inferInstanceAs (Decidable (¬ (isHighSurrogate stray.unit = true ∧ stray.after = "" ∧
    isLowSurrogate next.unit = true)))

/-- The units of a stray surrogate and of the text after it. -/
def units (stray : Stray) : List UInt16 :=
  stray.unit :: encode stray.after.toList

/-- What a reader makes of a stray surrogate and of the text after it. -/
def shown (stray : Stray) : List Char :=
  replacementChar :: stray.after.toList

end Stray

/-- No character begins with a unit that ends a pair. -/
theorem head_encodeChar (c : Char) :
    ∃ unit rest, encodeChar c = unit :: rest ∧ isLowSurrogate unit = false := by
  have hrange := toNat_range c
  by_cases hplane : c.toNat < 0x10000
  · refine ⟨UInt16.ofNat c.toNat, [], if_pos hplane, ?_⟩
    rw [isLowSurrogate_ofNat hplane]
    simp only [Bool.and_eq_false_iff, decide_eq_false_iff_not]
    omega
  · refine ⟨_, _, if_neg hplane, ?_⟩
    rw [isLowSurrogate_ofNat (by omega)]
    simp only [Bool.and_eq_false_iff, decide_eq_false_iff_not]
    omega

/-- A surrogate that does not find its partner in the next unit is read as a replacement character,
and reading goes on with that unit. -/
theorem decodeLossy_stray {unit : UInt16}
    (hsurrogate : (isHighSurrogate unit || isLowSurrogate unit) = true) {rest : List UInt16}
    (hrest : ∀ next ∈ rest.head?, (isHighSurrogate unit && isLowSurrogate next) = false) :
    decodeLossy (unit :: rest) = replacementChar :: decodeLossy rest := by
  cases rest with
  | nil => simp [decodeLossy, hsurrogate]
  | cons next rest =>
      have hnext := hrest next rfl
      rw [decodeLossy, hnext, hsurrogate]
      rfl

/-- The unit after a stray surrogate is not its partner, whether it begins the text after it or is
the next stray surrogate. -/
theorem Stray.unpaired {stray : Stray} {strays : List Stray}
    (h : (stray :: strays).IsChain Apart) :
    ∀ next ∈ (encode stray.after.toList ++ strays.flatMap units).head?,
      (isHighSurrogate stray.unit && isLowSurrogate next) = false := by
  intro next hnext
  -- Only where the text is empty does the next stray surrogate come right after this one.
  cases htext : stray.after.toList with
  | cons c text =>
      obtain ⟨unit, rest, hunits, hlow⟩ := head_encodeChar c
      rw [htext, encode_cons, hunits] at hnext
      cases hnext
      rw [hlow, Bool.and_false]
  | nil =>
      rw [htext] at hnext
      cases strays with
      | nil => cases hnext
      | cons other strays =>
          cases hnext
          have hafter : stray.after = "" := String.toList_eq_nil_iff.1 htext
          have happart := List.rel_of_isChain_cons_cons h
          simp only [Apart, hafter, true_and, not_and, Bool.not_eq_true] at happart
          simpa [Bool.and_eq_false_iff, Decidable.imp_iff_not_or] using happart

/-- A text with stray surrogates in it is read with one replacement character for each of them. -/
theorem decodeLossy_strays {strays : List Stray} (h : strays.IsChain Stray.Apart)
    (text : List Char) :
    decodeLossy (encode text ++ strays.flatMap Stray.units) =
      text ++ strays.flatMap Stray.shown := by
  induction strays generalizing text with
  | nil => simpa using decodeLossy_encode text
  | cons stray strays ih =>
      rw [decodeLossy_encode_append, List.flatMap_cons, List.flatMap_cons, Stray.units,
        List.cons_append, decodeLossy_stray stray.isSurrogate (Stray.unpaired h),
        ih (List.isChain_of_isChain_cons h), Stray.shown, List.cons_append]

/-- A last byte without its partner is no unit. -/
theorem ofBytes_toBytes_odd (units : List UInt16) (odd : Option UInt8) :
    ofBytes (toBytes units ++ odd.toList) = units := by
  rw [ofBytes_toBytes_append]
  cases odd <;> exact List.append_nil units

end Utf16

/-! ## Text strings -/

namespace TextString

theorem decode_mark_append (bytes : Bytes) :
    decode (byteOrderMark ++ bytes) = String.ofList (Utf16.decodeLossy (Utf16.ofBytes bytes)) :=
  rfl

theorem decode_of_no_mark {bytes : Bytes} (h : ¬ byteOrderMark <+: bytes) :
    decode bytes = (Utf8.decode? bytes).getD (decodeLatin1 bytes) := by
  unfold decode
  split
  · next units => exact absurd ⟨units, rfl⟩ h
  · rfl

theorem toNat_decodeLatin1 (bytes : Bytes) :
    (decodeLatin1 bytes).toList.map Char.toNat = bytes.map UInt8.toNat := by
  rw [decodeLatin1, String.toList_ofList, List.map_map]
  refine List.map_congr_left fun byte _ => ?_
  have hbyte := byte.toNat_lt
  have hvalid : byte.toNat.isValidChar := Or.inl (by omega)
  rw [Function.comp_apply, Char.ofNat, dif_pos hvalid]
  rfl

/-- A text in UTF-8 is read as it was. So is a text in UTF-16 after a byte-order mark, with a
replacement character for each surrogate that has no partner and whether or not a byte is left over
at its end. Bytes that are neither are read as one character each. -/
theorem decode_reads_back :
    (∀ text : String, decode (Utf8.encode text) = text) ∧
    (∀ (text : String) (strays : List Utf16.Stray) (odd : Option UInt8),
      strays.IsChain Utf16.Stray.Apart →
        decode (byteOrderMark ++ (Utf16.toBytes
            (Utf16.encode text.toList ++ strays.flatMap Utf16.Stray.units) ++ odd.toList)) =
          String.ofList (text.toList ++ strays.flatMap Utf16.Stray.shown)) ∧
    ∀ bytes : Bytes, ¬ byteOrderMark <+: bytes → (∀ text, Utf8.encode text ≠ bytes) →
      (decode bytes).toList.map Char.toNat = bytes.map UInt8.toNat := by
  refine ⟨fun text => ?utf8, fun text strays odd hapart => ?utf16, fun bytes hmark htext => ?latin1⟩
  case utf8 =>
    have hmark : ¬ byteOrderMark <+: Utf8.encode text := fun ⟨rest, hrest⟩ =>
      Utf8.encode_ne_mark text (0xFF :: rest) hrest.symm
    rw [decode_of_no_mark hmark, Utf8.decode?_encode]
    rfl
  case utf16 =>
    rw [decode_mark_append, Utf16.ofBytes_toBytes_odd, Utf16.decodeLossy_strays hapart]
  case latin1 =>
    have hnone : Utf8.decode? bytes = none := by
      rw [Option.eq_none_iff_forall_ne_some]
      intro text h
      exact htext text (Utf8.encode_of_decode? h)
    rw [decode_of_no_mark hmark, hnone]
    exact toNat_decodeLatin1 bytes

/-- Surrogates without partners at the end of a text, before a letter, after a pair and at the very
end. -/
def tears : List Utf16.Stray :=
  [⟨0xD800, rfl, ""⟩, ⟨0xD83D, rfl, "é"⟩, ⟨0xDE00, rfl, "😀"⟩, ⟨0xDC00, rfl, ""⟩]

/-- Each tear shows as a single character, with or without a byte left over, and bytes that are
no UTF-8 are one character each. -/
theorem decode_tears :
    tears.IsChain Utf16.Stray.Apart ∧
    decode (byteOrderMark ++ (Utf16.toBytes
      (Utf16.encode "Part".toList ++ tears.flatMap Utf16.Stray.units) ++ [0x2E])) =
        "Part\uFFFD\uFFFDé\uFFFD😀\uFFFD" ∧
    ¬ byteOrderMark <+: [0x52, 0xE9] ∧ (∀ text, Utf8.encode text ≠ [0x52, 0xE9]) ∧
    (decode [0x52, 0xE9]).toList.map Char.toNat = [0x52, 0xE9] := by
  have hapart : tears.IsChain Utf16.Stray.Apart := by decide
  have hmark : ¬ byteOrderMark <+: [0x52, 0xE9] := by decide
  have htext : ∀ text, Utf8.encode text ≠ [0x52, 0xE9] := by
    intro text h
    have hdecode := Utf8.decode?_encode text
    have hnone : Utf8.decode? [0x52, 0xE9] = none := by decide +kernel
    rw [h, hnone] at hdecode
    cases hdecode
  exact ⟨hapart, decode_reads_back.2.1 "Part" tears (some 0x2E) hapart, hmark, htext,
    decode_reads_back.2.2 _ hmark htext⟩

end TextString

end Bookmarks
