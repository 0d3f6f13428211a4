/-
# Decimals as JSON numbers

However a decimal is laid out, it is spelled the way that JSON spells numbers (`proper_spell`). Its
digits are read by way of a double, which is rounded a second time to single precision. The number
that the digits were written for comes back unless the double is halfway to another number
(`Binary32.ReadsBack`).
-/
import Bookmarks.Json.Precision
import Bookmarks.Proofs.Json.Tokens
import Mathlib.Tactic.SplitIfs

namespace Bookmarks

/-- The digits that are written for a number are read as that number. -/
def Binary32.ReadsBack (x : Binary32) : Prop :=
  (Numeral.ofBinary32? x).bind Numeral.toBinary32? = some x

instance (x : Binary32) : Decidable x.ReadsBack :=
  inferInstanceAs (Decidable (_ = _))

/-- The double nearest to 7.038531e-26 is halfway between the number with these digits and the next
one, which is even. -/
example : ¬Binary32.ReadsBack ⟨0x15ae43fd⟩ := by decide +kernel

namespace Numeral

theorem digitsOf_ne_nil (n : Nat) : digitsOf n ≠ [] :=
  Nat.toDigits_ne_nil

theorem isDigit_of_mem_digitsOf {n : Nat} {c : Char} (h : c ∈ digitsOf n) : c.isDigit :=
  Nat.isDigit_of_mem_toDigits (by decide) (by decide) h

theorem isDigit_of_mem_zeros {n : Nat} {c : Char} (h : c ∈ List.replicate n '0') : c.isDigit := by
  rw [List.eq_of_mem_replicate h]
  rfl

theorem take_digitsOf_ne_nil (n count : Nat) : (digitsOf n).take (count + 1) ≠ [] := by
  simpa using digitsOf_ne_nil n

/-- The first digits of a positive number have no leading zero. -/
theorem head?_take_digitsOf {n : Nat} (hn : n ≠ 0) (count : Nat) :
    ((digitsOf n).take (count + 1)).head? ≠ some '0' := by
  rw [List.head?_take, if_neg (Nat.succ_ne_zero count)]
  exact mt head?_digitsOf hn

end Numeral

/-- A decimal is spelled the way that JSON spells numbers. -/
theorem DecimalLayout.proper_spell (layout : DecimalLayout) (negative : Bool) (decimal : Decimal) :
    (layout.spell negative decimal).Proper := by
  have hdigits : ∀ c ∈ Numeral.digitsOf decimal.digits, c.isDigit :=
    fun _ => Numeral.isDigit_of_mem_digitsOf
  unfold spell
  dsimp only
  -- Zero; below one; with digits on both sides of the point; without a fraction; with a power.
  split_ifs with hzero hplain hsmall hpoint
  · exact ⟨by simp, by simp, fun _ => Nat.le_refl 1, by simp, nofun⟩
  · exact ⟨by simp, by simp, fun _ => Nat.le_refl 1,
      List.forall_mem_append.2 ⟨fun _ => Numeral.isDigit_of_mem_zeros, hdigits⟩, nofun⟩
  · exact ⟨Numeral.take_digitsOf_ne_nil _ _, fun c hc => hdigits c (List.mem_of_mem_take hc),
      fun h => absurd h (Numeral.head?_take_digitsOf hzero _),
      fun c hc => hdigits c (List.mem_of_mem_drop hc), nofun⟩
  · have hne := Numeral.digitsOf_ne_nil decimal.digits
    refine ⟨by simp [hne],
      List.forall_mem_append.2 ⟨hdigits, fun _ => Numeral.isDigit_of_mem_zeros⟩, ?_, by simp, nofun⟩
    intro h
    rw [List.head?_append_of_ne_nil _ hne] at h
    exact absurd (Numeral.head?_digitsOf h) hzero
  · refine ⟨Numeral.take_digitsOf_ne_nil _ _, fun c hc => hdigits c (List.mem_of_mem_take hc),
      fun h => absurd h (Numeral.head?_take_digitsOf hzero _),
      fun c hc => hdigits c (List.mem_of_mem_drop hc), ?_⟩
    rintro _ _ ⟨⟩
    exact ⟨Numeral.digitsOf_ne_nil _, fun _ => Numeral.isDigit_of_mem_digitsOf⟩

end Bookmarks
