import Mathlib.Data.Nat.Digits.Defs
import Scriptlet.Numeral.Digits
import Scriptlet.Proofs.Lists

/-!
# What a numeral stands for

The digits of a numeral stand for a number in base ten (`Numeral.decimal`), and a numeral without a point is read as the integer of that
number, if that is at most 2^63 - 1. Digits around a point are always read.
-/

namespace Scriptlet

namespace Numeral

/-- The number that digits stand for in base ten, the last one being that of the ones. -/
def decimal (s : String) : Nat := Nat.ofDigits 10 (s.toList.reverse.map fun c => c.toNat - '0'.toNat)

/-- Going through the digits from left to right gives that number. -/
theorem value_eq_decimal (s : String) : value s.toList = decimal s := by
  rw [decimal, Nat.ofDigits_eq_foldr, List.foldr_map, List.foldr_reverse]
  unfold value
  congr 1
  funext n d
  rw [Nat.add_comm]
  rfl

/-- An integer that is read from a numeral is the number that its digits stand for. -/
theorem toInt_of_integer? {s : String} {n : Int64} (h : integer? s = some n) : n.toInt = decimal s := by
  unfold integer? at h
  dsimp only at h
  split at h
  · next hs =>
    cases h
    rw [← value_eq_decimal]
    exact Int64.toInt_ofNat_of_lt hs.2.2
  · cases h

/-- The greatest integer of the language is the last one below the bound. -/
theorem lt_integerBound_iff {n : Nat} : n < integerBound ↔ n ≤ 2 ^ 63 - 1 := by
  have hbound : integerBound = 2 ^ 63 := rfl
  rw [hbound]
  omega

section

variable {s : String} (hne : s.toList ≠ []) (hd : ∀ c ∈ s.toList, c.isDigit)

include hne hd

/-- Digits are read as the integer that they stand for, if there is one, however many of them are zeros at the front. -/
theorem integer?_of_le (h : decimal s ≤ 2 ^ 63 - 1) : ∃ v, integer? s = some v ∧ v.toInt = decimal s := by
  have hv : integer? s = some (Int64.ofNat (value s.toList)) := by
    unfold integer?
    exact if_pos ⟨hne, List.all_eq_true.mpr hd, lt_integerBound_iff.mpr (value_eq_decimal s ▸ h)⟩
  exact ⟨_, hv, toInt_of_integer? hv⟩

/-- Digits that are not read stand for a number that is too large. -/
theorem lt_of_integer?_eq_none (h : integer? s = none) : 2 ^ 63 - 1 < decimal s := by
  by_contra hle
  obtain ⟨v, hv, -⟩ := integer?_of_le hne hd (Nat.le_of_not_lt hle)
  rw [h] at hv
  cases hv

end

/-- What is too large is not read. -/
theorem integer?_of_lt {s : String} (h : 2 ^ 63 - 1 < decimal s) : integer? s = none := by
  unfold integer?
  refine if_neg fun hs => ?_
  have hle := lt_integerBound_iff.mp hs.2.2
  rw [value_eq_decimal] at hle
  exact Nat.not_lt.mpr hle h

/-- Digits around a point are read, if there is one on either side. -/
theorem float?_of_digits {s : String} {w f : List Char} (hs : s.toList = w ++ '.' :: f) (hne : w ++ f ≠ []) (hw : ∀ c ∈ w, c.isDigit)
    (hf : ∀ c ∈ f, c.isDigit) : (float? s).isSome := by
  obtain ⟨htake, hdrop⟩ := List.takeWhile_append_stop ('.' :: f) hw fun c hc => by
    cases hc
    decide
  unfold float?
  simp only [hs, htake, hdrop]
  rw [if_pos ⟨List.all_eq_true.mpr hf, hne⟩]
  rfl

end Numeral

end Scriptlet
