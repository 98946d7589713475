import Mathlib.Algebra.Order.Ring.Nat
import Polyglot.Text.Binary64

/-!
This module contains the rounding of natural numbers to binary64 numbers. A number below `2 ^ 53`
keeps its value, a number beyond the range becomes infinite, and a decimal without an exponent is
rounded like the number that its digits denote.
-/

namespace Polyglot.Binary64

theorem le_roundQuotient (num den : Nat) : num / den ≤ roundQuotient num den := by
  unfold roundQuotient
  simp only
  split
  · exact Nat.le_refl _
  · split
    · omega
    · omega

theorem roundQuotient_one (num : Nat) : roundQuotient num 1 = num := by
  simp [roundQuotient, Nat.mod_one]

section Place

variable {n : Nat} (h : n ≠ 0)

include h

/--
The first bit of a number, moved up to the place of `2 ^ 52`.
-/
theorem two_pow_le_shiftLeft (hlog : n.log2 ≤ 52) : 2 ^ 52 ≤ n <<< (52 - n.log2) := by
  rw [Nat.shiftLeft_eq]
  calc 2 ^ 52 = 2 ^ n.log2 * 2 ^ (52 - n.log2) := by rw [← Nat.pow_add, Nat.add_sub_cancel' hlog]
    _ ≤ n * 2 ^ (52 - n.log2) := Nat.mul_le_mul_right _ (Nat.log2_self_le h)

/--
The last place of a natural number is 52 places below its first bit.
-/
theorem lastPlace_one : lastPlace n 1 = (n.log2 : Int) - 52 := by
  have hlow := Nat.log2_self_le h
  have hone : Nat.log2 1 = 0 := by decide
  unfold lastPlace
  simp only [hone, Int.ofNat_zero, Int.sub_zero]
  by_cases hguess : 0 ≤ (n.log2 : Int) - 52
  · have hplace : ((n.log2 : Int) - 52).toNat + 52 = n.log2 := by omega
    rw [if_pos hguess, hplace, Nat.one_shiftLeft, decide_eq_true hlow, if_pos rfl]
    omega
  · have hplace : (-((n.log2 : Int) - 52)).toNat = 52 - n.log2 := by omega
    have hshift := two_pow_le_shiftLeft h (by omega)
    rw [if_neg hguess, hplace, Nat.one_shiftLeft, decide_eq_true hshift, if_pos rfl]
    omega

/--
The significand of a number that has at least 53 bits keeps 53 of them, before it is rounded.
-/
theorem two_pow_le_significand (hlog : 52 ≤ n.log2) :
    2 ^ 52 ≤ roundQuotient n (1 <<< (n.log2 - 52)) := by
  rw [Nat.one_shiftLeft]
  refine Nat.le_trans ?_ (le_roundQuotient _ _)
  rw [Nat.le_div_iff_mul_le (Nat.two_pow_pos _), ← Nat.pow_add, Nat.add_sub_cancel' hlog]
  exact Nat.log2_self_le h

end Place

theorem toNat_bits_infinity : infinity.bits.toNat = 2047 * 2 ^ 52 := by decide

theorem ofNat_of_le_log2 {n : Nat} (hlog : 1024 ≤ n.log2) : ofNat n = infinity := by
  have hne : n ≠ 0 := by
    rintro rfl
    exact absurd hlog (by decide)
  have hplace : 0 ≤ (n.log2 : Int) - 52 := by omega
  have htoNat : ((n.log2 : Int) - 52).toNat = n.log2 - 52 := by omega
  have hsignificand := two_pow_le_significand hne (by omega)
  unfold ofNat ofRatio
  simp only [if_neg hne, lastPlace_one hne, if_pos hplace, htoNat, Nat.shiftLeft_eq _ 52,
    toNat_bits_infinity]
  rw [if_neg]
  omega

/--
A decimal without an exponent is the number nearest to its digits. The bound on the magnitude of a
decimal only cuts off numbers that are beyond the range anyway.
-/
theorem ofDecimal_zero (n : Nat) : ofDecimal n 0 = ofNat n := by
  unfold ofDecimal
  by_cases hn : n = 0
  · rw [if_pos hn, hn]
    rfl
  · rw [if_neg hn]
    simp only [Int.add_zero]
    by_cases hlength : (309 : Int) < (Nat.toDigits 10 n).length
    · have hdigits : ¬ (Nat.toDigits 10 n).length ≤ 309 := by omega
      rw [Nat.length_toDigits_le_iff (by decide) (by decide), Nat.not_lt] at hdigits
      have hlog : 1024 ≤ n.log2 := by
        rw [Nat.le_log2 hn]
        exact Nat.le_trans (by decide +kernel) hdigits
      rw [if_pos hlength, ofNat_of_le_log2 hlog]
    · rw [if_neg hlength, if_neg (by omega), if_pos (Int.le_refl 0)]
      change ofRatio (n * 1) 1 = _
      rw [Nat.mul_one, ofNat]

section Exact

variable {n : Nat} (hlog : n.log2 ≤ 52)

include hlog

theorem shiftLeft_lt_two_pow : n <<< (52 - n.log2) < 2 ^ 53 := by
  rw [Nat.shiftLeft_eq]
  calc n * 2 ^ (52 - n.log2) < 2 ^ (n.log2 + 1) * 2 ^ (52 - n.log2) :=
        Nat.mul_lt_mul_of_pos_right Nat.lt_log2_self (Nat.two_pow_pos _)
    _ = 2 ^ 53 := by
        rw [← Nat.pow_add]
        congr 1
        omega

/--
Nothing is rounded off a number of at most 53 bits.
-/
theorem significand_eq_shiftLeft :
    (if 0 ≤ (n.log2 : Int) - 52 then roundQuotient n (1 <<< ((n.log2 : Int) - 52).toNat)
      else roundQuotient (n <<< (-((n.log2 : Int) - 52)).toNat) 1) = n <<< (52 - n.log2) := by
  split
  case isTrue hplace =>
    have hshift : ((n.log2 : Int) - 52).toNat = 0 := by omega
    have hnone : 52 - n.log2 = 0 := by omega
    rw [hshift, hnone, Nat.shiftLeft_zero, Nat.shiftLeft_zero, roundQuotient_one]
  case isFalse hplace =>
    have hshift : (-((n.log2 : Int) - 52)).toNat = 52 - n.log2 := by omega
    rw [hshift, roundQuotient_one]

/--
The bits of a number that needs no rounding: the exponent of its first bit, and then its other
bits, moved up to the place of the significand.
-/
theorem toNat_bits_ofNat (h : n ≠ 0) : (ofNat n).bits.toNat =
    (n.log2 + 1023) * 2 ^ 52 + (n <<< (52 - n.log2) - 2 ^ 52) := by
  have hlow := two_pow_le_shiftLeft h hlog
  have hhigh := shiftLeft_lt_two_pow hlog
  have hexponent : ((n.log2 : Int) - 52 + 1074).toNat = n.log2 + 1022 := by omega
  unfold ofNat ofRatio
  simp only [if_neg h, lastPlace_one h, significand_eq_shiftLeft hlog, hexponent,
    Nat.shiftLeft_eq _ 52, toNat_bits_infinity]
  rw [if_pos (by omega), UInt64.toNat_ofNat_of_lt' (by change _ < 2 ^ 64; omega)]
  omega

end Exact

/--
A number of at most 53 bits is a binary64 number.
-/
theorem toRatio_ofNat {n : Nat} (h : n < 2 ^ 53) :
    (ofNat n).toRatio.1 = n * (ofNat n).toRatio.2 := by
  by_cases hne : n = 0
  · rw [hne, Nat.zero_mul]
    rfl
  · have hlog : n.log2 ≤ 52 := Nat.le_of_lt_succ ((Nat.log2_lt hne).2 h)
    have hlow := two_pow_le_shiftLeft hne hlog
    have hhigh := shiftLeft_lt_two_pow hlog
    have hfraction : (ofNat n).bits.toNat % 1 <<< 52 = n <<< (52 - n.log2) - 2 ^ 52 := by
      rw [toNat_bits_ofNat hlog hne, Nat.one_shiftLeft]
      omega
    have hexponent : (ofNat n).bits.toNat >>> 52 % 1 <<< 11 = n.log2 + 1023 := by
      rw [toNat_bits_ofNat hlog hne, Nat.one_shiftLeft, Nat.shiftRight_eq_div_pow]
      omega
    have hsum : 1 <<< 52 + (n <<< (52 - n.log2) - 2 ^ 52) = n <<< (52 - n.log2) := by
      rw [Nat.one_shiftLeft]
      omega
    unfold toRatio
    simp only [hfraction, hexponent, hsum]
    rw [if_neg (by omega)]
    split
    case isTrue hplace =>
      have hnone : 52 - n.log2 = 0 := by omega
      have hshift : n.log2 + 1023 - 1075 = 0 := by omega
      simp only [hnone, hshift, Nat.shiftLeft_zero, Nat.mul_one]
    case isFalse hplace =>
      have hshift : 1075 - (n.log2 + 1023) = 52 - n.log2 := by omega
      simp only [hshift, Nat.shiftLeft_eq, Nat.one_mul]

end Polyglot.Binary64
