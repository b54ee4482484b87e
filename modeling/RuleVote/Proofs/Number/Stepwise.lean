import RuleVote.Number.Stepwise
import RuleVote.Proofs.Number.Places
import RuleVote.Proofs.Number.Shortest
/-!
# How far off reading step by step is

The digits and the power of ten are rounded once each, and their product or
quotient once more. With digits that double precision holds, what is read is off
by two rounding errors at most (`Decimal.stepwise_near`). With a small power of
ten as well there is only the last rounding, so a number of the format is read
exactly (`Decimal.stepwise_eq`).
-/

namespace RuleVote

namespace BinaryFormat

variable {f : BinaryFormat} {n : Nat}

/-! ## The nearest natural number -/

theorem nearestNat_of_lt (h : n < 2 * Nat.pow 2 f.fractionBits) : f.nearestNat n = n := by
  have hlog : Nat.log2 n - f.fractionBits = 0 := by
    rcases Nat.eq_zero_or_pos n with rfl | hpos
    · simp
    · have : Nat.log2 n < f.fractionBits + 1 := by
        rw [Nat.log2_lt hpos.ne', pow_succ']
        exact h
      omega
  rw [nearestNat, hlog]
  show roundHalfEven n 1 * 1 = n
  rw [Nat.mul_one]
  exact (congrArg (roundHalfEven · 1) (Nat.mul_one n).symm).trans
    (roundHalfEven_mul_self n Nat.one_pos)

/-- **The nearest natural number of a format is near.** -/
theorem nearestNat_near (f : BinaryFormat) (n : Nat) :
    |(f.nearestNat n : ℚ) - n| ≤ n / (2 * 2 ^ f.fractionBits) := by
  rcases Nat.lt_or_ge n (2 * Nat.pow 2 f.fractionBits) with hlt | hge
  · rw [nearestNat_of_lt hlt, sub_self, abs_zero]
    positivity
  · have hF : 0 < Nat.pow 2 f.fractionBits := Nat.two_pow_pos _
    have hpos : 0 < n := by omega
    have hlog : f.fractionBits ≤ Nat.log2 n := by
      rw [Nat.le_log2 hpos.ne']
      exact (Nat.le_mul_of_pos_left _ Nat.two_pos).trans hge
    obtain ⟨k, hk⟩ := Nat.exists_eq_add_of_le hlog
    have hunit : (0 : ℚ) < 2 ^ k := by positivity
    have hle : (2 : ℚ) ^ f.fractionBits * 2 ^ k ≤ n := by
      rw [← pow_add, ← hk]
      exact_mod_cast Nat.log2_self_le hpos.ne'
    have hnear := roundHalfEven_near n (Nat.two_pow_pos k)
    have hvalue : (f.nearestNat n : ℚ) = roundHalfEven n (2 ^ k) * 2 ^ k := by
      rw [nearestNat, hk, Nat.add_sub_cancel_left]
      push_cast [Nat.pow_eq]
      rfl
    have hfactor : (f.nearestNat n : ℚ) - n =
        (roundHalfEven n (2 ^ k) - n / (2 ^ k : Nat)) * 2 ^ k := by
      rw [hvalue, sub_mul]
      push_cast
      rw [div_mul_cancel₀ _ hunit.ne']
    rw [hfactor, abs_mul, abs_of_pos hunit, le_div_iff₀ (by positivity)]
    calc |(roundHalfEven n (2 ^ k) : ℚ) - n / (2 ^ k : Nat)| * 2 ^ k * (2 * 2 ^ f.fractionBits)
        ≤ 1 / 2 * 2 ^ k * (2 * 2 ^ f.fractionBits) := by gcongr
      _ = 2 ^ f.fractionBits * 2 ^ k := by ring
      _ ≤ n := hle

/-! ## Magnitudes as quotients -/

theorem quotient_eq_point {bits : Nat} (h : bits < f.infinityBits) :
    0 < (f.quotient bits).2 ∧ ((f.quotient bits).1 : ℚ) / (f.quotient bits).2 = f.point bits := by
  have hmod : bits % f.signWeight = bits := Nat.mod_eq_of_lt (h.trans f.infinityBits_lt)
  obtain ⟨significand, exponent, hdecode⟩ := exists_decode (hmod.symm ▸ h)
  have hpoint := (point_of_decode hdecode).1
  rw [hmod] at hpoint
  rw [quotient, hdecode, hpoint]
  dsimp only
  split
  · next he => exact ⟨Nat.one_pos, by rw [zpow_of_nonneg he, Nat.cast_mul, Nat.cast_one, div_one]⟩
  · next he => exact ⟨Nat.two_pow_pos _, by rw [zpow_of_neg he, div_eq_mul_inv]⟩

end BinaryFormat

namespace Decimal

open BinaryFormat

variable {d : Decimal}

/-! ## The quotient that is rounded last -/

/-- The power of ten is off by one rounding error. -/
theorem power_near (k : Nat) :
    |(double.nearestNat (Nat.pow 10 k) : ℚ) - 10 ^ k| ≤ 10 ^ k / 2 ^ 53 := by
  have h := nearestNat_near double (Nat.pow 10 k)
  have hten : ((Nat.pow 10 k : Nat) : ℚ) = 10 ^ k := by
    rw [Nat.pow_eq, Nat.cast_pow, Nat.cast_ofNat]
  rw [hten] at h
  calc |(double.nearestNat (Nat.pow 10 k) : ℚ) - 10 ^ k|
      ≤ 10 ^ k / (2 * 2 ^ double.fractionBits) := h
    _ = 10 ^ k / 2 ^ 53 := by
      rw [← pow_succ']
      rfl

theorem power_eq {k : Nat} (h : k ≤ 22) : double.nearestNat (Nat.pow 10 k) = 10 ^ k := by
  have hall : ∀ k < 23, double.nearestNat (Nat.pow 10 k) = 10 ^ k := by decide +kernel
  exact hall k (by omega)

/-- The power of ten is not far below what it should be. -/
theorem le_power (k : Nat) : 4 / 5 * 10 ^ k ≤ (double.nearestNat (Nat.pow 10 k) : ℚ) := by
  have hten : (0 : ℚ) < 10 ^ k := by positivity
  linarith [(abs_le.1 (power_near k)).1]

theorem power_pos (k : Nat) : (0 : ℚ) < double.nearestNat (Nat.pow 10 k) :=
  lt_of_lt_of_le (by positivity) (le_power k)

/-- The last step rounds a quotient close to the decimal, and the decimal itself where
the power of ten is small. -/
structure LastStep (d : Decimal) (num den : Nat) : Prop where
  num_pos : 0 < num
  den_pos : 0 < den
  stepwise : d.stepwise = double.roundQuotient num den
  near : |(num : ℚ) / den - d.value| ≤ 5 / 4 * d.value / 2 ^ 53
  exact : d.exponent.natAbs ≤ 22 → (num : ℚ) / den = d.value

theorem lastStep_product (hpos : 0 < d.digits) (hlt : d.digits < 2 ^ 53)
    (hpower : d.exponent.natAbs ≤ maxPower) (hsign : 0 ≤ d.exponent) :
    d.LastStep (d.digits * double.nearestNat (Nat.pow 10 d.exponent.natAbs)) 1 := by
  have hdigits : double.nearestNat d.digits = d.digits := nearestNat_of_lt hlt
  have hD : (0 : ℚ) < d.digits := Nat.cast_pos.2 hpos
  have hnear := power_near d.exponent.natAbs
  have hP := power_pos d.exponent.natAbs
  have hvalue : d.value = d.digits * 10 ^ d.exponent.natAbs := by
    rw [value, ← zpow_natCast, Int.natAbs_of_nonneg hsign]
  refine ⟨Nat.mul_pos hpos (Nat.cast_pos.1 hP), Nat.one_pos, ?_, ?_, fun hsmall => ?_⟩
  · rw [Decimal.stepwise, hdigits]
    dsimp only
    rw [if_pos hsign, if_neg hpos.ne', if_pos hpower]
  · rw [Nat.cast_one, div_one, Nat.cast_mul, hvalue, ← mul_sub, abs_mul, abs_of_pos hD]
    calc (d.digits : ℚ) *
          |(double.nearestNat (Nat.pow 10 d.exponent.natAbs) : ℚ) - 10 ^ d.exponent.natAbs|
        ≤ d.digits * (10 ^ d.exponent.natAbs / 2 ^ 53) := by gcongr
      _ ≤ 5 / 4 * (d.digits * 10 ^ d.exponent.natAbs) / 2 ^ 53 := by
        have : (0 : ℚ) < d.digits * 10 ^ d.exponent.natAbs := by positivity
        linarith
  · rw [Nat.cast_one, div_one, power_eq hsmall, hvalue]
    push_cast
    rfl

theorem lastStep_ratio (hpos : 0 < d.digits) (hlt : d.digits < 2 ^ 53)
    (hpower : d.exponent.natAbs ≤ maxPower) (hsign : d.exponent < 0) :
    d.LastStep d.digits (double.nearestNat (Nat.pow 10 d.exponent.natAbs)) := by
  have hdigits : double.nearestNat d.digits = d.digits := nearestNat_of_lt hlt
  have hD : (0 : ℚ) < d.digits := Nat.cast_pos.2 hpos
  have hnear := power_near d.exponent.natAbs
  have hle := le_power d.exponent.natAbs
  have hP := power_pos d.exponent.natAbs
  have hvalue : d.value = d.digits / 10 ^ d.exponent.natAbs := by
    have hexponent : d.exponent = -(d.exponent.natAbs : ℤ) := by omega
    rw [value, div_eq_mul_inv, ← zpow_natCast, ← zpow_neg, ← hexponent]
  refine ⟨hpos, Nat.cast_pos.1 hP, ?_, ?_, fun hsmall => ?_⟩
  · rw [Decimal.stepwise, hdigits]
    dsimp only
    rw [if_neg hsign.not_ge, if_pos hpower, divideByPower, Nat.one_mul]
  · rw [hvalue]
    generalize (double.nearestNat (Nat.pow 10 d.exponent.natAbs) : ℚ) = P at *
    have hfactor : (d.digits : ℚ) / P - d.digits / 10 ^ d.exponent.natAbs =
        d.digits / (P * 10 ^ d.exponent.natAbs) * (10 ^ d.exponent.natAbs - P) := by
      field_simp
    rw [hfactor, abs_mul, abs_of_pos (by positivity), abs_sub_comm]
    calc (d.digits : ℚ) / (P * 10 ^ d.exponent.natAbs) * |P - 10 ^ d.exponent.natAbs|
        ≤ d.digits / (4 / 5 * 10 ^ d.exponent.natAbs * 10 ^ d.exponent.natAbs) *
          (10 ^ d.exponent.natAbs / 2 ^ 53) := by gcongr
      _ = 5 / 4 * (d.digits / 10 ^ d.exponent.natAbs) / 2 ^ 53 := by field_simp
  · rw [power_eq hsmall, hvalue]
    push_cast
    rfl

/-- **What is read step by step is a quotient that is rounded once.** -/
theorem exists_lastStep (hpos : 0 < d.digits) (hlt : d.digits < 2 ^ 53)
    (hpower : d.exponent.natAbs ≤ maxPower) : ∃ num den, d.LastStep num den := by
  rcases le_or_gt 0 d.exponent with hsign | hsign
  · exact ⟨_, _, lastStep_product hpos hlt hpower hsign⟩
  · exact ⟨_, _, lastStep_ratio hpos hlt hpower hsign⟩

/-! ## The error -/

/-- Far below the largest number nothing is rounded to infinity. -/
theorem finite_of_range {num den : Nat} (hnum : 0 < num) (hden : 0 < den)
    (h : (num : ℚ) / den < 2 ^ (202 : ℤ)) :
    double.roundQuotient num den < double.infinityBits :=
  roundQuotient_lt hnum hden (by decide) (by decide) h

/-- **Reading step by step is off by less than three rounding errors.** -/
theorem stepwise_near (hpos : 0 < d.digits) (hlt : d.digits < 2 ^ 53)
    (hpower : d.exponent.natAbs ≤ maxPower) (hlow : 2 ^ (-200 : ℤ) ≤ d.value)
    (hhigh : d.value ≤ 2 ^ (200 : ℤ)) :
    d.stepwise < double.infinityBits ∧
      |double.point d.stepwise - d.value| ≤ 3 * d.value / 2 ^ 53 := by
  obtain ⟨num, den, hnum, hden, hround, hnear, -⟩ := exists_lastStep hpos hlt hpower
  have hv : 0 < d.value := lt_of_lt_of_le (by positivity) hlow
  obtain ⟨hnear₁, hnear₂⟩ := abs_le.1 hnear
  -- The steps before the last one are off by less than half of the value, so it is in range.
  have hsmall : 5 / 4 * d.value / 2 ^ 53 ≤ d.value / 2 := by
    norm_num
    linarith
  have hfinite : double.roundQuotient num den < double.infinityBits := by
    refine finite_of_range hnum hden ?_
    calc (num : ℚ) / den ≤ 2 * 2 ^ (200 : ℤ) := by linarith
      _ < 2 ^ (202 : ℤ) := by norm_num
  have hnormal : 2 ^ double.fractionBits * 2 ^ double.minExponent ≤ (num : ℚ) / den := by
    have hexponent : (double.fractionBits : ℤ) + double.minExponent = -1022 := by decide
    calc (2 : ℚ) ^ double.fractionBits * 2 ^ double.minExponent = 2 ^ (-1022 : ℤ) := by
          rw [← hexponent, zpow_add₀ two_ne_zero, zpow_natCast]
      _ ≤ 2 ^ (-201 : ℤ) := zpow_le_zpow_right₀ one_le_two (by norm_num)
      _ = 2 ^ (-200 : ℤ) / 2 := by norm_num
      _ ≤ d.value / 2 := by gcongr
      _ ≤ num / den := by linarith
  have hlast := point_roundQuotient_relative hnum hden hfinite hnormal
  rw [hround]
  refine ⟨hfinite, ?_⟩
  have hF : (2 : ℚ) * 2 ^ double.fractionBits = 2 ^ 53 := by
    rw [← pow_succ']
    rfl
  rw [hF] at hlast
  -- One error comes from the last rounding, the rest from the quotient it rounds.
  calc |double.point (double.roundQuotient num den) - d.value|
      ≤ |double.point (double.roundQuotient num den) - num / den| + |(num : ℚ) / den - d.value| :=
        abs_sub_le _ _ _
    _ ≤ num / den / 2 ^ 53 + 5 / 4 * d.value / 2 ^ 53 := add_le_add hlast hnear
    _ ≤ 3 * d.value / 2 ^ 53 := by
      have : (num : ℚ) / den ≤ 3 / 2 * d.value := by linarith
      have hdiv : (num : ℚ) / den / 2 ^ 53 ≤ 3 / 2 * d.value / 2 ^ 53 := by gcongr
      linarith

/-- **A number of the format is read exactly** from a decimal with a small power
of ten. -/
theorem stepwise_eq (hpos : 0 < d.digits) (hlt : d.digits < 2 ^ 53)
    (hpower : d.exponent.natAbs ≤ 22) (hhigh : d.value ≤ 2 ^ (200 : ℤ)) {m : Nat} {e : ℤ}
    (hm : m < 2 ^ 53) (he : -1074 ≤ e) (h : d.value = m * 2 ^ e) :
    d.stepwise < double.infinityBits ∧ double.point d.stepwise = d.value := by
  obtain ⟨num, den, hnum, hden, hround, -, hexact⟩ :=
    exists_lastStep hpos hlt (hpower.trans (by decide))
  have hvalue := hexact hpower
  have hfinite : double.roundQuotient num den < double.infinityBits := by
    refine finite_of_range hnum hden ?_
    calc (num : ℚ) / den ≤ 2 ^ (200 : ℤ) := hvalue.le.trans hhigh
      _ < 2 ^ (202 : ℤ) := by norm_num
  rw [hround]
  exact ⟨hfinite, (point_roundQuotient_eq hnum hden hfinite hm he (hvalue.trans h)).trans hvalue⟩

end Decimal

end RuleVote
