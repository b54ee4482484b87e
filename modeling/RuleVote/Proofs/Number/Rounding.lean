import RuleVote.Number.Binary
import Mathlib.Algebra.Order.Field.Power
import Mathlib.Data.Int.Log
import Mathlib.Data.Rat.Floor
import Mathlib.Tactic.Linarith
import Mathlib.Tactic.Positivity
/-!
# Rounding to a binary format

`roundQuotient` reads a quotient of naturals, and the same number has many
of them. `roundQuotient_congr` says that the bits depend on the rational
number alone: its leading exponent is `Int.log 2` of it, and rounding half
to even is unchanged when both sides are scaled. From there
`roundBinary_decode` is a computation: the value of finite bits rounds to
these bits, because its unit in the last place is the one of the format.
-/

namespace RuleVote

/-! ## Powers with an integer exponent -/

theorem zpow_of_nonneg {base : Nat} [base.AtLeastTwo] {e : Int} (he : 0 ≤ e) :
    (OfNat.ofNat base : ℚ) ^ e = (Nat.pow (OfNat.ofNat base) e.toNat : Nat) := by
  conv_lhs => rw [← Int.toNat_of_nonneg he]
  rw [zpow_natCast, Nat.pow_eq, Nat.cast_pow, Nat.cast_ofNat]

theorem zpow_of_neg {base : Nat} [base.AtLeastTwo] {e : Int} (he : ¬ 0 ≤ e) :
    (OfNat.ofNat base : ℚ) ^ e = ((Nat.pow (OfNat.ofNat base) (-e).toNat : Nat) : ℚ)⁻¹ := by
  rw [← zpow_of_nonneg (by omega), zpow_neg, inv_inv]

/-! ## Rounding half to even -/

theorem roundHalfEven_mul_right (num den : Nat) {k : Nat} (hk : 0 < k) :
    roundHalfEven (num * k) (den * k) = roundHalfEven num den := by
  have hlt : ∀ a b : Nat, a * k < b * k ↔ a < b := fun a b => Nat.mul_lt_mul_right hk
  simp only [roundHalfEven, Nat.mul_div_mul_right _ _ hk, Nat.mul_mod_mul_right,
    ← Nat.mul_assoc, hlt]

/-- Equal quotients round to the same natural. -/
theorem roundHalfEven_congr {num den num' den' : Nat} (hden : 0 < den) (hden' : 0 < den')
    (h : num * den' = num' * den) : roundHalfEven num den = roundHalfEven num' den' := by
  rw [← roundHalfEven_mul_right num den hden', h, Nat.mul_comm den den',
    roundHalfEven_mul_right num' den' hden]

theorem roundHalfEven_mul_self (n : Nat) {den : Nat} (hden : 0 < den) :
    roundHalfEven (n * den) den = n := by
  simp [roundHalfEven, Nat.mul_div_cancel _ hden, Nat.mul_mod_left, hden]

namespace BinaryFormat

variable {f : BinaryFormat} {num den num' den' : Nat}

/-! ## The leading exponent -/

theorem reached_iff (hden : 0 < den) (guess : Int) :
    (if 0 ≤ guess then den * Nat.pow 2 guess.toNat ≤ num
      else den ≤ num * Nat.pow 2 (-guess).toNat) ↔ (2 : ℚ) ^ guess ≤ num / den := by
  have hden' : (0 : ℚ) < den := Nat.cast_pos.2 hden
  rw [le_div_iff₀ hden']
  split
  · next hguess => rw [zpow_of_nonneg hguess, ← Nat.cast_mul, Nat.cast_le, Nat.mul_comm]
  · next hguess =>
    have hpos : (0 : ℚ) < (Nat.pow 2 (-guess).toNat : Nat) := Nat.cast_pos.2 (Nat.two_pow_pos _)
    rw [zpow_of_neg hguess, inv_mul_le_iff₀ hpos, mul_comm, ← Nat.cast_mul, Nat.cast_le]

/-- **The leading exponent is the binary logarithm of the quotient.** The
logarithms of the two sides differ by it or by one more. -/
theorem leadingExponent_eq_log (hnum : 0 < num) (hden : 0 < den) :
    leadingExponent num den = Int.log 2 ((num : ℚ) / den) := by
  have hnum' : (0 : ℚ) < num := Nat.cast_pos.2 hnum
  have hden' : (0 : ℚ) < den := Nat.cast_pos.2 hden
  have hq : (0 : ℚ) < num / den := div_pos hnum' hden'
  have hbounds : ∀ {n : Nat}, 0 < n →
      (2 : ℚ) ^ (Nat.log2 n : Int) ≤ n ∧ (n : ℚ) < 2 ^ ((Nat.log2 n : Int) + 1) := by
    intro n hn
    constructor
    · rw [zpow_natCast]
      exact_mod_cast Nat.log2_self_le hn.ne'
    · have := Nat.lt_log2_self (n := n)
      rw [← Nat.cast_succ, zpow_natCast]
      exact_mod_cast this
  obtain ⟨hnum₁, hnum₂⟩ := hbounds hnum
  obtain ⟨hden₁, hden₂⟩ := hbounds hden
  have hupper : (num : ℚ) / den < 2 ^ ((Nat.log2 num : Int) - Nat.log2 den + 1) := by
    rw [div_lt_iff₀ hden']
    calc (num : ℚ) < 2 ^ ((Nat.log2 num : Int) + 1) := hnum₂
      _ = 2 ^ ((Nat.log2 num : Int) - Nat.log2 den + 1) * 2 ^ (Nat.log2 den : Int) := by
        rw [← zpow_add₀ two_ne_zero]; congr 1; omega
      _ ≤ 2 ^ ((Nat.log2 num : Int) - Nat.log2 den + 1) * den := by gcongr
  have hlower : (2 : ℚ) ^ ((Nat.log2 num : Int) - Nat.log2 den - 1) ≤ num / den := by
    rw [le_div_iff₀ hden']
    calc (2 : ℚ) ^ ((Nat.log2 num : Int) - Nat.log2 den - 1) * den
        ≤ 2 ^ ((Nat.log2 num : Int) - Nat.log2 den - 1) * 2 ^ ((Nat.log2 den : Int) + 1) := by
          gcongr
      _ = 2 ^ (Nat.log2 num : Int) := by
        rw [← zpow_add₀ two_ne_zero]; congr 1; omega
      _ ≤ num := hnum₁
  have hlog : ∀ {e : Int}, (2 : ℚ) ^ e ≤ num / den → (num : ℚ) / den < 2 ^ (e + 1) →
      e = Int.log 2 ((num : ℚ) / den) := by
    intro e hle hlt
    have h₁ := (Int.zpow_le_iff_le_log (b := 2) (by decide) hq).1 (by exact_mod_cast hle)
    have h₂ := (Int.lt_zpow_iff_log_lt (b := 2) (by decide) hq).1 (by exact_mod_cast hlt)
    omega
  -- the guess from the lengths is right or one too large
  simp only [leadingExponent, reached_iff hden]
  split
  · next h => exact hlog h hupper
  · next h => exact hlog hlower (by rwa [Int.sub_add_cancel, ← not_le])

/-! ## Rounding a quotient -/

/-- **The bits depend on the value alone**, not on the quotient that
writes it. -/
theorem roundQuotient_congr (hden : 0 < den) (hden' : 0 < den')
    (h : (num : ℚ) / den = num' / den') : f.roundQuotient num den = f.roundQuotient num' den' := by
  have hq : (0 : ℚ) < den := Nat.cast_pos.2 hden
  have hq' : (0 : ℚ) < den' := Nat.cast_pos.2 hden'
  have hcross : num * den' = num' * den := by
    rw [div_eq_div_iff hq.ne' hq'.ne'] at h
    exact_mod_cast h
  have hzero : num = 0 ↔ num' = 0 := by
    constructor
    · rintro rfl
      rw [Nat.zero_mul, eq_comm, Nat.mul_eq_zero] at hcross
      exact hcross.resolve_right hden.ne'
    · rintro rfl
      rw [Nat.zero_mul, Nat.mul_eq_zero] at hcross
      exact hcross.resolve_right hden'.ne'
  rw [roundQuotient, roundQuotient]
  by_cases hnum : num = 0
  · rw [if_pos hnum, if_pos (hzero.1 hnum)]
  have hnum' : num' ≠ 0 := fun h' => hnum (hzero.2 h')
  rw [if_neg hnum, if_neg hnum', leadingExponent_eq_log (Nat.pos_of_ne_zero hnum) hden,
    leadingExponent_eq_log (Nat.pos_of_ne_zero hnum') hden', h]
  dsimp only
  congr 2
  split
  · refine roundHalfEven_congr (Nat.mul_pos hden (Nat.two_pow_pos _))
      (Nat.mul_pos hden' (Nat.two_pow_pos _)) ?_
    rw [← Nat.mul_assoc, hcross, ← Nat.mul_assoc]
  · refine roundHalfEven_congr hden hden' ?_
    rw [Nat.mul_right_comm, hcross, Nat.mul_right_comm]

/-! ## The value of finite bits -/

/-- **What finite bits say.** Below the least normal number the exponent is
the least one, from there on the significand has its leading one; the
exponent and the significand add up to the bits. -/
theorem decode_eq_finite {bits significand : Nat} {negative : Bool} {exponent : Int}
    (h : f.decode bits = .finite negative significand exponent) :
    (exponent = f.minExponent ∧ significand < Nat.pow 2 f.fractionBits ∨
      f.minExponent ≤ exponent ∧ Nat.pow 2 f.fractionBits ≤ significand ∧
        significand < 2 * Nat.pow 2 f.fractionBits) ∧
      bits % f.signWeight =
        (exponent - f.minExponent).toNat * Nat.pow 2 f.fractionBits + significand ∧
      bits % f.signWeight < f.infinityBits := by
  have hF : 0 < Nat.pow 2 f.fractionBits := Nat.two_pow_pos _
  have hE : 0 < Nat.pow 2 f.exponentBits := Nat.two_pow_pos _
  have hweight : f.signWeight = Nat.pow 2 f.exponentBits * Nat.pow 2 f.fractionBits :=
    Nat.pow_add ..
  have hbits : bits % f.signWeight < Nat.pow 2 f.exponentBits * Nat.pow 2 f.fractionBits :=
    hweight ▸ Nat.mod_lt _ (hweight ▸ Nat.mul_pos hE hF)
  have hbiased := (Nat.div_lt_iff_lt_mul hF).2 hbits
  have hfraction := Nat.mod_lt (bits % f.signWeight) hF
  have hsplit := Nat.div_add_mod' (bits % f.signWeight) (Nat.pow 2 f.fractionBits)
  simp only [decode] at h
  rw [infinityBits]
  -- from here on the powers and the parts of the bits are just naturals
  generalize bits % f.signWeight = m at *
  generalize Nat.pow 2 f.fractionBits = F at *
  generalize Nat.pow 2 f.exponentBits = E at *
  split at h
  · split at h <;> cases h
  next hinf =>
  have hlt : m < (E - 1) * F := (Nat.div_lt_iff_lt_mul hF).1 (by omega)
  generalize m / F = biased at *
  generalize m % F = fraction at *
  split at h
  · next hzero =>
    subst hzero
    cases h
    exact ⟨.inl ⟨rfl, hfraction⟩, by simpa using hsplit.symm, hlt⟩
  · next hzero =>
    obtain ⟨k, rfl⟩ : ∃ k, biased = k + 1 := ⟨biased - 1, by omega⟩
    rw [Nat.succ_mul] at hsplit
    cases h
    refine ⟨.inr ⟨by omega, by omega, by omega⟩, ?_, hlt⟩
    rw [Nat.add_sub_cancel, add_sub_cancel_left, Int.toNat_natCast]
    omega

theorem sign_of_decode {bits significand : Nat} {negative : Bool} {exponent : Int}
    (h : f.decode bits = .finite negative significand exponent) :
    negative = decide (f.signWeight ≤ bits) := by
  simp only [decode] at h
  split at h
  · split at h <;> cases h
  split at h <;> cases h <;> rfl

/-- The quotient that `roundBinary` rounds is the number it is given. -/
theorem roundQuotient_eq_roundBinary (hden : 0 < den) {significand : Nat} {exponent : Int}
    (h : (num : ℚ) / den = significand * 2 ^ exponent) :
    f.roundQuotient num den = f.roundBinary significand exponent := by
  rw [roundBinary]
  split
  · next he =>
    refine roundQuotient_congr hden Nat.one_pos ?_
    rw [h, zpow_of_nonneg he, Nat.cast_mul, Nat.cast_one, div_one]
  · next he =>
    refine roundQuotient_congr hden (Nat.two_pow_pos _) ?_
    rw [h, zpow_of_neg he, div_eq_mul_inv]

/-- A number whose unit in the last place is the one of the format is
rounded to itself. -/
theorem roundBinary_eq {significand : Nat} {exponent : Int} (hpos : 0 < significand)
    (hunit : max (Int.log 2 (significand * 2 ^ exponent : ℚ) - f.fractionBits) f.minExponent =
      exponent) :
    f.roundBinary significand exponent = min f.infinityBits
      ((exponent - f.minExponent).toNat * Nat.pow 2 f.fractionBits + significand) := by
  rw [roundBinary]
  split
  · next he =>
    have hpow : 0 < Nat.pow 2 exponent.toNat := Nat.two_pow_pos _
    have hnum := Nat.mul_pos hpos hpow
    rw [zpow_of_nonneg he, ← Nat.cast_mul] at hunit
    rw [roundQuotient, if_neg hnum.ne', leadingExponent_eq_log hnum Nat.one_pos, Nat.cast_one,
      div_one, hunit]
    dsimp only
    rw [if_pos he, Nat.one_mul, roundHalfEven_mul_self _ hpow]
  · next he =>
    have hden : 0 < Nat.pow 2 (-exponent).toNat := Nat.two_pow_pos _
    rw [zpow_of_neg he, ← div_eq_mul_inv] at hunit
    rw [roundQuotient, if_neg hpos.ne', leadingExponent_eq_log hpos hden, hunit]
    dsimp only
    rw [if_neg he, roundHalfEven_mul_self _ hden]

/-- **The value of finite bits rounds to these bits.** -/
theorem roundBinary_decode {bits significand : Nat} {negative : Bool} {exponent : Int}
    (h : f.decode bits = .finite negative significand exponent) :
    f.roundBinary significand exponent = bits % f.signWeight := by
  obtain ⟨hrange, hbits, hlt⟩ := decode_eq_finite h
  rcases Nat.eq_zero_or_pos significand with rfl | hpos
  · have hF : 0 < Nat.pow 2 f.fractionBits := Nat.two_pow_pos _
    have hexp : exponent = f.minExponent := by
      rcases hrange with ⟨hexp, -⟩ | ⟨-, hle, -⟩
      · exact hexp
      · omega
    rw [hbits, hexp]
    simp [roundBinary, roundQuotient]
  · have hvalue : (0 : ℚ) < significand * 2 ^ exponent := by positivity
    have hlog : ∀ {n : Nat}, (significand : ℚ) < (2 : ℚ) ^ n →
        Int.log 2 (significand * 2 ^ exponent : ℚ) < n + exponent := by
      intro n hn
      rw [← Int.lt_zpow_iff_log_lt (by decide) hvalue, Nat.cast_ofNat, zpow_add₀ two_ne_zero,
        zpow_natCast]
      gcongr
    rw [roundBinary_eq hpos, ← hbits, min_eq_right hlt.le]
    -- left is that the unit in the last place is the exponent that was decoded
    rcases hrange with ⟨hexp, hsub⟩ | ⟨hexp, hle, hlt'⟩
    · have := hlog (n := f.fractionBits) (by exact_mod_cast hsub)
      omega
    · have hupper := hlog (n := f.fractionBits + 1) (by
        rw [pow_succ']
        exact_mod_cast hlt')
      have hlower : f.fractionBits + exponent ≤ Int.log 2 (significand * 2 ^ exponent : ℚ) := by
        rw [← Int.zpow_le_iff_le_log (by decide) hvalue, Nat.cast_ofNat, zpow_add₀ two_ne_zero,
          zpow_natCast]
        gcongr
        exact_mod_cast hle
      push_cast at hupper
      omega

end BinaryFormat

end RuleVote
