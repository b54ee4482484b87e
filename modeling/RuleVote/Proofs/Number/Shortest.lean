import RuleVote.Number.Decimal
import RuleVote.Proofs.Number.Rounding
import Mathlib.Tactic.NormNum
/-!
# The shortest decimal reads back

`Decimal.value` is the rational number a decimal stands for. How a decimal
is rounded depends on that number alone (`roundTo_congr`), trailing zeros
included, and the exact expansion of finite bits rounds to these bits. The
search for fewer digits only ever takes a decimal that it has read back, and
falls back on the exact one, so `roundTo_shortest` needs nothing about which
grid it stops at: **what is printed reads back**, whatever the tie rule.
-/

namespace RuleVote

namespace Decimal

variable {f : BinaryFormat} {d d' : Decimal}

/-! ## The value of a decimal -/

/-- The number that a decimal stands for. -/
def value (d : Decimal) : ℚ := d.digits * 10 ^ d.exponent

theorem quotient_den_pos (d : Decimal) : 0 < d.quotient.2 := by
  rw [quotient]
  split
  · exact Nat.one_pos
  · exact Nat.pow_pos (by decide)

theorem quotient_eq_value (d : Decimal) : (d.quotient.1 : ℚ) / d.quotient.2 = d.value := by
  rw [quotient, value]
  split
  · next he => rw [zpow_of_nonneg he, Nat.cast_mul, Nat.cast_one, div_one]
  · next he => rw [zpow_of_neg he, div_eq_mul_inv]

theorem value_eq_zero_iff : d.value = 0 ↔ d.digits = 0 := by
  rw [value, mul_eq_zero, Nat.cast_eq_zero]
  exact or_iff_left (zpow_ne_zero _ (by norm_num))

theorem value_pos (h : d.digits ≠ 0) : 0 < d.value :=
  mul_pos (Nat.cast_pos.2 (Nat.pos_of_ne_zero h)) (zpow_pos (by norm_num) _)

/-- The place of the leading digit is the decimal logarithm of the value. -/
theorem ceilingExponent_eq_log (h : d.digits ≠ 0) :
    d.ceilingExponent = Int.log 10 d.value + 1 := by
  have hlen : ∀ {k : Nat}, 0 < k → ((decimalDigits d.digits).length ≤ k ↔ d.digits < 10 ^ k) :=
    Nat.length_toDigits_le_iff (by decide)
  have hpos : 0 < (decimalDigits d.digits).length := Nat.length_toDigits_pos
  rw [ceilingExponent]
  generalize (decimalDigits d.digits).length = len at hlen hpos
  have hupper : d.digits < 10 ^ len := (hlen hpos).1 le_rfl
  have hlower : 10 ^ (len - 1) ≤ d.digits := by
    rcases Nat.lt_or_ge 1 len with hlt | hle
    · exact Nat.le_of_not_lt fun hlt' => absurd ((hlen (by omega)).2 hlt') (by omega)
    · have : len - 1 = 0 := by omega
      rw [this, pow_zero]
      exact Nat.pos_of_ne_zero h
  have h₁ : Int.log 10 d.value < d.exponent + len := by
    rw [← Int.lt_zpow_iff_log_lt (by decide) (value_pos h), value, Nat.cast_ofNat,
      zpow_add₀ (by norm_num), zpow_natCast, mul_comm]
    gcongr
    exact_mod_cast hupper
  have h₂ : d.exponent + (len - 1 : Nat) ≤ Int.log 10 d.value := by
    rw [← Int.zpow_le_iff_le_log (by decide) (value_pos h), value, Nat.cast_ofNat,
      zpow_add₀ (by norm_num), zpow_natCast, mul_comm]
    gcongr
    exact_mod_cast hlower
  omega

/-- **Decimals of one value round alike**, however many of their zeros are
digits. -/
theorem roundTo_congr (h : d.value = d'.value) : d.roundTo f = d'.roundTo f := by
  have hzero : d.digits = 0 ↔ d'.digits = 0 := by
    rw [← value_eq_zero_iff, h, value_eq_zero_iff]
  rw [roundTo, roundTo]
  by_cases hd : d.digits = 0
  · simp only [if_pos hd, if_pos (hzero.1 hd)]
  · have hd' : d'.digits ≠ 0 := fun hd' => hd (hzero.2 hd')
    have hlog := ceilingExponent_eq_log hd
    have hlog' := ceilingExponent_eq_log hd'
    rw [ceilingExponent] at hlog hlog'
    simp only [if_neg hd, if_neg hd', hlog, hlog', h]
    rw [BinaryFormat.roundQuotient_congr (quotient_den_pos d) (quotient_den_pos d')
      (by rw [quotient_eq_value, quotient_eq_value, h])]

/-! ## Normal decimals and exact ones -/

theorem dropTrailingZeros_eq (count n : Nat) :
    (dropTrailingZeros count n).1 * 10 ^ (dropTrailingZeros count n).2 = n := by
  induction count generalizing n with
  | zero => simp [dropTrailingZeros]
  | succ count ih =>
    rw [dropTrailingZeros]
    split
    · next hten =>
      dsimp only
      rw [pow_succ, ← mul_assoc, ih, Nat.div_mul_cancel (Nat.dvd_of_mod_eq_zero hten)]
    · simp

theorem value_normalize (d : Decimal) : d.normalize.value = d.value := by
  rw [normalize]
  split
  · next hd => rw [value_eq_zero_iff.2 hd, value_eq_zero_iff]; rfl
  · have h := dropTrailingZeros_eq (decimalDigits d.digits).length d.digits
    generalize dropTrailingZeros (decimalDigits d.digits).length d.digits = p at h
    rw [value, value, ← h, zpow_add₀ (by norm_num), zpow_natCast, Nat.cast_mul, Nat.cast_pow,
      Nat.cast_ofNat]
    ring

theorem value_ofBinary (significand : Nat) (exponent : Int) :
    (ofBinary significand exponent).value = significand * 2 ^ exponent := by
  rw [ofBinary]
  split
  · next he => rw [value, zpow_of_nonneg he, Nat.cast_mul, zpow_zero, mul_one]
  · next he =>
    have hten : (10 : ℚ) ^ exponent = 2 ^ exponent * 5 ^ exponent := by
      rw [← mul_zpow]
      norm_num
    have hfive : ((Nat.pow 5 (-exponent).toNat : Nat) : ℚ) ≠ 0 :=
      Nat.cast_ne_zero.2 (Nat.pow_pos (by decide)).ne'
    rw [value, hten, @zpow_of_neg 5 _ _ he, Nat.cast_mul]
    field_simp

end Decimal

/-! ## Reading back -/

/-- A power of two with at most three times the exponent is below the power
of ten. -/
theorem two_zpow_le_ten_zpow {e k : Int} (hk : 0 ≤ k) (h : e ≤ 3 * k) :
    (2 : ℚ) ^ e ≤ 10 ^ k := by
  calc (2 : ℚ) ^ e ≤ 2 ^ (3 * k) := zpow_le_zpow_right₀ (by norm_num) h
    _ = 8 ^ k := by rw [zpow_mul]; norm_num
    _ ≤ 10 ^ k := zpow_le_zpow_left₀ hk (by norm_num) (by norm_num)

/-- The finite positive numbers of a format have their leading digit within
`Decimal.reach`, where a digit counts for three bits. -/
structure BinaryFormat.WithinReach (f : BinaryFormat) : Prop where
  /-- The least of them does. -/
  least : -f.minExponent ≤ 3 * (Decimal.reach + 1)
  /-- So does a power of two above the largest. -/
  most : f.minExponent + Nat.pow 2 f.exponentBits + f.fractionBits ≤ 3 * Decimal.reach

theorem withinReach_single : BinaryFormat.single.WithinReach := ⟨by decide, by decide⟩

namespace Decimal

variable {f : BinaryFormat} {bits significand : Nat} {negative : Bool} {exponent : Int}

/-- Finite numbers of a format are written out: their decimals are not
settled by their size. -/
theorem leading_of_decode (hreach : f.WithinReach)
    (h : f.decode bits = .finite negative significand exponent) {d : Decimal}
    (hvalue : d.value = significand * 2 ^ exponent) (hd : d.digits ≠ 0) :
    -reach ≤ d.ceilingExponent ∧ d.ceilingExponent ≤ reach := by
  obtain ⟨hrange, hbits, hlt⟩ := BinaryFormat.decode_eq_finite h
  have hF : 0 < Nat.pow 2 f.fractionBits := Nat.two_pow_pos _
  have hnonneg : 0 ≤ reach := by decide
  have hpos := value_pos hd
  have hsignificand : 1 ≤ significand := by
    rw [Nat.one_le_iff_ne_zero]
    rintro rfl
    rw [hvalue, Nat.cast_zero, zero_mul] at hpos
    exact lt_irrefl _ hpos
  have hexp : f.minExponent ≤ exponent := by
    rcases hrange with ⟨rfl, -⟩ | ⟨hle, -⟩
    · exact le_rfl
    · exact hle
  have hsig : significand < 2 * Nat.pow 2 f.fractionBits := by
    rcases hrange with ⟨-, hlt⟩ | ⟨-, -, hlt⟩
    · omega
    · exact hlt
  have hcount : (exponent - f.minExponent).toNat < Nat.pow 2 f.exponentBits - 1 := by
    rw [BinaryFormat.infinityBits] at hlt
    exact Nat.lt_of_mul_lt_mul_right (a := Nat.pow 2 f.fractionBits) (by omega)
  -- the value lies between two powers of ten, and the leading digit between their exponents
  have hlow : (10 : ℚ) ^ (-(reach + 1)) ≤ d.value := by
    calc (10 : ℚ) ^ (-(reach + 1)) = (10 ^ (reach + 1))⁻¹ := zpow_neg ..
      _ ≤ (2 ^ (-f.minExponent))⁻¹ :=
        inv_anti₀ (by positivity) (two_zpow_le_ten_zpow (by omega) hreach.least)
      _ = 2 ^ f.minExponent := by rw [zpow_neg, inv_inv]
      _ ≤ 2 ^ exponent := zpow_le_zpow_right₀ (by norm_num) hexp
      _ ≤ significand * 2 ^ exponent :=
        le_mul_of_one_le_left (by positivity) (by exact_mod_cast hsignificand)
      _ = d.value := hvalue.symm
  have hhigh : d.value < 10 ^ reach := by
    calc d.value = significand * 2 ^ exponent := hvalue
      _ < 2 ^ (f.fractionBits + 1) * 2 ^ exponent := by
        gcongr
        rw [pow_succ']
        exact_mod_cast hsig
      _ = 2 ^ (exponent + f.fractionBits + 1) := by
        rw [← zpow_natCast, ← zpow_add₀ two_ne_zero]
        congr 1
        push_cast
        ring
      _ ≤ 10 ^ reach := two_zpow_le_ten_zpow hnonneg (by have := hreach.most; omega)
  rw [ceilingExponent_eq_log hd]
  have h₁ := (Int.zpow_le_iff_le_log (b := 10) (by decide) hpos).1 (by exact_mod_cast hlow)
  have h₂ := (Int.lt_zpow_iff_log_lt (b := 10) (by decide) hpos).1 (by exact_mod_cast hhigh)
  omega

/-- The exact expansion of finite bits rounds to these bits. -/
theorem roundTo_ofBinary (hreach : f.WithinReach)
    (h : f.decode bits = .finite negative significand exponent) :
    (ofBinary significand exponent).roundTo f = bits % f.signWeight := by
  have hvalue := value_ofBinary significand exponent
  generalize ofBinary significand exponent = d at hvalue ⊢
  rw [← BinaryFormat.roundBinary_decode h, ← BinaryFormat.roundQuotient_eq_roundBinary
    (quotient_den_pos d) ((quotient_eq_value d).trans hvalue), roundTo]
  by_cases hd : d.digits = 0
  · have hnum : d.quotient.1 = 0 := by rw [quotient, hd]; split <;> simp
    rw [if_pos hd, BinaryFormat.roundQuotient, if_pos hnum]
  · obtain ⟨hlow, hhigh⟩ := leading_of_decode hreach h hvalue hd
    rw [ceilingExponent] at hlow hhigh
    rw [if_neg hd, if_neg (by omega), if_neg (by omega)]

/-- A neighbour is taken only after it has read back. -/
theorem roundTo_of_readsBack? {tie : Tie} {exact d : Decimal} {unit : Int}
    (h : exact.readsBack? f tie bits unit = some d) : d.roundTo f = bits := by
  rw [readsBack?] at h
  dsimp only at h
  split at h
  · next hlow hhigh =>
    rw [beq_iff_eq] at hlow hhigh
    split at h <;> cases h
    · exact hlow
    · exact hhigh
    · exact hhigh
    · split
      · exact hlow
      · exact hhigh
  · next hlow _ => cases h; exact beq_iff_eq.1 hlow
  · next _ hhigh => cases h; exact beq_iff_eq.1 hhigh
  · cases h

theorem roundTo_firstGrid {tie : Tie} {exact : Decimal} (hexact : exact.roundTo f = bits)
    (grids : Nat) (unit : Int) : (firstGrid f tie exact bits grids unit).roundTo f = bits := by
  induction grids generalizing unit with
  | zero => exact hexact
  | succ grids ih =>
    rw [firstGrid]
    split
    · next d hd => exact roundTo_of_readsBack? hd
    · exact ih (unit - 1)

/-- **The shortest decimal reads back** as the bits it was made from. -/
theorem roundTo_shortest (hreach : f.WithinReach) (tie : Tie)
    (h : f.decode bits = .finite negative significand exponent) :
    (shortest f tie (bits % f.signWeight) significand exponent).roundTo f =
      bits % f.signWeight := by
  rw [shortest]
  split
  · next hzero =>
    subst hzero
    rw [← roundTo_ofBinary hreach h]
    refine roundTo_congr ?_
    rw [value_ofBinary, Nat.cast_zero, zero_mul, value_eq_zero_iff]
    rfl
  · rw [roundTo_congr (value_normalize _)]
    exact roundTo_firstGrid (roundTo_ofBinary hreach h) _ _

end Decimal

end RuleVote
