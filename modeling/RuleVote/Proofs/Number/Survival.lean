import Mathlib.Algebra.Order.Group.Pointwise.Interval
import RuleVote.Proofs.Number.Brackets
/-!
# The shortest decimal survives reading step by step

The shortest decimal of a single precision number lies on a grid, at most one step
from the number (`Decimal.exists_grid`). Reading it step by step gives a double
precision number so close that only a midpoint could lie between the two. If one
does, the decimal comes closer to it than double precision can tell, and the grid
is coarse, so the decimal is one of those that are settled (`survives_of_close`).
Hence rounding to single precision gives the number back
(`Decimal.survives_shortest`).
-/

namespace RuleVote

open BinaryFormat

namespace Decimal

variable {f : BinaryFormat} {d d' : Decimal} {bits : Nat}

/-! ## Neighbours on a grid -/

/-- The neighbour below is the multiple of the unit that the next one passes. -/
theorem neighbours_bounds (d : Decimal) (unit : ℤ) :
    (d.neighbours unit).1 * 10 ^ unit ≤ d.value ∧
      d.value < ((d.neighbours unit).1 + 1) * 10 ^ unit ∧
      (d.neighbours unit).2.1 = (d.neighbours unit).1 + 1 := by
  have hunit : (0 : ℚ) < 10 ^ unit := by positivity
  -- Both signs of the shift give a quotient, of which the neighbour is the whole part.
  obtain ⟨num, den, hden, hvalue, hbelow, habove⟩ : ∃ num den : Nat, 0 < den ∧
      (num : ℚ) / den = d.value / 10 ^ unit ∧ (d.neighbours unit).1 = num / den ∧
      (d.neighbours unit).2.1 = num / den + 1 := by
    have hshift : d.value / 10 ^ unit = d.digits * 10 ^ (d.exponent - unit) := by
      rw [value, zpow_sub₀ (by norm_num), mul_div_assoc]
    by_cases h : 0 ≤ d.exponent - unit
    · refine ⟨d.digits * Nat.pow 10 (d.exponent - unit).toNat, 1, Nat.one_pos, ?_, ?_, ?_⟩
      · rw [hshift, zpow_of_nonneg h, Nat.cast_one, div_one, Nat.cast_mul]
      · simp only [neighbours, if_pos h]
      · simp only [neighbours, if_pos h]
    · refine ⟨d.digits, Nat.pow 10 (-(d.exponent - unit)).toNat, Nat.pow_pos (by decide),
        ?_, ?_, ?_⟩
      · rw [hshift, zpow_of_neg h, div_eq_mul_inv]
      · simp only [neighbours, if_neg h]
      · simp only [neighbours, if_neg h]
  have hden' : (0 : ℚ) < den := Nat.cast_pos.2 hden
  have hsplit : (num : ℚ) = (num / den : ℕ) * den + (num % den : ℕ) := by
    exact_mod_cast (Nat.div_add_mod' num den).symm
  have hrest : ((num % den : ℕ) : ℚ) < den := Nat.cast_lt.2 (Nat.mod_lt num hden)
  have hrest₀ : (0 : ℚ) ≤ (num % den : ℕ) := Nat.cast_nonneg _
  have hle : ((num / den : ℕ) : ℚ) ≤ num / den := by
    rw [le_div_iff₀ hden']
    linarith
  have hlt : (num : ℚ) / den < (num / den : ℕ) + 1 := by
    rw [div_lt_iff₀ hden']
    linarith
  rw [hvalue, le_div_iff₀ hunit] at hle
  rw [hvalue, div_lt_iff₀ hunit] at hlt
  rw [habove, hbelow]
  exact ⟨hle, hlt, rfl⟩

/-- A decimal that is found on a grid lies at most one step from the number. -/
theorem near_of_readsBack? {tie : Tie} {exact : Decimal} {unit : ℤ}
    (h : exact.readsBack? f tie bits unit = some d) :
    d.exponent = unit ∧ |d.value - exact.value| ≤ 10 ^ unit := by
  obtain ⟨hlow, hhigh, hnext⟩ := exact.neighbours_bounds unit
  have hbelow : |(⟨(exact.neighbours unit).1, unit⟩ : Decimal).value - exact.value| ≤
      10 ^ unit := by
    rw [value, abs_le]
    constructor <;> linarith
  have habove : |(⟨(exact.neighbours unit).2.1, unit⟩ : Decimal).value - exact.value| ≤
      10 ^ unit := by
    rw [value, hnext, abs_le]
    push_cast
    constructor <;> linarith
  rw [readsBack?] at h
  dsimp only at h
  split at h
  · split at h <;> cases h
    · exact ⟨rfl, hbelow⟩
    · exact ⟨rfl, habove⟩
    · exact ⟨rfl, habove⟩
    · split
      · exact ⟨rfl, hbelow⟩
      · exact ⟨rfl, habove⟩
  · cases h
    exact ⟨rfl, hbelow⟩
  · cases h
    exact ⟨rfl, habove⟩
  · cases h

/-- The neighbour below is found where it reads back. -/
theorem exists_readsBack? (tie : Tie) {exact : Decimal} {unit : ℤ}
    (h : (⟨(exact.neighbours unit).1, unit⟩ : Decimal).roundTo f = bits) :
    ∃ d, exact.readsBack? f tie bits unit = some d := by
  rw [readsBack?]
  dsimp only
  rw [h, beq_self_eq_true]
  split
  · split <;> exact ⟨_, rfl⟩
  · exact ⟨_, rfl⟩
  · next heq _ => cases heq
  · next heq _ => cases heq

/-- **The search ends on a grid that is not finer than needed**: a grid on which
what lies within one step of the number reads back. -/
theorem exists_grid (tie : Tie) {exact : Decimal} {least : ℤ}
    (hstop : ∀ d : Decimal, |d.value - exact.value| < 10 ^ least → d.roundTo f = bits)
    (grids : Nat) {unit : ℤ} (hle : least ≤ unit) (hgrids : unit < least + grids) :
    least ≤ (firstGrid f tie exact bits grids unit).exponent ∧
      (firstGrid f tie exact bits grids unit).exponent ≤ unit ∧
      |(firstGrid f tie exact bits grids unit).value - exact.value| ≤
        10 ^ (firstGrid f tie exact bits grids unit).exponent := by
  induction grids generalizing unit with
  | zero => omega
  | succ grids ih =>
    rw [firstGrid]
    split
    · next d hd =>
      obtain ⟨hexponent, hnear⟩ := near_of_readsBack? hd
      rw [hexponent]
      exact ⟨hle, le_rfl, hnear⟩
    · next hnone =>
      have hlt : least < unit := by
        refine lt_of_le_of_ne hle ?_
        rintro rfl
        obtain ⟨hlow, hhigh, -⟩ := exact.neighbours_bounds least
        have hnear : |(⟨(exact.neighbours least).1, least⟩ : Decimal).value - exact.value| <
            10 ^ least := by
          rw [value, abs_lt]
          constructor <;> linarith
        obtain ⟨d, hd⟩ := exists_readsBack? tie (hstop _ hnear)
        rw [hnone] at hd
        cases hd
      have hfiner : least ≤ unit - 1 := by omega
      obtain ⟨hleast, hmost, hnear⟩ := ih hfiner (by omega)
      exact ⟨hleast, hmost.trans (by omega), hnear⟩

/-! ## No trailing zeros -/

theorem dropTrailingZeros_mod {count n : Nat} (hpos : 0 < n) (hlt : n < 10 ^ count) :
    (dropTrailingZeros count n).1 % 10 ≠ 0 := by
  induction count generalizing n with
  | zero => omega
  | succ count ih =>
    rw [dropTrailingZeros]
    split
    · rw [pow_succ] at hlt
      exact ih (by omega) (by omega)
    · next hmod => exact hmod

/-- A decimal without trailing zeros has no more digits than it had. -/
theorem normalize_digits (h : 0 < d.digits) :
    d.normalize.digits % 10 ≠ 0 ∧ d.normalize.digits ≤ d.digits := by
  have hlength : d.digits < 10 ^ (decimalDigits d.digits).length :=
    (Nat.length_toDigits_le_iff (by decide) Nat.length_toDigits_pos).1 le_rfl
  have hmod := dropTrailingZeros_mod h hlength
  have heq := dropTrailingZeros_eq (decimalDigits d.digits).length d.digits
  rw [normalize, if_neg h.ne']
  generalize dropTrailingZeros (decimalDigits d.digits).length d.digits = p at hmod heq
  refine ⟨hmod, ?_⟩
  calc p.1 ≤ p.1 * 10 ^ p.2 := Nat.le_mul_of_pos_right _ (by positivity)
    _ = d.digits := heq

/-- **Decimals of one value without trailing zeros are the same.** -/
theorem eq_of_value (h : d.value = d'.value) (hd : d.digits % 10 ≠ 0) (hd' : d'.digits % 10 ≠ 0) :
    d = d' := by
  have hle : ∀ {d d' : Decimal}, d.value = d'.value → d.digits % 10 ≠ 0 →
      d'.exponent ≤ d.exponent := by
    intro d d' h hd
    by_contra hlt
    obtain ⟨k, hk⟩ := Int.le.dest (not_le.1 hlt).le
    have hten : (0 : ℚ) < 10 ^ d.exponent := by positivity
    have hdigits : (d.digits : ℚ) = (d'.digits * 10 ^ k : Nat) := by
      rw [value, value, ← hk, zpow_add₀ (by norm_num), zpow_natCast] at h
      refine mul_right_cancel₀ hten.ne' (h.trans ?_)
      push_cast
      ring
    have hdvd : d.digits = d'.digits * 10 ^ k := by exact_mod_cast hdigits
    obtain ⟨i, rfl⟩ : ∃ i, k = i + 1 := ⟨k - 1, by omega⟩
    rw [pow_succ, ← mul_assoc] at hdvd
    omega
  have hexponent : d.exponent = d'.exponent := le_antisymm (hle h.symm hd') (hle h hd)
  have hdigits : (d.digits : ℚ) = d'.digits := by
    rw [value, value, hexponent] at h
    exact mul_right_cancel₀ (by positivity) h
  obtain ⟨D, k⟩ := d
  obtain ⟨D', k'⟩ := d'
  obtain rfl : D = D' := by exact_mod_cast hdigits
  obtain rfl : k = k' := hexponent
  rfl

/-! ## Decimals of ordinary size -/

/-- The number lies far inside the range of double precision. -/
def Ordinary (v : ℚ) : Prop := 2 ^ (-200 : ℤ) ≤ v ∧ v ≤ 2 ^ (200 : ℤ)

theorem Ordinary.pos {v : ℚ} (h : Ordinary v) : 0 < v := lt_of_lt_of_le (by positivity) h.1

theorem digits_pos (h : 0 < d.value) : 0 < d.digits := by
  rw [Nat.pos_iff_ne_zero]
  intro hzero
  rw [value_eq_zero_iff.2 hzero] at h
  exact lt_irrefl _ h

theorem quotient_num_pos (h : 0 < d.digits) : 0 < d.quotient.1 := by
  rw [quotient]
  split
  · exact Nat.mul_pos h (Nat.pow_pos (by decide))
  · exact h

/-- An ordinary decimal is not settled by its size. -/
theorem roundTo_eq (h : Ordinary d.value) :
    d.roundTo f = f.roundQuotient d.quotient.1 d.quotient.2 := by
  have hdigits := (digits_pos h.pos).ne'
  have hlow : (10 : ℚ) ^ (-67 : ℤ) ≤ d.value := by
    calc (10 : ℚ) ^ (-67 : ℤ) ≤ 2 ^ (-200 : ℤ) := by norm_num
      _ ≤ d.value := h.1
  have hhigh : d.value < 10 ^ (67 : ℤ) := by
    calc d.value ≤ 2 ^ (200 : ℤ) := h.2
      _ < 10 ^ (67 : ℤ) := by norm_num
  have h₁ : -67 ≤ Int.log 10 d.value := by
    rw [← Int.zpow_le_iff_le_log (by decide) h.pos, Nat.cast_ofNat]
    exact hlow
  have h₂ : Int.log 10 d.value < 67 := by
    rw [← Int.lt_zpow_iff_log_lt (by decide) h.pos, Nat.cast_ofNat]
    exact hhigh
  have hleading := ceilingExponent_eq_log hdigits
  have hreach : reach = 400 := rfl
  rw [ceilingExponent] at hleading
  rw [roundTo, if_neg hdigits, if_neg (by omega), if_neg (by omega)]

/-- The power of ten of an ordinary decimal with few digits is one that double
precision has. -/
theorem natAbs_exponent_le (h : Ordinary d.value) (hlt : d.digits < 2 ^ 53) :
    d.exponent.natAbs ≤ maxPower := by
  have hD : (1 : ℚ) ≤ d.digits := by exact_mod_cast digits_pos h.pos
  have hD' : (d.digits : ℚ) ≤ 2 ^ 53 := by exact_mod_cast hlt.le
  have hten : (0 : ℚ) < 10 ^ d.exponent := by positivity
  have hhigh : (10 : ℚ) ^ d.exponent < 10 ^ (67 : ℤ) := by
    calc (10 : ℚ) ^ d.exponent ≤ d.value := le_mul_of_one_le_left hten.le hD
      _ ≤ 2 ^ (200 : ℤ) := h.2
      _ < 10 ^ (67 : ℤ) := by norm_num
  have hlow : (10 : ℚ) ^ (-84 : ℤ) < 10 ^ d.exponent := by
    calc (10 : ℚ) ^ (-84 : ℤ) < 2 ^ (-200 : ℤ) / 2 ^ 53 := by norm_num
      _ ≤ d.value / 2 ^ 53 := by
        gcongr
        exact h.1
      _ ≤ 10 ^ d.exponent := by
        rw [div_le_iff₀ (by positivity), mul_comm, value]
        gcongr
  have h₁ := (zpow_lt_zpow_iff_right₀ (by norm_num : (1 : ℚ) < 10)).1 hhigh
  have h₂ := (zpow_lt_zpow_iff_right₀ (by norm_num : (1 : ℚ) < 10)).1 hlow
  have hmax : maxPower = 308 := rfl
  omega

/-! ## The decimal of a single precision number -/

section Single

variable {significand : Nat} {negative : Bool} {exponent : ℤ}

/-- Where a positive finite single precision number lies. -/
theorem single_bounds (h : single.decode bits = .finite negative significand exponent)
    (hpos : 0 < significand) : significand < 2 ^ 24 ∧ -149 ≤ exponent ∧ exponent ≤ 104 := by
  obtain ⟨hrange, hbits, hlt⟩ := decode_eq_finite h
  have hF : Nat.pow 2 single.fractionBits = 2 ^ 23 := rfl
  have hmin : single.minExponent = -149 := by decide
  have hinf : single.infinityBits = 255 * 2 ^ 23 := rfl
  rw [hF, hmin] at hrange hbits
  rw [hinf] at hlt
  rcases hrange with ⟨rfl, hsub⟩ | ⟨hexp, hle, hlt'⟩
  · omega
  · omega

theorem single_range (h : single.decode bits = .finite negative significand exponent)
    (hpos : 0 < significand) :
    (2 : ℚ) ^ (-149 : ℤ) ≤ significand * 2 ^ exponent ∧
      significand * 2 ^ exponent ≤ (2 : ℚ) ^ (128 : ℤ) := by
  obtain ⟨hlt, hlow, hhigh⟩ := single_bounds h hpos
  have hone : (1 : ℚ) ≤ significand := by exact_mod_cast hpos
  have hmost : (significand : ℚ) ≤ 2 ^ 24 := by exact_mod_cast hlt.le
  constructor
  · calc (2 : ℚ) ^ (-149 : ℤ) ≤ 2 ^ exponent := zpow_le_zpow_right₀ one_le_two hlow
      _ ≤ significand * 2 ^ exponent := le_mul_of_one_le_left (by positivity) hone
  · calc (significand : ℚ) * 2 ^ exponent ≤ 2 ^ 24 * 2 ^ (104 : ℤ) := by
          gcongr
          exact one_le_two
      _ = 2 ^ (128 : ℤ) := by norm_num

/-- A midpoint next to a number is half a unit in the last place away, and this unit is
that of the number or half of it. -/
theorem midpoint_away {c : Nat} (h : single.decode bits = .finite negative significand exponent)
    (hc : c = bits % single.signWeight ∨ c + 1 = bits % single.signWeight) :
    |single.midpoint c - significand * 2 ^ exponent| = 2 ^ (single.pointExponent c - 1) ∧
      exponent ≤ single.pointExponent c + 1 := by
  obtain ⟨hpoint, hexponent⟩ := point_of_decode h
  have hunit : (0 : ℚ) < 2 ^ (single.pointExponent c - 1) := by positivity
  rcases hc with rfl | hc
  · rw [← hpoint, BinaryFormat.midpoint, add_sub_cancel_left, abs_of_pos hunit, hexponent]
    exact ⟨rfl, by omega⟩
  · rw [← hc] at hpoint hexponent
    have hnext := pointExponent_succ single c
    rw [← hpoint, midpoint_eq_sub, sub_sub_cancel_left, abs_neg, abs_of_pos hunit]
    exact ⟨rfl, by omega⟩

/-- Where two quotients are rounded differently, and one of them to a single precision
number, a midpoint next to this number lies between them. -/
theorem exists_midpoint {num den : Nat} {v : ℚ} (hv : Ordinary d.value)
    (hround : d.roundTo .single = bits) (hfinite : bits < single.infinityBits)
    (hnum : 0 < num) (hden : 0 < den) (hvalue : (num : ℚ) / den = v)
    (hne : single.roundQuotient num den ≠ bits) : ∃ c, (c = bits ∨ c + 1 = bits) ∧
      (d.value ≤ single.midpoint c ∧ single.midpoint c ≤ v ∨
        v ≤ single.midpoint c ∧ single.midpoint c ≤ d.value) := by
  have hbetween := exists_midpoint_between (quotient_num_pos (digits_pos hv.pos))
    (quotient_den_pos d) hnum hden ((roundTo_eq hv).symm.trans hround) hfinite hne
  rwa [quotient_eq_value, hvalue] at hbetween

/-- **What lies within a quarter of the unit in the last place is rounded to the
number.** -/
theorem roundTo_of_near (h : single.decode bits = .finite negative significand exponent)
    (hpos : 0 < significand) (hnear : |d.value - significand * 2 ^ exponent| < 2 ^ (exponent - 2)) :
    d.roundTo .single = bits % single.signWeight := by
  obtain ⟨hlow, hhigh⟩ := single_range h hpos
  have hone : (1 : ℚ) ≤ significand := by exact_mod_cast hpos
  have hexact := value_ofBinary significand exponent
  have hexactRound := roundTo_ofBinary withinReach_single h
  have hquarter : (2 : ℚ) ^ (exponent - 2) ≤ significand * 2 ^ exponent / 4 := by
    rw [zpow_sub₀ two_ne_zero]
    have := le_mul_of_one_le_left (show (0 : ℚ) ≤ 2 ^ exponent by positivity) hone
    norm_num
    linarith
  obtain ⟨hnear₁, hnear₂⟩ := abs_lt.1 hnear
  have hordinary : Ordinary (ofBinary significand exponent).value := by
    rw [hexact]
    constructor
    · calc (2 : ℚ) ^ (-200 : ℤ) ≤ 2 ^ (-149 : ℤ) := zpow_le_zpow_right₀ one_le_two (by norm_num)
        _ ≤ significand * 2 ^ exponent := hlow
    · calc (significand : ℚ) * 2 ^ exponent ≤ 2 ^ (128 : ℤ) := hhigh
        _ ≤ 2 ^ (200 : ℤ) := zpow_le_zpow_right₀ one_le_two (by norm_num)
  have hordinary' : Ordinary d.value := by
    constructor
    · calc (2 : ℚ) ^ (-200 : ℤ) ≤ 2 ^ (-149 : ℤ) / 2 := by norm_num
        _ ≤ significand * 2 ^ exponent / 2 := by gcongr
        _ ≤ d.value := by linarith
    · calc d.value ≤ significand * 2 ^ exponent * 2 := by linarith
        _ ≤ 2 ^ (128 : ℤ) * 2 := by gcongr
        _ ≤ 2 ^ (200 : ℤ) := by norm_num
  by_contra hne
  rw [roundTo_eq hordinary'] at hne
  -- a midpoint next to the number would lie nearer to it than half a unit
  obtain ⟨c, hc, hbetween⟩ := exists_midpoint hordinary hexactRound (decode_eq_finite h).2.2
    (quotient_num_pos (digits_pos hordinary'.pos)) (quotient_den_pos d) (quotient_eq_value d) hne
  obtain ⟨haway, hexponent⟩ := midpoint_away h hc
  have hhalf : (2 : ℚ) ^ (exponent - 2) ≤ 2 ^ (single.pointExponent c - 1) :=
    zpow_le_zpow_right₀ one_le_two (by omega)
  rw [hexact] at hbetween
  have hle : |single.midpoint c - significand * 2 ^ exponent| ≤
      |d.value - significand * 2 ^ exponent| :=
    Set.abs_sub_left_of_mem_uIcc (Set.mem_uIcc.2 hbetween)
  linarith

/-- A number lies between two powers of ten. -/
theorem ten_zpow_log {q : ℚ} (hq : 0 < q) :
    10 ^ Int.log 10 q ≤ q ∧ q < 10 * 10 ^ Int.log 10 q := by
  have hlow := Int.zpow_log_le_self (b := 10) (by decide) hq
  have hhigh := Int.lt_zpow_succ_log_self (b := 10) (by decide) q
  rw [Nat.cast_ofNat] at hlow hhigh
  rw [zpow_add_one₀ (by norm_num), mul_comm] at hhigh
  exact ⟨hlow, hhigh⟩

/-- A decimal that is printed for a number: few digits without a trailing zero, at most
one step of some grid away from the number. -/
structure Prints (d : Decimal) (x : ℚ) : Prop where
  few : d.digits < 2 ^ 30
  trimmed : d.digits % 10 ≠ 0
  ordinary : Ordinary d.value
  grid : ∃ (m : Nat) (unit : ℤ), d.value = m * 10 ^ unit ∧ |d.value - x| ≤ 10 ^ unit

/-! ### Where the search ends -/

/-- The coarsest grid whose steps are no longer than a quarter of the unit in the last
place. -/
def quarterGrid (exponent : ℤ) : ℤ := Int.log 10 ((2 : ℚ) ^ (exponent - 2))

theorem quarterGrid_le (exponent : ℤ) : (10 : ℚ) ^ quarterGrid exponent ≤ 2 ^ (exponent - 2) :=
  (ten_zpow_log (by positivity)).1

/-- A number has few steps of this grid. -/
theorem lt_quarterGrid (hsig : significand < 2 ^ 24) (exponent : ℤ) :
    (significand : ℚ) * 2 ^ exponent < 2 ^ 26 * (10 * 10 ^ quarterGrid exponent) := by
  have hsig' : (significand : ℚ) < 2 ^ 24 := by exact_mod_cast hsig
  obtain ⟨-, hquarter⟩ := ten_zpow_log (show (0 : ℚ) < 2 ^ (exponent - 2) by positivity)
  calc (significand : ℚ) * 2 ^ exponent < 2 ^ 24 * 2 ^ exponent := by gcongr
    _ = 2 ^ 26 * 2 ^ (exponent - 2) := by
      rw [zpow_sub₀ two_ne_zero]
      ring
    _ < 2 ^ 26 * (10 * 10 ^ quarterGrid exponent) := by
      gcongr
      exact hquarter

/-- The search passes it: it starts above this grid, and not far above. -/
theorem quarterGrid_range (hsig : significand < 2 ^ 24) (hpos : 0 < significand) (exponent : ℤ) :
    quarterGrid exponent ≤ Int.log 10 (significand * 2 ^ exponent : ℚ) ∧
      Int.log 10 (significand * 2 ^ exponent : ℚ) < quarterGrid exponent + 9 := by
  have hone : (1 : ℚ) ≤ significand := by exact_mod_cast hpos
  have hx : (0 : ℚ) < significand * 2 ^ exponent := by positivity
  constructor
  · refine Int.log_mono_right (by positivity) ?_
    calc (2 : ℚ) ^ (exponent - 2) ≤ 2 ^ exponent := zpow_le_zpow_right₀ one_le_two (by omega)
      _ ≤ significand * 2 ^ exponent := le_mul_of_one_le_left (by positivity) hone
  · have hsteps := lt_quarterGrid hsig exponent
    have hten : (0 : ℚ) < 10 ^ quarterGrid exponent := by positivity
    rw [← Int.lt_zpow_iff_log_lt (by decide) hx, Nat.cast_ofNat, zpow_add₀ (by norm_num)]
    norm_num
    linarith

section Near

variable {g : Decimal}

/-- A decimal on no finer grid, at most one step away, has few digits. -/
theorem digits_lt_of_near (hsig : significand < 2 ^ 24) (hfine : quarterGrid exponent ≤ g.exponent)
    (hnear : |g.value - significand * 2 ^ exponent| ≤ 10 ^ g.exponent) : g.digits < 2 ^ 30 := by
  have hsteps := lt_quarterGrid hsig exponent
  have hstep : (0 : ℚ) < 10 ^ g.exponent := by positivity
  have hstep' : (10 : ℚ) ^ quarterGrid exponent ≤ 10 ^ g.exponent :=
    zpow_le_zpow_right₀ (by norm_num) hfine
  have hscaled : (g.digits : ℚ) * 10 ^ g.exponent < 2 ^ 30 * 10 ^ g.exponent := by
    calc (g.digits : ℚ) * 10 ^ g.exponent = g.value := rfl
      _ ≤ significand * 2 ^ exponent + 10 ^ g.exponent := by linarith [(abs_le.1 hnear).2]
      _ ≤ 2 ^ 26 * (10 * 10 ^ g.exponent) + 10 ^ g.exponent := by linarith
      _ < 2 ^ 30 * 10 ^ g.exponent := by linarith
  exact_mod_cast lt_of_mul_lt_mul_right hscaled hstep.le

/-- Such a decimal is of ordinary size, as the number is. -/
theorem ordinary_of_near (h : single.decode bits = .finite negative significand exponent)
    (hpos : 0 < significand) (hdigits : 0 < g.digits) (hfine : quarterGrid exponent ≤ g.exponent)
    (hcoarse : (10 : ℚ) ^ g.exponent ≤ 10 * (significand * 2 ^ exponent))
    (hnear : |g.value - significand * 2 ^ exponent| ≤ 10 ^ g.exponent) : Ordinary g.value := by
  obtain ⟨-, hhigh⟩ := single_range h hpos
  obtain ⟨-, hexponent, -⟩ := single_bounds h hpos
  obtain ⟨-, hquarter⟩ := ten_zpow_log (show (0 : ℚ) < 2 ^ (exponent - 2) by positivity)
  have hone : (1 : ℚ) ≤ g.digits := by exact_mod_cast hdigits
  have hstep : (0 : ℚ) < 10 ^ g.exponent := by positivity
  constructor
  · calc (2 : ℚ) ^ (-200 : ℤ) ≤ 2 ^ (-149 - 2 : ℤ) / 10 := by norm_num
      _ ≤ 2 ^ (exponent - 2) / 10 := by
        gcongr
        exact one_le_two
      _ ≤ 10 ^ quarterGrid exponent := by
        rw [div_le_iff₀ (by norm_num), mul_comm]
        exact hquarter.le
      _ ≤ 10 ^ g.exponent := zpow_le_zpow_right₀ (by norm_num) hfine
      _ ≤ g.value := le_mul_of_one_le_left hstep.le hone
  · calc g.value ≤ 11 * (significand * 2 ^ exponent) := by linarith [(abs_le.1 hnear).2]
      _ ≤ 11 * 2 ^ (128 : ℤ) := by gcongr
      _ ≤ 2 ^ (200 : ℤ) := by norm_num

end Near

/-- **The shortest decimal of a number is printed for it.** The search ends where the
steps of the grid are a quarter of the unit in the last place, so the digits are few. -/
theorem prints_shortest (h : single.decode bits = .finite negative significand exponent)
    (hpos : 0 < significand) (tie : Tie) :
    (shortest .single tie (bits % single.signWeight) significand exponent).Prints
      (significand * 2 ^ exponent) := by
  obtain ⟨hsig, -, -⟩ := single_bounds h hpos
  have hx : (0 : ℚ) < significand * 2 ^ exponent :=
    mul_pos (Nat.cast_pos.2 hpos) (by positivity)
  have hvalue := value_ofBinary significand exponent
  rw [shortest, if_neg hpos.ne']
  dsimp only
  generalize ofBinary significand exponent = exact at hvalue
  have hdigits : exact.digits ≠ 0 := (digits_pos (hvalue ▸ hx)).ne'
  have hstart : exact.ceilingExponent = Int.log 10 (significand * 2 ^ exponent : ℚ) + 1 := by
    rw [ceilingExponent_eq_log hdigits, hvalue]
  obtain ⟨hlow, hhigh⟩ := quarterGrid_range hsig hpos exponent
  -- any decimal this close reads back, so the search for a coarser grid stops at one that does
  have hstop : ∀ d : Decimal, |d.value - exact.value| < 10 ^ quarterGrid exponent →
      d.roundTo .single = bits % single.signWeight := by
    intro d hd
    rw [hvalue] at hd
    exact roundTo_of_near h hpos (hd.trans_le (quarterGrid_le exponent))
  have hexact : exact.roundTo .single = bits % single.signWeight :=
    hstop exact (by rw [sub_self, abs_zero]; positivity)
  obtain ⟨hfine, hcoarse, hnear⟩ := exists_grid tie hstop 20
    (show quarterGrid exponent ≤ exact.ceilingExponent by omega) (by omega)
  have hround : (firstGrid .single tie exact (bits % single.signWeight) 20
      exact.ceilingExponent).roundTo .single = bits % single.signWeight :=
    roundTo_firstGrid hexact 20 _
  rw [hvalue] at hnear
  generalize firstGrid .single tie exact (bits % single.signWeight) 20
    exact.ceilingExponent = g at *
  -- the decimal found is not zero, as zero reads back as other bits
  have hg : 0 < g.digits := by
    rw [Nat.pos_iff_ne_zero]
    intro hzero
    rw [roundTo, if_pos hzero, (decode_eq_finite h).2.1] at hround
    omega
  have hstep : (10 : ℚ) ^ g.exponent ≤ 10 * (significand * 2 ^ exponent) := by
    calc (10 : ℚ) ^ g.exponent
        ≤ 10 ^ (Int.log 10 (significand * 2 ^ exponent : ℚ) + 1) :=
          zpow_le_zpow_right₀ (by norm_num) (hcoarse.trans hstart.le)
      _ = 10 * 10 ^ Int.log 10 (significand * 2 ^ exponent : ℚ) := by
        rw [zpow_add_one₀ (by norm_num), mul_comm]
      _ ≤ 10 * (significand * 2 ^ exponent) := by
        gcongr
        exact (ten_zpow_log hx).1
  have hfew := digits_lt_of_near hsig hfine hnear
  have hordinary := ordinary_of_near h hpos hg hfine hstep hnear
  obtain ⟨htrimmed, hle⟩ := normalize_digits hg
  rw [← value_normalize] at hordinary
  refine ⟨hle.trans_lt hfew, htrimmed, hordinary, g.digits, g.exponent, value_normalize g, ?_⟩
  rwa [value_normalize]

/-- A midpoint has a small power of ten: the others have too many factors five. -/
theorem natAbs_exponent_of_eq {n : Nat} {j : ℤ} (hdigits : 0 < d.digits) (hfew : d.digits < 2 ^ 30)
    (hn : 0 < n) (hlt : n < 2 ^ 25) (h : d.value = n * 2 ^ j) : d.exponent.natAbs ≤ 22 := by
  have hcross : d.digits * 10 ^ d.exponent.toNat * 2 ^ (-j).toNat =
      n * 2 ^ j.toNat * 10 ^ (-d.exponent).toNat := by
    rw [value, zpow_eq_div (by norm_num : (10 : ℚ) ≠ 0), zpow_eq_div two_ne_zero, mul_div_assoc',
      mul_div_assoc', div_eq_div_iff (by positivity) (by positivity)] at h
    exact_mod_cast h
  have hfive : ∀ {m k i : Nat}, 0 < m → m < 2 ^ 30 → 5 ^ k ∣ m * 2 ^ i → k ≤ 22 := by
    intro m k i hm hlt hdvd
    by_contra hk
    have hcoprime : Nat.Coprime (5 ^ k) (2 ^ i) := Nat.Coprime.pow k i (by decide)
    have hle := Nat.le_of_dvd hm (hcoprime.dvd_of_dvd_mul_right hdvd)
    have : 5 ^ 23 ≤ 5 ^ k := Nat.pow_le_pow_right (by decide) (by omega)
    omega
  have hten : ∀ k : Nat, 5 ^ k ∣ 10 ^ k := fun k => pow_dvd_pow_of_dvd (by decide) k
  rcases le_total 0 d.exponent with hsign | hsign
  · have hzero : (-d.exponent).toNat = 0 := by omega
    rw [hzero, pow_zero, Nat.mul_one] at hcross
    have hdvd : 5 ^ d.exponent.toNat ∣ n * 2 ^ j.toNat := by
      rw [← hcross]
      exact ((hten _).mul_left _).mul_right _
    have := hfive hn (by omega) hdvd
    omega
  · have hzero : d.exponent.toNat = 0 := by omega
    rw [hzero, pow_zero, Nat.mul_one] at hcross
    have hdvd : 5 ^ (-d.exponent).toNat ∣ d.digits * 2 ^ (-j).toNat := by
      rw [hcross]
      exact (hten _).mul_left _
    have := hfive hdigits hfew hdvd
    omega

theorem single_pointExponent {c : Nat} (hc : c < single.infinityBits) :
    -150 ≤ single.pointExponent c - 1 ∧ single.pointExponent c - 1 ≤ 103 := by
  have hinf : single.infinityBits = 255 * 2 ^ 23 := rfl
  have hexponent : single.pointExponent c = -149 + (c / 2 ^ 23 - 1 : Nat) := rfl
  omega

/-- What double precision cannot tell from a decimal is read as it, if it is the
decimal. -/
theorem survives_of_point_eq (hordinary : Ordinary d.value)
    (hfinite : d.stepwise < double.infinityBits) (h : double.point d.stepwise = d.value) :
    d.Survives := by
  obtain ⟨hden, hvalue⟩ := quotient_eq_point hfinite
  rw [Survives, roundTo_eq hordinary]
  refine roundQuotient_congr hden (quotient_den_pos d) ?_
  rw [hvalue, h, quotient_eq_value]

/-- A decimal that is printed is read step by step as a number very close to it. -/
theorem Prints.stepwise_near {x : ℚ} (h : d.Prints x) : d.stepwise < double.infinityBits ∧
    |double.point d.stepwise - d.value| ≤ 3 * d.value / 2 ^ 53 := by
  have hlt : d.digits < 2 ^ 53 := h.few.trans (by norm_num)
  exact Decimal.stepwise_near (digits_pos h.ordinary.pos) hlt (natAbs_exponent_le h.ordinary hlt)
    h.ordinary.1 h.ordinary.2

/-- **A decimal that does not survive comes close to a midpoint**, closer than double
precision can tell, and this midpoint is half a unit in the last place from the number. -/
theorem Prints.exists_close (h : single.decode bits = .finite negative significand exponent)
    (hprints : d.Prints (significand * 2 ^ exponent))
    (hround : d.roundTo .single = bits % single.signWeight) (hne : ¬ d.Survives) :
    ∃ (n : Nat) (j : ℤ), n % 2 = 1 ∧ n < 2 ^ 25 ∧ -150 ≤ j ∧ j ≤ 103 ∧
      |d.value - n * 2 ^ j| ≤ n * 2 ^ j / 2 ^ 51 ∧
      |(n * 2 ^ j : ℚ) - significand * 2 ^ exponent| = 2 ^ j := by
  have hv := hprints.ordinary.pos
  have hbits := (decode_eq_finite h).2.2
  obtain ⟨hfinite, hstep⟩ := hprints.stepwise_near
  obtain ⟨hden, hvalue⟩ := quotient_eq_point hfinite
  have hnum : 0 < (double.quotient d.stepwise).1 := by
    rw [Nat.pos_iff_ne_zero]
    intro hzero
    rw [hzero, Nat.cast_zero, zero_div] at hvalue
    rw [← hvalue, zero_sub, abs_neg, abs_of_pos hv] at hstep
    linarith
  rw [Survives, hround] at hne
  obtain ⟨c, hc, hbetween⟩ := exists_midpoint hprints.ordinary hround hbits hnum hden hvalue hne
  obtain ⟨haway, -⟩ := midpoint_away h hc
  obtain ⟨n, hodd, hn, hmidpoint⟩ := exists_odd single c
  obtain ⟨hlow, hhigh⟩ := single_pointExponent (c := c) (by omega)
  have hclose : |single.midpoint c - d.value| ≤ 3 * d.value / 2 ^ 53 :=
    (Set.abs_sub_left_of_mem_uIcc (Set.mem_uIcc.2 hbetween)).trans hstep
  refine ⟨n, _, hodd, hn, hlow, hhigh, ?_, hmidpoint ▸ haway⟩
  rw [← hmidpoint, abs_sub_comm]
  linarith [(abs_le.1 hclose).1]

/-- **A decimal that is printed survives being read step by step.** -/
theorem Prints.survives (h : single.decode bits = .finite negative significand exponent)
    (hprints : d.Prints (significand * 2 ^ exponent))
    (hround : d.roundTo .single = bits % single.signWeight) : d.Survives := by
  by_contra hne
  obtain ⟨n, j, hodd, hn, hlow, hhigh, hclose, haway⟩ := hprints.exists_close h hround hne
  obtain ⟨hfinite, -⟩ := hprints.stepwise_near
  obtain ⟨hfew, htrimmed, hordinary, m, unit, hgrid, hnear⟩ := hprints
  have hdigits := digits_pos hordinary.pos
  -- the steps of the grid are nearly half a unit in the last place, so it is a coarse one
  have hcoarse : (2 : ℚ) ^ j - 2 ^ j / 2 ^ 24 ≤ 10 ^ unit := by
    have hhalf : (0 : ℚ) < 2 ^ j := by positivity
    have htriangle := abs_sub_le (n * 2 ^ j : ℚ) d.value (significand * 2 ^ exponent)
    have hmost : (n : ℚ) ≤ 2 ^ 25 := by exact_mod_cast hn.le
    have hsmall := mul_le_mul_of_nonneg_right hmost hhalf.le
    rw [haway, abs_sub_comm] at htriangle
    linarith
  obtain ⟨k, hk⟩ := Int.le.dest (gridUnit_le hlow hhigh hcoarse)
  have hmultiple : d.value = (m * 10 ^ k : Nat) * 10 ^ gridUnit j := by
    rw [hgrid, ← hk, zpow_add₀ (by norm_num), zpow_natCast]
    push_cast
    ring
  rw [hmultiple] at hclose
  rcases survives_of_close hlow hhigh hn hodd hclose with heq | ⟨hten, hsurvives⟩
  · -- the decimal is the midpoint, which is read exactly
    rw [← hmultiple] at heq
    have hpower := natAbs_exponent_of_eq hdigits hfew (by omega) hn heq
    obtain ⟨-, hpoint⟩ := stepwise_eq hdigits (hfew.trans (by norm_num)) hpower hordinary.2
      (hn.trans (by norm_num)) (by omega) heq
    exact hne (survives_of_point_eq hordinary hfinite hpoint)
  · have heq : d = ⟨m * 10 ^ k, gridUnit j⟩ := eq_of_value hmultiple htrimmed hten
    exact hne (heq ▸ hsurvives)

/-- **The shortest decimal of a number survives being read step by step.** -/
theorem survives_shortest (h : single.decode bits = .finite negative significand exponent)
    (hpos : 0 < significand) (tie : Tie) :
    (shortest .single tie (bits % single.signWeight) significand exponent).Survives :=
  (prints_shortest h hpos tie).survives h (roundTo_shortest withinReach_single tie h)

end Single

end Decimal

end RuleVote
