import RuleVote.Proofs.Number.Nearest
import RuleVote.Proofs.Number.Sign
/-!
# Rounding a mantissa

An operation hands a mantissa over to rounding, with a note about the part of
the exact result that the mantissa lacks. Here the note is read as a statement
about the fraction (`Remainder`), shifting halves mantissa and fraction
together (`Extends.shiftRight`), and so what comes out is the normalized form
of a number nearest to the exact result (`writes_roundWithAccuracy`). All this
is about positive results in the normal range, and packing loses nothing of
such a form (`unpack_pack`).
-/

namespace RuleVote

open Float.Model (Format UnpackedFloat totalExponent)
open Float.Model.UnpackedFloat

/-! ## Mantissas with a remainder -/

/-- What a note says about the fraction that a mantissa lacks. -/
def Remainder : Accuracy → ℚ → Prop
  | .exact, x => x = 0
  | .inexact .lt, x => 0 < x ∧ x < 1 / 2
  | .inexact .eq, x => x = 1 / 2
  | .inexact .gt, x => 1 / 2 < x ∧ x < 1

/-- A mantissa stands for a number with the bit after it and whether anything
comes after that bit. -/
def Extends (m : ExtendedMantissa) (x : ℚ) : Prop :=
  ∃ rest : ℚ, x = m.mantissa + m.roundBit.toNat / 2 + rest ∧ 0 ≤ rest ∧ rest < 1 / 2 ∧
    (m.stickyBit = true ↔ 0 < rest)

theorem Remainder.bounds {a : Accuracy} {x : ℚ} (h : Remainder a x) : 0 ≤ x ∧ x < 1 := by
  match a, h with
  | .exact, h => exact ⟨h.ge, h.trans_lt one_pos⟩
  | .inexact .lt, h => exact ⟨h.1.le, by linarith [h.2]⟩
  | .inexact .eq, h => exact ⟨by rw [h]; norm_num, by rw [h]; norm_num⟩
  | .inexact .gt, h => exact ⟨by linarith [h.1], h.2⟩

/-- The part of a quotient after the point. -/
theorem remainder_accuracyOfFraction {num den : ℕ} (hlt : num < den) :
    Remainder (accuracyOfFraction num den) (num / den) := by
  have hden : (0 : ℚ) < den := by exact_mod_cast Nat.zero_lt_of_lt hlt
  rw [accuracyOfFraction]
  split
  · next hzero => simp [Remainder, hzero]
  next hne =>
  have hnum : (0 : ℚ) < num := by exact_mod_cast Nat.pos_of_ne_zero hne
  rcases lt_trichotomy (2 * num) den with h | h | h
  · rw [Nat.compare_eq_lt.2 h]
    have : (2 : ℚ) * num < den := by exact_mod_cast h
    exact ⟨by positivity, by rw [div_lt_iff₀ hden]; linarith⟩
  · rw [Nat.compare_eq_eq.2 h]
    have : (2 : ℚ) * num = den := by exact_mod_cast h
    exact (div_eq_iff hden.ne').2 (by linarith)
  · rw [Nat.compare_eq_gt.2 h]
    have : (den : ℚ) < 2 * num := by exact_mod_cast h
    exact ⟨by rw [lt_div_iff₀ hden]; linarith, (div_lt_one hden).2 (by exact_mod_cast hlt)⟩

namespace Extends

variable {m : ExtendedMantissa} {x : ℚ}

theorem ofMantissaAndAccuracy {n : ℕ} {a : Accuracy} (h : Remainder a (x - n)) :
    Extends (.ofMantissaAndAccuracy n a) x := by
  match a, h with
  | .exact, h =>
    have h : x - n = 0 := h
    exact ⟨0, by simpa [ExtendedMantissa.ofMantissaAndAccuracy] using sub_eq_zero.1 h,
      le_rfl, one_half_pos, iff_of_false Bool.false_ne_true (lt_irrefl _)⟩
  | .inexact .lt, ⟨hpos, hlt⟩ =>
    exact ⟨x - n, by simp [ExtendedMantissa.ofMantissaAndAccuracy], hpos.le, hlt,
      iff_of_true rfl hpos⟩
  | .inexact .eq, h =>
    have h : x - n = 1 / 2 := h
    exact ⟨0, by simpa [ExtendedMantissa.ofMantissaAndAccuracy] using sub_eq_iff_eq_add'.1 h,
      le_rfl, one_half_pos, iff_of_false Bool.false_ne_true (lt_irrefl _)⟩
  | .inexact .gt, ⟨hlt, hone⟩ =>
    exact ⟨x - n - 1 / 2, by simp [ExtendedMantissa.ofMantissaAndAccuracy], by linarith,
      by linarith, iff_of_true rfl (by linarith)⟩

/-- The bit that is shifted out comes before all the bits after it. -/
theorem shiftRightOne (h : Extends m x) : Extends m.shiftRightOne (x / 2) := by
  obtain ⟨rest, rfl, hnonneg, hlt, hsticky⟩ := h
  have hsplit : (m.mantissa : ℚ) = 2 * (m.mantissa / 2 : ℕ) + (m.mantissa % 2 : ℕ) := by
    exact_mod_cast (Nat.div_add_mod m.mantissa 2).symm
  have hbit : (m.mantissa % 2 != 0).toNat = m.mantissa % 2 := by
    rcases Nat.mod_two_eq_zero_or_one m.mantissa with h | h <;> rw [h] <;> rfl
  refine ⟨(m.roundBit.toNat / 2 + rest) / 2, ?_, by positivity, ?_, ?_⟩
  · rw [ExtendedMantissa.shiftRightOne, hbit, hsplit]
    ring
  · have := Bool.toNat_le m.roundBit
    have : (m.roundBit.toNat : ℚ) ≤ 1 := by exact_mod_cast this
    linarith
  · rw [ExtendedMantissa.shiftRightOne, Bool.or_eq_true, hsticky]
    cases m.roundBit with
    | false => simp
    | true => exact iff_of_true (.inl rfl) (by rw [Bool.toNat_true, Nat.cast_one]; linarith)

theorem shiftRight (h : Extends m x) (n : ℕ) : Extends (m >>> n) (x / 2 ^ n) := by
  induction n with
  | zero => exact (div_one x).symm ▸ h
  | succ n ih =>
    rw [pow_succ, ← div_div]
    exact ih.shiftRightOne

/-- **Rounding moves a mantissa by half at most.** -/
theorem near (h : Extends m x) : |(m.roundedMantissa : ℚ) - x| ≤ 1 / 2 := by
  obtain ⟨n, round, sticky⟩ := m
  obtain ⟨rest, rfl, hnonneg, hlt, hsticky⟩ := h
  have hparity : (((n % 2 : ℕ)) : ℚ) ≤ 1 := by
    exact_mod_cast Nat.le_of_lt_succ (Nat.mod_lt n two_pos)
  have hparity' : (0 : ℚ) ≤ ((n % 2 : ℕ)) := Nat.cast_nonneg _
  rw [abs_le]
  cases round <;> cases sticky <;>
    simp only [ExtendedMantissa.roundedMantissa, ExtendedMantissa.accuracy,
      Accuracy.roundToNearestEven, Bool.toNat_true, Bool.toNat_false, Nat.cast_zero, Nat.cast_one,
      Nat.cast_add, false_iff, true_iff, Bool.false_eq_true] at hsticky ⊢
  case false.false => constructor <;> linarith
  case false.true => constructor <;> linarith
  case true.false => constructor <;> linarith
  case true.true => constructor <;> linarith

end Extends

/-! ## Normalized forms -/

/-- The form in which a format keeps zero or a positive number in the normal
range. -/
inductive Writes : UnpackedFloat → ℚ → Prop where
  | zero : Writes (.zero .positive) 0
  | normal {m : ℕ} {e : ℤ} (hpos : 0 < m) (hlow : 2 ^ 23 ≤ m) (hhigh : m < 2 ^ 24)
      (he : -149 ≤ e) (he' : e ≤ 104) : Writes (.finite .positive m e hpos) (m * 2 ^ e)

/-- The exponent of a number whose mantissa lacks a fraction. -/
theorem log_eq_of_floor {q : ℚ} {m : ℕ} {e : ℤ} (hm : 0 < m) (hlow : m * 2 ^ e ≤ q)
    (hhigh : q < (m + 1) * 2 ^ e) : Int.log 2 q = m.log2 + e := by
  have hmq : (0 : ℚ) < m := by exact_mod_cast hm
  have hq : 0 < q := lt_of_lt_of_le (by positivity) hlow
  have hlower : ((2 : ℕ) : ℚ) ^ ((m.log2 : ℤ) + e) ≤ q := by
    calc ((2 : ℕ) : ℚ) ^ ((m.log2 : ℤ) + e) = 2 ^ m.log2 * 2 ^ e := by
          rw [Nat.cast_ofNat, zpow_add₀ two_ne_zero, zpow_natCast]
      _ ≤ m * 2 ^ e := by
          gcongr
          exact_mod_cast Nat.log2_self_le hm.ne'
      _ ≤ q := hlow
  have hupper : q < ((2 : ℕ) : ℚ) ^ ((m.log2 : ℤ) + e + 1) := by
    calc q < (m + 1) * 2 ^ e := hhigh
      _ ≤ 2 ^ (m.log2 + 1) * 2 ^ e := by
          gcongr
          exact_mod_cast Nat.lt_log2_self
      _ = ((2 : ℕ) : ℚ) ^ ((m.log2 : ℤ) + e + 1) := by
          rw [Nat.cast_ofNat, add_right_comm, zpow_add₀ two_ne_zero, ← Nat.cast_succ,
            zpow_natCast]
  have h₁ := (Int.zpow_le_iff_le_log (by decide) hq).1 hlower
  have h₂ := (Int.lt_zpow_iff_log_lt (by decide) hq).1 hupper
  omega

theorem targetExponent_eq (m : ℕ) (e : ℤ) :
    Format.binary32.targetExponent (totalExponent m e) = max (m.log2 + e - 23) (-149) := by
  simp only [Format.targetExponent, totalExponent, Format.mantissaBits, Format.minExponent]
  norm_num
  omega

/-- A mantissa that has rounding behind it is normalized by one shift at most,
and the shift loses nothing. -/
theorem writes_of_rounded {R : ℕ} {t : ℤ} (hlow : 2 ^ 23 ≤ R) (hhigh : R ≤ 2 ^ 24)
    (ht : -149 ≤ t) (ht' : t ≤ 103) :
    let final := shiftToTargetExponent Format.binary32 R t .exact
    ∃ hpos : 0 < final.1.mantissa,
      Writes (.finite .positive final.1.mantissa final.2 hpos) (R * 2 ^ t) := by
  rcases hhigh.lt_or_eq with hlt | rfl
  · have hlog : R.log2 = 23 := (Nat.log2_eq_iff (by omega)).2 ⟨hlow, hlt⟩
    have htarget : Format.binary32.targetExponent (totalExponent R t) = t := by
      rw [targetExponent_eq, hlog]
      omega
    have hshift : shiftToTargetExponent Format.binary32 R t .exact = (⟨R, false, false⟩, t) := by
      simp only [shiftToTargetExponent, htarget, shiftToExponent, sub_self, Int.toNat_zero,
        Nat.cast_zero, add_zero]
      rfl
    have hpos : 0 < R := by omega
    have ht₄ : t ≤ 104 := by omega
    rw [hshift]
    exact ⟨hpos, .normal hpos hlow hlt ht ht₄⟩
  · -- Rounding carried into the next power of two.
    have htarget : Format.binary32.targetExponent (totalExponent (2 ^ 24) t) = t + 1 := by
      rw [targetExponent_eq, Nat.log2_two_pow]
      omega
    have hshift : shiftToTargetExponent Format.binary32 (2 ^ 24) t .exact =
        (⟨2 ^ 23, false, false⟩, t + 1) := by
      simp only [shiftToTargetExponent, htarget, shiftToExponent, add_sub_cancel_left,
        Int.toNat_one, Nat.cast_one]
      rfl
    rw [hshift]
    refine ⟨by norm_num, ?_⟩
    have hvalue : ((2 ^ 24 : ℕ) : ℚ) * 2 ^ t = (2 ^ 23 : ℕ) * 2 ^ (t + 1) := by
      rw [zpow_add_one₀ two_ne_zero]
      push_cast
      ring
    rw [hvalue]
    exact .normal (by norm_num) le_rfl (by norm_num) (by omega) (by omega)

/-- **Rounding gives the normalized form of a nearest number.** The mantissa
reaches below the last place of the result, and the note is true of what it
lacks. -/
theorem writes_roundWithAccuracy {q : ℚ} {m : ℕ} {e : ℤ} {a : Accuracy}
    (hlow : 2 ^ (-126 : ℤ) ≤ q) (hhigh : q < 2 ^ (127 : ℤ)) (he : e ≤ Int.log 2 q - 23)
    (ha : Remainder a (q / 2 ^ e - m)) :
    ∃ r, Nearest q r ∧ Writes (roundWithAccuracy Format.binary32 .positive m e a) r := by
  have hq : 0 < q := lt_of_lt_of_le (by positivity) hlow
  have hunit : (0 : ℚ) < 2 ^ e := by positivity
  obtain ⟨hge, hlt⟩ := ha.bounds
  have hfloor : m * 2 ^ e ≤ q := (le_div_iff₀ hunit).1 (by linarith)
  have hceil : q < (m + 1) * 2 ^ e := (div_lt_iff₀ hunit).1 (by linarith)
  have hm : 0 < m := by
    rw [Nat.pos_iff_ne_zero]
    rintro rfl
    have : q < 2 ^ e := by simpa using hceil
    have hlog := (Int.lt_zpow_iff_log_lt (b := 2) (by decide) hq).1 (by exact_mod_cast this)
    omega
  have hlog := log_eq_of_floor hm hfloor hceil
  have hleast : -126 ≤ Int.log 2 q :=
    (Int.zpow_le_iff_le_log (b := 2) (by decide) hq).1 (by exact_mod_cast hlow)
  have hmost : Int.log 2 q < 127 :=
    (Int.lt_zpow_iff_log_lt (b := 2) (by decide) hq).1 (by exact_mod_cast hhigh)
  -- after the first shift the mantissa counts units in the last place
  obtain ⟨k, hk⟩ := Int.le.dest he
  have htarget : Format.binary32.targetExponent (totalExponent m e) = Int.log 2 q - 23 := by
    rw [targetExponent_eq, ← hlog]
    omega
  have hfirst : shiftToTargetExponent Format.binary32 m e a =
      (ExtendedMantissa.ofMantissaAndAccuracy m a >>> k, Int.log 2 q - 23) := by
    have hamount : (Int.log 2 q - 23 - e).toNat = k := by omega
    simp only [shiftToTargetExponent, htarget, shiftToExponent, hamount, hk]
  have hscale : q / 2 ^ e / 2 ^ k = q / lastPlace q := by
    rw [div_div, ← zpow_natCast, ← zpow_add₀ two_ne_zero, hk, lastPlace]
  have hnear := ((Extends.ofMantissaAndAccuracy ha).shiftRight k).near
  rw [hscale] at hnear
  generalize (ExtendedMantissa.ofMantissaAndAccuracy m a >>> k) = first at hfirst hnear
  have hplace := lastPlace_pos q
  have hbounds : 2 ^ 23 ≤ q / lastPlace q ∧ q / lastPlace q < 2 ^ 24 :=
    ⟨(le_div_iff₀ hplace).2 (lower_of_pos hq), (div_lt_iff₀ hplace).2 (upper_of_pos q)⟩
  have hR : 2 ^ 23 ≤ first.roundedMantissa := ge_of_near hnear (by exact_mod_cast hbounds.1)
  have hR' : first.roundedMantissa ≤ 2 ^ 24 := le_of_near hnear (by exact_mod_cast hbounds.2)
  obtain ⟨hpos, hwrites⟩ := writes_of_rounded (t := Int.log 2 q - 23) hR hR' (by omega) (by omega)
  refine ⟨first.roundedMantissa * lastPlace q,
    ⟨⟨first.roundedMantissa, by push_cast; rfl⟩, abs_mul_sub_le hplace hnear⟩, ?_⟩
  rw [roundWithAccuracy, hfirst]
  dsimp only
  rw [dif_neg hpos.ne']
  exact hwrites

/-! ## Packing -/

/-- Packing keeps the form of a normal number. -/
theorem unpack_pack_normal (s : Sign) {m : ℕ} {e : ℤ} (hpos : 0 < m) (hlow : 2 ^ 23 ≤ m)
    (hhigh : m < 2 ^ 24) (he : -149 ≤ e) (he' : e ≤ 104) :
    unpack Format.binary32 (pack Format.binary32 (.finite s m e hpos)) = .finite s m e hpos := by
  have hlog : m.log2 = 23 := (Nat.log2_eq_iff hpos.ne').2 ⟨hlow, hhigh⟩
  obtain ⟨n, hn⟩ : ∃ n : ℕ, (n : ℤ) = e + 150 := ⟨(e + 150).toNat, by omega⟩
  have hpack : pack Format.binary32 (.finite s m e hpos) =
      packComponents Format.binary32 s (BitVec.ofNat 8 n) (BitVec.ofNat 23 m) := by
    have hbiased : (e + Format.binary32.exponentBias +
        Format.binary32.mantissaBitsWithoutImplicit).toNat = n := by
      simp only [Format.exponentBias]
      norm_num
      omega
    simp only [pack, hbiased, hlog]
    have hfinite : ¬ 2 ^ Format.binary32.exponentBits ≤ n + 1 := by
      norm_num
      omega
    rw [if_neg hfinite, if_pos (by decide)]
  have hexponent : (BitVec.ofNat 8 n).toNat = n := by
    rw [BitVec.toNat_ofNat]
    exact Nat.mod_eq_of_lt (by omega)
  have hmantissa : (1#1 ++ BitVec.ofNat 23 m).toNat = m := by
    rw [BitVec.toNat_append, ← Nat.shiftLeft_add_eq_or_of_lt (BitVec.isLt _),
      BitVec.toNat_ofNat, BitVec.toNat_ofNat, Nat.shiftLeft_eq]
    omega
  -- the exponent is neither that of the subnormal numbers nor that of infinity
  have hordinary : BitVec.ofNat 8 n ≠ -1#8 ∧ BitVec.ofNat 8 n ≠ 0#8 := by
    constructor <;>
      · intro heq
        have hnat := congrArg BitVec.toNat heq
        rw [hexponent] at hnat
        norm_num at hnat
        omega
  rw [hpack]
  simp only [unpack, unpackExponent_packComponents, unpackMantissa_packComponents,
    unpackSign_packComponents, Sign.ofBitVec_toBitVec]
  rw [if_neg hordinary.1, if_neg hordinary.2]
  simp only [hmantissa, hexponent, Format.exponentBias]
  congr 1
  norm_num
  omega

/-- **Packing keeps a normalized form.** -/
theorem unpack_pack {u : UnpackedFloat} {q : ℚ} (h : Writes u q) :
    unpack Format.binary32 (pack Format.binary32 u) = u := by
  cases h with
  | zero => rfl
  | normal hpos hlow hhigh he he' => exact unpack_pack_normal .positive hpos hlow hhigh he he'

end RuleVote
