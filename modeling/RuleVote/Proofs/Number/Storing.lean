import RuleVote.Proofs.Number.Mantissa
import RuleVote.Proofs.Number.Rounded
/-!
# Rounding over the whole range

Every number that was taken apart, unless it is no number, stands for a number that is
represented (`Reads`): a zero for zero, an infinity for the end of its side. What an
operation rounds and packs stands for a result of rounding the exact value, be it
below the normal range, in it or beyond the largest number, where packing makes it
infinite (`stores_roundWithAccuracy`, `stores_normalize`).
-/

namespace RuleVote

open Float.Model (Format UnpackedFloat totalExponent)
open Float.Model.UnpackedFloat

/-- A magnitude with a sign. -/
def signed : Sign → ℚ → ℚ
  | .negative, q => -q
  | .positive, q => q

/-- What a number that was taken apart stands for. -/
inductive Reads : UnpackedFloat → ℚ → Prop where
  | zero (s : Sign) : Reads (.zero s) 0
  | finite (s : Sign) {m : ℕ} {e : ℤ} (hpos : 0 < m) (hhigh : m < 2 ^ 24) (he : -149 ≤ e)
      (he' : e ≤ 104) (hlow : e = -149 ∨ 2 ^ 23 ≤ m) :
      Reads (.finite s m e hpos) (signed s (m * 2 ^ e))
  | infinity (s : Sign) : Reads (.infinity s) (signed s (2 ^ 128))

/-- What a number stands for after it was packed. -/
def Stores (u : UnpackedFloat) (q : ℚ) : Prop :=
  Reads (unpack Format.binary32 (pack Format.binary32 u)) q

variable {u : UnpackedFloat} {p q r : ℚ} {m R : ℕ} {e t : ℤ} {a : Accuracy} (s : Sign)

theorem Rounds.signed (h : Rounds q r) : Rounds (signed s q) (signed s r) := by
  cases s with
  | negative => exact h.neg
  | positive => exact h

/-! ## Packing -/

/-- Packing keeps the form of a number below the normal range. -/
theorem unpack_pack_subnormal (hpos : 0 < m) (hlt : m < 2 ^ 23) :
    unpack Format.binary32 (pack Format.binary32 (.finite s m (-149) hpos)) =
      .finite s m (-149) hpos := by
  have hlog : m.log2 < 23 := (Nat.log2_lt hpos.ne').2 hlt
  have hpack : pack Format.binary32 (.finite s m (-149) hpos) =
      packComponents Format.binary32 s 0#8 (BitVec.ofNat 23 m) := by
    have hshort : ¬m.log2 + 1 = Format.binary32.mantissaBits := by
      simp only [Format.mantissaBits]
      omega
    simp only [pack]
    rw [if_neg (by decide), if_neg hshort]
  have hmantissa : (BitVec.ofNat 23 m).toNat = m := by
    rw [BitVec.toNat_ofNat]
    exact Nat.mod_eq_of_lt hlt
  have hne : BitVec.ofNat 23 m ≠ 0#23 := by
    intro heq
    rw [heq] at hmantissa
    exact hpos.ne hmantissa
  rw [hpack]
  simp only [unpack, unpackExponent_packComponents, unpackMantissa_packComponents,
    unpackSign_packComponents, Sign.ofBitVec_toBitVec]
  rw [if_neg (by decide), if_pos trivial, dif_neg hne]
  simp only [hmantissa]
  rfl

/-- **Packing keeps what is in the format.** -/
theorem Reads.stores (h : Reads u q) : Stores u q := by
  rw [Stores]
  cases h with
  | zero s => cases s <;> exact .zero _
  | infinity s => cases s <;> exact .infinity _
  | @finite s m e hpos hhigh he he' hlow =>
    by_cases hnormal : 2 ^ 23 ≤ m
    · rw [unpack_pack_normal s hpos hnormal hhigh he he']
      exact .finite s hpos hhigh he he' hlow
    · obtain rfl := hlow.resolve_right hnormal
      rw [unpack_pack_subnormal s hpos (not_le.1 hnormal)]
      exact .finite s hpos hhigh he he' hlow

theorem mul_zpow_lt_end (hhigh : m < 2 ^ 24) (he : e ≤ 104) : (m : ℚ) * 2 ^ e < 2 ^ 128 := by
  calc (m : ℚ) * 2 ^ e < 2 ^ 24 * 2 ^ e := by
        gcongr
        exact_mod_cast hhigh
    _ ≤ 2 ^ 24 * 2 ^ (104 : ℤ) := by
        gcongr
        exact one_le_two
    _ = 2 ^ 128 := by norm_num

/-- A normalized form is stored, or it is beyond the end and becomes infinite. -/
theorem stores_finite (hpos : 0 < m) (hhigh : m < 2 ^ 24) (he : -149 ≤ e)
    (hlow : e = -149 ∨ 2 ^ 23 ≤ m) :
    Stores (.finite s m e hpos) (signed s (min (m * 2 ^ e) (2 ^ 128))) := by
  rcases le_or_gt e 104 with he' | he'
  · rw [min_eq_left (mul_zpow_lt_end hhigh he').le]
    exact (Reads.finite s hpos hhigh he he' hlow).stores
  · have hnormal : 2 ^ 23 ≤ m := hlow.resolve_left (by omega)
    have hbeyond : (2 : ℚ) ^ 128 ≤ m * 2 ^ e := by
      calc (2 : ℚ) ^ 128 = 2 ^ 23 * 2 ^ (105 : ℤ) := by norm_num
        _ ≤ (m : ℚ) * 2 ^ e := by
          gcongr
          · exact_mod_cast hnormal
          · exact one_le_two
          · omega
    have hpack :
        pack Format.binary32 (.finite s m e hpos) = pack Format.binary32 (.infinity s) := by
      have hfull : 2 ^ Format.binary32.exponentBits ≤ (e + Format.binary32.exponentBias +
          Format.binary32.mantissaBitsWithoutImplicit).toNat + 1 := by
        simp only [Format.exponentBias]
        norm_num
        omega
      simp only [pack]
      rw [if_pos hfull]
    rw [min_eq_right hbeyond, Stores, hpack]
    exact (Reads.infinity s).stores

/-! ## Rounding -/

/-- The number of a mantissa that has no bits left to round. -/
def ofRounded (s : Sign) (final : ExtendedMantissa × ℤ) : UnpackedFloat :=
  if h : final.1.mantissa = 0 then .zero s
  else .finite s final.1.mantissa final.2 (Nat.pos_of_ne_zero h)

/-- A rounded mantissa is shifted once more if rounding carried it over 24 bits, and
this loses nothing. -/
theorem stores_ofRounded (ht : -149 ≤ t) (hR : R ≤ 2 ^ 24) (hlow : t = -149 ∨ 2 ^ 23 ≤ R) :
    Stores (ofRounded s (shiftToTargetExponent Format.binary32 R t .exact))
      (signed s (min (R * 2 ^ t) (2 ^ 128))) := by
  -- a carry into the 25th bit is shifted out exactly
  rcases hR.lt_or_eq with hlt | rfl
  · have hlog : R.log2 ≤ 23 := by
      rcases Nat.eq_zero_or_pos R with rfl | hpos
      · decide
      · exact Nat.lt_succ_iff.1 ((Nat.log2_lt hpos.ne').2 hlt)
    have hstay : (Format.binary32.targetExponent (totalExponent R t) - t).toNat = 0 := by
      rw [targetExponent_eq]
      omega
    have hshift : shiftToTargetExponent Format.binary32 R t .exact = (⟨R, false, false⟩, t) := by
      simp only [shiftToTargetExponent, shiftToExponent, hstay, Nat.cast_zero, add_zero]
      rfl
    rw [hshift, ofRounded]
    dsimp only
    split
    · next hzero =>
      subst hzero
      have hvalue : signed s (min ((0 : ℕ) * 2 ^ t) (2 ^ 128)) = 0 := by
        rw [Nat.cast_zero, zero_mul, min_eq_left (by positivity)]
        cases s <;> simp [signed]
      rw [hvalue]
      exact (Reads.zero s).stores
    · next hne => exact stores_finite s (Nat.pos_of_ne_zero hne) hlt ht hlow
  · have htarget : Format.binary32.targetExponent (totalExponent (2 ^ 24) t) = t + 1 := by
      rw [targetExponent_eq, Nat.log2_two_pow]
      omega
    have hshift : shiftToTargetExponent Format.binary32 (2 ^ 24) t .exact =
        (⟨2 ^ 23, false, false⟩, t + 1) := by
      simp only [shiftToTargetExponent, htarget, shiftToExponent, add_sub_cancel_left,
        Int.toNat_one, Nat.cast_one]
      rfl
    have hvalue : ((2 ^ 24 : ℕ) : ℚ) * 2 ^ t = (2 ^ 23 : ℕ) * 2 ^ (t + 1) := by
      rw [zpow_add_one₀ two_ne_zero]
      push_cast
      ring
    rw [hshift, hvalue]
    exact stores_finite s (by norm_num) (by norm_num) (by omega) (.inr le_rfl)

/-- After the first shift the rounded mantissa counts units of the last place, and it is
half a unit away from the exact result at most. -/
theorem exists_ofRounded (he : e ≤ max (m.log2 + e - 23) (-149))
    (ha : Remainder a (q / 2 ^ e - m)) :
    ∃ R : ℕ, |R - q / 2 ^ max (m.log2 + e - 23) (-149 : ℤ)| ≤ 1 / 2 ∧
      roundWithAccuracy Format.binary32 s m e a = ofRounded s
        (shiftToTargetExponent Format.binary32 R (max (m.log2 + e - 23) (-149)) .exact) := by
  generalize htarget : max (m.log2 + e - 23) (-149 : ℤ) = t at he ⊢
  obtain ⟨k, hk⟩ := Int.le.dest he
  have hfirst : shiftToTargetExponent Format.binary32 m e a =
      (ExtendedMantissa.ofMantissaAndAccuracy m a >>> k, t) := by
    have hamount : (t - e).toNat = k := by omega
    simp only [shiftToTargetExponent, targetExponent_eq, htarget, shiftToExponent, hamount, hk]
  have hscale : q / 2 ^ e / 2 ^ k = q / 2 ^ t := by
    rw [div_div, ← zpow_natCast, ← zpow_add₀ two_ne_zero, hk]
  have hnear := ((Extends.ofMantissaAndAccuracy ha).shiftRight k).near
  rw [hscale] at hnear
  refine ⟨_, hnear, ?_⟩
  rw [roundWithAccuracy, hfirst]
  rfl

/-- Of the units that the mantissa is rounded to, the exact result has no more than 24
bits, and no fewer unless the unit is the least. -/
theorem bounds_of_target {t : ℤ} (he : e ≤ t) (htarget : max (m.log2 + e - 23) (-149 : ℤ) = t)
    (hfloor : m * 2 ^ e ≤ q) (hceil : q < (m + 1) * 2 ^ e) :
    q < 2 ^ 24 * 2 ^ t ∧ (t = -149 ∨ 2 ^ 23 * 2 ^ t ≤ q) := by
  constructor
  · calc q < (m + 1) * 2 ^ e := hceil
      _ ≤ 2 ^ (m.log2 + 1) * 2 ^ e := by
          gcongr
          exact_mod_cast Nat.lt_log2_self
      _ = 2 ^ ((m.log2 : ℤ) + 1 + e) := by
          rw [zpow_add₀ two_ne_zero, ← Nat.cast_succ, zpow_natCast]
      _ ≤ 2 ^ (24 + t) := zpow_le_zpow_right₀ one_le_two (by omega)
      _ = 2 ^ 24 * 2 ^ t := by
          rw [zpow_add₀ two_ne_zero]
          norm_num
  · rcases (htarget ▸ le_max_right _ _ : -149 ≤ t).eq_or_lt with heq | hgt
    · exact .inl heq.symm
    · -- in the normal range the mantissa has 24 bits and more
      have hm : 0 < m := by
        rw [Nat.pos_iff_ne_zero]
        rintro rfl
        rw [Nat.log2_zero] at htarget
        omega
      right
      calc (2 : ℚ) ^ 23 * 2 ^ t = 2 ^ m.log2 * 2 ^ e := by
            rw [← zpow_natCast, ← zpow_natCast, ← zpow_add₀ two_ne_zero, ← zpow_add₀ two_ne_zero]
            congr 1
            push_cast
            omega
        _ ≤ m * 2 ^ e := by
            gcongr
            exact_mod_cast Nat.log2_self_le hm.ne'
        _ ≤ q := hfloor

/-- **Rounding and packing give a result for the exact value**, where the mantissa
reaches below the last place of the result and the note is true of what it lacks. -/
theorem stores_roundWithAccuracy (he : e ≤ max (m.log2 + e - 23) (-149))
    (ha : Remainder a (q / 2 ^ e - m)) :
    ∃ r, Rounds (signed s q) r ∧ Stores (roundWithAccuracy Format.binary32 s m e a) r := by
  obtain ⟨R, hnear, hsettled⟩ := exists_ofRounded s he ha
  generalize htarget : max (m.log2 + e - 23) (-149 : ℤ) = t at he hnear hsettled
  have ht : -149 ≤ t := htarget ▸ le_max_right _ _
  have hunit : (0 : ℚ) < 2 ^ t := by positivity
  have hunit' : (0 : ℚ) < 2 ^ e := by positivity
  obtain ⟨hge, hlt⟩ := ha.bounds
  have hfloor : m * 2 ^ e ≤ q := (le_div_iff₀ hunit').1 (by linarith)
  have hceil : q < (m + 1) * 2 ^ e := (div_lt_iff₀ hunit').1 (by linarith)
  obtain ⟨hupper, hlower⟩ := bounds_of_target he htarget hfloor hceil
  have hR : R ≤ 2 ^ 24 := le_of_near hnear (by exact_mod_cast (div_lt_iff₀ hunit).2 hupper)
  have hR' : t = -149 ∨ 2 ^ 23 ≤ R := hlower.imp_right fun hle =>
    ge_of_near hnear (by exact_mod_cast (le_div_iff₀ hunit).2 hle)
  have hclose : |((R : ℤ) : ℚ) * 2 ^ t - q| ≤ 2 ^ t / 2 :=
    abs_mul_sub_le hunit (by exact_mod_cast hnear)
  have hrounds := rounds_of_near ht (Int.natCast_nonneg R) (by exact_mod_cast hR) hlower hclose
  rw [hsettled]
  exact ⟨_, hrounds.signed s, stores_ofRounded s ht hR hR'⟩

/-- **So does rounding without a note**, which widens the mantissa first where it is
too short. -/
theorem stores_round (hm : 0 < m) :
    ∃ r, Rounds (signed s (m * 2 ^ e)) r ∧
      Stores (UnpackedFloat.round Format.binary32 s m e) r := by
  rw [UnpackedFloat.round, targetExponent_eq, decreaseExponent]
  dsimp only
  generalize hk : (e - max (m.log2 + e - 23) (-149 : ℤ)).toNat = k
  have hlog : (m <<< k).log2 = m.log2 + k := by
    have hne : m * 2 ^ k ≠ 0 := by positivity
    rw [Nat.shiftLeft_eq, Nat.log2_eq_iff hne, add_right_comm, pow_add, pow_add]
    exact ⟨Nat.mul_le_mul_right _ (Nat.log2_self_le hm.ne'),
      Nat.mul_lt_mul_of_pos_right Nat.lt_log2_self (Nat.two_pow_pos k)⟩
  have hvalue : (m : ℚ) * 2 ^ e / 2 ^ (e - k) = (m <<< k : ℕ) := by
    rw [Nat.shiftLeft_eq, zpow_sub₀ two_ne_zero, zpow_natCast]
    push_cast
    field_simp
  refine stores_roundWithAccuracy s ?_ ?_
  · rw [hlog]
    push_cast
    omega
  · rw [Remainder, hvalue, sub_self]

/-- **So does normalizing** a mantissa with its sign. -/
theorem stores_normalize (n e : ℤ) :
    ∃ r, Rounds (n * 2 ^ e) r ∧
      Stores (UnpackedFloat.normalize Format.binary32 n e .positive) r := by
  rw [UnpackedFloat.normalize]
  rcases lt_trichotomy n 0 with hn | rfl | hn
  · rw [Int.compare_eq_lt.2 hn]
    obtain ⟨m, rfl⟩ : ∃ m : ℕ, n = -m := ⟨(-n).toNat, by omega⟩
    have hm : 0 < m := by omega
    have hround := stores_round .negative (e := e) hm
    rw [signed, ← neg_mul] at hround
    simpa using hround
  · exact ⟨0, by simpa using (⟨by exact_mod_cast representable_intCast (j := 0) (by decide), by
      simp⟩ : Rounds 0 0), (Reads.zero .positive).stores⟩
  · rw [Int.compare_eq_gt.2 hn]
    obtain ⟨m, rfl⟩ := Int.eq_ofNat_of_zero_le hn.le
    have hm : 0 < m := by omega
    have hround := stores_round .positive (e := e) hm
    rw [signed] at hround
    exact hround

end RuleVote
