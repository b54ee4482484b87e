import RuleVote.Proofs.Number.Order
import RuleVote.Proofs.Number.Storing
/-!
# The amounts of numbers

Every single precision number that is a number has one amount (`HasAmount`), which
is what it stands for, an infinity the end of its side. Numbers compare as their
amounts do (`HasAmount.lt_iff`, `HasAmount.le_iff`), and apart from the two zeros
they are told apart by them (`HasAmount.unique`).
-/

namespace RuleVote

open Float.Model (Format UnpackedFloat)
open Float.Model.UnpackedFloat

/-- The number stands for `q`. -/
def HasAmount (x : Float32) (q : ℚ) : Prop := Reads x.toModel.unpack q

variable {u a b : UnpackedFloat} {p q : ℚ} {x y : Float32}

/-! ## Kinds of amounts -/

theorem Reads.representable (h : Reads u q) : Representable q := by
  have hsigned : ∀ s g, Representable g → Representable (signed s g) := by
    rintro (_ | _) g hg
    · exact hg.neg
    · exact hg
  cases h with
  | zero => exact_mod_cast representable_intCast (j := 0) (by decide)
  | infinity s =>
    exact hsigned s _ (by exact_mod_cast representable_zpow (e := 128) (by decide) le_rfl)
  | @finite s m e hpos hhigh he he' =>
    refine hsigned s _ ⟨?_, m, e, ?_, he, by push_cast; rfl⟩
    · rw [abs_of_nonneg (by positivity)]
      exact (mul_zpow_lt_end hhigh he').le
    · rw [abs_of_nonneg (Int.natCast_nonneg m)]
      exact_mod_cast hhigh.le

theorem Reads.not_isNaN (h : Reads u q) : u.isNaN = false := by
  cases h <;> rfl

/-- **What is unpacked stands for something** unless it is no number. -/
theorem exists_reads (bits : BitVec Format.binary32.numBits)
    (h : (unpack Format.binary32 bits).isNaN = false) :
    ∃ q, Reads (unpack Format.binary32 bits) q := by
  have hexponent : (unpackExponent bits).toNat < 2 ^ 8 := (unpackExponent bits).isLt
  have hmantissa : (unpackMantissa bits).toNat < 2 ^ 23 := (unpackMantissa bits).isLt
  rw [unpack] at h ⊢
  dsimp only at h ⊢
  split_ifs at h ⊢ with hfull hzero hnone hzero
  · exact ⟨_, .infinity _⟩
  · cases h
  · exact ⟨0, .zero _⟩
  · refine ⟨_, .finite _ _ (hmantissa.trans_le (by decide)) ?_ ?_ (.inl ?_)⟩
    all_goals
      rw [hnone]
      decide
  · have hne : (unpackExponent bits).toNat ≠ 0 := fun heq => hnone (BitVec.eq_of_toNat_eq heq)
    have hne' : (unpackExponent bits).toNat ≠ 255 := fun heq => hfull (BitVec.eq_of_toNat_eq heq)
    have hvalue : (1#1 ++ unpackMantissa bits).toNat = 2 ^ 23 + (unpackMantissa bits).toNat := by
      rw [BitVec.toNat_append, ← Nat.shiftLeft_add_eq_or_of_lt (BitVec.isLt _), Nat.shiftLeft_eq]
      rfl
    have hbias : Format.binary32.exponentBias = 127 := rfl
    refine ⟨_, .finite _ _ ?_ ?_ ?_ (.inr ?_)⟩ <;> omega

theorem exists_hasAmount (hx : x.isNaN = false) : ∃ q, HasAmount x q :=
  exists_reads x.toModel.toBits.toBitVec hx

/-! ## Order -/

/-- Normal numbers with a smaller exponent are smaller. -/
theorem mul_zpow_lt {m m' : ℕ} {e e' : ℤ} (hhigh : m < 2 ^ 24) (hlow : 2 ^ 23 ≤ m') (he : e < e') :
    (m : ℚ) * 2 ^ e < m' * 2 ^ e' := by
  calc (m : ℚ) * 2 ^ e < 2 ^ 24 * 2 ^ e := by
        gcongr
        exact_mod_cast hhigh
    _ = 2 ^ 23 * 2 ^ (e + 1) := by
        rw [zpow_add_one₀ two_ne_zero]
        ring
    _ ≤ m' * 2 ^ e' := by
        gcongr
        · exact_mod_cast hlow
        · exact one_le_two
        · omega

/-- Magnitudes compare by their exponents and then by their mantissas: where there is a
smaller exponent, the other number is normal. -/
theorem compare_magnitudes {m m' : ℕ} {e e' : ℤ} (hhigh : m < 2 ^ 24) (he : -149 ≤ e)
    (hlow : e = -149 ∨ 2 ^ 23 ≤ m) (hhigh' : m' < 2 ^ 24) (he' : -149 ≤ e')
    (hlow' : e' = -149 ∨ 2 ^ 23 ≤ m') :
    (compare e e').then (compare m m') = compare ((m : ℚ) * 2 ^ e) (m' * 2 ^ e') := by
  rcases lt_trichotomy e e' with h | rfl | h
  · have hnormal : 2 ^ 23 ≤ m' := hlow'.resolve_left (by omega)
    rw [compare_lt_iff_lt.2 h, compare_lt_iff_lt.2 (mul_zpow_lt hhigh hnormal h)]
    rfl
  · have hunit : (0 : ℚ) < 2 ^ e := by positivity
    rw [compare_eq_iff_eq.2 rfl]
    show compare m m' = _
    rcases lt_trichotomy m m' with h | rfl | h
    · rw [compare_lt_iff_lt.2 h, compare_lt_iff_lt.2 (by gcongr)]
    · rw [compare_eq_iff_eq.2 rfl, compare_eq_iff_eq.2 rfl]
    · rw [compare_gt_iff_gt.2 h, compare_gt_iff_gt.2 (by gcongr)]
  · have hnormal : 2 ^ 23 ≤ m := hlow.resolve_left (by omega)
    rw [compare_gt_iff_gt.2 h, compare_gt_iff_gt.2 (mul_zpow_lt hhigh' hnormal h)]
    rfl

theorem compare_neg_neg (p q : ℚ) : compare (-p) (-q) = compare q p := by
  rcases lt_trichotomy p q with h | rfl | h
  · rw [compare_gt_iff_gt.2 (neg_lt_neg h), compare_gt_iff_gt.2 h]
  · rw [compare_eq_iff_eq.2 rfl, compare_eq_iff_eq.2 rfl]
  · rw [compare_lt_iff_lt.2 (neg_lt_neg h), compare_lt_iff_lt.2 h]

/-- **Numbers compare as what they stand for.** -/
theorem compare_of_reads (ha : Reads a p) (hb : Reads b q) :
    a.compare b = some (compare p q) := by
  have hend : (0 : ℚ) < 2 ^ 128 := by positivity
  cases ha with
  | zero s =>
    cases hb with
    | zero t => rfl
    | infinity t =>
      cases t
      · exact congrArg some (compare_gt_iff_gt.2 (neg_lt_zero.2 hend)).symm
      · exact congrArg some (compare_lt_iff_lt.2 hend).symm
    | @finite t n f hpos' hhigh' hf hf' hlow' =>
      have hvalue : (0 : ℚ) < n * 2 ^ f := by positivity
      cases t
      · exact congrArg some (compare_gt_iff_gt.2 (neg_lt_zero.2 hvalue)).symm
      · exact congrArg some (compare_lt_iff_lt.2 hvalue).symm
  | infinity s =>
    cases hb with
    | zero t =>
      cases s
      · exact congrArg some (compare_lt_iff_lt.2 (neg_lt_zero.2 hend)).symm
      · exact congrArg some (compare_gt_iff_gt.2 hend).symm
    | infinity t =>
      cases s <;> cases t
      · exact congrArg some (compare_eq_iff_eq.2 rfl).symm
      · exact congrArg some (compare_lt_iff_lt.2 (neg_lt_self hend)).symm
      · exact congrArg some (compare_gt_iff_gt.2 (neg_lt_self hend)).symm
      · exact congrArg some (compare_eq_iff_eq.2 rfl).symm
    | @finite t n f hpos' hhigh' hf hf' hlow' =>
      have hvalue : (0 : ℚ) < n * 2 ^ f := by positivity
      -- Infinity stands at the end of the range, which no finite number reaches.
      have hbelow := mul_zpow_lt_end hhigh' hf'
      cases s <;> cases t
      · exact congrArg some (compare_lt_iff_lt.2 (neg_lt_neg hbelow)).symm
      · exact congrArg some (compare_lt_iff_lt.2 ((neg_lt_zero.2 hend).trans hvalue)).symm
      · exact congrArg some (compare_gt_iff_gt.2 ((neg_lt_zero.2 hvalue).trans hend)).symm
      · exact congrArg some (compare_gt_iff_gt.2 hbelow).symm
  | @finite s m e hpos hhigh he he' hlow =>
    have hvalue : (0 : ℚ) < m * 2 ^ e := by positivity
    cases hb with
    | zero t =>
      cases s
      · exact congrArg some (compare_lt_iff_lt.2 (neg_lt_zero.2 hvalue)).symm
      · exact congrArg some (compare_gt_iff_gt.2 hvalue).symm
    | infinity t =>
      have hbelow := mul_zpow_lt_end hhigh he'
      cases s <;> cases t
      · exact congrArg some (compare_gt_iff_gt.2 (neg_lt_neg hbelow)).symm
      · exact congrArg some (compare_lt_iff_lt.2 ((neg_lt_zero.2 hvalue).trans hend)).symm
      · exact congrArg some (compare_gt_iff_gt.2 ((neg_lt_zero.2 hend).trans hvalue)).symm
      · exact congrArg some (compare_lt_iff_lt.2 hbelow).symm
    | @finite t n f hpos' hhigh' hf hf' hlow' =>
      have hvalue' : (0 : ℚ) < n * 2 ^ f := by positivity
      -- Two finite numbers of one sign compare as their magnitudes, negative ones the other way.
      have horder := compare_magnitudes hhigh he hlow hhigh' hf hlow'
      cases s <;> cases t
      · refine congrArg some ?_
        rw [horder, ← Std.OrientedCmp.eq_swap]
        exact (compare_neg_neg _ _).symm
      · exact congrArg some (compare_lt_iff_lt.2 ((neg_lt_zero.2 hvalue).trans hvalue')).symm
      · exact congrArg some (compare_gt_iff_gt.2 ((neg_lt_zero.2 hvalue').trans hvalue)).symm
      · exact congrArg some horder

theorem Reads.amount_unique (h : Reads u p) (h' : Reads u q) : p = q := by
  have hcompare := (compare_of_reads h h').symm.trans (compare_of_reads h h)
  rw [compare_eq_iff_eq.2 (rfl : p = p)] at hcompare
  exact compare_eq_iff_eq.1 (Option.some.inj hcompare)

namespace HasAmount

theorem lt_iff (hx : HasAmount x p) (hy : HasAmount y q) : x < y ↔ p < q := by
  have hcompare : x < y ↔ (x.toModel.unpack.compare y.toModel.unpack == some .lt) = true :=
    decide_eq_true_iff
  rw [hcompare, compare_of_reads hx hy, beq_iff_eq, Option.some_inj, compare_lt_iff_lt]

theorem le_iff (hx : HasAmount x p) (hy : HasAmount y q) : x ≤ y ↔ p ≤ q := by
  have hcompare : x ≤ y ↔ (x.toModel.unpack.compare y.toModel.unpack).any (·.isLE) = true :=
    decide_eq_true_iff
  rw [hcompare, compare_of_reads hx hy, Option.any_some, ← compare_le_iff_le,
    Ordering.isLE_iff_ne_gt]

theorem not_isNaN (hx : HasAmount x p) : x.isNaN = false := Reads.not_isNaN hx

theorem amount_unique (hx : HasAmount x p) (hx' : HasAmount x q) : p = q :=
  Reads.amount_unique hx hx'

/-- **Numbers with one amount are one number**, zeros aside. -/
theorem unique (hx : HasAmount x p) (hy : HasAmount y p) (hp : p ≠ 0) : x = y := by
  have hcompare := compare_of_reads hx hy
  rw [compare_eq_iff_eq.2 rfl] at hcompare
  rcases eq_or_zero_of_compare hcompare with heq | ⟨s, t, hs, -⟩
  · exact single_eq_of_unpack heq
  · rw [HasAmount, hs] at hx
    exact absurd (hx.amount_unique (.zero s)) hp

end HasAmount

/-- A finite number stands for one that is not at an end. -/
theorem IsFinite.exists_hasAmount (hx : IsFinite x) : ∃ q, HasAmount x q ∧ |q| < 2 ^ 128 := by
  have hexponent : @unpackExponent Format.binary32 x.toModel.toBits.toBitVec ≠ -1#_ :=
    unpackExponent_ne (isFinite_iff.1 hx)
  have hordinary : x.isNaN = false ∧ ∀ s, x.toModel.unpack ≠ .infinity s := by
    show (unpack Format.binary32 x.toModel.toBits.toBitVec).isNaN = false ∧
      ∀ s, unpack Format.binary32 x.toModel.toBits.toBitVec ≠ .infinity s
    rw [unpack]
    dsimp only
    rw [if_neg hexponent]
    split_ifs <;> exact ⟨rfl, fun s h => by cases h⟩
  obtain ⟨q, hq⟩ := RuleVote.exists_hasAmount hordinary.1
  refine ⟨q, hq, ?_⟩
  have hreads : Reads x.toModel.unpack q := hq
  generalize x.toModel.unpack = u at hreads hordinary
  cases hreads with
  | zero => norm_num
  | infinity s => exact absurd rfl (hordinary.2 s)
  | @finite s m e hpos hhigh he he' hlow =>
    have hbelow := mul_zpow_lt_end hhigh he'
    have hvalue : (0 : ℚ) < m * 2 ^ e := by positivity
    cases s
    · rwa [signed, abs_neg, abs_of_pos hvalue]
    · rwa [signed, abs_of_pos hvalue]

end RuleVote
