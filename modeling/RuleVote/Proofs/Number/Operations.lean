import RuleVote.Proofs.Number.Arithmetic
/-!
# Operations over the whole range

Sums, differences, products and quotients of finite numbers stand for results of
rounding the exact value (`HasAmount.add`, `HasAmount.sub`, `HasAmount.mul`,
`HasAmount.div`), and so do counts (`hasAmount_ofCount`). Numbers that are not negative
may be infinite in a sum, and a quotient by an infinity is zero.
-/

namespace RuleVote

open Float.Model (Format UnpackedFloat totalExponent)
open Float.Model.UnpackedFloat

variable {a b : UnpackedFloat} {p q r g : ℚ} {x y z : Float32}

/-! ## Results that need no rounding -/

theorem Representable.rounds (hg : Representable g) : Rounds g g :=
  ⟨hg, fun h _ => by rw [sub_self, abs_zero]; exact abs_nonneg _⟩

theorem representable_zero : Representable 0 := by
  exact_mod_cast representable_intCast (j := 0) (by decide)

/-- What is beyond the end rounds to it. -/
theorem rounds_end (h : 2 ^ 128 ≤ q) : Rounds q (2 ^ 128) := by
  refine ⟨by exact_mod_cast representable_zpow (e := 128) (by decide) le_rfl, fun g hg => ?_⟩
  have hle := (abs_le.1 hg.1).2
  rw [abs_of_nonpos (by linarith), abs_of_nonpos (by linarith)]
  linarith

/-! ## Signs -/

theorem cast_apply (s : Sign) (n : ℤ) : ((s.apply n : ℤ) : ℚ) = signed s n := by
  cases s with
  | negative => exact Int.cast_neg n
  | positive => rfl

theorem signed_mul_left (s : Sign) (p q : ℚ) : signed s p * q = signed s (p * q) := by
  cases s with
  | negative => exact neg_mul p q
  | positive => rfl

theorem abs_signed (s : Sign) (q : ℚ) : |signed s q| = |q| := by
  cases s with
  | negative => exact abs_neg q
  | positive => rfl

theorem Reads.neg (h : Reads b q) : Reads b.neg (-q) := by
  have hsigned : ∀ s g, -signed s g = signed (-s) g := by
    rintro (_ | _) g
    · exact neg_neg g
    · rfl
  cases h with
  | zero s =>
    rw [neg_zero]
    exact .zero (-s)
  | infinity s => exact hsigned s _ ▸ Reads.infinity (-s)
  | finite s hpos hhigh he he' hlow => exact hsigned s _ ▸ .finite (-s) hpos hhigh he he' hlow

/-- A number that is no end is zero or finite. -/
theorem Reads.not_infinity {s : Sign} (h : Reads (.infinity s) q) : ¬|q| < 2 ^ 128 := by
  cases h
  rw [abs_signed, abs_of_nonneg (by positivity)]
  exact lt_irrefl _

/-! ## Sums and differences -/

/-- A sum of finite numbers is normalized. -/
theorem stores_add (ha : Reads a p) (hb : Reads b q) (hp : |p| < 2 ^ 128) (hq : |q| < 2 ^ 128) :
    ∃ r, Rounds (p + q) r ∧ Stores (UnpackedFloat.add Format.binary32 a b) r := by
  cases ha with
  | infinity s => exact absurd hp (Reads.infinity s).not_infinity
  | zero s =>
    cases hb with
    | infinity t => exact absurd hq (Reads.infinity t).not_infinity
    | zero t =>
      refine ⟨0, by simpa using representable_zero.rounds, ?_⟩
      rw [UnpackedFloat.add]
      split
      · exact (Reads.zero s).stores
      · exact (Reads.zero .positive).stores
    | @finite t n f hpos' hhigh' hf hf' hlow' =>
      have hread := Reads.finite t hpos' hhigh' hf hf' hlow'
      exact ⟨_, by simpa using hread.representable.rounds, hread.stores⟩
  | @finite s m e hpos hhigh he he' hlow =>
    cases hb with
    | infinity t => exact absurd hq (Reads.infinity t).not_infinity
    | zero t =>
      have hread := Reads.finite s hpos hhigh he he' hlow
      exact ⟨_, by simpa using hread.representable.rounds, hread.stores⟩
    | @finite t n f hpos' hhigh' hf hf' hlow' =>
      have hvalue := decreaseExponent_value m e (min e f)
      have hvalue' := decreaseExponent_value n f (min e f)
      rw [decreaseExponent_exponent, min_eq_right (min_le_left _ _)] at hvalue
      rw [decreaseExponent_exponent, min_eq_right (min_le_right _ _)] at hvalue'
      have hnormal := stores_normalize (s.apply (decreaseExponent m e (min e f)).1 +
        t.apply (decreaseExponent n f (min e f)).1) (min e f)
      rw [Int.cast_add, add_mul, cast_apply, cast_apply, signed_mul_left, signed_mul_left,
        Int.cast_natCast, Int.cast_natCast, hvalue, hvalue'] at hnormal
      exact hnormal

/-- A sum of numbers that are not negative stays at the end where it is one. -/
theorem stores_add_of_nonneg (ha : Reads a p) (hb : Reads b q) (hp : 0 ≤ p) (hq : 0 ≤ q) :
    ∃ r, Rounds (p + q) r ∧ Stores (UnpackedFloat.add Format.binary32 a b) r := by
  have hend : (0 : ℚ) < 2 ^ 128 := by positivity
  by_cases hfinite : |p| < 2 ^ 128 ∧ |q| < 2 ^ 128
  · exact stores_add ha hb hfinite.1 hfinite.2
  have hsign : ∀ {s : Sign}, 0 ≤ signed s (2 ^ 128) → s = .positive := by
    rintro (_ | _) h
    · exact absurd h (not_le.2 (neg_lt_zero.2 hend))
    · rfl
  -- one of the two is positive infinity, and then the sum is
  refine ⟨2 ^ 128, rounds_end ?_, ?_⟩
  · rw [not_and_or, not_lt, not_lt, abs_of_nonneg hp, abs_of_nonneg hq] at hfinite
    rcases hfinite with h | h <;> linarith
  · have hinfinite : UnpackedFloat.add Format.binary32 a b = .infinity .positive := by
      have hread : ∀ {u g}, Reads u g → 0 ≤ g → ¬|g| < 2 ^ 128 → u = .infinity .positive := by
        intro u g hu hg hnot
        cases hu with
        | zero s => exact absurd (by norm_num) hnot
        | infinity s => rw [hsign hg]
        | @finite s m e hpos hhigh he he' =>
          refine absurd ?_ hnot
          rw [abs_signed, abs_of_nonneg (by positivity)]
          exact mul_zpow_lt_end hhigh he'
      rcases not_and_or.1 hfinite with h | h
      · rw [hread ha hp h]
        cases hb with
        | zero t => rfl
        | finite t => rfl
        | infinity t =>
          rw [hsign hq]
          rfl
      · rw [hread hb hq h]
        cases ha with
        | zero t => rfl
        | finite t => rfl
        | infinity t =>
          rw [hsign hp]
          rfl
    rw [hinfinite]
    exact (Reads.infinity .positive).stores

/-- Subtracting is adding with the other sign. -/
theorem unpacked_sub_eq (a b : UnpackedFloat) :
    UnpackedFloat.sub Format.binary32 a b = UnpackedFloat.add Format.binary32 a b.neg := by
  have happly : ∀ (s t : Sign) (m n : ℤ), s.apply m - t.apply n = s.apply m + (-t).apply n := by
    rintro s (_ | _) m n
    · exact sub_neg_eq_add (s.apply m) n
    · exact Int.sub_eq_add_neg
  cases a with
  | finite s m e =>
    cases b with
    | finite t n f =>
      simp only [UnpackedFloat.sub, UnpackedFloat.add, UnpackedFloat.neg, happly]
    | _ => rfl
  | _ => cases b <;> rfl

/-! ## Products -/

/-- A product of finite numbers has enough bits: one of them is normal, or the product
is below the last place of all numbers. -/
theorem stores_mul (ha : Reads a p) (hb : Reads b q) (hp : |p| < 2 ^ 128) (hq : |q| < 2 ^ 128) :
    ∃ r, Rounds (p * q) r ∧ Stores (UnpackedFloat.mul Format.binary32 a b) r := by
  cases ha with
  | infinity s => exact absurd hp (Reads.infinity s).not_infinity
  | zero s =>
    cases hb with
    | infinity t => exact absurd hq (Reads.infinity t).not_infinity
    | zero t => exact ⟨0, by simpa using representable_zero.rounds, (Reads.zero (s * t)).stores⟩
    | finite t => exact ⟨0, by simpa using representable_zero.rounds, (Reads.zero (s * t)).stores⟩
  | @finite s m e hpos hhigh he he' hlow =>
    cases hb with
    | infinity t => exact absurd hq (Reads.infinity t).not_infinity
    | zero t => exact ⟨0, by simpa using representable_zero.rounds, (Reads.zero (s * t)).stores⟩
    | @finite t n f hpos' hhigh' hf hf' hlow' =>
      have hproduct : signed s (m * 2 ^ e) * signed t (n * 2 ^ f) =
          signed (s * t) ((m * n : ℕ) * 2 ^ (e + f)) := by
        have hmagnitude : ((m * n : ℕ) : ℚ) * 2 ^ (e + f) = m * 2 ^ e * (n * 2 ^ f) := by
          rw [zpow_add₀ two_ne_zero]
          push_cast
          ring
        rw [hmagnitude]
        cases s <;> cases t
        · exact neg_mul_neg _ _
        · exact neg_mul _ _
        · exact mul_neg _ _
        · rfl
      -- the product reaches below the last place of its result, which rounding asks for
      have hbits : e + f ≤ max ((m * n).log2 + (e + f) - 23) (-149) := by
        by_cases hnormal : 2 ^ 23 ≤ m * n
        · have hlog : 23 ≤ (m * n).log2 := (Nat.le_log2 (by positivity)).2 hnormal
          omega
        · have hm : ¬2 ^ 23 ≤ m := fun h => hnormal (h.trans (Nat.le_mul_of_pos_right m hpos'))
          have := hlow.resolve_right hm
          have hn : ¬2 ^ 23 ≤ n := fun h => hnormal (h.trans (Nat.le_mul_of_pos_left n hpos))
          have := hlow'.resolve_right hn
          omega
      rw [hproduct]
      refine stores_roundWithAccuracy (s * t) hbits ?_
      rw [Remainder, mul_div_cancel_right₀ _ (by positivity), sub_self]

/-! ## Quotients -/

/-- The quotient of two mantissas is cut off below its last place. -/
theorem exponent_divCore_le {m n : ℕ} (hm : 0 < m) (hn : 0 < n) (e f : ℤ) :
    (divCore Format.binary32 m e n f).2.1 ≤
      max ((divCore Format.binary32 m e n f).1.log2 + (divCore Format.binary32 m e n f).2.1 - 23)
        (-149) := by
  have htarget : Format.binary32.targetExponent (totalExponent m e - totalExponent n f) =
      max (m.log2 + e - (n.log2 + f) - 24) (-149) := by
    simp only [Format.targetExponent, totalExponent, Format.mantissaBits, Format.minExponent]
    norm_num
    omega
  rw [divCore, htarget]
  dsimp only
  generalize hcut : min (e - f) (max (m.log2 + e - (n.log2 + f) - 24) (-149 : ℤ)) = t
  generalize hshift : (e - f - t).toNat = s
  rcases le_or_gt t (-149) with ht | ht
  · omega
  · -- the quotient is worth 24 bits of the last place
    have hlog : n.log2 + 24 ≤ m.log2 + s := by omega
    have hquotient : 2 ^ 23 ≤ m <<< s / n := by
      rw [Nat.le_div_iff_mul_le hn, Nat.shiftLeft_eq]
      calc 2 ^ 23 * n ≤ 2 ^ 23 * 2 ^ (n.log2 + 1) := by
            gcongr
            exact Nat.lt_log2_self.le
        _ = 2 ^ (n.log2 + 24) := by
            rw [← pow_add]
            congr 1
            omega
        _ ≤ 2 ^ (m.log2 + s) := Nat.pow_le_pow_right two_pos hlog
        _ ≤ m * 2 ^ s := by
            rw [pow_add]
            gcongr
            exact Nat.log2_self_le hm.ne'
    have hlog' : 23 ≤ (m <<< s / n).log2 := (Nat.le_log2 (by omega)).2 hquotient
    omega

theorem stores_div (ha : Reads a p) (hb : Reads b q) (hp : |p| < 2 ^ 128) (hq : |q| < 2 ^ 128)
    (hne : q ≠ 0) : ∃ r, Rounds (p / q) r ∧ Stores (UnpackedFloat.div Format.binary32 a b) r := by
  cases hb with
  | infinity t => exact absurd hq (Reads.infinity t).not_infinity
  | zero t => exact absurd rfl hne
  | @finite t n f hpos' hhigh' hf hf' hlow' =>
    cases ha with
    | infinity s => exact absurd hp (Reads.infinity s).not_infinity
    | zero s => exact ⟨0, by simpa using representable_zero.rounds, (Reads.zero (s / t)).stores⟩
    | @finite s m e hpos hhigh he he' hlow =>
      have hden : (n : ℚ) ≠ 0 := by exact_mod_cast hpos'.ne'
      have hquotient : signed s (m * 2 ^ e) / signed t (n * 2 ^ f) =
          signed (s / t) (m / n * 2 ^ (e - f)) := by
        have hmagnitude : (m : ℚ) / n * 2 ^ (e - f) = m * 2 ^ e / (n * 2 ^ f) := by
          rw [mul_div_mul_comm, zpow_sub₀ two_ne_zero]
        rw [hmagnitude]
        cases s <;> cases t
        · exact neg_div_neg_eq _ _
        · exact neg_div _ _
        · exact div_neg _
        · rfl
      rw [hquotient]
      exact stores_roundWithAccuracy (s / t) (exponent_divCore_le hpos hpos' e f)
        (remainder_divCore m e f hpos')

/-! ## Numbers -/

namespace HasAmount

theorem neg (hx : HasAmount x p) : HasAmount (-x) (-p) := (Reads.neg hx).stores

/-- **A sum rounds the exact sum.** -/
theorem add (hx : HasAmount x p) (hy : HasAmount y q) (hp : |p| < 2 ^ 128) (hq : |q| < 2 ^ 128) :
    ∃ r, Rounds (p + q) r ∧ HasAmount (x + y) r := stores_add hx hy hp hq

theorem add_of_nonneg (hx : HasAmount x p) (hy : HasAmount y q) (hp : 0 ≤ p) (hq : 0 ≤ q) :
    ∃ r, Rounds (p + q) r ∧ HasAmount (x + y) r := stores_add_of_nonneg hx hy hp hq

/-- **A difference rounds the exact difference.** -/
theorem sub (hx : HasAmount x p) (hy : HasAmount y q) (hp : |p| < 2 ^ 128) (hq : |q| < 2 ^ 128) :
    ∃ r, Rounds (p - q) r ∧ HasAmount (x - y) r := by
  have hsum := stores_add hx (Reads.neg hy) hp (by rwa [abs_neg])
  rwa [← unpacked_sub_eq, ← sub_eq_add_neg] at hsum

/-- **A product rounds the exact product.** -/
theorem mul (hx : HasAmount x p) (hy : HasAmount y q) (hp : |p| < 2 ^ 128) (hq : |q| < 2 ^ 128) :
    ∃ r, Rounds (p * q) r ∧ HasAmount (x * y) r := stores_mul hx hy hp hq

/-- **A quotient rounds the exact quotient.** -/
theorem div (hx : HasAmount x p) (hy : HasAmount y q) (hp : |p| < 2 ^ 128) (hq : |q| < 2 ^ 128)
    (hne : q ≠ 0) : ∃ r, Rounds (p / q) r ∧ HasAmount (x / y) r := stores_div hx hy hp hq hne

end HasAmount

end RuleVote
