import RuleVote.Number.Single
import RuleVote.Proofs.Number.Amount
/-!
# What single precision operations compute

A number that is zero or positive and normal has a value (`HasValue`), and the
value tells everything about it: equal values belong to equal numbers
(`HasValue.unique`), and comparison is comparison of values
(`HasValue.le_iff`). Sums, differences and quotients of such numbers have a
value nearest to the exact one, and so have counts, which are exact up to
`2 ^ 24`.
-/

namespace RuleVote

open Float.Model (Format UnpackedFloat totalExponent)
open Float.Model.UnpackedFloat

/-- The number is zero or positive and normal, with the given value. -/
def HasValue (x : Float32) (q : ℚ) : Prop := Writes x.toModel.unpack q

/-- The value is in the normal range. -/
def InRange (q : ℚ) : Prop := 2 ^ (-126 : ℤ) ≤ q ∧ q < 2 ^ (127 : ℤ)

theorem InRange.pos {q : ℚ} (h : InRange q) : 0 < q := lt_of_lt_of_le (by positivity) h.1

/-- A normalized form is the value of the number it is packed into. -/
theorem Writes.hasValue {u : UnpackedFloat} {q : ℚ} (h : Writes u q) :
    HasValue (Float32.ofModel (Float32.Model.pack u)) q := by
  show Writes (unpack Format.binary32 (pack Format.binary32 u)) q
  rwa [unpack_pack h]

/-! ## Order -/

/-- What is written is read as the same value. -/
theorem Writes.reads {u : UnpackedFloat} {q : ℚ} (h : Writes u q) : Reads u q := by
  cases h with
  | zero => exact .zero .positive
  | normal hpos hlow hhigh he he' => exact .finite .positive hpos hhigh he he' (.inr hlow)

theorem Writes.nonneg {u : UnpackedFloat} {q : ℚ} (h : Writes u q) : 0 ≤ q := by
  cases h with
  | zero => exact le_rfl
  | normal => positivity

namespace HasValue

variable {x y : Float32} {p q : ℚ}

theorem hasAmount (hx : HasValue x p) : HasAmount x p := Writes.reads hx

/-- Numbers compare as their values do. -/
theorem lt_iff (hx : HasValue x p) (hy : HasValue y q) : x < y ↔ p < q :=
  hx.hasAmount.lt_iff hy.hasAmount

theorem le_iff (hx : HasValue x p) (hy : HasValue y q) : x ≤ y ↔ p ≤ q :=
  hx.hasAmount.le_iff hy.hasAmount

/-- The value zero is that of the positive zero. -/
theorem eq_zero (hx : HasValue x 0) : x.toModel.unpack = .zero .positive := by
  have hwrites : ∀ {u : UnpackedFloat}, Writes u 0 → u = .zero .positive := by
    intro u hu
    generalize hzero : (0 : ℚ) = q at hu
    cases hu with
    | zero => rfl
    | normal hpos => exact absurd hzero (by positivity)
  exact hwrites hx

/-- **Numbers with one value are one number.** -/
theorem unique (hx : HasValue x p) (hy : HasValue y p) : x = y := by
  rcases eq_or_ne p 0 with rfl | hp
  · exact single_eq_of_unpack (hx.eq_zero.trans hy.eq_zero.symm)
  · exact hx.hasAmount.unique hy.hasAmount hp

/-- A number has one value. -/
theorem value_unique (hx : HasValue x p) (hx' : HasValue x q) : p = q :=
  hx.hasAmount.amount_unique hx'.hasAmount

/-- What has a value is a number. -/
theorem not_isNaN (hx : HasValue x p) : x.isNaN = false := hx.hasAmount.not_isNaN

theorem abs (hx : HasValue x p) : HasValue x.abs p := by
  have hwrites : ∀ {u : UnpackedFloat}, Writes u p → u.abs = u := by
    rintro _ (_ | _) <;> rfl
  have habs : x.abs = Float32.ofModel (Float32.Model.pack x.toModel.unpack) :=
    congrArg (fun u => Float32.ofModel (Float32.Model.pack u)) (hwrites hx)
  rw [habs]
  exact Writes.hasValue hx

end HasValue

/-! ## Rounded results -/

/-- The exponent of a value in range is that of a normal number. -/
theorem exponent_le {q : ℚ} (hq : InRange q) : -126 ≤ Int.log 2 q :=
  (Int.zpow_le_iff_le_log (b := 2) (by decide) hq.pos).1 (by exact_mod_cast hq.1)

/-- Moving to a smaller exponent leaves the value. -/
theorem decreaseExponent_value (m : ℕ) (e t : ℤ) :
    ((decreaseExponent m e t).1 : ℚ) * 2 ^ (decreaseExponent m e t).2 = m * 2 ^ e := by
  rw [decreaseExponent, Nat.shiftLeft_eq]
  push_cast
  rw [← zpow_natCast, mul_assoc, ← zpow_add₀ two_ne_zero]
  congr 2
  omega

/-- The exponent moves down to the one wanted, never up. -/
theorem decreaseExponent_exponent (m : ℕ) (e t : ℤ) :
    (decreaseExponent m e t).2 = min e t := by
  rw [decreaseExponent]
  dsimp only
  omega

/-- **Rounding writes a nearest value**, if the exact one is in range. -/
theorem writes_round {m : ℕ} {e : ℤ} (hrange : InRange (m * 2 ^ e)) :
    ∃ r, Nearest (m * 2 ^ e) r ∧
      Writes (UnpackedFloat.round Format.binary32 .positive m e) r := by
  have hm : 0 < m := by
    rw [Nat.pos_iff_ne_zero]
    rintro rfl
    simpa using hrange.pos
  have hlog : Int.log 2 ((m : ℚ) * 2 ^ e) = m.log2 + e :=
    log_eq_of_floor hm le_rfl (by gcongr; exact lt_add_one _)
  have hleast := exponent_le hrange
  -- the mantissa is widened where it has fewer bits than the result
  have htarget : Format.binary32.targetExponent (totalExponent m e) = m.log2 + e - 23 := by
    rw [targetExponent_eq]
    omega
  rw [UnpackedFloat.round, htarget]
  have hvalue := decreaseExponent_value m e (m.log2 + e - 23)
  have hexponent : (decreaseExponent m e (m.log2 + e - 23)).2 ≤ m.log2 + e - 23 :=
    (decreaseExponent_exponent ..).trans_le (min_le_right _ _)
  generalize decreaseExponent m e (m.log2 + e - 23) = wide at hvalue hexponent
  rw [← hvalue] at hrange hlog ⊢
  refine writes_roundWithAccuracy hrange.1 hrange.2 (hexponent.trans_eq (by rw [hlog])) ?_
  rw [Remainder, mul_div_cancel_right₀ _ (by positivity), sub_self]

/-- An integer at some exponent is written as a nearest value. -/
theorem writes_normalize {n e : ℤ} (hrange : InRange (n * 2 ^ e)) :
    ∃ r, Nearest (n * 2 ^ e) r ∧
      Writes (UnpackedFloat.normalize Format.binary32 n e .positive) r := by
  have hn : 0 < n := by
    have := pos_of_mul_pos_left hrange.pos (by positivity)
    exact_mod_cast this
  obtain ⟨m, rfl⟩ := Int.eq_ofNat_of_zero_le hn.le
  rw [UnpackedFloat.normalize, Int.compare_eq_gt.2 hn]
  exact writes_round hrange

/-- The sum of what was taken apart is written as a nearest value. -/
theorem writes_add {a b : UnpackedFloat} {p q : ℚ} (ha : Writes a p) (hb : Writes b q)
    (hp : 0 < p) (hq : 0 < q) (hrange : InRange (p + q)) :
    ∃ r, Nearest (p + q) r ∧ Writes (UnpackedFloat.add Format.binary32 a b) r := by
  cases ha with
  | zero => exact absurd hp (lt_irrefl 0)
  | @normal m e hpos hlow hhigh he he' =>
    cases hb with
    | zero => exact absurd hq (lt_irrefl 0)
    | @normal m' e' hpos' hlow' hhigh' he he' =>
      have hvalue := decreaseExponent_value m e (min e e')
      have hvalue' := decreaseExponent_value m' e' (min e e')
      rw [decreaseExponent_exponent, min_eq_right (min_le_left _ _)] at hvalue
      rw [decreaseExponent_exponent, min_eq_right (min_le_right _ _)] at hvalue'
      have hnormal := writes_normalize (e := min e e')
        (n := (decreaseExponent m e (min e e')).1 + (decreaseExponent m' e' (min e e')).1)
      push_cast at hnormal
      rw [add_mul, hvalue, hvalue'] at hnormal
      exact hnormal hrange

/-- The difference of what was taken apart is written as a nearest value. -/
theorem writes_sub {a b : UnpackedFloat} {p q : ℚ} (ha : Writes a p) (hb : Writes b q)
    (hq : 0 < q) (hrange : InRange (p - q)) :
    ∃ r, Nearest (p - q) r ∧ Writes (UnpackedFloat.sub Format.binary32 a b) r := by
  cases hb with
  | zero => exact absurd hq (lt_irrefl 0)
  | @normal m' e' hpos' hlow' hhigh' he he' =>
    cases ha with
    | zero => exact absurd hrange.pos (by linarith)
    | @normal m e hpos hlow hhigh he he' =>
      have hvalue := decreaseExponent_value m e (min e e')
      have hvalue' := decreaseExponent_value m' e' (min e e')
      rw [decreaseExponent_exponent, min_eq_right (min_le_left _ _)] at hvalue
      rw [decreaseExponent_exponent, min_eq_right (min_le_right _ _)] at hvalue'
      have hnormal := writes_normalize (e := min e e')
        (n := (decreaseExponent m e (min e e')).1 - (decreaseExponent m' e' (min e e')).1)
      push_cast at hnormal
      rw [sub_mul, hvalue, hvalue'] at hnormal
      exact hnormal hrange

/-- The quotient of two mantissas, cut off at some place, with what is left. -/
theorem remainder_divCore (m : ℕ) (e : ℤ) {m' : ℕ} (e' : ℤ) (hpos : 0 < m') :
    Remainder (divCore Format.binary32 m e m' e').2.2
      (m / m' * 2 ^ (e - e') / 2 ^ (divCore Format.binary32 m e m' e').2.1 -
        (divCore Format.binary32 m e m' e').1) := by
  have hden : (m' : ℚ) ≠ 0 := by exact_mod_cast hpos.ne'
  rw [divCore]
  dsimp only
  obtain ⟨s, hs⟩ := Int.le.dest (min_le_left (e - e')
    (Format.binary32.targetExponent (totalExponent m e - totalExponent m' e')))
  generalize min (e - e') _ = t at hs ⊢
  have hamount : (e - e' - t).toNat = s := by omega
  rw [hamount, ← hs, zpow_add₀ two_ne_zero, zpow_natCast]
  have hshift : ((m <<< s : ℕ) : ℚ) = m * 2 ^ s := by
    rw [Nat.shiftLeft_eq]
    push_cast
    rfl
  have hsplit : ((m <<< s : ℕ) : ℚ) = m' * (m <<< s / m' : ℕ) + (m <<< s % m' : ℕ) := by
    exact_mod_cast (Nat.div_add_mod (m <<< s) m').symm
  have hrest : (m : ℚ) / m' * (2 ^ t * 2 ^ s) / 2 ^ t - (m <<< s / m' : ℕ) =
      (m <<< s % m' : ℕ) / m' := by
    rw [← sub_eq_iff_eq_add', hshift] at hsplit
    rw [← hsplit]
    field_simp
  rw [hrest]
  exact remainder_accuracyOfFraction (Nat.mod_lt _ hpos)

/-- The quotient of what was taken apart is written as a nearest value. -/
theorem writes_div {a b : UnpackedFloat} {p q : ℚ} (ha : Writes a p) (hb : Writes b q)
    (hp : 0 < p) (hq : 0 < q) (hrange : InRange (p / q)) :
    ∃ r, Nearest (p / q) r ∧ Writes (UnpackedFloat.div Format.binary32 a b) r := by
  cases ha with
  | zero => exact absurd hp (lt_irrefl 0)
  | @normal m e hpos hlow hhigh he he' =>
    cases hb with
    | zero => exact absurd hq (lt_irrefl 0)
    | @normal m' e' hpos' hlow' hhigh' he he' =>
      have hlog : m.log2 = 23 := (Nat.log2_eq_iff hpos.ne').2 ⟨hlow, hhigh⟩
      have hlog' : m'.log2 = 23 := (Nat.log2_eq_iff hpos'.ne').2 ⟨hlow', hhigh'⟩
      have hden : (0 : ℚ) < m' := by exact_mod_cast hpos'
      have hquotient : (m * 2 ^ e : ℚ) / (m' * 2 ^ e') = m / m' * 2 ^ (e - e') := by
        rw [mul_div_mul_comm, zpow_sub₀ two_ne_zero]
      rw [hquotient] at hrange ⊢
      have hleast := exponent_le hrange
      have hbelow : e - e' - 1 ≤ Int.log 2 ((m : ℚ) / m' * 2 ^ (e - e')) := by
        rw [← Int.zpow_le_iff_le_log (by decide) hrange.pos, Nat.cast_ofNat,
          zpow_sub_one₀ two_ne_zero, mul_comm]
        gcongr
        rw [le_div_iff₀ hden]
        have hhalf : (m' : ℚ) ≤ 2 * m := by
          exact_mod_cast (by omega : m' ≤ 2 * m)
        linarith
      refine writes_roundWithAccuracy hrange.1 hrange.2 ?_ (remainder_divCore m e e' hpos')
      -- the quotient is cut off below its last place
      have htarget : Format.binary32.targetExponent
          (totalExponent m e - totalExponent m' e') = max (e - e' - 24) (-149) := by
        rw [totalExponent, totalExponent, hlog, hlog']
        simp only [Format.targetExponent, Format.mantissaBits, Format.minExponent]
        norm_num
      omega

/-! ## The operations -/

namespace HasValue

variable {x y : Float32} {p q : ℚ}

/-- **A sum is nearest to the sum of the values.** -/
theorem add (hx : HasValue x p) (hy : HasValue y q) (hp : 0 < p) (hq : 0 < q)
    (hrange : InRange (p + q)) : ∃ r, Nearest (p + q) r ∧ HasValue (x + y) r := by
  obtain ⟨r, hr, hwrites⟩ := writes_add hx hy hp hq hrange
  exact ⟨r, hr, hwrites.hasValue⟩

theorem zero_add (hx : HasValue x 0) (hy : HasValue y q) : HasValue (x + y) q := by
  have hwrites : ∀ {b : UnpackedFloat}, Writes b q →
      Writes (UnpackedFloat.add Format.binary32 (.zero .positive) b) q := by
    rintro _ (_ | ⟨hpos, hlow, hhigh, he, he'⟩)
    · exact .zero
    · exact .normal hpos hlow hhigh he he'
  have hsum : x + y = Float32.ofModel (Float32.Model.pack
      (UnpackedFloat.add Format.binary32 (.zero .positive) y.toModel.unpack)) := by
    rw [← hx.eq_zero]
    rfl
  rw [hsum]
  exact (hwrites hy).hasValue

/-- **A difference is nearest to the difference of the values.** -/
theorem sub (hx : HasValue x p) (hy : HasValue y q) (hq : 0 < q) (hrange : InRange (p - q)) :
    ∃ r, Nearest (p - q) r ∧ HasValue (x - y) r := by
  obtain ⟨r, hr, hwrites⟩ := writes_sub hx hy hq hrange
  exact ⟨r, hr, hwrites.hasValue⟩

theorem sub_zero (hx : HasValue x p) (hy : HasValue y 0) : HasValue (x - y) p := by
  have hwrites : ∀ {a : UnpackedFloat}, Writes a p →
      Writes (UnpackedFloat.sub Format.binary32 a (.zero .positive)) p := by
    rintro _ (_ | ⟨hpos, hlow, hhigh, he, he'⟩)
    · exact .zero
    · exact .normal hpos hlow hhigh he he'
  have hdifference : x - y = Float32.ofModel (Float32.Model.pack
      (UnpackedFloat.sub Format.binary32 x.toModel.unpack (.zero .positive))) := by
    rw [← hy.eq_zero]
    rfl
  rw [hdifference]
  exact (hwrites hx).hasValue

theorem sub_self (hx : HasValue x p) : HasValue (x - x) 0 := by
  have hwrites : ∀ {a : UnpackedFloat}, Writes a p →
      Writes (UnpackedFloat.sub Format.binary32 a a) 0 := by
    rintro _ (_ | _)
    · exact .zero
    · simp only [UnpackedFloat.sub, UnpackedFloat.normalize, Int.sub_self]
      exact .zero
  exact (hwrites hx).hasValue

/-- **A quotient is nearest to the quotient of the values.** -/
theorem div (hx : HasValue x p) (hy : HasValue y q) (hp : 0 < p) (hq : 0 < q)
    (hrange : InRange (p / q)) : ∃ r, Nearest (p / q) r ∧ HasValue (x / y) r := by
  obtain ⟨r, hr, hwrites⟩ := writes_div hx hy hp hq hrange
  exact ⟨r, hr, hwrites.hasValue⟩

theorem zero_div (hx : HasValue x 0) (hy : HasValue y q) (hq : 0 < q) : HasValue (x / y) 0 := by
  have hwrites : ∀ {b : UnpackedFloat}, Writes b q →
      Writes (UnpackedFloat.div Format.binary32 (.zero .positive) b) 0 := by
    rintro _ (_ | _)
    · exact absurd hq (lt_irrefl 0)
    · exact .zero
  have hquotient : x / y = Float32.ofModel (Float32.Model.pack
      (UnpackedFloat.div Format.binary32 (.zero .positive) y.toModel.unpack)) := by
    rw [← hx.eq_zero]
    rfl
  rw [hquotient]
  exact (hwrites hy).hasValue

end HasValue

/-! ## Counts -/

theorem hasValue_zero : HasValue 0 0 := Writes.zero

theorem hasValue_one : HasValue 1 1 := by
  have hwrites : Writes (1 : Float32).toModel.unpack ((8388608 : ℕ) * 2 ^ (-23 : ℤ)) :=
    .normal (by decide) (by decide) (by decide) (by decide) (by decide)
  have hvalue : ((8388608 : ℕ) : ℚ) * 2 ^ (-23 : ℤ) = 1 := by norm_num
  exact hvalue ▸ hwrites

/-- Every count of 64 bits is in range. -/
theorem inRange_natCast {n : ℕ} (hpos : 0 < n) (hlt : n < 2 ^ 64) : InRange n := by
  have h₁ : (1 : ℚ) ≤ n := by exact_mod_cast hpos
  have h₂ : (n : ℚ) < 2 ^ 64 := by exact_mod_cast hlt
  exact ⟨le_trans (by norm_num) h₁, h₂.trans (by norm_num)⟩

/-- A count has a nearest number for its value. -/
theorem hasValue_ofCount {n : ℕ} (hpos : 0 < n) (hlt : n < 2 ^ 64) :
    ∃ r, Nearest n r ∧ HasValue (ofCount n) r := by
  have hrange : InRange ((n : ℤ) * 2 ^ (0 : ℤ)) := by
    rw [zpow_zero, mul_one, Int.cast_natCast]
    exact inRange_natCast hpos hlt
  obtain ⟨r, hr, hwrites⟩ := writes_normalize hrange
  have hnat : n.toUInt64.toNat = n := Nat.mod_eq_of_lt hlt
  have hcount : ofCount n = Float32.ofModel (Float32.Model.pack
      (UnpackedFloat.normalize Format.binary32 n 0 .positive)) := by
    show Float32.ofModel (Float32.Model.pack
      (UnpackedFloat.normalize Format.binary32 n.toUInt64.toNat 0 .positive)) = _
    rw [hnat]
  rw [zpow_zero, mul_one, Int.cast_natCast] at hr
  rw [hcount]
  exact ⟨r, hr, hwrites.hasValue⟩

/-- Counts of up to 24 bits are stored exactly. -/
theorem hasValue_ofCount_of_le {n : ℕ} (h : n ≤ 2 ^ 24) : HasValue (ofCount n) n := by
  rcases Nat.eq_zero_or_pos n with rfl | hpos
  · rw [Nat.cast_zero]
    exact Writes.zero
  · obtain ⟨r, hr, hvalue⟩ := hasValue_ofCount hpos (by omega)
    rwa [hr.eq (by exact_mod_cast hpos) (significant_natCast h)] at hvalue

/-- **Counting one by one is exact** as long as 24 bits hold the count. -/
theorem ofCount_add_one {n : ℕ} (h : n < 2 ^ 24) : ofCount n + 1 = ofCount (n + 1) := by
  have hnext := hasValue_ofCount_of_le (n := n + 1) (by omega)
  refine HasValue.unique ?_ hnext
  have hn := hasValue_ofCount_of_le h.le
  rcases Nat.eq_zero_or_pos n with rfl | hpos
  · rw [Nat.cast_zero] at hn
    rw [Nat.zero_add, Nat.cast_one]
    exact hn.zero_add hasValue_one
  · have hrange : InRange ((n : ℚ) + 1) := by
      exact_mod_cast inRange_natCast n.succ_pos (by omega)
    obtain ⟨r, hr, hvalue⟩ := hn.add hasValue_one (by exact_mod_cast hpos) one_pos hrange
    rw [← Nat.cast_succ] at hr
    rwa [hr.eq (by exact_mod_cast n.succ_pos) (significant_natCast h)] at hvalue

end RuleVote
