import RuleVote.Proofs.Number.Operations
import RuleVote.Proofs.Number.Order
/-!
# Probabilities and their sums

A number from zero to one is a probability (`IsProbability`). Numbers that are not
negative have a sum that none of them exceeds (`exists_sum`), and a sum of
probabilities neither passes their number nor `2 ^ 24`, from where on a further one is
lost (`exists_sum_probabilities`). A share of a whole is a probability unless both are
zero, the whole being infinite or not (`isProbability_div`), and a share of nothing is
not a number (`isNaN_zero_div_zero`).
-/

namespace RuleVote

open Float.Model (Format UnpackedFloat)
open Float.Model.UnpackedFloat

variable {u : UnpackedFloat} {p q r : ℚ} {x y z : Float32} {xs : List Float32}

/-! ## Counts and other constants -/

theorem hasAmount_negativeZero : HasAmount negativeZero 0 := Reads.zero .negative

/-- **A count rounds the number it counts.** -/
theorem hasAmount_ofCount {n : ℕ} (hlt : n < 2 ^ 64) :
    ∃ r, Rounds n r ∧ HasAmount (ofCount n) r := by
  obtain ⟨r, hr, hstores⟩ := stores_normalize n 0
  have hnat : n.toUInt64.toNat = n := Nat.mod_eq_of_lt hlt
  have hcount : ofCount n = Float32.ofModel (Float32.Model.pack
      (UnpackedFloat.normalize Format.binary32 n 0 .positive)) := by
    show Float32.ofModel (Float32.Model.pack
      (UnpackedFloat.normalize Format.binary32 n.toUInt64.toNat 0 .positive)) = _
    rw [hnat]
  rw [zpow_zero, mul_one, Int.cast_natCast] at hr
  rw [hcount]
  exact ⟨r, hr, hstores⟩

theorem hasAmount_ofCount_of_representable {n : ℕ} (hlt : n < 2 ^ 64) (hn : Representable n) :
    HasAmount (ofCount n) n := by
  obtain ⟨r, hr, hamount⟩ := hasAmount_ofCount hlt
  rwa [hr.eq hn] at hamount

/-- A count is not below a small number that it reaches. -/
theorem Rounds.natCast_le {n k : ℕ} (h : Rounds n r) (hk : k ≤ 2 ^ 24) (hle : k ≤ n) : k ≤ r :=
  h.ge (representable_natCast hk) (Nat.cast_le.2 hle)

/-- A sum that was computed tells how its exact value rounds. -/
theorem rounds_of_add (hx : HasAmount x p) (hy : HasAmount y q) (hz : HasAmount z r)
    (hp : |p| < 2 ^ 128) (hq : |q| < 2 ^ 128) (h : x + y = z) : Rounds (p + q) r := by
  obtain ⟨r', hr', hsum⟩ := hx.add hy hp hq
  rw [h] at hsum
  rwa [hsum.amount_unique hz] at hr'

theorem hasAmount_ofCount_of_le {n : ℕ} (h : n ≤ 2 ^ 24) : HasAmount (ofCount n) n :=
  (hasValue_ofCount_of_le h).hasAmount

theorem hasAmount_cap : HasAmount (ofCount (2 ^ 24)) (2 ^ 24) := by
  have hcount := hasAmount_ofCount_of_le (n := 2 ^ 24) le_rfl
  rwa [Nat.cast_pow, Nat.cast_ofNat] at hcount

/-- Beyond `2 ^ 24` one more is lost. -/
theorem cap_add_one : ofCount (2 ^ 24) + 1 = ofCount (2 ^ 24) := by decide +kernel

theorem rounds_cap_add_one : Rounds (2 ^ 24 + 1) (2 ^ 24) :=
  rounds_of_add hasAmount_cap hasValue_one.hasAmount hasAmount_cap (by norm_num) (by norm_num)
    cap_add_one

/-- The largest number that is not infinite. -/
def largestFinite : ℚ := (2 ^ 24 - 1) * 2 ^ 104

theorem Reads.le_largestFinite (h : Reads u q) (hq : q < 2 ^ 128) : q ≤ largestFinite := by
  have hpos : (0 : ℚ) ≤ largestFinite := by norm_num [largestFinite]
  cases h with
  | zero => exact hpos
  | infinity s =>
    cases s with
    | negative => exact le_trans (neg_nonpos.2 (by positivity)) hpos
    | positive => exact absurd hq (lt_irrefl _)
  | @finite s m e hm hhigh he he' hlow =>
    have hvalue : (0 : ℚ) ≤ m * 2 ^ e := by positivity
    cases s with
    | negative => exact le_trans (neg_nonpos.2 hvalue) hpos
    | positive =>
      have hmantissa : (m : ℚ) ≤ 2 ^ 24 - 1 := by
        rw [le_sub_iff_add_le]
        exact_mod_cast hhigh
      calc (m : ℚ) * 2 ^ e ≤ (2 ^ 24 - 1) * 2 ^ e := by gcongr
        _ ≤ (2 ^ 24 - 1) * 2 ^ (104 : ℤ) := by
          gcongr
          exact one_le_two
        _ = largestFinite := by norm_num [largestFinite]

/-- What is far below the last place of the largest number is lost there. -/
theorem rounds_largestFinite : Rounds (largestFinite + 2 ^ 25) largestFinite := by
  have htop : HasAmount (Float32.ofBits 0x7F7FFFFF) largestFinite := by
    have hreads : Reads (Float32.ofBits 0x7F7FFFFF).toModel.unpack
        (signed .positive ((16777215 : ℕ) * 2 ^ (104 : ℤ))) :=
      .finite .positive (by decide) (by decide) (by decide) (by decide) (.inr (by decide))
    have hvalue : signed .positive ((16777215 : ℕ) * 2 ^ (104 : ℤ)) = largestFinite := by
      norm_num [signed, largestFinite]
    exact hvalue ▸ hreads
  have hcount : HasAmount (ofCount (2 ^ 25)) (2 ^ 25 : ℕ) :=
    hasAmount_ofCount_of_representable (by norm_num)
      (by exact_mod_cast representable_zpow (e := 25) (by decide) (by decide))
  have hsum : Float32.ofBits 0x7F7FFFFF + ofCount (2 ^ 25) = Float32.ofBits 0x7F7FFFFF := by
    decide +kernel
  have hrounds := rounds_of_add htop hcount htop (by norm_num [largestFinite]) (by norm_num) hsum
  exact_mod_cast hrounds

/-! ## Sums of numbers that are not negative -/

/-- What is summed up from a number on is at least this number and each one of the list. -/
theorem exists_foldl_add (hx : HasAmount x p) (hp : 0 ≤ p)
    (h : ∀ y ∈ xs, ∃ q, HasAmount y q ∧ 0 ≤ q) :
    ∃ r, HasAmount (xs.foldl (· + ·) x) r ∧ p ≤ r ∧ ∀ y ∈ xs, ∀ q, HasAmount y q → q ≤ r := by
  induction xs generalizing x p with
  | nil => exact ⟨p, hx, le_rfl, fun y hy => (List.not_mem_nil hy).elim⟩
  | cons y xs ih =>
    obtain ⟨⟨q, hy, hq⟩, h⟩ := List.forall_mem_cons.1 h
    obtain ⟨s, hs, hsum⟩ := hx.add_of_nonneg hy hp hq
    have hps : p ≤ s := hs.ge (Reads.representable hx) (by linarith)
    have hqs : q ≤ s := hs.ge (Reads.representable hy) (by linarith)
    obtain ⟨r, hr, hsr, hall⟩ := ih hsum (hp.trans hps) h
    refine ⟨r, hr, hps.trans hsr, List.forall_mem_cons.2 ⟨fun q' hq' => ?_, hall⟩⟩
    rw [hq'.amount_unique hy]
    exact hqs.trans hsr

/-- **Numbers that are not negative have a sum that none of them exceeds.** -/
theorem exists_sum (h : ∀ y ∈ xs, ∃ q, HasAmount y q ∧ 0 ≤ q) :
    ∃ r, HasAmount (sumSingle xs) r ∧ 0 ≤ r ∧ ∀ y ∈ xs, ∀ q, HasAmount y q → q ≤ r :=
  exists_foldl_add hasAmount_negativeZero le_rfl h

/-! ## Probabilities -/

/-- The number is one from zero to one. -/
def IsProbability (x : Float32) : Prop := 0 ≤ x ∧ x ≤ 1

theorem isProbability_iff : IsProbability x ↔ ∃ q, HasAmount x q ∧ 0 ≤ q ∧ q ≤ 1 := by
  constructor
  · rintro ⟨hge, hle⟩
    obtain ⟨q, hq⟩ := exists_hasAmount (single_le_iff_standing.1 hge).2.1
    exact ⟨q, hq, (hasValue_zero.hasAmount.le_iff hq).1 hge,
      (hq.le_iff hasValue_one.hasAmount).1 hle⟩
  · rintro ⟨q, hq, hge, hle⟩
    exact ⟨(hasValue_zero.hasAmount.le_iff hq).2 hge, (hq.le_iff hasValue_one.hasAmount).2 hle⟩

theorem IsProbability.not_isNaN (h : IsProbability x) : x.isNaN = false :=
  (single_le_iff_standing.1 h.1).2.1

theorem isProbability_mul (hx : IsProbability x) (hy : IsProbability y) :
    IsProbability (x * y) := by
  obtain ⟨p, hp, hp₀, hp₁⟩ := isProbability_iff.1 hx
  obtain ⟨q, hq, hq₀, hq₁⟩ := isProbability_iff.1 hy
  have hend : (1 : ℚ) < 2 ^ 128 := by norm_num
  obtain ⟨r, hr, hproduct⟩ := hp.mul hq (by rw [abs_of_nonneg hp₀]; linarith)
    (by rw [abs_of_nonneg hq₀]; linarith)
  exact isProbability_iff.2 ⟨r, hproduct, hr.nonneg (mul_nonneg hp₀ hq₀),
    hr.le_one (mul_le_one₀ hp₁ hq₀ hq₁)⟩

/-- **One probability more** takes a sum one up at most, and not beyond `2 ^ 24`. -/
theorem add_probability (hx : HasAmount x p) (hp : 0 ≤ p) (hcap : p ≤ 2 ^ 24)
    (hy : IsProbability y) :
    ∃ r, HasAmount (x + y) r ∧ 0 ≤ r ∧ r ≤ 2 ^ 24 ∧ ∀ n : ℕ, p ≤ n → r ≤ n + 1 := by
  obtain ⟨q, hq, hq₀, hq₁⟩ := isProbability_iff.1 hy
  obtain ⟨r, hr, hsum⟩ := hx.add_of_nonneg hq hp hq₀
  have hcapped : r ≤ 2 ^ 24 := by
    rcases (add_le_add hcap hq₁).lt_or_eq with hlt | heq
    · exact hr.mono rounds_cap_add_one hlt
    · -- at the tie both numbers are known
      obtain rfl : p = 2 ^ 24 := by linarith
      obtain rfl : q = 1 := by linarith
      rw [hx.unique hasAmount_cap (by norm_num), hq.unique hasValue_one.hasAmount one_ne_zero,
        cap_add_one] at hsum
      exact (hsum.amount_unique hasAmount_cap).le
  refine ⟨r, hsum, hr.nonneg (by linarith), hcapped, fun n hn => ?_⟩
  rcases Nat.lt_or_ge n (2 ^ 24) with hlt | hge
  · exact_mod_cast hr.le (representable_natCast hlt) (by push_cast; linarith)
  · have : ((2 ^ 24 : ℕ) : ℚ) ≤ n := by exact_mod_cast hge
    push_cast at this
    linarith

theorem foldl_add_probabilities (hx : HasAmount x p) (hp : 0 ≤ p) (hcap : p ≤ 2 ^ 24) {n : ℕ}
    (hn : p ≤ n) (h : ∀ y ∈ xs, IsProbability y) :
    ∃ r, HasAmount (xs.foldl (· + ·) x) r ∧ 0 ≤ r ∧ r ≤ 2 ^ 24 ∧ r ≤ (n + xs.length : ℕ) := by
  induction xs generalizing x p n with
  | nil => exact ⟨p, hx, hp, hcap, hn⟩
  | cons y xs ih =>
    obtain ⟨hy, h⟩ := List.forall_mem_cons.1 h
    obtain ⟨s, hs, hs₀, hs₁, hstep⟩ := add_probability hx hp hcap hy
    obtain ⟨r, hr, hr₀, hr₁, hle⟩ := ih hs hs₀ hs₁ (n := n + 1) (by exact_mod_cast hstep n hn) h
    refine ⟨r, hr, hr₀, hr₁, ?_⟩
    rwa [List.length_cons, Nat.add_comm xs.length, ← Nat.add_assoc]

/-- **A sum of probabilities** is their number at most, and `2 ^ 24`. -/
theorem exists_sum_probabilities (h : ∀ y ∈ xs, IsProbability y) :
    ∃ r, HasAmount (sumSingle xs) r ∧ 0 ≤ r ∧ r ≤ 2 ^ 24 ∧ r ≤ xs.length := by
  have hsum := foldl_add_probabilities hasAmount_negativeZero le_rfl (by norm_num) (n := 0)
    (by norm_num) h
  rwa [Nat.zero_add] at hsum

/-! ## Shares -/

/-- **A share of a whole is a probability**, where the part is finite. -/
theorem isProbability_div (hx : HasAmount x p) (hy : HasAmount y q) (hp : 0 ≤ p) (hle : p ≤ q)
    (hpos : 0 < q) (hfinite : p < 2 ^ 128) : IsProbability (x / y) := by
  rw [isProbability_iff]
  have hp' : |p| < 2 ^ 128 := by rwa [abs_of_nonneg hp]
  by_cases hq : |q| < 2 ^ 128
  · obtain ⟨r, hr, hquotient⟩ := hx.div hy hp' hq hpos.ne'
    exact ⟨r, hquotient, hr.nonneg (div_nonneg hp hpos.le), hr.le_one ((div_le_one hpos).2 hle)⟩
  · -- a finite part of an infinite whole is zero
    have hzero : ∀ {a b : UnpackedFloat}, Reads a p → Reads b q →
        Stores (UnpackedFloat.div Format.binary32 a b) 0 := by
      intro a b ha hb
      cases hb with
      | zero t => exact absurd hpos (lt_irrefl 0)
      | @finite t n f hpos' hhigh' hf hf' =>
        refine absurd ?_ hq
        rw [abs_signed, abs_of_nonneg (by positivity)]
        exact mul_zpow_lt_end hhigh' hf'
      | infinity t =>
        cases ha with
        | zero s => exact (Reads.zero (s / t)).stores
        | finite s => exact (Reads.zero (s / t)).stores
        | infinity s => exact absurd hp' (Reads.infinity s).not_infinity
    exact ⟨0, hzero hx hy, le_rfl, zero_le_one⟩

theorem Reads.eq_zero (h : Reads u 0) : ∃ s, u = .zero s := by
  generalize hzero : (0 : ℚ) = q at h
  cases h with
  | zero s => exact ⟨s, rfl⟩
  | infinity s =>
    have hne := abs_signed s (2 ^ 128)
    rw [← hzero] at hne
    norm_num at hne
  | @finite s m e hpos =>
    have hne := abs_signed s (m * 2 ^ e)
    have hvalue : (0 : ℚ) < |(m : ℚ) * 2 ^ e| := abs_pos.2 (by positivity)
    rw [← hzero, abs_zero] at hne
    exact absurd hne hvalue.ne

/-- **A share of nothing is not a number.** -/
theorem isNaN_zero_div_zero (hx : HasAmount x 0) (hy : HasAmount y 0) : (x / y).isNaN = true := by
  obtain ⟨s, hs⟩ := Reads.eq_zero hx
  obtain ⟨t, ht⟩ := Reads.eq_zero hy
  show (unpack Format.binary32 (pack Format.binary32
    (UnpackedFloat.div Format.binary32 x.toModel.unpack y.toModel.unpack))).isNaN = true
  rw [hs, ht]
  exact (by decide : (unpack Format.binary32 (pack Format.binary32 .notANumber)).isNaN = true)

end RuleVote
