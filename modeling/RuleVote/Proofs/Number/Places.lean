import RuleVote.Proofs.Number.Rounding
/-!
# Where rounding changes

Finite magnitude bits count the numbers of a format from zero on
(`BinaryFormat.point`). A positive number has a place among them
(`BinaryFormat.place`), which grows with it, and rounding goes from its place to a
nearest natural. So numbers that are rounded differently have a midpoint of two
neighbours in the format between them (`BinaryFormat.exists_midpoint_between`), and
a number is rounded to one at most half a unit away
(`BinaryFormat.point_roundQuotient_near`). Nothing here asks how a tie falls.
-/

namespace RuleVote

/-- **Rounding half to even moves a quotient by half at most.** -/
theorem roundHalfEven_near (num : Nat) {den : Nat} (hden : 0 < den) :
    |(roundHalfEven num den : ℚ) - num / den| ≤ 1 / 2 := by
  have hden' : (0 : ℚ) < den := Nat.cast_pos.2 hden
  have hsplit : (num : ℚ) / den = (num / den : ℕ) + (num % den : ℕ) / den := by
    rw [div_eq_iff hden'.ne', add_mul, div_mul_cancel₀ _ hden'.ne']
    exact_mod_cast (Nat.div_add_mod' num den).symm
  have hrest : ((num % den : ℕ) : ℚ) / den < 1 :=
    (div_lt_one hden').2 (Nat.cast_lt.2 (Nat.mod_lt num hden))
  have hnonneg : (0 : ℚ) ≤ (num % den : ℕ) / den := by positivity
  have hbelow : 2 * (num % den) ≤ den → ((num % den : ℕ) : ℚ) / den ≤ 1 / 2 := by
    intro h
    have : (2 : ℚ) * (num % den : ℕ) ≤ den := by exact_mod_cast h
    rw [div_le_iff₀ hden']
    linarith
  have habove : den ≤ 2 * (num % den) → 1 / 2 ≤ ((num % den : ℕ) : ℚ) / den := by
    intro h
    have : (den : ℚ) ≤ 2 * (num % den : ℕ) := by exact_mod_cast h
    rw [le_div_iff₀ hden']
    linarith
  rw [hsplit, roundHalfEven, abs_le]
  split_ifs with hlt hgt heven
  · have := hbelow hlt.le
    constructor <;> linarith
  · have := habove hgt.le
    push_cast
    constructor <;> linarith
  · have := hbelow (by omega)
    constructor <;> linarith
  · have := habove (by omega)
    push_cast
    constructor <;> linarith

namespace BinaryFormat

variable (f : BinaryFormat)

/-! ## The numbers of a format -/

/-- How many times the unit in the last place has doubled. -/
def doublings (bits : Nat) : Nat := bits / Nat.pow 2 f.fractionBits - 1

/-- The number with the given finite magnitude bits. -/
def point (bits : Nat) : ℚ :=
  (bits - f.doublings bits * Nat.pow 2 f.fractionBits : Nat) *
    2 ^ (f.minExponent + f.doublings bits)

/-- The exponent of the unit in the last place of these bits. -/
def pointExponent (bits : Nat) : ℤ := f.minExponent + f.doublings bits

/-- Half way between a number and the next one. -/
def midpoint (bits : Nat) : ℚ := f.point bits + 2 ^ (f.pointExponent bits - 1)

variable {f} {bits k s : Nat}

theorem doublings_add (h : k = 0 ∨ Nat.pow 2 f.fractionBits ≤ s)
    (hs : s < 2 * Nat.pow 2 f.fractionBits) :
    f.doublings (k * Nat.pow 2 f.fractionBits + s) = k := by
  have hF : 0 < Nat.pow 2 f.fractionBits := Nat.two_pow_pos _
  rw [doublings, Nat.add_comm, Nat.add_mul_div_right _ _ hF]
  generalize Nat.pow 2 f.fractionBits = F at *
  rcases h with rfl | hle
  · have : s / F < 2 := (Nat.div_lt_iff_lt_mul hF).2 hs
    omega
  · have : s / F = 1 := Nat.div_eq_of_lt_le (by omega) (by omega)
    omega

theorem exists_parts (f : BinaryFormat) (bits : Nat) : ∃ k s,
    bits = k * Nat.pow 2 f.fractionBits + s ∧ (k = 0 ∨ Nat.pow 2 f.fractionBits ≤ s) ∧
      s < 2 * Nat.pow 2 f.fractionBits := by
  have hF : 0 < Nat.pow 2 f.fractionBits := Nat.two_pow_pos _
  have hsplit := Nat.div_add_mod' bits (Nat.pow 2 f.fractionBits)
  have hrest := Nat.mod_lt bits hF
  generalize Nat.pow 2 f.fractionBits = F at *
  generalize bits % F = rest at *
  rcases Nat.eq_zero_or_pos (bits / F) with hzero | hpos
  · rw [hzero, Nat.zero_mul, Nat.zero_add] at hsplit
    exact ⟨0, rest, by rw [Nat.zero_mul, Nat.zero_add, hsplit], .inl rfl, by omega⟩
  · obtain ⟨k, hk⟩ : ∃ k, bits / F = k + 1 := ⟨_, (Nat.succ_pred_eq_of_pos hpos).symm⟩
    rw [hk, Nat.succ_mul] at hsplit
    exact ⟨k, F + rest, by omega, .inr (by omega), by omega⟩

/-- The exponent and the significand of a number add up to its bits. -/
theorem point_add (h : k = 0 ∨ Nat.pow 2 f.fractionBits ≤ s)
    (hs : s < 2 * Nat.pow 2 f.fractionBits) :
    f.point (k * Nat.pow 2 f.fractionBits + s) = s * 2 ^ (f.minExponent + k) := by
  rw [point, doublings_add h hs, Nat.add_sub_cancel_left]

theorem pointExponent_add (h : k = 0 ∨ Nat.pow 2 f.fractionBits ≤ s)
    (hs : s < 2 * Nat.pow 2 f.fractionBits) :
    f.pointExponent (k * Nat.pow 2 f.fractionBits + s) = f.minExponent + k := by
  rw [pointExponent, doublings_add h hs]

/-- A significand that has grown to the next power of two belongs to the next
exponent, and the number is the same. -/
theorem point_add_of_le (h : k = 0 ∨ Nat.pow 2 f.fractionBits ≤ s)
    (hs : s ≤ 2 * Nat.pow 2 f.fractionBits) :
    f.point (k * Nat.pow 2 f.fractionBits + s) = s * 2 ^ (f.minExponent + k) := by
  rcases hs.lt_or_eq with hlt | rfl
  · exact point_add h hlt
  · have hF : 0 < Nat.pow 2 f.fractionBits := Nat.two_pow_pos _
    have hbits : k * Nat.pow 2 f.fractionBits + 2 * Nat.pow 2 f.fractionBits =
        (k + 1) * Nat.pow 2 f.fractionBits + Nat.pow 2 f.fractionBits := by ring
    rw [hbits, point_add (.inr le_rfl) (by omega)]
    push_cast
    rw [← add_assoc, zpow_add_one₀ two_ne_zero]
    ring

/-- **The next number is one unit in the last place away.** -/
theorem point_succ (f : BinaryFormat) (bits : Nat) :
    f.point (bits + 1) = f.point bits + 2 ^ f.pointExponent bits := by
  obtain ⟨k, s, rfl, hk, hs⟩ := exists_parts f bits
  rw [Nat.add_assoc, point_add_of_le (hk.imp_right fun h => by omega) (by omega), point_add hk hs,
    pointExponent_add hk hs]
  push_cast
  ring

theorem midpoint_eq_sub (f : BinaryFormat) (bits : Nat) :
    f.midpoint bits = f.point (bits + 1) - 2 ^ (f.pointExponent bits - 1) := by
  rw [point_succ, midpoint, zpow_sub_one₀ two_ne_zero]
  ring

/-- The exponent grows by one at most. -/
theorem pointExponent_succ (f : BinaryFormat) (bits : Nat) :
    f.pointExponent (bits + 1) ≤ f.pointExponent bits + 1 := by
  have hF : 0 < Nat.pow 2 f.fractionBits := Nat.two_pow_pos _
  have hle : (bits + 1) / Nat.pow 2 f.fractionBits ≤ bits / Nat.pow 2 f.fractionBits + 1 := by
    rw [← Nat.add_div_right bits hF]
    exact Nat.div_le_div_right (Nat.add_le_add_left hF bits)
  rw [pointExponent, pointExponent, doublings, doublings]
  omega

/-- A midpoint is an odd multiple of half a unit. -/
theorem exists_odd (f : BinaryFormat) (bits : Nat) : ∃ n, n % 2 = 1 ∧
    n < 2 * (2 * Nat.pow 2 f.fractionBits) ∧
      f.midpoint bits = n * 2 ^ (f.pointExponent bits - 1) := by
  obtain ⟨k, s, rfl, hk, hs⟩ := exists_parts f bits
  refine ⟨2 * s + 1, by omega, by omega, ?_⟩
  rw [midpoint, point_add hk hs, pointExponent_add hk hs, zpow_sub_one₀ two_ne_zero]
  push_cast
  ring

theorem point_of_decode {significand : Nat} {negative : Bool} {exponent : Int}
    (h : f.decode bits = .finite negative significand exponent) :
    f.point (bits % f.signWeight) = significand * 2 ^ exponent ∧
      f.pointExponent (bits % f.signWeight) = exponent := by
  obtain ⟨hrange, hbits, -⟩ := decode_eq_finite h
  have hF : 0 < Nat.pow 2 f.fractionBits := Nat.two_pow_pos _
  have hnormal : (exponent - f.minExponent).toNat = 0 ∨ Nat.pow 2 f.fractionBits ≤ significand := by
    rcases hrange with ⟨rfl, -⟩ | ⟨-, hle, -⟩
    · exact .inl (by omega)
    · exact .inr hle
  have hlt : significand < 2 * Nat.pow 2 f.fractionBits := by
    rcases hrange with ⟨-, hlt⟩ | ⟨-, -, hlt⟩
    · omega
    · exact hlt
  have hexponent : f.minExponent + ((exponent - f.minExponent).toNat : ℤ) = exponent := by
    rcases hrange with ⟨rfl, -⟩ | ⟨hle, -⟩ <;> omega
  rw [hbits, point_add hnormal hlt, pointExponent_add hnormal hlt, hexponent]
  exact ⟨rfl, rfl⟩

theorem exists_decode (h : bits % f.signWeight < f.infinityBits) : ∃ significand exponent,
    f.decode bits = .finite (decide (f.signWeight ≤ bits)) significand exponent := by
  have hbiased : bits % f.signWeight / Nat.pow 2 f.fractionBits ≠ Nat.pow 2 f.exponentBits - 1 :=
    ((Nat.div_lt_iff_lt_mul (Nat.two_pow_pos _)).2 h).ne
  rw [decode, if_neg hbiased]
  split
  · exact ⟨_, _, rfl⟩
  · exact ⟨_, _, rfl⟩

theorem infinityBits_lt (f : BinaryFormat) : f.infinityBits < f.signWeight := by
  have hE : 0 < Nat.pow 2 f.exponentBits := Nat.two_pow_pos _
  have hF : 0 < Nat.pow 2 f.fractionBits := Nat.two_pow_pos _
  have hweight : f.signWeight = Nat.pow 2 f.exponentBits * Nat.pow 2 f.fractionBits :=
    Nat.pow_add ..
  rw [infinityBits, hweight]
  exact Nat.mul_lt_mul_of_pos_right (by omega) hF

/-! ## Places -/

variable (f) in
/-- The exponent of the unit in the last place of a positive number. -/
def unitExponent (q : ℚ) : ℤ := max (Int.log 2 q - f.fractionBits) f.minExponent

variable (f) in
/-- The place of a positive number among the numbers of the format. -/
def place (q : ℚ) : ℚ :=
  ((f.unitExponent q - f.minExponent : ℤ) : ℚ) * 2 ^ f.fractionBits + q / 2 ^ f.unitExponent q

variable {q q' : ℚ}

theorem lt_unit_mul (f : BinaryFormat) (q : ℚ) :
    q < 2 * 2 ^ f.fractionBits * 2 ^ f.unitExponent q := by
  have hlog := Int.lt_zpow_succ_log_self (b := 2) (by decide) q
  have hle : Int.log 2 q + 1 ≤ 1 + f.fractionBits + f.unitExponent q := by
    have := le_max_left (Int.log 2 q - f.fractionBits) f.minExponent
    rw [unitExponent]
    omega
  calc q < (2 : ℚ) ^ (Int.log 2 q + 1) := by exact_mod_cast hlog
    _ ≤ 2 ^ (1 + f.fractionBits + f.unitExponent q) := zpow_le_zpow_right₀ one_le_two hle
    _ = 2 * 2 ^ f.fractionBits * 2 ^ f.unitExponent q := by
      rw [zpow_add₀ two_ne_zero, zpow_add₀ two_ne_zero, zpow_one, zpow_natCast]

theorem unit_mul_le (hq : 0 < q) (h : f.minExponent < f.unitExponent q) :
    2 ^ f.fractionBits * 2 ^ f.unitExponent q ≤ q := by
  have hunit : f.unitExponent q = Int.log 2 q - f.fractionBits := by
    rw [unitExponent] at h ⊢
    omega
  calc (2 : ℚ) ^ f.fractionBits * 2 ^ f.unitExponent q = 2 ^ Int.log 2 q := by
        rw [hunit, ← zpow_natCast, ← zpow_add₀ two_ne_zero, add_sub_cancel]
    _ ≤ q := by exact_mod_cast Int.zpow_log_le_self (b := 2) (by decide) hq

theorem unitExponent_mono (hq : 0 < q) (h : q ≤ q') : f.unitExponent q ≤ f.unitExponent q' :=
  max_le_max_right _ (Int.sub_le_sub_right (Int.log_mono_right hq h) _)

/-- **Places grow with the numbers.** -/
theorem place_lt_place (hq : 0 < q) (h : q < q') : f.place q < f.place q' := by
  have hunit : (0 : ℚ) < 2 ^ f.unitExponent q := by positivity
  rcases (unitExponent_mono (f := f) hq h.le).eq_or_lt with heq | hlt
  · rw [place, place, ← heq]
    gcongr
  · -- between the two the unit doubles, and the place is where the unit begins
    have hunit' : (0 : ℚ) < 2 ^ f.unitExponent q' := by positivity
    have hmin : f.minExponent ≤ f.unitExponent q := le_max_right _ _
    have hbelow : q / 2 ^ f.unitExponent q < 2 * 2 ^ f.fractionBits :=
      (div_lt_iff₀ hunit).2 (lt_unit_mul f q)
    have habove : 2 ^ f.fractionBits ≤ q' / 2 ^ f.unitExponent q' :=
      (le_div_iff₀ hunit').2 (unit_mul_le (hq.trans h) (hmin.trans_lt hlt))
    have hsteps : ((f.unitExponent q - f.minExponent : ℤ) : ℚ) + 1 ≤
        ((f.unitExponent q' - f.minExponent : ℤ) : ℚ) := by
      exact_mod_cast (by omega : f.unitExponent q - f.minExponent + 1 ≤
        f.unitExponent q' - f.minExponent)
    have hF : (0 : ℚ) < 2 ^ f.fractionBits := by positivity
    have := mul_le_mul_of_nonneg_right hsteps hF.le
    rw [place, place]
    linarith

/-- The place of a midpoint is half way between its neighbours. -/
theorem place_midpoint (f : BinaryFormat) (bits : Nat) :
    f.place (f.midpoint bits) = bits + 1 / 2 := by
  obtain ⟨k, s, rfl, hk, hs⟩ := exists_parts f bits
  have hvalue : f.midpoint (k * Nat.pow 2 f.fractionBits + s) =
      (s + 1 / 2) * 2 ^ (f.minExponent + k) := by
    rw [midpoint, point_add hk hs, pointExponent_add hk hs, zpow_sub_one₀ two_ne_zero]
    ring
  have hunit : (0 : ℚ) < 2 ^ (f.minExponent + k) := by positivity
  have hpos : (0 : ℚ) < (s + 1 / 2) * 2 ^ (f.minExponent + k) := by positivity
  have hs' : (s : ℚ) + 1 ≤ 2 * 2 ^ f.fractionBits := by exact_mod_cast hs
  have hupper : Int.log 2 ((s + 1 / 2) * 2 ^ (f.minExponent + k) : ℚ) <
      1 + f.fractionBits + (f.minExponent + k) := by
    have hpow : (2 : ℚ) ^ (1 + f.fractionBits + (f.minExponent + k)) =
        2 * 2 ^ f.fractionBits * 2 ^ (f.minExponent + k) := by
      rw [zpow_add₀ two_ne_zero, zpow_add₀ two_ne_zero, zpow_one, zpow_natCast]
    rw [← Int.lt_zpow_iff_log_lt (by decide) hpos, Nat.cast_ofNat, hpow]
    gcongr
    linarith
  -- The midpoint has the unit of the number below it, for the smallest numbers too.
  have hunitExponent : f.unitExponent ((s + 1 / 2) * 2 ^ (f.minExponent + k)) =
      f.minExponent + k := by
    rw [unitExponent]
    rcases hk with rfl | hle
    · push_cast at hupper ⊢
      omega
    · have hlower : f.fractionBits + (f.minExponent + k) ≤
          Int.log 2 ((s + 1 / 2) * 2 ^ (f.minExponent + k) : ℚ) := by
        have hle' : (2 : ℚ) ^ f.fractionBits ≤ s := by exact_mod_cast hle
        rw [← Int.zpow_le_iff_le_log (by decide) hpos, Nat.cast_ofNat, zpow_add₀ two_ne_zero,
          zpow_natCast]
        gcongr
        linarith
      omega
  rw [hvalue, place, hunitExponent, mul_div_cancel_right₀ _ hunit.ne', add_sub_cancel_left]
  push_cast [Nat.pow_eq]
  ring

/-! ## Rounding -/

variable {num den num' den' : Nat}

/-- A natural nearest to a number of units is one of the significands that belong
to the unit. -/
theorem significand_of_near (hq : 0 < q) (h : |(s : ℚ) - q / 2 ^ f.unitExponent q| ≤ 1 / 2) :
    s ≤ 2 * Nat.pow 2 f.fractionBits ∧
      (f.minExponent < f.unitExponent q → Nat.pow 2 f.fractionBits ≤ s) := by
  have hunit : (0 : ℚ) < 2 ^ f.unitExponent q := by positivity
  have hupper : q / 2 ^ f.unitExponent q < 2 * 2 ^ f.fractionBits :=
    (div_lt_iff₀ hunit).2 (lt_unit_mul f q)
  obtain ⟨hlow, hhigh⟩ := abs_le.1 h
  refine ⟨?_, fun hmin => ?_⟩
  · have hlt : (s : ℚ) < (2 * Nat.pow 2 f.fractionBits + 1 : Nat) := by
      push_cast [Nat.pow_eq]
      linarith
    exact Nat.lt_succ_iff.1 (by exact_mod_cast hlt)
  · have hlower : 2 ^ f.fractionBits ≤ q / 2 ^ f.unitExponent q :=
      (le_div_iff₀ hunit).2 (unit_mul_le hq hmin)
    have hlt : ((Nat.pow 2 f.fractionBits : Nat) : ℚ) < (s + 1 : Nat) := by
      push_cast [Nat.pow_eq]
      linarith
    exact Nat.lt_succ_iff.1 (by exact_mod_cast hlt)

/-- The significand that a quotient is rounded to, in units of its last place. -/
theorem exists_significand (f : BinaryFormat) (hnum : 0 < num) (hden : 0 < den) :
    ∃ s : Nat, f.roundQuotient num den = min f.infinityBits
        ((f.unitExponent (num / den) - f.minExponent).toNat * Nat.pow 2 f.fractionBits + s) ∧
      |(s : ℚ) - num / den / 2 ^ f.unitExponent (num / den)| ≤ 1 / 2 := by
  rw [roundQuotient, if_neg hnum.ne', leadingExponent_eq_log hnum hden, unitExponent]
  generalize max (Int.log 2 ((num : ℚ) / den) - f.fractionBits) f.minExponent = unit
  refine ⟨_, rfl, ?_⟩
  split
  · next hunit =>
    have h := roundHalfEven_near num (Nat.mul_pos hden (Nat.two_pow_pos unit.toNat))
    rwa [← Nat.pow_eq, Nat.cast_mul, ← zpow_of_nonneg hunit, ← div_div] at h
  · next hunit =>
    have h := roundHalfEven_near (num * Nat.pow 2 (-unit).toNat) hden
    rwa [Nat.cast_mul, mul_div_right_comm, ← inv_inv ((Nat.pow 2 (-unit).toNat : ℕ) : ℚ),
      ← zpow_of_neg hunit, ← div_eq_mul_inv] at h

/-- **Rounding goes from the place to a nearest natural.** -/
theorem exists_near_place (f : BinaryFormat) (hnum : 0 < num) (hden : 0 < den) :
    ∃ n : Nat, f.roundQuotient num den = min f.infinityBits n ∧
      |(n : ℚ) - f.place (num / den)| ≤ 1 / 2 := by
  obtain ⟨s, hround, hnear⟩ := exists_significand f hnum hden
  have hmin : f.minExponent ≤ f.unitExponent (num / den) := le_max_right _ _
  have hsteps : (((f.unitExponent (num / den) - f.minExponent).toNat : ℕ) : ℚ) =
      ((f.unitExponent (num / den) - f.minExponent : ℤ) : ℚ) := by
    exact_mod_cast congrArg (Int.cast : ℤ → ℚ) (Int.toNat_of_nonneg (Int.sub_nonneg.2 hmin))
  refine ⟨_, hround, ?_⟩
  rw [place, Nat.cast_add, Nat.cast_mul, hsteps, Nat.pow_eq, Nat.cast_pow, Nat.cast_ofNat,
    add_sub_add_left_eq_sub]
  exact hnear

/-- **A number is rounded to a multiple of its unit in the last place at most half
a unit away**, if to a finite one. -/
theorem point_roundQuotient_near (hnum : 0 < num) (hden : 0 < den)
    (hfinite : f.roundQuotient num den < f.infinityBits) :
    ∃ s : Nat, f.point (f.roundQuotient num den) = s * 2 ^ f.unitExponent (num / den) ∧
      |(s : ℚ) - num / den / 2 ^ f.unitExponent (num / den)| ≤ 1 / 2 := by
  have hq : (0 : ℚ) < num / den := div_pos (Nat.cast_pos.2 hnum) (Nat.cast_pos.2 hden)
  obtain ⟨s, hround, hnear⟩ := exists_significand f hnum hden
  obtain ⟨hs, hnormal⟩ := significand_of_near hq hnear
  have hmin : f.minExponent ≤ f.unitExponent (num / den) := le_max_right _ _
  generalize f.unitExponent (num / den) = unit at *
  obtain ⟨k, rfl⟩ := Int.le.dest hmin
  rw [add_sub_cancel_left, Int.toNat_natCast] at hround
  rw [hround] at hfinite
  have hk : k = 0 ∨ Nat.pow 2 f.fractionBits ≤ s := by
    rcases Nat.eq_zero_or_pos k with hzero | hpos
    · exact .inl hzero
    · exact .inr (hnormal (by omega))
  rw [hround, min_eq_right (by omega), point_add_of_le hk hs]
  exact ⟨s, rfl, hnear⟩

/-- Below the largest powers of two nothing is rounded to infinity. -/
theorem roundQuotient_lt (hnum : 0 < num) (hden : 0 < den) {e : ℤ}
    (hwide : 3 < Nat.pow 2 f.exponentBits)
    (he : e + 2 < f.minExponent + f.fractionBits + Nat.pow 2 f.exponentBits)
    (h : (num : ℚ) / den < 2 ^ e) : f.roundQuotient num den < f.infinityBits := by
  have hq : (0 : ℚ) < num / den := div_pos (Nat.cast_pos.2 hnum) (Nat.cast_pos.2 hden)
  have hlog : Int.log 2 ((num : ℚ) / den) < e := by
    rw [← Int.lt_zpow_iff_log_lt (by decide) hq]
    exact_mod_cast h
  obtain ⟨s, hround, hnear⟩ := exists_significand f hnum hden
  obtain ⟨hs, -⟩ := significand_of_near hq hnear
  obtain ⟨E, hE⟩ : ∃ E, Nat.pow 2 f.exponentBits = E + 1 := ⟨_, (Nat.succ_pred_eq_of_pos
    (by omega)).symm⟩
  have hsteps : (f.unitExponent (num / den) - f.minExponent).toNat + 2 < E := by
    rw [unitExponent]
    omega
  generalize (f.unitExponent (num / den) - f.minExponent).toNat = k at *
  have hF : 0 < Nat.pow 2 f.fractionBits := Nat.two_pow_pos _
  have hbits : k * Nat.pow 2 f.fractionBits + s < E * Nat.pow 2 f.fractionBits := by
    calc k * Nat.pow 2 f.fractionBits + s
        ≤ k * Nat.pow 2 f.fractionBits + 2 * Nat.pow 2 f.fractionBits := by omega
      _ = (k + 2) * Nat.pow 2 f.fractionBits := by ring
      _ < E * Nat.pow 2 f.fractionBits := Nat.mul_lt_mul_of_pos_right hsteps hF
  rw [hround, infinityBits, hE, Nat.add_sub_cancel]
  exact (min_le_right _ _).trans_lt hbits

/-- In the normal range the error is small against the number. -/
theorem point_roundQuotient_relative (hnum : 0 < num) (hden : 0 < den)
    (hfinite : f.roundQuotient num den < f.infinityBits)
    (hnormal : 2 ^ f.fractionBits * 2 ^ f.minExponent ≤ (num : ℚ) / den) :
    |f.point (f.roundQuotient num den) - num / den| ≤ num / den / (2 * 2 ^ f.fractionBits) := by
  have hq : (0 : ℚ) < num / den := div_pos (Nat.cast_pos.2 hnum) (Nat.cast_pos.2 hden)
  have hmin : f.minExponent ≤ f.unitExponent ((num : ℚ) / den) := le_max_right _ _
  obtain ⟨s, hs, hnear⟩ := point_roundQuotient_near hnum hden hfinite
  generalize hvalue : (num : ℚ) / den = q at *
  have hlower : 2 ^ f.fractionBits * 2 ^ f.unitExponent q ≤ q := by
    rcases hmin.eq_or_lt with heq | hlt
    · rwa [← heq]
    · exact unit_mul_le hq hlt
  have hunit : (0 : ℚ) < 2 ^ f.unitExponent q := by positivity
  have hfactor : s * 2 ^ f.unitExponent q - q =
      (s - q / 2 ^ f.unitExponent q) * 2 ^ f.unitExponent q := by
    rw [sub_mul, div_mul_cancel₀ _ hunit.ne']
  rw [hs, hfactor, abs_mul, abs_of_pos hunit, le_div_iff₀ (by positivity)]
  calc |(s : ℚ) - q / 2 ^ f.unitExponent q| * 2 ^ f.unitExponent q * (2 * 2 ^ f.fractionBits)
      ≤ 1 / 2 * 2 ^ f.unitExponent q * (2 * 2 ^ f.fractionBits) := by gcongr
    _ = 2 ^ f.fractionBits * 2 ^ f.unitExponent q := by ring
    _ ≤ q := hlower

/-- A number of the format is rounded to itself. -/
theorem point_roundQuotient_eq (hnum : 0 < num) (hden : 0 < den)
    (hfinite : f.roundQuotient num den < f.infinityBits) {m : Nat} {e : ℤ}
    (hm : m < 2 * Nat.pow 2 f.fractionBits) (he : f.minExponent ≤ e)
    (h : (num : ℚ) / den = m * 2 ^ e) : f.point (f.roundQuotient num den) = num / den := by
  have hq : (0 : ℚ) < num / den := div_pos (Nat.cast_pos.2 hnum) (Nat.cast_pos.2 hden)
  obtain ⟨s, hs, hnear⟩ := point_roundQuotient_near hnum hden hfinite
  have hlog : Int.log 2 ((num : ℚ) / den) < 1 + f.fractionBits + e := by
    rw [← Int.lt_zpow_iff_log_lt (by decide) hq, h, Nat.cast_ofNat, zpow_add₀ two_ne_zero,
      zpow_add₀ two_ne_zero, zpow_one, zpow_natCast]
    gcongr
    exact_mod_cast hm
  have hle : f.unitExponent ((num : ℚ) / den) ≤ e := max_le (by omega) he
  generalize f.unitExponent ((num : ℚ) / den) = unit at *
  obtain ⟨k, rfl⟩ := Int.le.dest hle
  have hunit : (0 : ℚ) < 2 ^ unit := by positivity
  -- the number is a multiple of its unit in the last place
  have hunits : (num : ℚ) / den / 2 ^ unit = (m * 2 ^ k : Nat) := by
    rw [div_eq_iff hunit.ne', h, zpow_add₀ two_ne_zero, zpow_natCast]
    push_cast
    ring
  rw [hunits] at hnear
  have hlt : |((s : ℤ) - (m * 2 ^ k : Nat) : ℤ)| < 1 := by
    have : |((s : ℚ) - (m * 2 ^ k : Nat))| < 1 := hnear.trans_lt (by norm_num)
    exact_mod_cast this
  have heq : s = m * 2 ^ k := by
    have := Int.abs_lt_one_iff.1 hlt
    omega
  rw [hs, heq, ← hunits, div_mul_cancel₀ _ hunit.ne']

/-- **Between numbers that are rounded differently lies a midpoint**, next to the
number that the first is rounded to. -/
theorem exists_midpoint_between (hnum : 0 < num) (hden : 0 < den) (hnum' : 0 < num')
    (hden' : 0 < den') (h : f.roundQuotient num den = bits) (hfinite : bits < f.infinityBits)
    (hne : f.roundQuotient num' den' ≠ bits) :
    ∃ c, (c = bits ∨ c + 1 = bits) ∧
      ((num : ℚ) / den ≤ f.midpoint c ∧ f.midpoint c ≤ num' / den' ∨
        (num' : ℚ) / den' ≤ f.midpoint c ∧ f.midpoint c ≤ num / den) := by
  have hq : (0 : ℚ) < num / den := div_pos (Nat.cast_pos.2 hnum) (Nat.cast_pos.2 hden)
  have hq' : (0 : ℚ) < num' / den' := div_pos (Nat.cast_pos.2 hnum') (Nat.cast_pos.2 hden')
  have hmid : ∀ c, 0 < f.midpoint c := by
    intro c
    rw [midpoint, point]
    positivity
  have hle : ∀ {a b : ℚ}, 0 < b → f.place a ≤ f.place b → a ≤ b := by
    intro a b hb hplace
    by_contra hlt
    exact absurd (place_lt_place hb (not_le.1 hlt)) (not_lt.2 hplace)
  -- On the axis of places, rounded numbers are whole and midpoints half way between.
  obtain ⟨n, hn, hnear⟩ := exists_near_place f hnum hden
  obtain ⟨n', hn', hnear'⟩ := exists_near_place f hnum' hden'
  obtain rfl : n = bits := by omega
  obtain ⟨hlow, hhigh⟩ := abs_le.1 hnear
  obtain ⟨hlow', hhigh'⟩ := abs_le.1 hnear'
  rcases Nat.lt_or_ge n n' with hlt | hge
  · have hlt' : (n : ℚ) + 1 ≤ n' := by exact_mod_cast hlt
    refine ⟨n, .inl rfl, .inl ⟨hle (hmid n) ?_, hle hq' ?_⟩⟩
    · rw [place_midpoint]
      linarith
    · rw [place_midpoint]
      linarith
  · have hne' : n' ≠ n := by omega
    -- The midpoint below the first number is that of its predecessor.
    obtain ⟨c, rfl⟩ : ∃ c, n = c + 1 := ⟨n - 1, by omega⟩
    have hlt' : (n' : ℚ) ≤ c := by exact_mod_cast (by omega : n' ≤ c)
    rw [Nat.cast_succ] at hlow hhigh
    refine ⟨c, .inr rfl, .inr ⟨hle (hmid c) ?_, hle hq ?_⟩⟩
    · rw [place_midpoint]
      linarith
    · rw [place_midpoint]
      linarith

end BinaryFormat

end RuleVote
