import RuleVote.Proofs.Number.Arithmetic
/-!
# Shares of votes

The share of a class is the quotient of two counts, rounded. Rounding keeps
the order of shares, but it can bring two of them closer together, and the
tolerance of ties has to be measured against what is left of their distance.
`leastLead` is above the tolerance, and one vote is worth it in a row of up to
99864 votes (`IsShare.lead_of_few`). That bound is sharp, because up to it the
numbers next to a power of two are multiples of what a vote is worth at least.
In longer rows a lead has to be of one vote in 99000 (`IsShare.lead_of_wide`).
-/

namespace RuleVote

/-- A distance of shares above the tolerance of ties. -/
def leastLead : ℚ := 21 * 2 ^ (-21 : ℤ)

/-- `r` is the value of the share of `a` votes among `n`. -/
def IsShare (a n : ℕ) (r : ℚ) : Prop := a = 0 ∧ r = 0 ∨ 0 < a ∧ Nearest (a / n) r

theorem significant_leastLead : Significant leastLead :=
  ⟨21, -21, by decide, by norm_num [leastLead]⟩

theorem significant_one : Significant 1 := ⟨1, 0, by decide, by norm_num⟩

/-! ## Shares as numbers -/

theorem inRange_share {a n : ℕ} (ha : 0 < a) (hle : a ≤ n) (hn : n ≤ 2 ^ 24) :
    InRange ((a : ℚ) / n) := by
  have hnpos : (0 : ℚ) < n := by exact_mod_cast ha.trans_le hle
  have ha' : (1 : ℚ) ≤ a := by exact_mod_cast ha
  have hle' : (a : ℚ) ≤ n := by exact_mod_cast hle
  have hn' : (n : ℚ) ≤ 2 ^ 24 := by exact_mod_cast hn
  constructor
  · rw [le_div_iff₀ hnpos]
    calc (2 : ℚ) ^ (-126 : ℤ) * n ≤ 2 ^ (-126 : ℤ) * 2 ^ 24 := by gcongr
      _ ≤ 1 := by norm_num
      _ ≤ a := ha'
  · rw [div_lt_iff₀ hnpos]
    calc (a : ℚ) ≤ n := hle'
      _ < 2 ^ (127 : ℤ) * n := lt_mul_of_one_lt_left hnpos (by norm_num)

/-- **Every share has a value.** -/
theorem exists_isShare {a n : ℕ} (hle : a ≤ n) (hpos : 0 < n) (hn : n ≤ 2 ^ 24) :
    ∃ r, HasValue (ofCount a / ofCount n) r ∧ IsShare a n r := by
  have hnpos : (0 : ℚ) < n := by exact_mod_cast hpos
  have hcount := hasValue_ofCount_of_le hn
  rcases Nat.eq_zero_or_pos a with rfl | ha
  · exact ⟨0, HasValue.zero_div Writes.zero hcount hnpos, .inl ⟨rfl, rfl⟩⟩
  · have hvotes := hasValue_ofCount_of_le (hle.trans hn)
    obtain ⟨r, hr, hvalue⟩ :=
      hvotes.div hcount (by exact_mod_cast ha) hnpos (inRange_share ha hle hn)
    exact ⟨r, hvalue, .inr ⟨ha, hr⟩⟩

namespace IsShare

variable {a b n : ℕ} {r r' : ℚ}

theorem nonneg (h : IsShare a n r) (hn : 0 < n) : 0 ≤ r := by
  rcases h with ⟨-, rfl⟩ | ⟨ha, h⟩
  · exact le_rfl
  · exact (h.pos (div_pos (by exact_mod_cast ha) (by exact_mod_cast hn))).le

theorem le_one (h : IsShare a n r) (hle : a ≤ n) : r ≤ 1 := by
  rcases h with ⟨-, rfl⟩ | ⟨ha, h⟩
  · exact zero_le_one
  · have hn : (0 : ℚ) < n := by exact_mod_cast ha.trans_le hle
    exact h.le (div_pos (by exact_mod_cast ha) hn) significant_one
      ((div_le_one hn).2 (by exact_mod_cast hle))

/-- More votes have no smaller share. -/
theorem mono (h : IsShare b n r) (h' : IsShare a n r') (hlt : b < a) (hle : a ≤ n) : r ≤ r' := by
  have hn : 0 < n := by omega
  have hnq : (0 : ℚ) < n := by exact_mod_cast hn
  rcases h with ⟨-, rfl⟩ | ⟨hb, h⟩
  · exact h'.nonneg hn
  · obtain ⟨-, h'⟩ := h'.resolve_left fun h => by omega
    exact h.mono h' (div_pos (by exact_mod_cast hb) hnq)
      (div_lt_div_of_pos_right (by exact_mod_cast hlt) hnq)

/-! ### Next to a power of two -/

section PowerOfTwo

variable {w j : ℕ}

theorem zpow_sub_eq_div (hw : w = 2 ^ j) (k : ℤ) : (2 : ℚ) ^ (k - j) = 2 ^ k / w := by
  rw [zpow_sub₀ two_ne_zero, zpow_natCast, hw]
  push_cast
  rfl

/-- A vote in a row of up to 99864 votes is worth 168 units of the numbers below
one. -/
theorem units_le_one (hn : 336 * n ≤ 2 ^ 25) : (168 : ℚ) * n / 2 ^ 24 ≤ 1 := by
  have hnq : (336 : ℚ) * n ≤ 2 ^ 25 := by exact_mod_cast hn
  exact (div_le_one (by positivity)).2 (by linarith)

/-- A share below a power of two stays below it by 168 units for each part of a
vote that it lacks. -/
theorem le_below (hw : w = 2 ^ j) (hb : 0 < b) (hn : 336 * n ≤ 2 ^ 25)
    (h : Nearest ((b : ℚ) / n) r) {s : ℕ} (hs : b * w + s = n) :
    r ≤ (2 ^ 24 - 168 * s) * (2 ^ (-24 : ℤ) / w) := by
  have hwpos : 0 < w := hw ▸ Nat.two_pow_pos j
  have hwq : (0 : ℚ) < w := by exact_mod_cast hwpos
  have hnq : (0 : ℚ) < n := by
    exact_mod_cast (Nat.mul_pos hb hwpos).trans_le (hs ▸ Nat.le_add_right _ _)
  have hsq : (s : ℚ) = n - b * w := by
    rw [← hs]
    push_cast
    ring
  refine h.le (by positivity) ⟨2 ^ 24 - 168 * s, -24 - j, Nat.sub_le _ _, ?_⟩ ?_
  · rw [zpow_sub_eq_div hw, Nat.cast_sub (by omega)]
    push_cast
    rfl
  · have hvalue : (2 ^ 24 - 168 * (s : ℚ)) * (2 ^ (-24 : ℤ) / w) * n =
        (n - s * (168 * n / 2 ^ 24)) / w := by
      norm_num
      ring
    rw [div_le_iff₀ hnq, hvalue, le_div_iff₀ hwq]
    have := mul_le_mul_of_nonneg_left (units_le_one hn) (Nat.cast_nonneg s)
    linarith

/-- A share above a power of two stays above it by 84 units for each part of a vote
that it has more. The units are twice as large there. -/
theorem ge_above (hw : w = 2 ^ j) (hnpos : 0 < n) (hn : 336 * n ≤ 2 ^ 25)
    (h : Nearest ((a : ℚ) / n) r) {t : ℕ} (ht : n + t = a * w) (htn : t ≤ n) :
    (2 ^ 23 + 84 * t) * (2 ^ (-23 : ℤ) / w) ≤ r := by
  have hwpos : 0 < w := hw ▸ Nat.two_pow_pos j
  have hwq : (0 : ℚ) < w := by exact_mod_cast hwpos
  have hnq : (0 : ℚ) < n := by exact_mod_cast hnpos
  have hapos : 0 < a := Nat.pos_of_mul_pos_right (ht ▸ Nat.add_pos_left hnpos t)
  have htq : (t : ℚ) = a * w - n := by
    have hcast : ((n + t : ℕ) : ℚ) = (a * w : ℕ) := by rw [ht]
    push_cast at hcast
    linarith
  refine h.ge (by positivity) ⟨2 ^ 23 + 84 * t, -23 - j, by omega, ?_⟩ ?_
  · rw [zpow_sub_eq_div hw]
    push_cast
    rfl
  · have hvalue : (2 ^ 23 + 84 * (t : ℚ)) * (2 ^ (-23 : ℤ) / w) * n =
        (n + t * (168 * n / 2 ^ 24)) / w := by
      norm_num
      ring
    rw [le_div_iff₀ hnq, hvalue, div_le_iff₀ hwq]
    have := mul_le_mul_of_nonneg_left (units_le_one hn) (Nat.cast_nonneg t)
    linarith

/-- The parts of one vote on both sides of a power of two make up the least lead. -/
theorem add_leastLead_eq (hwpos : 0 < w) {s t : ℕ} (hst : s + t = w) :
    (2 ^ 24 - 168 * (s : ℚ)) * (2 ^ (-24 : ℤ) / w) + leastLead =
      (2 ^ 23 + 84 * t) * (2 ^ (-23 : ℤ) / w) := by
  have hwq : (0 : ℚ) < w := by exact_mod_cast hwpos
  have hsum : (s : ℚ) = w - t := by
    rw [← hst]
    push_cast
    ring
  rw [leastLead, hsum]
  norm_num
  field_simp
  ring

/-- Across a power of two, both shares have left it by a multiple of what a
vote is worth. -/
theorem lead_across (hw : w = 2 ^ j) (hb : 0 < b) (hn : 336 * n ≤ 2 ^ 25)
    (h : Nearest ((b : ℚ) / n) r) (h' : Nearest (((b + 1 : ℕ) : ℚ) / n) r')
    (hbelow : b * w < n) (habove : n ≤ (b + 1) * w) : r + leastLead ≤ r' := by
  have hnpos : 0 < n := by omega
  have hwpos : 0 < w := hw ▸ Nat.two_pow_pos j
  have hwn : w < n := (Nat.le_mul_of_pos_left w hb).trans_lt hbelow
  -- the two distances from the power of two, in parts of a vote
  obtain ⟨s, hs⟩ : ∃ s, b * w + s = n := Nat.le.dest hbelow.le
  obtain ⟨t, ht⟩ : ∃ t, n + t = (b + 1) * w := Nat.le.dest habove
  have hst : s + t = w := by
    rw [Nat.add_mul, Nat.one_mul] at ht
    omega
  have hupper := le_below hw hb hn h hs
  have hlower := ge_above hw hnpos hn h' ht (by omega)
  calc r + leastLead ≤ (2 ^ 24 - 168 * s) * (2 ^ (-24 : ℤ) / w) + leastLead := by gcongr
    _ = (2 ^ 23 + 84 * t) * (2 ^ (-23 : ℤ) / w) := add_leastLead_eq hwpos hst
    _ ≤ r' := hlower

end PowerOfTwo

/-! ### One vote more -/

/-- **One vote is worth the least lead** in a row of up to 99864 votes. -/
theorem lead_succ (hb : 0 < b) (hle : b + 1 ≤ n) (hn : 336 * n ≤ 2 ^ 25)
    (h : Nearest ((b : ℚ) / n) r) (h' : Nearest (((b + 1 : ℕ) : ℚ) / n) r') :
    r + leastLead ≤ r' := by
  have hnq : (0 : ℚ) < n := by exact_mod_cast (by omega : 0 < n)
  have hq : (0 : ℚ) < b / n := div_pos (by exact_mod_cast hb) hnq
  have hstep : (b : ℚ) / n + leastLead < ((b + 1 : ℕ) : ℚ) / n := by
    have hworth : leastLead < 1 / n := by
      rw [leastLead, lt_div_iff₀ hnq]
      have : (21 : ℚ) * n < 2 ^ 21 := by exact_mod_cast (by omega : 21 * n < 2 ^ 21)
      norm_num
      linarith
    rw [Nat.cast_succ, add_div]
    linarith
  have hlt : (b : ℚ) / n < ((b + 1 : ℕ) : ℚ) / n :=
    (lt_add_of_pos_right _ (by norm_num [leastLead])).trans hstep
  have hbelow : (b : ℚ) / n < 1 := (div_lt_one hnq).2 (by exact_mod_cast hle)
  have hneg : Int.log 2 ((b : ℚ) / n) < 0 :=
    (Int.lt_zpow_iff_log_lt (b := 2) (by decide) hq).1 (by simpa using hbelow)
  rcases (Int.log_mono_right (b := 2) hq hlt.le).eq_or_lt with hlog | hlog
  · -- inside a binade the least lead is a multiple of the unit
    obtain ⟨k, hk⟩ := exists_multiple (t := Int.log 2 ((b : ℚ) / n) - 23) (e := -21) (by omega) 21
    have hlead : leastLead = k * lastPlace ((b : ℚ) / n) := hk
    rw [hlead] at hstep ⊢
    exact h.add_le h' (by rw [lastPlace, lastPlace, hlog]) hstep
  · -- a power of two lies between the two
    have hq' := hq.trans hlt
    have hone : ((b + 1 : ℕ) : ℚ) / n < 2 ^ (1 : ℤ) := by
      rw [zpow_one]
      exact ((div_le_one hnq).2 (by exact_mod_cast hle)).trans_lt one_lt_two
    have hmost : Int.log 2 (((b + 1 : ℕ) : ℚ) / n) < 1 :=
      (Int.lt_zpow_iff_log_lt (b := 2) (by decide) hq').1 (by exact_mod_cast hone)
    obtain ⟨j, hj⟩ : ∃ j : ℕ, Int.log 2 (((b + 1 : ℕ) : ℚ) / n) = -j :=
      ⟨(-Int.log 2 (((b + 1 : ℕ) : ℚ) / n)).toNat, by omega⟩
    have hpower : (2 : ℚ) ^ (-j : ℤ) = 1 / (2 ^ j : ℕ) := by
      rw [zpow_neg, zpow_natCast, one_div]
      push_cast
      rfl
    have hjpos : (0 : ℚ) < (2 ^ j : ℕ) := by exact_mod_cast Nat.two_pow_pos j
    have hleft : (b : ℚ) / n < 2 ^ (-j : ℤ) := by
      rw [← hj]
      exact_mod_cast (Int.lt_zpow_iff_log_lt (b := 2) (by decide) hq).2 hlog
    have hright : (2 : ℚ) ^ (-j : ℤ) ≤ ((b + 1 : ℕ) : ℚ) / n := by
      rw [← hj]
      exact_mod_cast Int.zpow_log_le_self (b := 2) (by decide) hq'
    rw [hpower, div_lt_div_iff₀ hnq hjpos, one_mul] at hleft
    rw [hpower, div_le_div_iff₀ hjpos hnq, one_mul] at hright
    exact lead_across rfl hb hn h h' (by exact_mod_cast hleft) (by exact_mod_cast hright)

theorem lead_next (h : IsShare b n r) (h' : IsShare (b + 1) n r') (hle : b + 1 ≤ n)
    (hn : n ≤ 99864) : r + leastLead ≤ r' := by
  obtain ⟨-, h'⟩ := h'.resolve_left fun h => by omega
  rcases h with ⟨rfl, rfl⟩ | ⟨hb, h⟩
  · have hnq : (0 : ℚ) < n := by exact_mod_cast hle
    rw [zero_add]
    refine h'.ge (div_pos (by exact_mod_cast Nat.one_pos) hnq) significant_leastLead ?_
    rw [le_div_iff₀ hnq, leastLead]
    have : (n : ℚ) ≤ 99864 := by exact_mod_cast hn
    norm_num
    linarith
  · exact lead_succ hb hle (by omega) h h'

/-- **Any lead counts in a row of up to 99864 votes.** -/
theorem lead_of_few (h : IsShare b n r) (h' : IsShare a n r') (hlt : b < a) (hle : a ≤ n)
    (hn : n ≤ 99864) : r + leastLead ≤ r' := by
  rcases (Nat.succ_le_of_lt hlt).eq_or_lt with rfl | hlt'
  · exact h.lead_next h' hle hn
  · obtain ⟨s, -, hs⟩ := exists_isShare (hlt.trans_le hle : b + 1 ≤ n) (by omega) (by omega)
    exact (h.lead_next hs (by omega) hn).trans (hs.mono h' hlt' hle)

/-! ### A lead of more votes -/

/-- A share is within half a unit of the exact quotient. -/
theorem near (h : IsShare a n r) (hle : a ≤ n) (hn : 0 < n) : |r - a / n| ≤ 2 ^ (-25 : ℤ) := by
  have hnq : (0 : ℚ) < n := by exact_mod_cast hn
  rcases h with ⟨rfl, rfl⟩ | ⟨ha, h⟩
  · norm_num
  · have hq : (0 : ℚ) < a / n := div_pos (by exact_mod_cast ha) hnq
    rcases hle.eq_or_lt with rfl | hlt
    · have hone : (a : ℚ) / a = 1 := div_self hnq.ne'
      rw [hone] at h ⊢
      rw [h.eq one_pos significant_one, sub_self, abs_zero]
      positivity
    · have hplace : lastPlace ((a : ℚ) / n) ≤ 2 ^ (0 - 24 : ℤ) :=
        lastPlace_le hq (by simpa using (div_lt_one hnq).2 (by exact_mod_cast hlt))
      refine h.near.trans ?_
      norm_num at hplace ⊢
      linarith

/-- **So does one of one vote in 99000** in a longer row. -/
theorem lead_of_wide (h : IsShare b n r) (h' : IsShare a n r') (hlt : b < a) (hle : a ≤ n)
    (hwide : n ≤ 99000 * (a - b)) : r + leastLead ≤ r' := by
  have hn : 0 < n := by omega
  have hnq : (0 : ℚ) < n := by exact_mod_cast hn
  have hb := (abs_le.1 (h.near (hlt.le.trans hle) hn)).2
  have ha := (abs_le.1 (h'.near hle hn)).1
  have hdistance : (1 : ℚ) / 99000 ≤ a / n - b / n := by
    have hcast : (n : ℚ) ≤ 99000 * (a - b) := by
      rw [← Nat.cast_sub hlt.le]
      exact_mod_cast hwide
    rw [← sub_div, le_div_iff₀ hnq]
    linarith
  norm_num [leastLead] at *
  linarith

end IsShare

end RuleVote
