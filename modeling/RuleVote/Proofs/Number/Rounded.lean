import RuleVote.Proofs.Number.Nearest
/-!
# Rounding into the format

Single precision represents the numbers of 24 bits whose last bit is worth
`2 ^ (-149)` at least and that do not go beyond `2 ^ 128` (`Representable`); the two
at the ends stand for the infinities. The result of an operation is one of them that
is as close to the exact result as any (`Rounds`). So it does not pass a number that
is represented (`Rounds.le`, `Rounds.ge`), and a larger exact result has no smaller
one (`Rounds.mono`). Unlike what `Nearest` says, this goes for results of either
sign, for those below the normal range and for those that overflow. A multiple of a
fitting power of two at most half of it away is such a result once it is cut off at
the end (`rounds_of_near`).
-/

namespace RuleVote

/-- The format represents the number. -/
def Representable (g : ℚ) : Prop :=
  |g| ≤ 2 ^ 128 ∧ ∃ j e : ℤ, |j| ≤ 2 ^ 24 ∧ -149 ≤ e ∧ g = j * 2 ^ e

/-- `r` is represented, and nothing that is represented is closer to `q`. -/
structure Rounds (q r : ℚ) : Prop where
  representable : Representable r
  closest : ∀ g, Representable g → |r - q| ≤ |g - q|

variable {q q' r r' g : ℚ}

theorem Representable.neg (h : Representable g) : Representable (-g) := by
  obtain ⟨hle, j, e, hj, he, rfl⟩ := h
  exact ⟨by rwa [abs_neg], -j, e, by rwa [abs_neg], he, by push_cast; ring⟩

theorem representable_intCast {j : ℤ} (h : |j| ≤ 2 ^ 24) : Representable j := by
  have hj : |(j : ℚ)| ≤ 2 ^ 24 := by exact_mod_cast h
  exact ⟨hj.trans (by norm_num), j, 0, h, by decide, by simp⟩

theorem representable_natCast {n : ℕ} (h : n ≤ 2 ^ 24) : Representable n := by
  have hrep := representable_intCast (j := n) (by rw [Nat.abs_cast]; exact_mod_cast h)
  rwa [Int.cast_natCast] at hrep

theorem representable_zpow {e : ℤ} (hlow : -149 ≤ e) (hhigh : e ≤ 128) :
    Representable (2 ^ e) := by
  refine ⟨?_, 1, e, by decide, hlow, by simp⟩
  rw [abs_of_nonneg (by positivity)]
  exact_mod_cast zpow_le_zpow_right₀ (one_le_two (α := ℚ)) hhigh

namespace Rounds

/-- **A result does not pass a represented number above.** -/
theorem le (h : Rounds q r) (hg : Representable g) (hle : q ≤ g) : r ≤ g := by
  by_contra hlt
  have hclose := h.closest g hg
  rw [abs_of_nonneg (by linarith), abs_of_nonneg (by linarith)] at hclose
  linarith

/-- **Nor one below.** -/
theorem ge (h : Rounds q r) (hg : Representable g) (hle : g ≤ q) : g ≤ r := by
  by_contra hlt
  have hclose := h.closest g hg
  rw [abs_of_nonpos (by linarith), abs_of_nonpos (by linarith)] at hclose
  linarith

/-- A represented number is the only result for itself. -/
theorem eq (h : Rounds q r) (hq : Representable q) : r = q :=
  le_antisymm (h.le hq le_rfl) (h.ge hq le_rfl)

theorem nonneg (h : Rounds q r) (hq : 0 ≤ q) : 0 ≤ r :=
  h.ge (by exact_mod_cast representable_intCast (j := 0) (by decide)) hq

theorem le_one (h : Rounds q r) (hq : q ≤ 1) : r ≤ 1 :=
  h.le (by exact_mod_cast representable_intCast (j := 1) (by decide)) hq

/-- **A larger exact result has no smaller result.** Between two results in the wrong
order neither exact one would be closer to its own. -/
theorem mono (h : Rounds q r) (h' : Rounds q' r') (hlt : q < q') : r ≤ r' := by
  by_contra hgt
  have hbelow : r' < q := not_le.1 fun hle => hgt (h.le h'.representable hle)
  have habove : q' < r := not_le.1 fun hle => hgt (h'.ge h.representable hle)
  have hclose := h.closest r' h'.representable
  have hclose' := h'.closest r h.representable
  rw [abs_of_nonneg (by linarith), abs_of_nonpos (by linarith)] at hclose
  rw [abs_of_nonpos (by linarith), abs_of_nonneg (by linarith)] at hclose'
  linarith

theorem neg (h : Rounds q r) : Rounds (-q) (-r) := by
  refine ⟨h.representable.neg, fun g hg => ?_⟩
  have hleft : -r - -q = -(r - q) := by ring
  have hright : g - -q = -(-g - q) := by ring
  rw [hleft, hright, abs_neg, abs_neg]
  exact h.closest (-g) hg.neg

end Rounds

/-! ## Multiples that are half a unit away at most -/

variable {R : ℤ} {t : ℤ}

/-- No other multiple is closer. -/
theorem near_of_multiple {u : ℚ} (hu : 0 < u) (hnear : |R * u - q| ≤ u / 2) (k : ℤ) :
    |R * u - q| ≤ |k * u - q| := by
  rcases eq_or_ne k R with rfl | hne
  · exact le_rfl
  · have hone : (1 : ℚ) ≤ |((k - R : ℤ) : ℚ)| := by
      exact_mod_cast Int.one_le_abs (sub_ne_zero.2 hne)
    have hapart : u ≤ |k * u - R * u| := by
      rw [← sub_mul, abs_mul, abs_of_pos hu, ← Int.cast_sub]
      exact le_mul_of_one_le_left hu.le hone
    have htriangle := abs_sub_le (k * u) q (R * u)
    rw [abs_sub_comm q] at htriangle
    linarith

/-- **A near multiple is a result**, cut off at the end. A number that is no multiple
has a bit below the unit, and then it is below the binade of the exact result. -/
theorem rounds_of_near (ht : -149 ≤ t) (hR : 0 ≤ R) (hR' : R ≤ 2 ^ 24)
    (hnormal : t = -149 ∨ 2 ^ 23 * 2 ^ t ≤ q) (hnear : |R * 2 ^ t - q| ≤ 2 ^ t / 2) :
    Rounds q (min (R * 2 ^ t) (2 ^ 128)) := by
  have hunit : (0 : ℚ) < 2 ^ t := by positivity
  have hvalue : (0 : ℚ) ≤ R * 2 ^ t := mul_nonneg (by exact_mod_cast hR) hunit.le
  have hmultiple := near_of_multiple hunit hnear
  have hclosest : ∀ g, Representable g → |R * 2 ^ t - q| ≤ |g - q| := by
    rintro g ⟨-, j, e, hj, he, rfl⟩
    -- on the grid a multiple competes; below it nothing reaches the start of the binade
    rcases le_or_gt t e with hte | hte
    · obtain ⟨n, rfl⟩ := Int.le.dest hte
      have hk : (j : ℚ) * 2 ^ (t + n) = ((j * 2 ^ n : ℤ) : ℚ) * 2 ^ t := by
        push_cast
        rw [zpow_add₀ two_ne_zero, zpow_natCast]
        ring
      rw [hk]
      exact hmultiple _
    · have hstart : (2 : ℚ) ^ 23 * 2 ^ t ≤ q := hnormal.resolve_left (by omega)
      have hbelow : (j : ℚ) * 2 ^ e ≤ 2 ^ 23 * 2 ^ t := by
        have hj' : (j : ℚ) ≤ 2 ^ 24 := by exact_mod_cast (abs_le.1 hj).2
        calc (j : ℚ) * 2 ^ e ≤ 2 ^ 24 * 2 ^ e := by gcongr
          _ ≤ 2 ^ 24 * 2 ^ (t - 1) := by
            gcongr
            · exact one_le_two
            · omega
          _ = 2 ^ 23 * 2 ^ t := by
            rw [zpow_sub_one₀ two_ne_zero]
            ring
      have hfirst := hmultiple (2 ^ 23)
      rw [Int.cast_pow, Int.cast_ofNat] at hfirst
      rw [abs_of_nonpos (by linarith : (2 : ℚ) ^ 23 * 2 ^ t - q ≤ 0)] at hfirst
      rw [abs_of_nonpos (by linarith : (j : ℚ) * 2 ^ e - q ≤ 0)]
      linarith
  -- past the largest number the end of the range stands for the result
  rcases le_or_gt ((R : ℚ) * 2 ^ t) (2 ^ 128) with hle | hgt
  · rw [min_eq_left hle]
    refine ⟨⟨by rwa [abs_of_nonneg hvalue], R, t, ?_, ht, rfl⟩, hclosest⟩
    rwa [abs_of_nonneg hR]
  · rw [min_eq_right hgt.le]
    refine ⟨by exact_mod_cast representable_zpow (e := 128) (by decide) le_rfl, fun g hg => ?_⟩
    have hg' := (abs_le.1 hg.1).2
    rcases le_or_gt (2 ^ 128) q with hq | hq
    · rw [abs_of_nonpos (by linarith), abs_of_nonpos (by linarith)]
      linarith
    · refine le_trans ?_ (hclosest g hg)
      rw [abs_of_nonneg (by linarith), abs_of_nonneg (by linarith)]
      linarith

end RuleVote
