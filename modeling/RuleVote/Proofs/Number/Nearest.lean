import Mathlib.Algebra.Order.Field.Power
import Mathlib.Data.Int.Log
import Mathlib.Data.Rat.Floor
import Mathlib.Tactic.Linarith
import Mathlib.Tactic.Positivity
import Mathlib.Tactic.Ring
/-!
# The nearest number of 24 bits

The result of a single precision operation is a multiple of the unit in the
last place of the exact result and at most half a unit away from it
(`Nearest`). Whatever becomes of a tie, a nearest number never passes a number
that 24 bits write exactly (`Nearest.le`, `Nearest.ge`), so it is one where
the exact result is (`Nearest.eq`), and a larger number has no smaller one
nearest to it (`Nearest.mono`). Inside a binade even a distance of whole units
is kept (`Nearest.add_le`).
-/

namespace RuleVote

/-- The unit in the last of the 24 bits of a positive number. -/
def lastPlace (q : ℚ) : ℚ := 2 ^ (Int.log 2 q - 23)

/-- `r` is a nearest number of 24 bits to `q`. -/
structure Nearest (q r : ℚ) : Prop where
  grid : ∃ k : ℤ, r = k * lastPlace q
  near : |r - q| ≤ lastPlace q / 2

/-- 24 bits write the number. -/
def Significant (g : ℚ) : Prop := ∃ (m : ℕ) (e : ℤ), m ≤ 2 ^ 24 ∧ g = m * 2 ^ e

variable {q q' r r' g : ℚ}

/-! ## The unit in the last place -/

theorem lastPlace_pos (q : ℚ) : 0 < lastPlace q := by
  rw [lastPlace]
  positivity

theorem zpow_log (q : ℚ) : (2 : ℚ) ^ Int.log 2 q = 2 ^ 23 * lastPlace q := by
  rw [lastPlace, zpow_sub₀ two_ne_zero, zpow_ofNat]
  ring

theorem lower_of_pos (hq : 0 < q) : 2 ^ 23 * lastPlace q ≤ q := by
  rw [← zpow_log]
  exact_mod_cast Int.zpow_log_le_self (b := 2) (by decide) hq

theorem upper_of_pos (q : ℚ) : q < 2 ^ 24 * lastPlace q := by
  have h := Int.lt_zpow_succ_log_self (b := 2) (by decide) q
  rw [Nat.cast_ofNat, zpow_add₀ two_ne_zero, zpow_one, zpow_log] at h
  linarith

theorem lastPlace_le {e : ℤ} (hq : 0 < q) (h : q < 2 ^ e) : lastPlace q ≤ 2 ^ (e - 24) := by
  have hlog : Int.log 2 q < e := by
    rw [← Int.lt_zpow_iff_log_lt (by decide) hq]
    exact_mod_cast h
  exact zpow_le_zpow_right₀ one_le_two (by omega)

/-! ## A whole number of units, half a unit away at most -/

/-- It is no more than a whole number above. -/
theorem le_of_near {k n : ℕ} {x : ℚ} (hnear : |(k : ℚ) - x| ≤ 1 / 2) (h : x < n) : k ≤ n := by
  have hlt : (k : ℚ) < (n + 1 : ℕ) := by
    push_cast
    linarith [(abs_le.1 hnear).2]
  exact Nat.lt_succ_iff.1 (by exact_mod_cast hlt)

/-- It is no less than a whole number below. -/
theorem ge_of_near {k n : ℕ} {x : ℚ} (hnear : |(k : ℚ) - x| ≤ 1 / 2) (h : n ≤ x) : n ≤ k := by
  have hlt : (n : ℚ) < (k + 1 : ℕ) := by
    push_cast
    linarith [(abs_le.1 hnear).1]
  exact Nat.lt_succ_iff.1 (by exact_mod_cast hlt)

/-- The distance in units is that of the numbers. -/
theorem abs_mul_sub_le {a unit : ℚ} (hunit : 0 < unit) (hnear : |a - q / unit| ≤ 1 / 2) :
    |a * unit - q| ≤ unit / 2 := by
  have hfactor : a * unit - q = (a - q / unit) * unit := by
    rw [sub_mul, div_mul_cancel₀ _ hunit.ne']
  rw [hfactor, abs_mul, abs_of_pos hunit]
  calc |a - q / unit| * unit ≤ 1 / 2 * unit := by gcongr
    _ = unit / 2 := by ring

/-! ## Numbers of 24 bits and multiples of the unit -/

/-- A power of two with a coefficient is a multiple of a smaller power. -/
theorem exists_multiple {e t : ℤ} (h : t ≤ e) (m : ℕ) :
    ∃ k : ℤ, (m : ℚ) * 2 ^ e = k * 2 ^ t := by
  obtain ⟨n, rfl⟩ := Int.le.dest h
  refine ⟨m * 2 ^ n, ?_⟩
  push_cast
  rw [zpow_add₀ two_ne_zero, zpow_natCast]
  ring

/-- Where a number of 24 bits has no bit below the unit it is a multiple of
the unit; otherwise the binade starts above it. -/
theorem Significant.multiple_or_le (hg : Significant g) (q : ℚ) :
    (∃ k : ℤ, g = k * lastPlace q) ∨ g ≤ 2 ^ 23 * lastPlace q := by
  obtain ⟨m, e, hm, rfl⟩ := hg
  rcases le_or_gt (Int.log 2 q - 23) e with he | he
  · exact .inl (exists_multiple he m)
  · right
    calc (m : ℚ) * 2 ^ e ≤ 2 ^ 24 * 2 ^ (Int.log 2 q - 23 - 1) := by
          gcongr
          · exact_mod_cast hm
          · exact one_le_two
          · omega
      _ = 2 ^ 23 * lastPlace q := by
          rw [lastPlace, zpow_sub_one₀ two_ne_zero]
          ring

theorem significant_zpow (e : ℤ) : Significant (2 ^ e) := ⟨1, e, by decide, by simp⟩

theorem significant_natCast {n : ℕ} (h : n ≤ 2 ^ 24) : Significant n := ⟨n, 0, h, by simp⟩

namespace Nearest

theorem le_of_multiple (h : Nearest q r) {k : ℤ} (hk : q ≤ k * lastPlace q) :
    r ≤ k * lastPlace q := by
  have hu := lastPlace_pos q
  obtain ⟨j, hj⟩ := h.grid
  have hnear := (abs_le.1 h.near).2
  rw [hj] at hnear ⊢
  by_contra hlt
  have hstep : ((k + 1 : ℤ) : ℚ) * lastPlace q ≤ j * lastPlace q := by
    gcongr
    exact_mod_cast lt_of_mul_lt_mul_right (not_le.1 hlt) hu.le
  push_cast at hstep
  linarith

theorem ge_of_multiple (h : Nearest q r) {k : ℤ} (hk : k * lastPlace q ≤ q) :
    k * lastPlace q ≤ r := by
  have hu := lastPlace_pos q
  obtain ⟨j, hj⟩ := h.grid
  have hnear := (abs_le.1 h.near).1
  rw [hj] at hnear ⊢
  by_contra hlt
  have hstep : ((j + 1 : ℤ) : ℚ) * lastPlace q ≤ k * lastPlace q := by
    gcongr
    exact_mod_cast lt_of_mul_lt_mul_right (not_le.1 hlt) hu.le
  push_cast at hstep
  linarith

/-- **A nearest number does not pass a number of 24 bits above.** -/
theorem le (h : Nearest q r) (hq : 0 < q) (hg : Significant g) (hle : q ≤ g) : r ≤ g := by
  rcases hg.multiple_or_le q with ⟨k, rfl⟩ | hlow
  · exact h.le_of_multiple hle
  · -- the number is the start of the binade, and `g` with it
    have hstart := lower_of_pos hq
    have hmultiple := h.le_of_multiple (k := 2 ^ 23) (by push_cast; linarith)
    push_cast at hmultiple
    linarith

/-- **Nor one below.** -/
theorem ge (h : Nearest q r) (hq : 0 < q) (hg : Significant g) (hle : g ≤ q) : g ≤ r := by
  rcases hg.multiple_or_le q with ⟨k, rfl⟩ | hlow
  · exact h.ge_of_multiple hle
  · have hmultiple := h.ge_of_multiple (k := 2 ^ 23) (by exact_mod_cast lower_of_pos hq)
    push_cast at hmultiple
    linarith

/-- A number of 24 bits is the only one nearest to itself. -/
theorem eq (h : Nearest q r) (hq : 0 < q) (hg : Significant q) : r = q :=
  le_antisymm (h.le hq hg le_rfl) (h.ge hq hg le_rfl)

theorem pos (h : Nearest q r) (hq : 0 < q) : 0 < r :=
  lt_of_lt_of_le (by positivity) (h.ge hq (significant_zpow (Int.log 2 q))
    (by exact_mod_cast Int.zpow_log_le_self (b := 2) (by decide) hq))

/-- **A distance of whole units is kept inside a binade.** -/
theorem add_le (h : Nearest q r) (h' : Nearest q' r') (hplace : lastPlace q = lastPlace q')
    {k : ℤ} (hlt : q + k * lastPlace q < q') : r + k * lastPlace q ≤ r' := by
  have hu := lastPlace_pos q
  obtain ⟨i, hi⟩ := h.grid
  obtain ⟨j, hj⟩ := h'.grid
  have hnear := (abs_le.1 h.near).2
  have hnear' := (abs_le.1 h'.near).1
  rw [← hplace] at hj hnear'
  have hsum : ((i + k - 1 : ℤ) : ℚ) * lastPlace q < j * lastPlace q := by
    push_cast
    linarith
  have hindex := lt_of_mul_lt_mul_right hsum hu.le
  have hle : ((i + k : ℤ) : ℚ) ≤ j := by
    exact_mod_cast Int.sub_one_lt_iff.1 (by exact_mod_cast hindex)
  have hmul := mul_le_mul_of_nonneg_right hle hu.le
  push_cast at hmul
  linarith

/-- **A larger number has no smaller nearest number.** -/
theorem mono (h : Nearest q r) (h' : Nearest q' r') (hq : 0 < q) (hlt : q < q') : r ≤ r' := by
  rcases (Int.log_mono_right (b := 2) hq hlt.le).eq_or_lt with hlog | hlog
  · have := h.add_le h' (k := 0) (by rw [lastPlace, lastPlace, hlog]) (by simpa using hlt)
    simpa using this
  · -- a power of two lies between the two
    have hq' := hq.trans hlt
    have hbelow : q ≤ 2 ^ Int.log 2 q' := by
      have := (Int.lt_zpow_iff_log_lt (b := 2) (by decide) hq).2 hlog
      exact_mod_cast this.le
    have habove : (2 : ℚ) ^ Int.log 2 q' ≤ q' := by
      exact_mod_cast Int.zpow_log_le_self (b := 2) (by decide) hq'
    exact (h.le hq (significant_zpow _) hbelow).trans (h'.ge hq' (significant_zpow _) habove)

end Nearest

end RuleVote
