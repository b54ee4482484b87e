import Mathlib.Tactic.LinearCombination
import Mathlib.Tactic.MkIffOfInductiveProp
import RuleVote.Proofs.Number.Stepwise
/-!
# Decimals close to a midpoint

A midpoint of two single precision numbers is an odd multiple of a power of two,
with a factor below `2 ^ 25`. A decimal that comes closer to it than double
precision can tell gives a fraction of small terms that is very close to a fixed
ratio, and the fractions close to a ratio are known: nothing with a small
denominator lies between two fractions that bracket it (`Bracket.le_or_ge`). For
each power of two such a bracket is found by Euclid's algorithm and checked. Left
are decimals that are midpoints themselves, and a few that are read as they should
(`survives_of_close`).
-/

namespace RuleVote

open BinaryFormat

/-! ## Brackets -/

/-- Two fractions. -/
structure Bracket where
  /-- The numerator of the lower one. -/
  a : Nat
  /-- Its denominator. -/
  b : Nat
  /-- The numerator of the upper one. -/
  c : Nat
  /-- Its denominator. -/
  d : Nat
deriving DecidableEq, Repr

namespace Bracket

/-- The fractions move towards the ratio in turn, each by as many mediants as stay
on its side of the ratio and are needed for denominators that add up to `bound`. -/
def refine (bound num den : Nat) : Nat → Bracket → Bracket
  | 0, x => x
  | fuel + 1, ⟨a, b, c, d⟩ =>
    let rise := if c * den = num * d then (bound - b - 1) / d
      else min ((num * b - a * den) / (c * den - num * d)) ((bound - b - 1) / d)
    let a := a + rise * c
    let b := b + rise * d
    let fall := if a * den = num * b then (bound - d - 1) / b
      else min ((c * den - num * d) / (num * b - a * den)) ((bound - d - 1) / b)
    refine bound num den fuel ⟨a, b, c + fall * a, d + fall * b⟩

/-- Two fractions with a ratio between them. -/
def around (bound num den : Nat) : Bracket :=
  refine bound num den 40 ⟨num / den, 1, num / den + 1, 1⟩

/-- The fractions are on either side of the ratio and are neighbours among those
whose denominators are below `bound`. -/
@[mk_iff]
structure Encloses (x : Bracket) (bound num den : Nat) : Prop where
  lower : x.a * den ≤ num * x.b
  upper : num * x.d ≤ x.c * den
  neighbours : x.c * x.b = x.a * x.d + 1
  wide : bound ≤ x.b + x.d

instance (x : Bracket) (bound num den : Nat) : Decidable (x.Encloses bound num den) :=
  decidable_of_iff' _ (encloses_iff x bound num den)

variable {x : Bracket} {m n : Nat}

/-- **Between neighbours there is no fraction with a small denominator.** -/
theorem le_or_ge (hneighbours : x.c * x.b = x.a * x.d + 1) (hn : n < x.b + x.d) :
    m * x.b ≤ x.a * n ∨ x.c * n ≤ m * x.d := by
  by_contra hbetween
  obtain ⟨hlow, hhigh⟩ := not_or.1 hbetween
  obtain ⟨p, hp⟩ := Nat.exists_eq_add_of_lt (not_le.1 hlow)
  obtain ⟨q, hq⟩ := Nat.exists_eq_add_of_lt (not_le.1 hhigh)
  -- the denominator is a combination of those of the neighbours
  have hcombination : n = x.b * (q + 1) + x.d * (p + 1) := by
    zify at *
    linear_combination x.b * hq + x.d * hp - n * hneighbours
  have hb : x.b ≤ x.b * (q + 1) := Nat.le_mul_of_pos_right _ q.succ_pos
  have hd : x.d ≤ x.d * (p + 1) := Nat.le_mul_of_pos_right _ p.succ_pos
  omega

theorem coprime_of_neighbours (h : x.c * x.b = x.a * x.d + 1) :
    x.a.Coprime x.b ∧ x.c.Coprime x.d := by
  have hone : ∀ k, k ∣ x.c * x.b → k ∣ x.a * x.d → k = 1 := fun k h₁ h₂ =>
    Nat.dvd_one.1 ((Nat.dvd_add_right h₂).1 (h ▸ h₁))
  exact ⟨hone _ ((Nat.gcd_dvd_right _ _).mul_left _) ((Nat.gcd_dvd_left _ _).mul_right _),
    hone _ ((Nat.gcd_dvd_left _ _).mul_right _) ((Nat.gcd_dvd_right _ _).mul_left _)⟩

/-- The steps of a fraction with denominator `k` are wider than what a number below
`bound` may be off. -/
theorem lt_one_of_close {bound k n precision : Nat} {r : ℚ} (hprecision : 0 < precision)
    (hn : n < bound) (hsteps : bound * (r * k) ≤ precision) : k * (n * r / precision) < 1 := by
  have hprecision' : (0 : ℚ) < precision := Nat.cast_pos.2 hprecision
  have hbound : (0 : ℚ) < bound := Nat.cast_pos.2 (Nat.zero_lt_of_lt hn)
  have hn' : (n : ℚ) < bound := Nat.cast_lt.2 hn
  have hshare : r * k / precision ≤ 1 / bound := by
    rw [div_le_div_iff₀ hprecision' hbound, one_mul, mul_comm]
    exact hsteps
  calc (k : ℚ) * (n * r / precision) = n * (r * k / precision) := by ring
    _ ≤ n * (1 / bound) := by gcongr
    _ < 1 := by rwa [mul_one_div, div_lt_one hbound]

/-- **A fraction that is very close to the ratio is one of the neighbours**, if its
denominator is below the bound. -/
theorem eq_of_close {bound num den precision : Nat} (h : x.Encloses bound num den)
    (hden : 0 < den) (hprecision : 0 < precision)
    (hlower : bound * (num * x.b) ≤ precision * den)
    (hupper : bound * (num * x.d) ≤ precision * den) (hn : n < bound)
    (hclose : |(m : ℚ) - n * (num / den)| ≤ n * (num / den) / precision) :
    m * x.b = x.a * n ∨ x.c * n = m * x.d := by
  have hden' : (0 : ℚ) < den := Nat.cast_pos.2 hden
  have hratio : (num : ℚ) = num / den * den := (div_mul_cancel₀ _ hden'.ne').symm
  have hscale : ∀ k : Nat, bound * (num * k) ≤ precision * den →
      (bound : ℚ) * (num / den * k) ≤ precision := by
    intro k hk
    have hk' : (bound : ℚ) * (num * k) ≤ precision * den := by exact_mod_cast hk
    rw [hratio] at hk'
    exact le_of_mul_le_mul_right (by linarith) hden'
  have hbelow : (x.a : ℚ) ≤ num / den * x.b := by
    have : (x.a : ℚ) * den ≤ num * x.b := by exact_mod_cast h.lower
    rw [hratio] at this
    exact le_of_mul_le_mul_right (by linarith) hden'
  have habove : (num : ℚ) / den * x.d ≤ x.c := by
    have : (num : ℚ) * x.d ≤ x.c * den := by exact_mod_cast h.upper
    rw [hratio] at this
    exact le_of_mul_le_mul_right (by linarith) hden'
  have hlow := lt_one_of_close hprecision hn (hscale x.b hlower)
  have hhigh := lt_one_of_close hprecision hn (hscale x.d hupper)
  generalize (num : ℚ) / den = r at *
  obtain ⟨hclose₁, hclose₂⟩ := abs_le.1 hclose
  have hn₀ : (0 : ℚ) ≤ n := Nat.cast_nonneg n
  -- a whole number on either side that misses the bracket is off by more than the distance
  rcases le_or_ge h.neighbours (hn.trans_le h.wide) (m := m) with hle | hge
  · left
    by_contra hne
    have hstep : (m : ℚ) * x.b + 1 ≤ x.a * n := by exact_mod_cast lt_of_le_of_ne hle hne
    have hside := mul_le_mul_of_nonneg_right hbelow hn₀
    have hoff : (x.b : ℚ) * (n * r - m) ≤ x.b * (n * r / precision) :=
      mul_le_mul_of_nonneg_left (by linarith) (Nat.cast_nonneg _)
    linarith
  · right
    by_contra hne
    have hstep : (x.c : ℚ) * n + 1 ≤ m * x.d := by exact_mod_cast lt_of_le_of_ne hge hne
    have hside := mul_le_mul_of_nonneg_right habove hn₀
    have hoff : (x.d : ℚ) * (m - n * r) ≤ x.d * (n * r / precision) :=
      mul_le_mul_of_nonneg_left (by linarith) (Nat.cast_nonneg _)
    linarith

end Bracket

/-! ## The ratio of a power of two to a power of ten -/

/-- The exponent of the first power of ten that is not well below `2 ^ j`. -/
def gridUnit (j : ℤ) : ℤ := -(-j * 1233 / 4096)

/-- The numerator of the ratio of `2 ^ j` to this power of ten. -/
def ratioNum (j : ℤ) : Nat := Nat.pow 2 j.toNat * Nat.pow 10 (-gridUnit j).toNat

/-- Its denominator. -/
def ratioDen (j : ℤ) : Nat := Nat.pow 2 (-j).toNat * Nat.pow 10 (gridUnit j).toNat

theorem ratioDen_pos (j : ℤ) : 0 < ratioDen j :=
  Nat.mul_pos (Nat.pow_pos (by decide)) (Nat.pow_pos (by decide))

/-- A power with an integer exponent as a quotient of powers. -/
theorem zpow_eq_div {b : ℚ} (hb : b ≠ 0) (e : ℤ) : b ^ e = b ^ e.toNat / b ^ (-e).toNat := by
  rw [← zpow_natCast, ← zpow_natCast, ← zpow_sub₀ hb]
  congr 1
  omega

theorem ratio_eq (j : ℤ) : (ratioNum j : ℚ) / ratioDen j = 2 ^ j / 10 ^ gridUnit j := by
  rw [zpow_eq_div two_ne_zero j, zpow_eq_div (by norm_num : (10 : ℚ) ≠ 0) (gridUnit j),
    div_div_div_eq, ratioNum, ratioDen]
  push_cast [Nat.pow_eq]
  rfl

/-- Reading step by step and rounding to single precision then comes out like
rounding at once. -/
def Decimal.Survives (d : Decimal) : Prop :=
  single.roundQuotient (double.quotient d.stepwise).1 (double.quotient d.stepwise).2 =
    d.roundTo .single

instance (d : Decimal) : Decidable d.Survives := inferInstanceAs (Decidable (_ = _))

/-- A fraction that does no harm: it is the ratio, or not as close to it as double
precision can tell, or its denominator is even, or it stands for one decimal only,
and this survives. -/
def Harmless (num den : Nat) (unit : ℤ) (p q : Nat) : Prop :=
  p * den = num * q ∨ num * q < 2 ^ 51 * ((p * den : ℤ) - num * q).natAbs ∨ q % 2 = 0 ∨
    2 ^ 25 ≤ 3 * q ∧ p % 10 ≠ 0 ∧ Decimal.Survives ⟨p, unit⟩

instance (num den : Nat) (unit : ℤ) (p q : Nat) : Decidable (Harmless num den unit p q) :=
  inferInstanceAs (Decidable (_ ∨ _ ∨ _ ∨ _))

/-- The fractions close to the ratio of `2 ^ j` are known and do no harm. -/
@[mk_iff]
structure Settled (j : ℤ) (x : Bracket) : Prop where
  encloses : x.Encloses (2 ^ 25) (ratioNum j) (ratioDen j)
  lower : 2 ^ 25 * (ratioNum j * x.b) ≤ 2 ^ 51 * ratioDen j
  upper : 2 ^ 25 * (ratioNum j * x.d) ≤ 2 ^ 51 * ratioDen j
  harmless : Harmless (ratioNum j) (ratioDen j) (gridUnit j) x.a x.b
  harmless' : Harmless (ratioNum j) (ratioDen j) (gridUnit j) x.c x.d
  unit : 2 ^ 24 * ratioDen j < 10 * ratioNum j * (2 ^ 24 - 1)

instance (j : ℤ) (x : Bracket) : Decidable (Settled j x) :=
  decidable_of_iff' _ (settled_iff j x)

/-- **All powers of two that midpoints are multiples of are settled.** -/
theorem settled {j : ℤ} (hlow : -150 ≤ j) (hhigh : j ≤ 103) :
    Settled j (.around (2 ^ 25) (ratioNum j) (ratioDen j)) := by
  have hall : ∀ i < 254, Settled ((i : Nat) - 150)
      (.around (2 ^ 25) (ratioNum ((i : Nat) - 150)) (ratioDen ((i : Nat) - 150))) := by
    decide +kernel
  have hj : (((j + 150).toNat : Nat) : ℤ) - 150 = j := by omega
  exact hj ▸ hall (j + 150).toNat (by omega)

/-- A multiple of a harmless fraction that comes close to the ratio is the ratio or
survives. -/
theorem Harmless.resolve {num den p q m n : Nat} {unit : ℤ} (h : Harmless num den unit p q)
    (hden : 0 < den) (hcoprime : p.Coprime q) (heq : m * q = p * n) (hn : n < 2 ^ 25)
    (hodd : n % 2 = 1) (hclose : |(m : ℚ) - n * (num / den)| ≤ n * (num / den) / 2 ^ 51) :
    (m : ℚ) = n * (num / den) ∨ m % 10 ≠ 0 ∧ Decimal.Survives ⟨m, unit⟩ := by
  have hden' : (0 : ℚ) < den := Nat.cast_pos.2 hden
  obtain ⟨i, rfl⟩ : q ∣ n := hcoprime.symm.dvd_of_dvd_mul_left ⟨m, by rw [← heq, Nat.mul_comm]⟩
  obtain ⟨hi, hq⟩ : i % 2 = 1 ∧ q % 2 = 1 := by
    rw [Nat.mul_mod] at hodd
    rcases Nat.mod_two_eq_zero_or_one i with h₁ | h₁ <;>
      rcases Nat.mod_two_eq_zero_or_one q with h₂ | h₂ <;> simp [h₁, h₂] at hodd ⊢
  obtain rfl : m = p * i := by
    refine Nat.eq_of_mul_eq_mul_right (by omega : 0 < q) ?_
    rw [heq]
    ring
  have hi₀ : (0 : ℚ) < i := Nat.cast_pos.2 (by omega)
  rcases h with hexact | hfar | heven | ⟨honly, hten, hsurvives⟩
  · left
    have hexact' : (p : ℚ) * den = num * q := by exact_mod_cast hexact
    push_cast
    field_simp
    linarith
  · -- the fraction is not as close to the ratio as its multiple is
    exfalso
    have hfactor : ((p * i : Nat) : ℚ) - (q * i : Nat) * (num / den) =
        (p * den - num * q) * (i / den) := by
      push_cast
      field_simp
    have hlarge : ((q * i : Nat) : ℚ) * (num / den) / 2 ^ 51 = num * q / 2 ^ 51 * (i / den) := by
      push_cast
      field_simp
    rw [hfactor, hlarge, abs_mul, abs_of_pos (div_pos hi₀ hden')] at hclose
    have hsmall := le_of_mul_le_mul_right hclose (div_pos hi₀ hden')
    have hcast := (Nat.cast_lt (α := ℚ)).2 hfar
    push_cast [Nat.cast_natAbs] at hcast
    rw [le_div_iff₀ (by positivity)] at hsmall
    linarith
  · omega
  · right
    obtain rfl : i = 1 := by
      have hlt : i < 3 := by
        by_contra hge
        have := Nat.mul_le_mul_left q (not_lt.1 hge)
        omega
      omega
    rw [Nat.mul_one]
    exact ⟨hten, hsurvives⟩

/-! ## Decimals close to a midpoint -/

/-- **A decimal that double precision cannot tell from a midpoint** is the midpoint,
or it survives. -/
theorem survives_of_close {j : ℤ} (hlow : -150 ≤ j) (hhigh : j ≤ 103) {m n : Nat}
    (hn : n < 2 ^ 25) (hodd : n % 2 = 1)
    (hclose : |(m : ℚ) * 10 ^ gridUnit j - n * 2 ^ j| ≤ n * 2 ^ j / 2 ^ 51) :
    (m : ℚ) * 10 ^ gridUnit j = n * 2 ^ j ∨ m % 10 ≠ 0 ∧ Decimal.Survives ⟨m, gridUnit j⟩ := by
  have hten : (0 : ℚ) < 10 ^ gridUnit j := by positivity
  have hscaled : |(m : ℚ) - n * (ratioNum j / ratioDen j)| ≤
      n * (ratioNum j / ratioDen j) / 2 ^ 51 := by
    have hfactor : (m : ℚ) * 10 ^ gridUnit j - n * 2 ^ j =
        (m - n * (2 ^ j / 10 ^ gridUnit j)) * 10 ^ gridUnit j := by
      field_simp
    have hlarge : (n : ℚ) * 2 ^ j / 2 ^ 51 =
        n * (2 ^ j / 10 ^ gridUnit j) / 2 ^ 51 * 10 ^ gridUnit j := by
      field_simp
    rw [hfactor, hlarge, abs_mul, abs_of_pos hten] at hclose
    rw [ratio_eq]
    exact le_of_mul_le_mul_right hclose hten
  have hj := settled hlow hhigh
  generalize Bracket.around (2 ^ 25) (ratioNum j) (ratioDen j) = x at hj
  have hcoprime := Bracket.coprime_of_neighbours hj.encloses.neighbours
  have hone : (m : ℚ) = n * (ratioNum j / ratioDen j) ∨
      m % 10 ≠ 0 ∧ Decimal.Survives ⟨m, gridUnit j⟩ := by
    rcases Bracket.eq_of_close hj.encloses (ratioDen_pos j) (by decide) hj.lower hj.upper hn
      (by exact_mod_cast hscaled) with heq | heq
    · exact hj.harmless.resolve (ratioDen_pos j) hcoprime.1 heq hn hodd hscaled
    · exact hj.harmless'.resolve (ratioDen_pos j) hcoprime.2 heq.symm hn hodd hscaled
  refine hone.imp_left fun heq => ?_
  rw [heq, ratio_eq, mul_assoc, div_mul_cancel₀ _ hten.ne']

/-- A grid that is not finer than half a unit in the last place, but for a little,
is one of multiples of the grid unit. -/
theorem gridUnit_le {j u : ℤ} (hlow : -150 ≤ j) (hhigh : j ≤ 103)
    (h : (2 : ℚ) ^ j - 2 ^ j / 2 ^ 24 ≤ 10 ^ u) : gridUnit j ≤ u := by
  have hten : (0 : ℚ) < 10 ^ gridUnit j := by positivity
  have hden : (0 : ℚ) < ratioDen j := Nat.cast_pos.2 (ratioDen_pos j)
  have hunit := (Nat.cast_lt (α := ℚ)).2 (settled hlow hhigh).unit
  have hratio : (ratioNum j : ℚ) = 2 ^ j / 10 ^ gridUnit j * ratioDen j := by
    rw [← ratio_eq, div_mul_cancel₀ _ hden.ne']
  push_cast at hunit
  rw [hratio] at hunit
  have hbelow : (10 : ℚ) ^ (gridUnit j - 1) < 2 ^ j - 2 ^ j / 2 ^ 24 := by
    have hscaled : (2 : ℚ) ^ 24 < 10 * (2 ^ j / 10 ^ gridUnit j) * (2 ^ 24 - 1) :=
      lt_of_mul_lt_mul_right (by linarith) hden.le
    have hmul := mul_lt_mul_of_pos_right hscaled hten
    have hcancel : 10 * ((2 : ℚ) ^ j / 10 ^ gridUnit j) * (2 ^ 24 - 1) * 10 ^ gridUnit j =
        10 * 2 ^ j * (2 ^ 24 - 1) := by
      field_simp
    rw [hcancel] at hmul
    rw [zpow_sub_one₀ (by norm_num)]
    linarith
  by_contra hlt
  have hle : (10 : ℚ) ^ u ≤ 10 ^ (gridUnit j - 1) :=
    zpow_le_zpow_right₀ (by norm_num) (by omega)
  linarith

end RuleVote
