import Mathlib.Tactic.SplitIfs
import RuleVote.Text.Case
/-!
# Upper case forms

No letter from `a` to `z` is left in an upper case form, whatever the
characters were (`isLower_of_mem_upperCase`): the tables move no code point
onto one of them.
-/

namespace RuleVote

/-- The code points of the letters from `a` to `z`. -/
def LowerPoint (n : Int) : Prop := 97 ≤ n ∧ n ≤ 122

instance (n : Int) : Decidable (LowerPoint n) := inferInstanceAs (Decidable (_ ∧ _))

theorem isLower_iff {c : Char} : c.isLower = true ↔ LowerPoint c.toNat := by
  change (decide (97 ≤ c.toNat) && decide (c.toNat ≤ 122)) = true ↔ _
  rw [Bool.and_eq_true, decide_eq_true_iff, decide_eq_true_iff, LowerPoint]
  omega

/-- No run moves a code point beyond the first 128 onto one of these letters. -/
theorem not_lowerPoint_of_run {r : CaseRun} (hr : r ∈ upperRuns) {n : Nat} (hn : 128 ≤ n)
    (h : r.contains n = true) : ¬LowerPoint (n + r.shift) := by
  have htable : ∀ r ∈ upperRuns, r.first + r.count * r.step ≤ 128 ∨
      (122 : Int) < r.first + r.shift ∨ r.first + r.count * r.step + r.shift ≤ (97 : Int) := by
    decide +kernel
  simp only [CaseRun.contains, Bool.and_eq_true, decide_eq_true_eq] at h
  obtain ⟨⟨hfirst, hlast⟩, -⟩ := h
  rintro ⟨hlow, hhigh⟩
  rcases htable r hr with hascii | habove | hbelow
  · omega
  · omega
  · omega

/-- A number that is no code point stands for the character zero. -/
theorem isLower_ofNat {n : Nat} (h : ¬LowerPoint n) : (Char.ofNat n).isLower = false := by
  rw [Bool.eq_false_iff, ne_eq, isLower_iff, Char.ofNat]
  by_cases hvalid : n.isValidChar
  · rw [dif_pos hvalid]
    exact h
  · rw [dif_neg hvalid]
    decide

/-- **No upper case form has a letter from `a` to `z`.** -/
theorem isLower_of_mem_upperCase {c d : Char} (h : d ∈ upperCase c) : d.isLower = false := by
  rw [upperCase] at h
  split_ifs at h with hascii
  · rw [List.mem_singleton.1 h, ← Char.ofNat_toNat c]
    have hall : ∀ n < 128, (Char.ofNat n).toUpper.isLower = false := by decide +kernel
    exact hall c.toNat hascii
  rw [changeCase] at h
  split at h
  · next cs hcs =>
    obtain ⟨n, hn, rfl⟩ := List.mem_map.1 h
    obtain ⟨before, after, htable, -⟩ := List.lookup_eq_some_iff.1 hcs
    have hmem : (c.toNat, cs) ∈ upperExpansions := htable ▸ by simp
    have hall : ∀ e ∈ upperExpansions, ∀ n ∈ e.2, ¬LowerPoint (n : Nat) := by decide +kernel
    exact isLower_ofNat (hall _ hmem n hn)
  split at h
  · next r hr =>
    have hcontains : r.contains c.toNat = true := by simpa using List.find?_some hr
    have hpoint :=
      not_lowerPoint_of_run (List.mem_of_find?_eq_some hr) (Nat.not_lt.1 hascii) hcontains
    rw [List.mem_singleton.1 h]
    refine isLower_ofNat fun hlower => hpoint ?_
    rw [LowerPoint] at hlower ⊢
    omega
  · rw [List.mem_singleton.1 h, Bool.eq_false_iff, ne_eq, isLower_iff, LowerPoint]
    omega

end RuleVote
