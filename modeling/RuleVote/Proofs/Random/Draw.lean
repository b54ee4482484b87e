import Mathlib.Algebra.Group.Nat.Defs
import Mathlib.Data.List.Perm.Basic
import RuleVote.Random.Draw
/-!
# Draws

A draw below `n` is below `n`, whatever the words of the stream are and
however often it is repeated (`KeyStream.below_lt`). A list in random order has the
members of the list, each as often as before (`KeyStream.shuffle_perm`), whatever
is drawn.
-/

namespace RuleVote

namespace KeyStream

/-! ## The range of a draw -/

theorem below_lt {bits n : Nat} {draw : KeyStream → Nat × KeyStream} (hn : 0 < n)
    (hdraw : ∀ s, (draw s).1 < 2 ^ bits) :
    ∀ (redraws : Nat) (s : KeyStream), (below bits draw n redraws s).1 < n
  | 0, _ => hn
  | redraws + 1, s => by
    have hv := hdraw s
    rw [below]
    generalize draw s = drawn at hv ⊢
    obtain ⟨v, s'⟩ := drawn
    dsimp only at hv ⊢
    split
    · have hlt : v * n < 2 ^ bits * n := Nat.mul_lt_mul_of_pos_right hv hn
      exact Nat.div_lt_of_lt_mul hlt
    · exact below_lt hn hdraw redraws s'

theorem nextNat64_lt (s : KeyStream) : s.nextNat64.1 < 2 ^ 64 := by
  have hlow := s.nextWord.1.toNat_lt
  have hhigh := s.nextWord.2.nextWord.1.toNat_lt
  have hvalue : s.nextNat64.1 = s.nextWord.1.toNat + 2 ^ 32 * s.nextWord.2.nextWord.1.toNat := rfl
  omega

/-- **A class that is drawn is one of the classes.** -/
theorem choice_lt {n : Nat} (hn : 0 < n) (s : KeyStream) : (s.choice n).1 < n :=
  below_lt hn nextNat64_lt maxRedraws s

theorem length_several {α : Type} (draw : KeyStream → α × KeyStream) :
    ∀ (n : Nat) (s : KeyStream), (several draw n s).1.length = n
  | 0, _ => rfl
  | n + 1, s => congrArg (· + 1) (length_several draw n (draw s).2)

/-! ## Shuffles -/

variable {α : Type}

theorem swapIfInBounds_perm (xs : Array α) (i j : Nat) : (xs.swapIfInBounds i j).Perm xs := by
  rw [Array.swapIfInBounds_def]
  split_ifs
  · exact Array.swap_perm _ _
  · exact .refl xs
  · exact .refl xs

theorem shuffleFrom_perm : ∀ (i : Nat) (xs : Array α) (s : KeyStream),
    (shuffleFrom i xs s).1.Perm xs
  | 0, xs, _ => .refl xs
  | i + 1, xs, _ => (shuffleFrom_perm i _ _).trans (swapIfInBounds_perm xs _ _)

/-- **A shuffled list has the members of the list.** -/
theorem shuffle_perm (s : KeyStream) (xs : List α) : (s.shuffle xs).1.Perm xs :=
  (shuffleFrom_perm _ xs.toArray s).toList

end KeyStream

end RuleVote
