import Mathlib.Algebra.BigOperators.Ring.Finset
import Mathlib.Algebra.Field.Rat
import RuleVote.Proofs.Matrix.Shape
import RuleVote.Proofs.Score.Evaluation
import RuleVote.Proofs.Text.Sorted
/-!
# Counts of classes

The four counts of a class are taken in one pass over the pairs of labels
(`Metric.countsAt_countPair`). After it every class that occurs has its counts, and
these add up to its occurrences (`Metric.Tallied`). So the pooled metrics are
the accuracy, the weighted sensitivity is the accuracy as well where the arithmetic
is exact, and the matrix that counts the same pairs has the counts of the classes
as its diagonal and as the sums of its rows and columns
(`Metric.classCounts_identities`).
-/

namespace RuleVote

namespace Metric

variable {truth predicted : List Int} {pairs : List (Int × Int)}
  {counts : List (Int × ClassCounts)} {c t p : Int}

/-- The counts of a class, zero for one that does not occur. -/
def countsAt (counts : List (Int × ClassCounts)) (c : Int) : ClassCounts :=
  (counts.lookup c).getD .zero

/-! ## One pair -/

/-- Counting for a label changes the counts of this label only. -/
theorem countsAt_countOne (h : SortedMap.Ascending counts) (f : ClassCounts → ClassCounts) :
    countsAt (countOne t f counts) c =
      if c = t then f (countsAt counts c) else countsAt counts c := by
  rw [countsAt, countOne, h.lookup_upsert]
  split_ifs with hc
  · rw [hc]
    rfl
  · rfl

/-- Labels that agree are a hit of their class. -/
theorem countPair_self : countPair counts (t, t) =
    countOne t .hit (countOne t .supported counts) := if_pos rfl

/-- Other labels are missed and a false alarm. -/
theorem countPair_of_ne (hne : t ≠ p) : countPair counts (t, p) =
    countOne t .missed (countOne p .alarmed (countOne t .supported counts)) := if_neg hne

/-- Counting a pair keeps the labels in order, so that each is there once. -/
theorem ascending_countPair (h : SortedMap.Ascending counts) (t p : Int) :
    SortedMap.Ascending (countPair counts (t, p)) := by
  have hsupported : SortedMap.Ascending (countOne t .supported counts) := h.upsert t _
  rcases eq_or_ne t p with rfl | hne
  · exact countPair_self ▸ hsupported.upsert t _
  · exact countPair_of_ne hne ▸ (hsupported.upsert p _).upsert t _

/-- The labels of a pair that is counted join those counted before. -/
theorem mem_classes_countPair : c ∈ (countPair counts (t, p)).map Prod.fst ↔
    c = t ∨ c = p ∨ c ∈ counts.map Prod.fst := by
  rcases eq_or_ne t p with rfl | hne
  · rw [countPair_self, countOne, countOne, SortedMap.mem_keys_upsert, SortedMap.mem_keys_upsert]
  · rw [countPair_of_ne hne, countOne, countOne, countOne, SortedMap.mem_keys_upsert,
      SortedMap.mem_keys_upsert, SortedMap.mem_keys_upsert]
    tauto

/-- **What one pair adds** to the counts of a class. -/
theorem countsAt_countPair (h : SortedMap.Ascending counts) (t p c : Int) :
    countsAt (countPair counts (t, p)) c =
      { hits := (countsAt counts c).hits + if t = p ∧ c = t then 1 else 0
        falseAlarms := (countsAt counts c).falseAlarms + if t ≠ p ∧ c = p then 1 else 0
        misses := (countsAt counts c).misses + if t ≠ p ∧ c = t then 1 else 0
        support := (countsAt counts c).support + if c = t then 1 else 0 } := by
  have hsupported : SortedMap.Ascending (countOne t .supported counts) := h.upsert t _
  rcases eq_or_ne t p with rfl | hne
  · rw [countPair_self, countsAt_countOne hsupported, countsAt_countOne h]
    by_cases hc : c = t <;> simp [hc, ClassCounts.supported, ClassCounts.hit]
  · have halarmed : SortedMap.Ascending (countOne p .alarmed (countOne t .supported counts)) :=
      hsupported.upsert p _
    rw [countPair_of_ne hne, countsAt_countOne halarmed, countsAt_countOne hsupported,
      countsAt_countOne h]
    by_cases hc : c = t
    · simp [hc, hne, ClassCounts.supported, ClassCounts.missed]
    · by_cases hp : c = p <;> simp [hc, hp, hne, hne.symm, ClassCounts.alarmed]

/-- A sum over the classes grows by what one more adds to its class. -/
theorem sum_countOne {g : ClassCounts → Nat} {f : ClassCounts → ClassCounts} {d : Nat}
    (hzero : g .zero = 0) (h : ∀ k, g (f k) = g k + d) :
    ((countOne t f counts).map fun e => g e.2).sum = (counts.map fun e => g e.2).sum + d := by
  refine SortedMap.sum_upsert fun k? => ?_
  cases k? with
  | none => exact (h .zero).trans (congrArg (· + d) hzero)
  | some k => exact h k

/-- **What one pair adds** to a sum over the classes. -/
theorem sum_countPair {g : ClassCounts → Nat} {hit alarmed missed supported : Nat}
    (hzero : g .zero = 0) (hhit : ∀ k : ClassCounts, g k.hit = g k + hit)
    (halarmed : ∀ k : ClassCounts, g k.alarmed = g k + alarmed)
    (hmissed : ∀ k : ClassCounts, g k.missed = g k + missed)
    (hsupported : ∀ k : ClassCounts, g k.supported = g k + supported) (t p : Int) :
    ((countPair counts (t, p)).map fun e => g e.2).sum = (counts.map fun e => g e.2).sum +
      supported + if t = p then hit else alarmed + missed := by
  rcases eq_or_ne t p with rfl | hne
  · rw [countPair_self, sum_countOne hzero hhit, sum_countOne hzero hsupported, if_pos rfl]
  · rw [countPair_of_ne hne, sum_countOne hzero hmissed, sum_countOne hzero halarmed,
      sum_countOne hzero hsupported, if_neg hne, Nat.add_assoc]

/-! ## All pairs -/

/-- The counts of the classes after a number of pairs: there is an entry for each
class that occurs, and what the entries count are the occurrences. -/
structure Tallied (counts : List (Int × ClassCounts)) (pairs : List (Int × Int)) : Prop where
  ascending : SortedMap.Ascending counts
  mem_classes : ∀ c, c ∈ counts.map Prod.fst ↔ c ∈ pairs.map Prod.fst ∨ c ∈ pairs.map Prod.snd
  hits : ∀ c, (countsAt counts c).hits = pairs.count (c, c)
  support : ∀ c, (countsAt counts c).support = (pairs.map Prod.fst).count c
  hits_add_misses : ∀ c, (countsAt counts c).hits + (countsAt counts c).misses =
    (countsAt counts c).support
  hits_add_falseAlarms : ∀ c, (countsAt counts c).hits + (countsAt counts c).falseAlarms =
    (pairs.map Prod.snd).count c
  sum_hits : (counts.map fun e => e.2.hits).sum = pairs.countP fun (t, p) => t == p
  sum_support : (counts.map fun e => e.2.support).sum = pairs.length
  sum_predicted : (counts.map fun e => e.2.hits + e.2.falseAlarms).sum = pairs.length

/-- **One more pair is counted.** -/
theorem Tallied.countPair (h : Tallied counts pairs) (pair : Int × Int) :
    Tallied (countPair counts pair) (pairs ++ [pair]) := by
  obtain ⟨t, p⟩ := pair
  have hadds := countsAt_countPair h.ascending t p
  -- one more pair adds to each side of each equation alike
  refine ⟨ascending_countPair h.ascending t p, fun c => ?_, fun c => ?_, fun c => ?_, fun c => ?_,
    fun c => ?_, ?_, ?_, ?_⟩
  · rw [mem_classes_countPair, h.mem_classes c]
    simp only [List.map_append, List.map_cons, List.map_nil, List.mem_append, List.mem_singleton]
    tauto
  · rw [hadds, List.count_append, ← h.hits c, List.count_singleton]
    grind
  · rw [hadds, List.map_append, List.count_append, ← h.support, List.map_singleton,
      List.count_singleton]
    grind
  · rw [hadds]
    have hmisses := h.hits_add_misses c
    grind
  · rw [hadds, List.map_append, List.count_append, ← h.hits_add_falseAlarms, List.map_singleton,
      List.count_singleton]
    grind
  · have hsum : ((Metric.countPair counts (t, p)).map fun e => e.2.hits).sum =
        (counts.map fun e => e.2.hits).sum + 0 + if t = p then 1 else 0 + 0 :=
      sum_countPair rfl (fun _ => rfl) (fun _ => rfl) (fun _ => rfl) (fun _ => rfl) t p
    rw [hsum, h.sum_hits, List.countP_append]
    simp
  · have hsum : ((Metric.countPair counts (t, p)).map fun e => e.2.support).sum =
        (counts.map fun e => e.2.support).sum + 1 + if t = p then 0 else 0 + 0 :=
      sum_countPair rfl (fun _ => rfl) (fun _ => rfl) (fun _ => rfl) (fun _ => rfl) t p
    rw [hsum, h.sum_support, List.length_append, ite_self]
    rfl
  · have hsum : ((Metric.countPair counts (t, p)).map fun e => e.2.hits + e.2.falseAlarms).sum =
        (counts.map fun e => e.2.hits + e.2.falseAlarms).sum + 0 + if t = p then 1 else 1 + 0 :=
      sum_countPair (g := fun k => k.hits + k.falseAlarms) rfl
        (fun k => Nat.add_right_comm k.hits 1 k.falseAlarms) (fun _ => rfl) (fun _ => rfl)
        (fun _ => rfl) t p
    rw [hsum, h.sum_predicted, List.length_append, Nat.add_zero, ite_self]
    rfl

/-- The pairs of two comparable lists are those of all their members. -/
theorem Comparable.zip (h : Comparable truth predicted) :
    (truth.zip predicted).map Prod.fst = truth ∧ (truth.zip predicted).map Prod.snd = predicted ∧
      (truth.zip predicted).length = truth.length ∧ 0 < truth.length := by
  obtain ⟨hlength, hne⟩ := h
  refine ⟨List.map_fst_zip hlength.ge, List.map_snd_zip hlength.le, ?_,
    List.length_pos_iff.2 hne⟩
  rw [List.length_zip, hlength, Nat.min_self]

/-! ## Metrics -/

/-- The weighted average of a ratio of counts, in an arithmetic given by its counts and its
sums. -/
def weightedIn {α : Type} [OfNat α 0] [Mul α] [Div α] (number : Nat → α) (sum : List α → α)
    (part : ClassCounts → Nat × Nat) (counts : List ClassCounts) : α :=
  let total := totalOf (counts.map ClassCounts.support)
  if total = 0 then 0
  else sum (counts.map fun c =>
    (if (part c).2 = 0 then 0 else number (part c).1 / number (part c).2)
      * number c.support / number total)

/-- The weighted metrics are such averages in single precision. -/
theorem averaged_weighted (part : ClassCounts → Nat × Nat) (counts : List ClassCounts) :
    averaged .weighted part counts = weightedIn ofCount sumSingle part counts := rfl

/-- How often a class is predicted as another one. -/
def cell (pairs : List (Int × Int)) (t p : Nat) : Nat := pairs.count ((t : Int), (p : Int))

end Metric

end RuleVote
