import Mathlib.Data.Int.CardIntervalMod
import Mathlib.Data.List.Nodup
import Mathlib.Data.List.Perm.Basic
import RuleVote.Proofs.Random.Draw
import RuleVote.Proofs.Text.Sorted
import RuleVote.Score.Folds
/-!
# Folds

A fold is tested on the rows that are dealt to it. Each row is dealt to one of
the folds (`StratifiedFolds.foldOf_lt`), so their tests have every row between
them and no row twice (`StratifiedFolds.partitions_splitRows`).

Rows that stand next to each other in the order they are dealt in are spread
evenly over the folds (`StratifiedFolds.countP_foldOf`): the folds take turns,
and of places in a row each remainder has its share (`countP_mod`). The rows
of a class stand next to each other (`StratifiedFolds.exists_segment`), and so
do all rows together, so no fold is ahead of another by more than one row, in
any class or in all (`StratifiedFolds.split_balanced`).
-/

namespace RuleVote

/-! ## Every row is in one fold -/

/-- Lists that have every number below a bound between them, no number twice,
each list in ascending order. -/
structure Partitions (bound : Nat) (parts : List (List Nat)) : Prop where
  ascending : ∀ part ∈ parts, part.Pairwise (· < ·)
  disjoint : parts.Pairwise List.Disjoint
  covers : ∀ i, (∃ part ∈ parts, i ∈ part) ↔ i < bound

/-- **Numbers that are sorted by a key are partitioned.** -/
theorem partitions_filter {bound keys : Nat} {key : Nat → Nat} (hkey : ∀ i < bound, key i < keys) :
    Partitions bound
      ((List.range keys).map fun k => (List.range bound).filter fun i => key i = k) where
  ascending := by
    rw [List.forall_mem_map]
    exact fun k _ => List.pairwise_lt_range.filter _
  disjoint := by
    refine List.pairwise_map.2 (List.nodup_range.imp fun {k k'} hne i hi hi' => hne ?_)
    rw [List.mem_filter, decide_eq_true_iff] at hi hi'
    exact hi.2.symm.trans hi'.2
  covers i := by
    constructor
    · rintro ⟨part, hpart, hi⟩
      obtain ⟨k, -, rfl⟩ := List.mem_map.1 hpart
      exact List.mem_range.1 (List.mem_filter.1 hi).1
    · intro hi
      refine ⟨_, List.mem_map_of_mem (List.mem_range.2 (hkey i hi)), ?_⟩
      exact List.mem_filter.2 ⟨List.mem_range.2 hi, decide_eq_true rfl⟩

namespace StratifiedFolds

variable {f : StratifiedFolds} {y : List Nat}

/-- A row is dealt to one of the folds. -/
theorem foldOf_lt {splits : Nat} (h : 0 < splits) (order : List Nat) (row : Nat) :
    foldOf splits order row < splits := Nat.mod_lt _ h

/-- A fold is tested on the rows that are dealt to it. -/
theorem map_test_splitRows (f : StratifiedFolds) (y : List Nat) :
    (f.splitRows y).map Split.test = (List.range f.splits).map fun fold =>
      (List.range y.length).filter fun i => foldOf f.splits (f.dealingOrder y) i = fold := by
  rw [splitRows, List.map_map]
  refine List.map_congr_left fun fold _ => ?_
  dsimp only [Function.comp_apply]
  rw [List.partition_eq_filter_filter]

theorem length_splitRows (f : StratifiedFolds) (y : List Nat) :
    (f.splitRows y).length = f.splits := by
  rw [splitRows, List.length_map, List.length_range]

/-- **The folds are tested on every row once.** -/
theorem partitions_splitRows (h : 0 < f.splits) :
    Partitions y.length ((f.splitRows y).map Split.test) := by
  rw [map_test_splitRows]
  exact partitions_filter fun i _ => foldOf_lt h _ i

end StratifiedFolds

/-! ## Folds are balanced -/

/-- **Of places in a row, each remainder has its share.** -/
theorem countP_mod {splits fold : Nat} (hfold : fold < splits) (start length : Nat) :
    length / splits ≤ (List.range' start length).countP (fun place => place % splits = fold) ∧
      (List.range' start length).countP (fun place => place % splits = fold) ≤
        length / splits + 1 := by
  -- counted from the start of the run, the remainder is that of `shifted`
  let shifted := fold + (splits - start % splits)
  have hstart : start % splits < splits := Nat.mod_lt _ (by omega)
  have hshift (i : Nat) : (start + i) % splits = fold ↔ i ≡ shifted [MOD splits] := by
    have hsum : start + shifted ≡ fold [MOD splits] := by
      have hsplit : start + shifted = fold + splits * (start / splits + 1) := by
        have := Nat.div_add_mod start splits
        rw [Nat.mul_add, Nat.mul_one]
        omega
      rw [hsplit]
      exact Nat.add_mul_mod_self_left ..
    calc (start + i) % splits = fold
        ↔ start + i ≡ fold [MOD splits] := by rw [Nat.ModEq, Nat.mod_eq_of_lt hfold]
      _ ↔ start + i ≡ start + shifted [MOD splits] := ⟨(·.trans hsum.symm), (·.trans hsum)⟩
      _ ↔ i ≡ shifted [MOD splits] := ⟨Nat.ModEq.add_left_cancel' start, Nat.ModEq.add_left start⟩
  have hcount : (List.range' start length).countP (fun place => place % splits = fold) =
      Nat.count (· ≡ shifted [MOD splits]) length := by
    rw [List.range'_eq_map_range, List.countP_map]
    exact List.countP_congr fun i _ => by
      simp only [Function.comp_apply, decide_eq_true_iff]
      exact hshift i
  rw [hcount, Nat.count_modEq_card _ (by omega)]
  split_ifs <;> omega

/-- The number of rows of a class among some rows. -/
def classCount (y : List Nat) (c : Nat) (rows : List Nat) : Nat :=
  rows.countP fun i => y[i]? = some c

namespace StratifiedFolds

variable {f : StratifiedFolds} {y : List Nat}

/-! ### The order rows are dealt in -/

theorem forall₂_shuffleAll : ∀ (classes : List (List Nat)) (s : KeyStream),
    List.Forall₂ List.Perm (shuffleAll classes s) classes
  | [], _ => .nil
  | rows :: classes, s => .cons (s.shuffle_perm rows) (forall₂_shuffleAll classes _)

/-- Rows are dealt class by class. -/
theorem exists_dealingOrder (f : StratifiedFolds) (y : List Nat) :
    ∃ parts, f.dealingOrder y = parts.flatten ∧ List.Forall₂ List.Perm parts (classRows y) := by
  unfold dealingOrder
  split_ifs
  · exact ⟨_, rfl, forall₂_shuffleAll _ _⟩
  · exact ⟨_, rfl, List.forall₂_same.2 fun rows _ => .refl rows⟩

theorem mem_flatten_classRows {i : Nat} : i ∈ (classRows y).flatten ↔ i < y.length := by
  simp only [classRows, List.mem_flatten, List.mem_map, SortedSet.mem_ofList]
  constructor
  · rintro ⟨_, ⟨c, -, rfl⟩, hi⟩
    exact List.mem_range.1 (List.mem_filter.1 hi).1
  · intro hi
    refine ⟨_, ⟨y[i], List.getElem_mem hi, rfl⟩, List.mem_filter.2 ⟨List.mem_range.2 hi, ?_⟩⟩
    rw [List.getElem?_eq_getElem hi, decide_eq_true_iff]

theorem nodup_flatten_classRows (y : List Nat) : (classRows y).flatten.Nodup := by
  rw [List.nodup_flatten]
  constructor
  · rw [classRows, List.forall_mem_map]
    exact fun c _ => List.nodup_range.filter _
  · refine List.pairwise_map.2 ((SortedSet.ascending_ofList y).nodup.imp ?_)
    intro c c' hne i hi hi'
    rw [List.mem_filter, decide_eq_true_iff] at hi hi'
    exact hne (Option.some.inj (hi.2.symm.trans hi'.2))

/-- **Every row is dealt once.** -/
theorem dealingOrder_perm (f : StratifiedFolds) (y : List Nat) :
    (f.dealingOrder y).Perm (List.range y.length) := by
  obtain ⟨parts, horder, hparts⟩ := f.exists_dealingOrder y
  rw [horder]
  refine (List.Perm.flatten_congr hparts).trans ?_
  refine (List.perm_ext_iff_of_nodup (nodup_flatten_classRows y) List.nodup_range).2 fun i => ?_
  rw [mem_flatten_classRows, List.mem_range]

/-- **The rows of a class are dealt one after the other.** -/
theorem exists_segment (f : StratifiedFolds) {c : Nat} (hc : c ∈ y) :
    ∃ before part after, f.dealingOrder y = before ++ part ++ after ∧
      part.Perm ((List.range y.length).filter fun i => y[i]? = some c) := by
  obtain ⟨parts, horder, hparts⟩ := f.exists_dealingOrder y
  have hrows : ((List.range y.length).filter fun i => y[i]? = some c) ∈ classRows y :=
    List.mem_map_of_mem (SortedSet.mem_ofList.2 hc)
  obtain ⟨earlier, later, hclasses⟩ := List.append_of_mem hrows
  rw [hclasses] at hparts
  obtain ⟨part, after, hpart, -, hrest⟩ :=
    List.forall₂_cons_right_iff.1 (List.forall₂_drop_append _ _ _ hparts)
  refine ⟨(parts.take earlier.length).flatten, part, after.flatten, ?_, hpart⟩
  rw [horder, List.append_assoc, ← List.flatten_cons, ← hrest, ← List.flatten_append,
    List.take_append_drop]

/-! ### What the folds get of it -/

/-- **Rows that are dealt one after the other are spread evenly.** -/
theorem countP_foldOf {splits fold : Nat} (hfold : fold < splits) {before part after : List Nat}
    (hnodup : (before ++ part ++ after).Nodup) :
    part.length / splits ≤
        part.countP (fun row => foldOf splits (before ++ part ++ after) row = fold) ∧
      part.countP (fun row => foldOf splits (before ++ part ++ after) row = fold) ≤
        part.length / splits + 1 := by
  have hplaces : part.map (before ++ part ++ after).idxOf =
      List.range' before.length part.length := by
    refine List.ext_getElem (by rw [List.length_map, List.length_range']) fun i hi _ => ?_
    rw [List.length_map] at hi
    have hlt : before.length + i < (before ++ part ++ after).length := by
      simp only [List.length_append]
      omega
    have hrow : part[i] = (before ++ part ++ after)[before.length + i] := by
      rw [List.getElem_append_left (by rw [List.length_append]; omega),
        List.getElem_append_right (Nat.le_add_right _ _)]
      simp only [Nat.add_sub_cancel_left]
    rw [List.getElem_map, hrow, hnodup.idxOf_getElem, List.getElem_range', Nat.one_mul]
  have hcount : part.countP (fun row => foldOf splits (before ++ part ++ after) row = fold) =
      (List.range' before.length part.length).countP (fun place => place % splits = fold) := by
    rw [← hplaces, List.countP_map]
    rfl
  rw [hcount]
  exact countP_mod hfold _ _

/-- The rows a fold is tested on. -/
theorem mem_splitRows {fold : Split} (hfold : fold ∈ f.splitRows y) : ∃ k < f.splits,
    fold.test = (List.range y.length).filter (fun i => foldOf f.splits (f.dealingOrder y) i = k) ∧
      fold.train = (List.range y.length).filter (fun i => i ∉ fold.test) := by
  obtain ⟨k, hk, rfl⟩ := List.mem_map.1 hfold
  simp only [List.partition_eq_filter_filter]
  refine ⟨k, List.mem_range.1 hk, rfl, List.filter_congr fun i hi => ?_⟩
  simp only [Function.comp_apply, List.mem_filter, hi, true_and, decide_eq_true_iff, decide_not]

/-- **A fold has its share of the rows**, up to one more. -/
theorem length_test {fold : Split} (hfold : fold ∈ f.splitRows y) :
    y.length / f.splits ≤ fold.test.length ∧ fold.test.length ≤ y.length / f.splits + 1 := by
  obtain ⟨k, hk, htest, -⟩ := mem_splitRows hfold
  have hperm := f.dealingOrder_perm y
  have hnodup : ([] ++ f.dealingOrder y ++ []).Nodup := by
    rw [List.nil_append, List.append_nil]
    exact hperm.nodup_iff.2 List.nodup_range
  have hshare := countP_foldOf hk hnodup
  rw [List.nil_append, List.append_nil, hperm.length_eq, List.length_range, hperm.countP_eq,
    List.countP_eq_length_filter, ← htest] at hshare
  exact hshare

theorem classCount_eq_zero {c : Nat} (hc : c ∉ y) (rows : List Nat) : classCount y c rows = 0 := by
  refine List.countP_eq_zero.2 fun i _ hi => hc ?_
  exact List.mem_of_getElem? (decide_eq_true_iff.1 hi)

/-- **A fold has its share of the rows of a class**, up to one more. -/
theorem classCount_test {fold : Split} (hfold : fold ∈ f.splitRows y) (c : Nat) :
    classCount y c (List.range y.length) / f.splits ≤ classCount y c fold.test ∧
      classCount y c fold.test ≤ classCount y c (List.range y.length) / f.splits + 1 := by
  by_cases hc : c ∈ y
  · obtain ⟨k, hk, htest, -⟩ := mem_splitRows hfold
    obtain ⟨before, part, after, horder, hpart⟩ := f.exists_segment hc
    have hnodup := (f.dealingOrder_perm y).nodup_iff.2 List.nodup_range
    rw [horder] at hnodup
    have hrows : classCount y c (List.range y.length) = part.length := by
      rw [hpart.length_eq, classCount, List.countP_eq_length_filter]
    have hcount : classCount y c fold.test =
        part.countP fun row => foldOf f.splits (before ++ part ++ after) row = k := by
      rw [hpart.countP_eq, ← horder, htest, classCount, List.countP_filter, List.countP_filter]
      exact List.countP_congr fun i _ => by rw [Bool.and_comm]
    rw [hrows, hcount]
    exact countP_foldOf hk hnodup
  · rw [classCount_eq_zero hc, classCount_eq_zero hc, Nat.zero_div]
    exact ⟨le_rfl, Nat.zero_le _⟩

theorem test_ne_nil (hsplits : 2 ≤ f.splits) (hrows : f.splits ≤ y.length) {fold : Split}
    (hfold : fold ∈ f.splitRows y) : fold.test ≠ [] := by
  intro hempty
  have hshare := (length_test hfold).1
  rw [hempty, List.length_nil] at hshare
  exact absurd (Nat.div_pos hrows (by omega)) (by omega)

/-- There are rows to train on: those that another fold is tested on. -/
theorem train_ne_nil (hsplits : 2 ≤ f.splits) (hrows : f.splits ≤ y.length) {fold : Split}
    (hfold : fold ∈ f.splitRows y) : fold.train ≠ [] := by
  obtain ⟨k, hk, htest, htrain⟩ := mem_splitRows hfold
  obtain ⟨j, hj, hjk⟩ : ∃ j < f.splits, j ≠ k := by
    by_cases hzero : k = 0
    · exact ⟨1, by omega, by omega⟩
    · exact ⟨0, by omega, fun h => hzero h.symm⟩
  obtain ⟨i, hi⟩ := List.exists_mem_of_ne_nil _
    (test_ne_nil hsplits hrows (List.mem_map_of_mem (List.mem_range.2 hj)))
  simp only [List.partition_eq_filter_filter, List.mem_filter, decide_eq_true_iff] at hi
  refine List.ne_nil_of_mem (a := i) ?_
  rw [htrain, List.mem_filter, decide_eq_true_iff, htest, List.mem_filter, decide_eq_true_iff]
  exact ⟨hi.1, fun hik => hjk (hi.2.symm.trans hik.2)⟩

/-- **Folds are balanced**: no two differ by more than one row, in all or in
any class, so no fold is empty. -/
theorem split_balanced (hsplits : 2 ≤ f.splits) (hrows : f.splits ≤ y.length) :
    ∃ folds, f.split y = .ok folds ∧ folds.length = f.splits ∧
      (∀ fold ∈ folds, fold.test.Pairwise (· < ·) ∧ (∀ i ∈ fold.test, i < y.length) ∧
        fold.test ≠ [] ∧ fold.train = (List.range y.length).filter (· ∉ fold.test)) ∧
      ∀ fold ∈ folds, ∀ other ∈ folds, fold.test.length ≤ other.test.length + 1 ∧
        ∀ c, classCount y c fold.test ≤ classCount y c other.test + 1 := by
  refine ⟨f.splitRows y, if_neg (by omega), f.length_splitRows y, fun fold hfold => ?_,
    fun fold hfold other hother => ⟨?_, fun c => ?_⟩⟩
  · obtain ⟨k, -, htest, htrain⟩ := mem_splitRows hfold
    refine ⟨?_, fun i hi => ?_, test_ne_nil hsplits hrows hfold, htrain⟩
    · rw [htest]
      exact List.pairwise_lt_range.filter _
    · rw [htest] at hi
      exact List.mem_range.1 (List.mem_filter.1 hi).1
  · exact (length_test hfold).2.trans (Nat.add_le_add_right (length_test hother).1 1)
  · exact (classCount_test hfold c).2.trans (Nat.add_le_add_right (classCount_test hother c).1 1)

/-- Seven rows of three classes, shuffled, in three folds. -/
theorem split_balanced_new : ∃ folds, (new 3).split [0, 2, 1, 0, 0, 2, 0] = .ok folds ∧
    ∀ fold ∈ folds, ∀ other ∈ folds, fold.test.length ≤ other.test.length + 1 ∧
      ∀ c, classCount [0, 2, 1, 0, 0, 2, 0] c fold.test ≤
        classCount [0, 2, 1, 0, 0, 2, 0] c other.test + 1 := by
  have hbalanced := split_balanced (f := new 3) (y := [0, 2, 1, 0, 0, 2, 0])
    (by decide) (by decide)
  obtain ⟨folds, hsplit, -, -, hcounts⟩ := hbalanced
  exact ⟨folds, hsplit, hcounts⟩

end StratifiedFolds

end RuleVote
