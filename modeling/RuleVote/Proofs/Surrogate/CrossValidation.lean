import Mathlib.Data.Finset.Card
import RuleVote.Proofs.Outcome
import RuleVote.Surrogate.CrossValidation
/-!
# Folds are evaluated

The rows of a fold, held out or not, are rows of the input (`Split.Within`), and
of them those with a label are known (`labeledAmong_eq`). A fold that cannot be
evaluated is recorded, so cross-validation does not break off as long as no
evaluation does (`intact_crossValidate`).
-/

namespace RuleVote

variable {E : Failure → Prop} {labels : List Int} {rows : List Nat}

/-! ## Labeled rows -/

/-- A row has a label that is no abstention. -/
def Labeled (labels : List Int) (row : Nat) : Prop := ∃ l, labels[row]? = some l ∧ l ≠ abstain

theorem labelOf_eq {row : Nat} (h : row < labels.length) :
    labelOf labels row = .ok labels[row] := orBreak_eq_ok_iff.2 (List.getElem?_eq_getElem h)

theorem mapM_labelOf (h : ∀ i ∈ rows, i < labels.length) :
    rows.mapM (labelOf labels) = .ok (rows.map fun i => labels[i]?.getD abstain) := by
  refine mapM_eq_ok_iff.2 (List.forall₂_map_right_iff.2 (List.forall₂_same.2 fun i hi => ?_))
  rw [labelOf_eq (h i hi), List.getElem?_eq_getElem (h i hi), Option.getD_some]

/-- **Those of some rows that have a label.** -/
theorem labeledAmong_eq (h : ∀ i ∈ rows, i < labels.length) : labeledAmong labels rows =
    .ok (rows.filter fun i => labels[i]?.getD abstain ≠ abstain) := by
  rw [labeledAmong, mapM_labelOf h]
  refine congrArg Except.ok ?_
  rw [← List.map_prod_left_eq_zip, List.filter_map, List.map_map]
  exact List.map_id _

theorem ends_labeledAmong (h : ∀ i ∈ rows, i < labels.length) :
    Ends (labeledAmong labels rows) E
      fun found => ∀ i, i ∈ found ↔ i ∈ rows ∧ Labeled labels i := by
  refine .of_eq_ok (labeledAmong_eq h) fun i => ?_
  rw [List.mem_filter, decide_eq_true_iff]
  refine and_congr_right fun hi => ?_
  have hlt := List.getElem?_eq_getElem (h i hi)
  rw [hlt, Option.getD_some]
  constructor
  · exact fun hlabel => ⟨_, hlt, hlabel⟩
  · rintro ⟨l, hl, hne⟩
    exact Option.some.inj (hlt.symm.trans hl) ▸ hne

theorem labeled_of_mem_labeledPositions {i : Nat}
    (h : i ∈ SurrogateInput.labeledPositions labels) : Labeled labels i := by
  obtain ⟨⟨l, j⟩, hmem, rfl⟩ := List.mem_map.1 h
  obtain ⟨hmem, hl⟩ := List.mem_filter.1 hmem
  exact ⟨l, List.mem_zipIdx_iff_getElem?.1 hmem, of_decide_eq_true hl⟩

theorem Labeled.lt {i : Nat} (h : Labeled labels i) : i < labels.length := by
  obtain ⟨l, hl, -⟩ := h
  exact (List.getElem?_eq_some_iff.1 hl).1

/-- **Labeled rows have classes.** -/
theorem ends_classesOf {classes : Nat} (hrows : ∀ i ∈ rows, Labeled labels i)
    (hlabels : ∀ l ∈ labels, l = abstain ∨ 0 ≤ l ∧ l < classes) :
    Ends (classesOf labels rows) E fun ys => ys.length = rows.length ∧ ∀ y ∈ ys, y < classes := by
  have hclass : ∀ i ∈ rows, Ends (labelOf labels i) E fun l => 0 ≤ l ∧ l < classes := by
    intro i hi
    obtain ⟨l, hl, hne⟩ := hrows i hi
    exact .orBreak hl ((hlabels l (List.mem_of_getElem? hl)).resolve_left hne)
  refine (Ends.mapM hclass).bind fun found hfound => .ok ⟨?_, fun y hy => ?_⟩
  · rw [List.length_map, hfound.1]
  · obtain ⟨l, hl, rfl⟩ := List.mem_map.1 hy
    obtain ⟨hnonneg, hlt⟩ := hfound.2 l hl
    omega

/-- The labels that some rows have, abstentions left out. -/
def labelsAmong (labels : List Int) (rows : List Nat) : Finset Int :=
  ((rows.filterMap (labels[·]?)).filter (· ≠ abstain)).toFinset

theorem mem_labelsAmong {l : Int} :
    l ∈ labelsAmong labels rows ↔ l ≠ abstain ∧ ∃ i ∈ rows, labels[i]? = some l := by
  rw [labelsAmong, List.mem_toFinset, List.mem_filter, decide_eq_true_iff, List.mem_filterMap,
    and_comm]

/-- There are labels among some rows where one of them is labeled. -/
theorem labelsAmong_eq_empty_iff :
    labelsAmong labels rows = ∅ ↔ ∀ i ∈ rows, ¬Labeled labels i := by
  rw [Finset.eq_empty_iff_forall_notMem]
  constructor
  · rintro h i hi ⟨l, hl, hne⟩
    exact h l (mem_labelsAmong.2 ⟨hne, i, hi, hl⟩)
  · intro h l hl
    obtain ⟨hne, i, hi, hl⟩ := mem_labelsAmong.1 hl
    exact h i hi ⟨l, hl, hne⟩

section

variable {found : List Nat} (hfound : ∀ i, i ∈ found ↔ i ∈ rows ∧ Labeled labels i)

include hfound

/-- Those of some rows that have a label have all of their labels. -/
theorem labelsAmong_labeled : labelsAmong labels found = labelsAmong labels rows := by
  ext l
  rw [mem_labelsAmong, mem_labelsAmong]
  refine and_congr_right fun hne => exists_congr fun i => ?_
  rw [hfound]
  exact ⟨fun hl => ⟨hl.1.1, hl.2⟩, fun hl => ⟨⟨hl.1, l, hl.2, hne⟩, hl.2⟩⟩

theorem labeled_eq_nil_iff : found = [] ↔ labelsAmong labels rows = ∅ := by
  rw [labelsAmong_eq_empty_iff, List.eq_nil_iff_forall_not_mem]
  exact forall_congr' fun i => by rw [hfound, not_and]

end

/-- **Labeled rows have as many classes as labels.** -/
theorem card_classesOf {classes : Nat} (hrows : ∀ i ∈ rows, Labeled labels i)
    (hlabels : ∀ l ∈ labels, l = abstain ∨ 0 ≤ l ∧ l < classes) {ys : List Nat}
    (h : classesOf labels rows = .ok ys) : ys.toFinset.card = (labelsAmong labels rows).card := by
  obtain ⟨found, hfound, h⟩ := bind_eq_ok_iff.1 h
  obtain rfl := Except.ok.inj h
  have hmem (l : Int) : l ∈ found ↔ l ∈ labelsAmong labels rows := by
    rw [mem_mapM_iff hfound, mem_labelsAmong]
    constructor
    · rintro ⟨i, hi, hl⟩
      have hl := orBreak_eq_ok_iff.1 hl
      obtain ⟨l', hl', hne⟩ := hrows i hi
      exact ⟨Option.some.inj (hl'.symm.trans hl) ▸ hne, i, hi, hl⟩
    · rintro ⟨-, i, hi, hl⟩
      exact ⟨i, hi, orBreak_eq_ok_iff.2 hl⟩
  have himage : (found.map Int.toNat).toFinset = (labelsAmong labels rows).image Int.toNat := by
    ext y
    simp only [List.mem_toFinset, List.mem_map, Finset.mem_image, hmem]
  rw [himage, Finset.card_image_of_injOn]
  intro l hl l' hl' heq
  have hnonneg : ∀ l ∈ labelsAmong labels rows, 0 ≤ l := by
    intro l hl
    obtain ⟨hne, i, -, hl⟩ := mem_labelsAmong.1 hl
    exact ((hlabels l (List.mem_of_getElem? hl)).resolve_left hne).1
  have := hnonneg l hl
  have := hnonneg l' hl'
  omega

/-! ## Folds -/

/-- All rows of a fold are below a number. -/
structure Split.Within (split : Split) (rows : Nat) : Prop where
  train : ∀ i ∈ split.train, i < rows
  test : ∀ i ∈ split.test, i < rows

theorem StratifiedFolds.within_of_mem_splitRows {f : StratifiedFolds} {y : List Nat}
    {split : Split} (h : split ∈ f.splitRows y) : split.Within y.length := by
  obtain ⟨fold, -, rfl⟩ := List.mem_map.1 h
  rw [List.partition_eq_filter_filter]
  exact ⟨fun i hi => List.mem_range.1 (List.mem_filter.1 hi).1,
    fun i hi => List.mem_range.1 (List.mem_filter.1 hi).1⟩

/-- The outcome of an evaluation that does not break off is recorded. -/
theorem FoldOutcome.ends_of {scores : Fallible FoldScores} (h : Intact scores fun _ => True) :
    Ends (FoldOutcome.of scores) E fun _ => True := by
  obtain ⟨s, rfl, -⟩ | ⟨f, rfl, -⟩ := h.cases
  · exact .ok trivial
  · exact .ok trivial

/-- **Cross-validation breaks off only where an evaluation does.** -/
theorem intact_crossValidate {n : Nat} {strata : List Nat} (hstrata : strata.length = n)
    {evaluate : Split → Fallible FoldScores}
    (hevaluate : ∀ split, split.Within n → Intact (evaluate split) fun _ => True)
    (folds seed : Nat) : Intact (crossValidate n strata folds seed evaluate) fun _ => True := by
  refine (Ends.lift (fun _ _ => trivial) fun _ _ => trivial).bind fun k _ => ?_
  cases k with
  | none => trivial
  | some k =>
    have hsplits : Intact (liftFailure (((StratifiedFolds.new k).withSeed seed).split strata))
        fun splits => ∀ split ∈ splits, split.Within n := by
      refine Ends.lift (fun _ _ => trivial) fun splits h split hsplit => ?_
      rw [StratifiedFolds.split] at h
      split_ifs at h
      cases h
      exact hstrata ▸ StratifiedFolds.within_of_mem_splitRows hsplit
    refine hsplits.bind fun splits hsplits => ?_
    have hlength : decide (strata.length ≤ n) = true := decide_eq_true (Nat.le_of_eq hstrata)
    refine (Ends.assertThat hlength).bind fun _ _ => ?_
    have hrecord : ∀ p ∈ splits.zipIdx, Intact
        (do return (⟨p.2, p.1.test, ← FoldOutcome.of (evaluate p.1)⟩ : FoldRecord))
        fun _ => True := by
      rintro ⟨split, fold⟩ hp
      have hwithin := hsplits split (List.fst_mem_of_mem_zipIdx hp)
      exact (FoldOutcome.ends_of (hevaluate split hwithin)).bind fun _ _ => .ok trivial
    exact (Ends.mapM hrecord).imp fun _ _ => trivial

end RuleVote
