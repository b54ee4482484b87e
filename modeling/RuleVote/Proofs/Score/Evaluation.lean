import RuleVote.Proofs.Matrix.Shape
import RuleVote.Score.Basic
/-!
# Scores are there

Two lists of labels of one length have a score, which counts them, and
probabilities for some rows have scores against the classes of these rows, which
fail only where there is no row (`FoldScores.ends_evaluate`). A score over items
counts those with a true label (`Score.count_ofItems`), a training score the
folds that failed (`TrainingScore.failed_ofFolds`).
-/

namespace RuleVote

variable {E : Failure → Prop} {truth predicted : List Int}

namespace Metric

/-- Labels to be compared, one pair at least. -/
def Comparable (truth predicted : List Int) : Prop :=
  predicted.length = truth.length ∧ truth ≠ []

theorem Comparable.checkLabels (h : Comparable truth predicted) :
    Ends (checkLabels truth predicted) E fun _ => True := by
  have hlength : (predicted.length == truth.length) = true := beq_iff_eq.2 h.1
  have hnonempty : (!truth.isEmpty) = true := by
    rw [Bool.not_eq_true', List.isEmpty_eq_false_iff]
    exact h.2
  exact (Ends.assertThat hlength).bind fun _ _ => Ends.assertThat hnonempty

theorem Comparable.accuracy (h : Comparable truth predicted) :
    Ends (accuracy truth predicted) E fun _ => True :=
  h.checkLabels.bind fun _ _ => .ok trivial

theorem Comparable.metric (h : Comparable truth predicted) (part : ClassCounts → Nat × Nat)
    (average : Averaging) : Ends (metric part average truth predicted) E fun _ => True :=
  h.checkLabels.bind fun _ _ => .ok trivial

theorem ends_rowLoss {target : Nat} {row : List Float32} (h : target < row.length) :
    Ends (rowLoss target row) E fun _ => True := by
  refine .ite (fun _ => ?_) fun _ => .ok trivial
  exact (Ends.orBreak (P := fun _ => True) (List.getElem?_eq_getElem h) trivial).bind
    fun _ _ => .ok trivial

/-- **Probabilities of the classes of some rows have a loss.** -/
theorem ends_logLoss {p : Matrix Float32} {targets : List Nat} {rows classes : Nat}
    (hp : p.Sized rows classes) (hlength : targets.length = rows)
    (htargets : ∀ t ∈ targets, t < classes) : Ends (logLoss targets p) E fun _ => True := by
  have hrows : (p.rows == targets.length) = true := beq_iff_eq.2 (hp.rows_eq.trans hlength.symm)
  refine (Ends.assertThat hrows).bind fun _ _ => ?_
  dsimp only
  refine .ite (fun _ => .ok trivial) fun _ => hp.allRows.bind fun rs hrs => ?_
  have hloss : ∀ pair ∈ targets.zip rs, Ends (rowLoss pair.1 pair.2) E fun _ => True := by
    rintro ⟨t, row⟩ hpair
    obtain ⟨ht, hrow⟩ := List.of_mem_zip hpair
    exact ends_rowLoss ((htargets t ht).trans_eq (hrs.2 row hrow).1.symm)
  exact (Ends.mapM hloss).bind fun _ _ => .ok trivial

end Metric

/-- **Labels have a score against as many labels**, and it counts them. -/
theorem Score.ends_ofLabels (h : predicted.length = truth.length) :
    Ends (ofLabels truth predicted) E fun score => score.count = truth.length := by
  rw [ofLabels]
  dsimp only
  rw [if_neg (not_not_intro h.symm)]
  refine .ite (fun hempty => ?_) fun hempty => ?_
  · exact .ok (List.length_eq_zero_iff.2 (List.isEmpty_iff.1 hempty)).symm
  · have hcomparable : Metric.Comparable truth predicted := ⟨h, fun hnil => hempty (hnil ▸ rfl)⟩
    refine hcomparable.accuracy.bind fun _ _ => ?_
    refine (hcomparable.metric _ _).bind fun _ _ => ?_
    exact (hcomparable.metric _ _).bind fun _ _ => .ok rfl

/-- Where every item has a predicted label, the pairs are those of the items
with a true label. -/
theorem Score.length_labelPairs {items : List String} {truth predicted : String → Option Int}
    (h : ∀ item ∈ items, (predicted item).isSome = true) :
    (labelPairs items truth predicted).length = items.countP fun item => (truth item).isSome := by
  rw [labelPairs, List.length_filterMap_eq_countP]
  refine List.countP_congr fun item hitem => ?_
  obtain ⟨label, hlabel⟩ := Option.isSome_iff_exists.1 (h item hitem)
  rw [hlabel]
  cases truth item <;> exact Iff.rfl

/-- **A score over items counts those with a true label**, where every item has
a predicted one. -/
theorem Score.count_ofItems {items : List String} {truth predicted : String → Option Int}
    (h : ∀ item ∈ items, (predicted item).isSome = true) :
    (ofItems items truth predicted).count = items.countP fun item => (truth item).isSome := by
  have hlength : ((labelPairs items truth predicted).map Prod.snd).length =
      ((labelPairs items truth predicted).map Prod.fst).length := by
    rw [List.length_map, List.length_map]
  have hscore := Score.ends_ofLabels (E := fun _ => False) hlength
  obtain ⟨score, hscore, hcount⟩ := hscore.exists_ok
  rw [ofItems, hscore]
  exact hcount.trans ((List.length_map _).trans (length_labelPairs h))

/-- Whether a fold failed. -/
def FoldRecord.hasFailed (r : FoldRecord) : Bool :=
  match r.outcome with
  | .scored _ => false
  | .failed _ => true

/-- **A training score counts the folds that failed.** -/
theorem TrainingScore.failed_ofFolds (records : List FoldRecord) :
    (ofFolds records).failed = records.countP FoldRecord.hasFailed := by
  have hscored : (records.filterMap FoldRecord.scores?).length =
      records.countP fun r => !r.hasFailed := by
    rw [List.length_filterMap_eq_countP]
    refine List.countP_congr fun r _ => ?_
    rw [FoldRecord.scores?, FoldRecord.hasFailed]
    cases r.outcome <;> exact Iff.rfl
  have hall := records.length_eq_countP_add_countP FoldRecord.hasFailed
  show records.length - (records.filterMap FoldRecord.scores?).length = _
  rw [hscored]
  simp only [Bool.not_eq_true, Bool.decide_eq_false] at hall
  omega

/-- **Probabilities of the classes of some rows have scores**, unless there is
no row. -/
theorem FoldScores.ends_evaluate {p : Matrix Float32} {targets : List Nat} {rows classes : Nat}
    (hp : p.Sized rows classes) (hlength : targets.length = rows)
    (htargets : ∀ t ∈ targets, t < classes) :
    Ends (evaluate targets p) (fun _ => targets = []) fun _ => targets ≠ [] := by
  rw [evaluate]
  dsimp only
  refine .ite (fun hempty => List.isEmpty_iff.1 hempty) fun hempty => ?_
  rw [if_neg (not_not_intro (hp.rows_eq.trans hlength.symm))]
  have hne : targets ≠ [] := fun hnil => hempty (hnil ▸ rfl)
  have hclasses : 0 < classes :=
    Nat.zero_lt_of_lt (htargets _ (List.head_mem hne))
  refine (hp.argmaxRows hclasses).bind fun places hplaces => ?_
  have hcomparable : Metric.Comparable (targets.map Int.ofNat) (places.map Int.ofNat) := by
    refine ⟨?_, fun hnil => hne (List.map_eq_nil_iff.1 hnil)⟩
    rw [List.length_map, List.length_map, hplaces.1, hlength]
  refine hcomparable.accuracy.bind fun _ _ => ?_
  refine (hcomparable.metric _ _).bind fun _ _ => ?_
  refine (hcomparable.metric _ _).bind fun _ _ => ?_
  exact (Metric.ends_logLoss hp hlength htargets).bind fun _ _ => .ok hne

end RuleVote
