import Mathlib.Tactic.MkIffOfInductiveProp
import RuleVote.Proofs.Json.Decoding
import RuleVote.Proofs.Json.Record
import RuleVote.Proofs.Json.Singles
import RuleVote.Proofs.Run.Stamp
import RuleVote.Proofs.Text.Sorted
import RuleVote.Store.Archive
/-!
# Archived results

Every record of a result is recalled by its decoder, as long as its counts fit
64 bits and its labels 32 bits: one lemma a record, from the settings up to what
a run found. Its single precision numbers are recalled exactly if they are
finite, so a result reads back from its archive exactly if all of its numbers
are (`ArchivedResult.result_ofResult_iff`).

The archive itself holds the three records as text, so it always reads back from
its file (`ArchivedResult.decodeText_pretty`). What cannot be read back is only
found out when the result is wanted.
-/

namespace RuleVote

open Decoder RecordDecoder

variable {n : Nat}

/-- Null is no count. -/
theorem nat_null (k : Nat) : nat .null ≠ .ok k := by
  intro h
  cases h

/-- Null is no label. -/
theorem index_null (i : Int) : index .null ≠ .ok i := by
  intro h
  cases h

/-! ## Settings -/

/-- A way to reduce is read from its name. -/
theorem recalls_method (m : ReductionMethod) :
    reductionMethod.Recalls n (.string m.name) m := by
  cases m <;> exact recalls_of_text rfl

/-- A tie policy is read from its name. -/
theorem recalls_tiePolicy (p : TiePolicy) : tiePolicy.Recalls n (.string p.name) p := by
  cases p <;> exact recalls_of_text rfl

/-- A selection is read from the list of its names, and none from null. -/
theorem recalls_selection (selection : Option (List String)) :
    (nullable (list string)).Recalls (n + 1) (.ofOption (.ofList .string) selection) selection :=
  recalls_nullable nofun fun _ _ => recalls_list fun s _ => recalls_string s

/-- Its numbers fit 64 bits. -/
@[mk_iff]
structure NetworkSettings.Representable (s : NetworkSettings) : Prop where
  hidden : ∀ width ∈ s.hidden, IsWord width
  batchSize : IsWord s.batchSize
  epochs : IsWord s.epochs
  seed : IsWord s.seed

instance (s : NetworkSettings) : Decidable s.Representable :=
  decidable_of_iff' _ (NetworkSettings.representable_iff s)

/-- **The settings of a network are read from their object.** The settings, scores and
records below follow the same pattern, each from its fields. -/
theorem NetworkSettings.Representable.recalls {s : NetworkSettings} (h : s.Representable) :
    networkSettings.Recalls (n + 2) s.toJson s := by
  have hhidden := recalls_list fun width hwidth => recalls_nat (n := n) (h.hidden width hwidth)
  have hdropout := recalls_single (n := n + 1) s.dropout
  have hlearningRate := recalls_single (n := n + 1) s.learningRate
  have hbatchSize := recalls_nat (n := n + 1) h.batchSize
  have hepochs := recalls_nat (n := n + 1) h.epochs
  have hseed := recalls_nat (n := n + 1) h.seed
  obtain ⟨hidden, dropout, learningRate, batchSize, epochs, seed⟩ := s
  refine recalls_record fun frame => ⟨_, _, (recalls_pure NetworkSettings.mk).field hhidden
    |>.field hdropout |>.field hlearningRate |>.field hbatchSize |>.field hepochs |>.field hseed,
    fun hread => ?_⟩
  simp [hread hhidden, hread hdropout, hread hlearningRate, hread hbatchSize, hread hepochs,
    hread hseed, and_assoc]

/-- Its numbers fit 64 bits. -/
@[mk_iff]
structure ClosedFormSettings.Representable (s : ClosedFormSettings) : Prop where
  maxIterations : IsWord s.maxIterations
  foldSeed : IsWord s.foldSeed

instance (s : ClosedFormSettings) : Decidable s.Representable :=
  decidable_of_iff' _ (ClosedFormSettings.representable_iff s)

theorem ClosedFormSettings.Representable.recalls {s : ClosedFormSettings} (h : s.Representable)
    (frame : Frame) : RecallsFields (SurrogateSettings.closedForm <$> closedFormSettings) n frame
      s.fields (.closedForm s) := by
  have hc := recalls_single (n := n) s.c
  have hlearningRate := recalls_single (n := n) s.learningRate
  have hmaxIterations := recalls_nat (n := n) h.maxIterations
  have hfoldSeed := recalls_nat (n := n) h.foldSeed
  obtain ⟨c, learningRate, maxIterations, foldSeed⟩ := s
  unfold ClosedFormSettings.fields
  refine ⟨_, _, (recalls_pure ClosedFormSettings.mk).field hc |>.field hlearningRate
    |>.field hmaxIterations |>.field hfoldSeed |>.map _, fun hread => ?_⟩
  simp [hread hc, hread hlearningRate, hread hmaxIterations, hread hfoldSeed, and_assoc]

/-- Its numbers fit 64 bits. -/
@[mk_iff]
structure NeuralSettings.Representable (s : NeuralSettings) : Prop where
  network : s.network.Representable
  passes : IsWord s.passes
  foldSeed : IsWord s.foldSeed

instance (s : NeuralSettings) : Decidable s.Representable :=
  decidable_of_iff' _ (NeuralSettings.representable_iff s)

theorem NeuralSettings.Representable.recalls {s : NeuralSettings} (h : s.Representable)
    (frame : Frame) : RecallsFields (SurrogateSettings.neural <$> neuralSettings) (n + 2) frame
      s.fields (.neural s) := by
  have hnetwork := h.network.recalls (n := n)
  have hpasses := recalls_nat (n := n + 2) h.passes
  have hfoldSeed := recalls_nat (n := n + 2) h.foldSeed
  obtain ⟨network, passes, foldSeed⟩ := s
  unfold NeuralSettings.fields
  refine ⟨_, _, (recalls_pure NeuralSettings.mk).field hnetwork |>.field hpasses |>.field hfoldSeed
    |>.map _, fun hread => ?_⟩
  simp [hread hnetwork, hread hpasses, hread hfoldSeed, and_assoc]

/-- Its numbers fit 64 bits. -/
@[mk_iff]
structure EndToEndSettings.Representable (s : EndToEndSettings) : Prop where
  network : s.network.Representable
  foldSeed : IsWord s.foldSeed

instance (s : EndToEndSettings) : Decidable s.Representable :=
  decidable_of_iff' _ (EndToEndSettings.representable_iff s)

theorem EndToEndSettings.Representable.recalls {s : EndToEndSettings} (h : s.Representable)
    (frame : Frame) : RecallsFields (SurrogateSettings.endToEnd <$> endToEndSettings) (n + 2) frame
      s.fields (.endToEnd s) := by
  have hnetwork := h.network.recalls (n := n)
  have htemperature := recalls_single (n := n + 2) s.temperature
  have hsquareRoot := recalls_bool (n := n + 2) s.squareRoot
  have hfoldSeed := recalls_nat (n := n + 2) h.foldSeed
  obtain ⟨network, temperature, squareRoot, foldSeed⟩ := s
  unfold EndToEndSettings.fields
  refine ⟨_, _, (recalls_pure EndToEndSettings.mk).field hnetwork |>.field htemperature
    |>.field hsquareRoot |>.field hfoldSeed |>.map _, fun hread => ?_⟩
  simp [hread hnetwork, hread htemperature, hread hsquareRoot, hread hfoldSeed, and_assoc]

/-- Its numbers fit 64 bits. -/
def SurrogateSettings.Representable : SurrogateSettings → Prop
  | .closedForm s => s.Representable
  | .neural s => s.Representable
  | .endToEnd s => s.Representable

instance : ∀ s : SurrogateSettings, Decidable s.Representable
  | .closedForm s => inferInstanceAs (Decidable s.Representable)
  | .neural s => inferInstanceAs (Decidable s.Representable)
  | .endToEnd s => inferInstanceAs (Decidable s.Representable)

/-- **Settings of a surrogate are read from their object**, which names the kind. -/
theorem SurrogateSettings.recalls {s : SurrogateSettings} (h : s.Representable) :
    surrogateSettings.Recalls (n + 3) s.toJson s := by
  cases s with
  | closedForm s =>
    exact recalls_tagged rfl (by simp [ClosedFormSettings.fields])
      (ClosedFormSettings.Representable.recalls h)
  | neural s =>
    exact recalls_tagged rfl (by simp [NeuralSettings.fields])
      (NeuralSettings.Representable.recalls h)
  | endToEnd s =>
    exact recalls_tagged rfl (by simp [EndToEndSettings.fields])
      (EndToEndSettings.Representable.recalls h)

/-- Its numbers fit 64 bits. -/
@[mk_iff]
structure ReductionSettings.Representable (s : ReductionSettings) : Prop where
  epochs : IsWord s.epochs
  seed : IsWord s.seed

instance (s : ReductionSettings) : Decidable s.Representable :=
  decidable_of_iff' _ (ReductionSettings.representable_iff s)

theorem ReductionSettings.Representable.recalls {s : ReductionSettings} (h : s.Representable) :
    reductionSettings.Recalls (n + 2) s.toJson s := by
  have hmethod := recalls_method (n := n + 1) s.method
  have hepochs := recalls_nat (n := n + 1) h.epochs
  have hseed := recalls_nat (n := n + 1) h.seed
  have htieBreak := recalls_tiePolicy (n := n + 1) s.tieBreak
  have hselection := recalls_selection (n := n) s.selection
  obtain ⟨method, epochs, seed, tieBreak, selection⟩ := s
  refine recalls_record fun frame => ⟨_, _, (recalls_pure ReductionSettings.mk).field hmethod
    |>.field hepochs |>.field hseed |>.field htieBreak |>.field hselection, fun hread => ?_⟩
  simp [hread hmethod, hread hepochs, hread hseed, hread htieBreak, hread hselection, and_assoc]

/-- Its numbers fit 64 bits. -/
@[mk_iff]
structure LearningSettings.Representable (s : LearningSettings) : Prop where
  model : s.model.Representable
  folds : ∀ k ∈ s.folds, IsWord k

instance (s : LearningSettings) : Decidable s.Representable :=
  decidable_of_iff' _ (LearningSettings.representable_iff s)

theorem LearningSettings.Representable.recalls {s : LearningSettings} (h : s.Representable) :
    learningSettings.Recalls (n + 4) s.toJson s := by
  have hmodel := SurrogateSettings.recalls (n := n) h.model
  have hfolds := recalls_nullable (f := Json.ofNat) nat_null fun k hk =>
    recalls_nat (n := n + 3) (h.folds k hk)
  have honlyRuleFeatures := recalls_bool (n := n + 3) s.onlyRuleFeatures
  have hincludeGold := recalls_bool (n := n + 3) s.includeGold
  have hremote := recalls_bool (n := n + 3) s.remote
  obtain ⟨model, folds, onlyRuleFeatures, includeGold, remote⟩ := s
  refine recalls_record fun frame => ⟨_, _, (recalls_pure LearningSettings.mk).field hmodel
    |>.field hfolds |>.field honlyRuleFeatures |>.field hincludeGold |>.field hremote,
    fun hread => ?_⟩
  simp [hread hmodel, hread hfolds, hread honlyRuleFeatures, hread hincludeGold, hread hremote,
    and_assoc, -Bool.exists_bool]

/-- Its numbers fit 64 bits. -/
@[mk_iff]
structure RunProperties.Representable (p : RunProperties) : Prop where
  reduction : p.reduction.Representable
  learning : p.learning.Representable

instance (p : RunProperties) : Decidable p.Representable :=
  decidable_of_iff' _ (RunProperties.representable_iff p)

/-- **What a run was done with is read from its object.** -/
theorem RunProperties.Representable.recalls {p : RunProperties} (h : p.Representable) :
    runProperties.Recalls (n + 5) p.toJson p := by
  have hreduction := h.reduction.recalls (n := n + 2)
  have hlearning := h.learning.recalls (n := n)
  have hfeatures := recalls_list fun s (_ : s ∈ p.features) => recalls_string (n := n + 3) s
  obtain ⟨reduction, learning, features⟩ := p
  refine recalls_record fun frame => ⟨_, _, (recalls_pure RunProperties.mk).field hreduction
    |>.field hlearning |>.field hfeatures, fun hread => ?_⟩
  simp [hread hreduction, hread hlearning, hread hfeatures, and_assoc]

/-! ## Scores -/

/-- A share that may be missing is read from its number, or from null. -/
theorem recalls_share (o : Option Float32) :
    (nullable single).Recalls n (.ofOption .single o) o :=
  recalls_nullable nofun fun x _ => recalls_single x

theorem Score.recalls {s : Score} (h : IsWord s.count) : score.Recalls (n + 1) s.toJson s := by
  have hcount := recalls_nat (n := n) h
  have haccuracy := recalls_share (n := n) s.accuracy
  have hprecision := recalls_share (n := n) s.precision
  have hsensitivity := recalls_share (n := n) s.sensitivity
  obtain ⟨count, accuracy, precision, sensitivity⟩ := s
  refine recalls_record fun frame => ⟨_, _, (recalls_pure Score.mk).field hcount |>.field haccuracy
    |>.field hprecision |>.field hsensitivity, fun hread => ?_⟩
  simp [hread hcount, hread haccuracy, hread hprecision, hread hsensitivity, and_assoc]

/-- Its numbers fit 64 bits. -/
@[mk_iff]
structure TrainingScore.Representable (s : TrainingScore) : Prop where
  folds : IsWord s.folds
  failed : IsWord s.failed

instance (s : TrainingScore) : Decidable s.Representable :=
  decidable_of_iff' _ (TrainingScore.representable_iff s)

theorem TrainingScore.Representable.recalls {s : TrainingScore} (h : s.Representable) :
    trainingScore.Recalls (n + 1) s.toJson s := by
  have hfolds := recalls_nat (n := n) h.folds
  have hfailed := recalls_nat (n := n) h.failed
  have haccuracy := recalls_share (n := n) s.accuracy
  have hprecision := recalls_share (n := n) s.precision
  have hsensitivity := recalls_share (n := n) s.sensitivity
  have hloss := recalls_share (n := n) s.loss
  obtain ⟨folds, failed, accuracy, precision, sensitivity, loss⟩ := s
  refine recalls_record fun frame => ⟨_, _, (recalls_pure TrainingScore.mk).field hfolds
    |>.field hfailed |>.field haccuracy |>.field hprecision |>.field hsensitivity |>.field hloss,
    fun hread => ?_⟩
  simp [hread hfolds, hread hfailed, hread haccuracy, hread hprecision, hread hsensitivity,
    hread hloss, and_assoc]

/-- Its numbers fit 64 bits. -/
@[mk_iff]
structure RunScores.Representable (s : RunScores) : Prop where
  aggregated : IsWord s.aggregated.count
  surrogateGold : IsWord s.surrogateGold.count
  surrogateReference : IsWord s.surrogateReference.count
  training : s.training.Representable

instance (s : RunScores) : Decidable s.Representable :=
  decidable_of_iff' _ (RunScores.representable_iff s)

/-- **The scores of a run are read from their object.** -/
theorem RunScores.Representable.recalls {s : RunScores} (h : s.Representable) :
    runScores.Recalls (n + 2) s.toJson s := by
  have haggregated := Score.recalls (n := n) h.aggregated
  have hsurrogateGold := Score.recalls (n := n) h.surrogateGold
  have hsurrogateReference := Score.recalls (n := n) h.surrogateReference
  have htraining := h.training.recalls (n := n)
  obtain ⟨aggregated, surrogateGold, surrogateReference, training⟩ := s
  refine recalls_record fun frame => ⟨_, _, (recalls_pure RunScores.mk).field haggregated
    |>.field hsurrogateGold |>.field hsurrogateReference |>.field htraining, fun hread => ?_⟩
  simp [hread haggregated, hread hsurrogateGold, hread hsurrogateReference, hread htraining,
    and_assoc]

/-! ## Findings -/

/-- A set of labels is read from the list of its members, which are in order. -/
theorem recalls_labels {labels : SortedSet Int} (h : labels.Ascending)
    (hlabel : ∀ label ∈ labels.toList, IsLabel label) :
    Recalls (fun d => SortedSet.ofList <$> list index d) (n + 1)
      (.ofList .integer labels.toList) labels := by
  have hlist := recalls_list (n := n) fun label hmem => recalls_index (hlabel label hmem)
  have hfinite : (Json.ofList .integer labels.toList).Finite := by
    rw [Json.ofList, Json.finite_array, List.forall_mem_map]
    intro label _ x hx
    cases hx
  refine ⟨hlist.legible, fun hexact frame hframe => iff_of_true ?_ hfinite⟩
  show SortedSet.ofList <$> list index _ = _
  rw [(hlist.decode hexact hframe).2 hfinite]
  exact congrArg Except.ok h.ofList_toList

theorem ExcludedRule.recalls (e : ExcludedRule) : excludedRule.Recalls (n + 1) e.toJson e := by
  have hruleId := recalls_string (n := n) e.ruleId
  have hreason := recalls_string (n := n) e.reason
  obtain ⟨ruleId, reason⟩ := e
  refine recalls_record fun frame => ⟨_, _, (recalls_pure ExcludedRule.mk).field hruleId
    |>.field hreason, fun hread => ?_⟩
  simp [hread hruleId, hread hreason]

theorem FoldScores.recalls (s : FoldScores) (frame : Frame) : RecallsFields
    (FoldOutcome.scored <$> (FoldScores.mk <$> .required "accuracy" single
        <*> .required "precision" single <*> .required "recall" single
        <*> .required "loss" single)) n frame
      [("accuracy", .single s.accuracy), ("precision", .single s.precision),
        ("recall", .single s.sensitivity), ("loss", .single s.loss)] (.scored s) := by
  have haccuracy := recalls_single (n := n) s.accuracy
  have hprecision := recalls_single (n := n) s.precision
  have hsensitivity := recalls_single (n := n) s.sensitivity
  have hloss := recalls_single (n := n) s.loss
  obtain ⟨accuracy, precision, sensitivity, loss⟩ := s
  refine ⟨_, _, (recalls_pure FoldScores.mk).field haccuracy |>.field hprecision
    |>.field hsensitivity |>.field hloss |>.map _, fun hread => ?_⟩
  simp [hread haccuracy, hread hprecision, hread hsensitivity, hread hloss, and_assoc]

/-- The outcome of a fold is read from its object, scored or failed. -/
theorem FoldOutcome.recalls (o : FoldOutcome) : foldOutcome.Recalls (n + 1) o.toJson o := by
  cases o with
  | scored s => exact recalls_tagged rfl (by simp) s.recalls
  | failed reason =>
    have hreason := recalls_string (n := n) reason
    refine recalls_tagged (r := FoldOutcome.failed <$> .required "reason" string) rfl (by simp)
      fun frame => ⟨_, _, (recalls_pure FoldOutcome.failed).field hreason, fun hread => ?_⟩
    simp [hread hreason]

/-- Its numbers fit 64 bits. -/
@[mk_iff]
structure FoldRecord.Representable (r : FoldRecord) : Prop where
  fold : IsWord r.fold
  heldOut : ∀ row ∈ r.heldOut, IsWord row

instance (r : FoldRecord) : Decidable r.Representable :=
  decidable_of_iff' _ (FoldRecord.representable_iff r)

theorem FoldRecord.Representable.recalls {r : FoldRecord} (h : r.Representable) :
    foldRecord.Recalls (n + 2) r.toJson r := by
  have hfold := recalls_nat (n := n + 1) h.fold
  have hheldOut := recalls_list fun row hrow => recalls_nat (n := n) (h.heldOut row hrow)
  have houtcome := r.outcome.recalls (n := n)
  obtain ⟨fold, heldOut, outcome⟩ := r
  refine recalls_record fun frame => ⟨_, _, (recalls_pure FoldRecord.mk).field hfold
    |>.field hheldOut |>.field houtcome, fun hread => ?_⟩
  simp [hread hfold, hread hheldOut, hread houtcome, and_assoc]

/-- Its counts fit 64 bits, and the labels in it 32 bits. -/
@[mk_iff]
structure FunctionSummary.Representable (s : FunctionSummary) : Prop where
  ascending : s.polarity.Ascending
  polarity : ∀ label ∈ s.polarity.toList, IsLabel label
  correct : ∀ k ∈ s.correct, IsWord k
  incorrect : ∀ k ∈ s.incorrect, IsWord k

instance (s : FunctionSummary) : Decidable s.Representable :=
  decidable_of_iff' _ (FunctionSummary.representable_iff s)

theorem FunctionSummary.Representable.recalls {s : FunctionSummary} (h : s.Representable) :
    functionSummary.Recalls (n + 2) s.toJson s := by
  have hfunction := recalls_string (n := n + 1) s.function
  have hpolarity := recalls_labels (n := n) h.ascending h.polarity
  have hcoverage := recalls_single (n := n + 1) s.coverage
  have hoverlaps := recalls_single (n := n + 1) s.overlaps
  have hconflicts := recalls_single (n := n + 1) s.conflicts
  have hcorrect := recalls_nullable (f := Json.ofNat) nat_null fun k hk =>
    recalls_nat (n := n + 1) (h.correct k hk)
  have hincorrect := recalls_nullable (f := Json.ofNat) nat_null fun k hk =>
    recalls_nat (n := n + 1) (h.incorrect k hk)
  have hempiricalAccuracy := recalls_share (n := n + 1) s.empiricalAccuracy
  obtain ⟨function, polarity, coverage, overlaps, conflicts, correct, incorrect, empiricalAccuracy⟩
    := s
  refine recalls_record fun frame => ⟨_, _, (recalls_pure FunctionSummary.mk).field hfunction
    |>.field hpolarity |>.field hcoverage |>.field hoverlaps |>.field hconflicts |>.field hcorrect
    |>.field hincorrect |>.field hempiricalAccuracy, fun hread => ?_⟩
  simp [hread hfunction, hread hpolarity, hread hcoverage, hread hoverlaps, hread hconflicts,
    hread hcorrect, hread hincorrect, hread hempiricalAccuracy, and_assoc]

/-- An analysis is read from its object if its summaries are. -/
theorem VoteAnalysis.recalls {a : VoteAnalysis} (h : ∀ s ∈ a.summaries, s.Representable) :
    voteAnalysis.Recalls (n + 4) a.toJson a := by
  have hsummaries := recalls_list fun s hs => (h s hs).recalls (n := n)
  have hlabelCoverage := recalls_single (n := n + 3) a.labelCoverage
  have hlabelOverlap := recalls_single (n := n + 3) a.labelOverlap
  have hlabelConflict := recalls_single (n := n + 3) a.labelConflict
  obtain ⟨summaries, labelCoverage, labelOverlap, labelConflict⟩ := a
  refine recalls_record fun frame => ⟨_, _, (recalls_pure VoteAnalysis.mk).field hsummaries
    |>.field hlabelCoverage |>.field hlabelOverlap |>.field hlabelConflict, fun hread => ?_⟩
  simp [hread hsummaries, hread hlabelCoverage, hread hlabelOverlap, hread hlabelConflict,
    and_assoc]

/-- The labels in it fit 32 bits. -/
@[mk_iff]
structure ItemLabels.Representable (l : ItemLabels) : Prop where
  aggregated : IsLabel l.aggregated
  target : IsLabel l.target
  predicted : IsLabel l.predicted
  gold : ∀ g ∈ l.gold, IsLabel g

instance (l : ItemLabels) : Decidable l.Representable :=
  decidable_of_iff' _ (ItemLabels.representable_iff l)

theorem ItemLabels.Representable.recalls {l : ItemLabels} (h : l.Representable) :
    itemLabels.Recalls (n + 1) l.toJson l := by
  have hkey := recalls_string (n := n) l.key
  have haggregated := recalls_index (n := n) h.aggregated
  have htarget := recalls_index (n := n) h.target
  have hpredicted := recalls_index (n := n) h.predicted
  obtain ⟨key, aggregated, target, predicted, gold⟩ := l
  cases gold with
  | none =>
    refine recalls_record fun frame => ⟨_, _, (recalls_pure ItemLabels.mk).field hkey
      |>.field haggregated |>.field htarget |>.field hpredicted |>.absent, fun hread => ?_⟩
    simp [hread hkey, hread haggregated, hread htarget, hread hpredicted, and_assoc]
  | some g =>
    have hgold : (nullable index).Recalls n (.integer g) (some g) :=
      recalls_nullable (f := Json.integer) index_null fun g hg => recalls_index (h.gold g hg)
    refine recalls_record fun frame => ⟨_, _, (recalls_pure ItemLabels.mk).field hkey
      |>.field haggregated |>.field htarget |>.field hpredicted |>.field hgold, fun hread => ?_⟩
    simp [hread hkey, hread haggregated, hread htarget, hread hpredicted, hread hgold, and_assoc]

/-- Its counts fit 64 bits, and the labels in it 32 bits. -/
@[mk_iff]
structure RunOutput.Representable (o : RunOutput) : Prop where
  items : ∀ l ∈ o.items, l.Representable
  folds : ∀ r ∈ o.folds, r.Representable
  summaries : ∀ s ∈ o.analysis.summaries, s.Representable

instance (o : RunOutput) : Decidable o.Representable :=
  decidable_of_iff' _ (RunOutput.representable_iff o)

/-- **The output of a run is read from its object.** -/
theorem RunOutput.Representable.recalls {o : RunOutput} (h : o.Representable) :
    runOutput.Recalls (n + 5) o.toJson o := by
  have hitems := recalls_list fun l hl => (h.items l hl).recalls (n := n + 2)
  have hfolds := recalls_list fun r hr => (h.folds r hr).recalls (n := n + 1)
  have hexcluded := recalls_list fun e (_ : e ∈ o.excluded) => e.recalls (n := n + 2)
  have hanalysis := VoteAnalysis.recalls (n := n) h.summaries
  obtain ⟨items, folds, excluded, analysis⟩ := o
  refine recalls_record fun frame => ⟨_, _, (recalls_pure RunOutput.mk).field hitems |>.field hfolds
    |>.field hexcluded |>.field hanalysis, fun hread => ?_⟩
  simp [hread hitems, hread hfolds, hread hexcluded, hread hanalysis, and_assoc]

/-! ## Results -/

/-- An identifier is read from its text. -/
theorem uuid_text (u : Uuid) : uuid (.text (some u.text)) = .ok u :=
  validated_eq_ok_iff.2 ⟨u.text, rfl, u.ofText?_text⟩

/-- A moment is read from its text. -/
theorem moment_text (m : Moment) : moment (.text (some m.text)) = .ok m :=
  validated_eq_ok_iff.2 ⟨m.text, rfl, m.ofText?_text⟩

/-- What is archived of a run has the ranges of its types: counts and seeds fit
64 bits, labels 32 bits, and the labels a function voted for ascend. -/
@[mk_iff]
structure LabelingResult.Representable (r : LabelingResult) : Prop where
  properties : r.properties.Representable
  output : r.output.Representable
  scores : r.scores.Representable

instance (r : LabelingResult) : Decidable r.Representable :=
  decidable_of_iff' _ (LabelingResult.representable_iff r)

/-- The single precision numbers of a result. -/
def LabelingResult.numbers (r : LabelingResult) : List Float32 := r.toJson.singles

/-- All numbers of a result are finite. -/
def LabelingResult.Finite (r : LabelingResult) : Prop := ∀ x ∈ r.numbers, IsFinite x

instance (r : LabelingResult) : Decidable r.Finite := List.decidableBAll _ r.numbers

/-- Those of its numbers that are finite have text that reads back. -/
def LabelingResult.Exact (r : LabelingResult) : Prop :=
  ∀ x ∈ r.numbers, IsFinite x → Json.ReadsBack x

instance (r : LabelingResult) : Decidable r.Exact :=
  inferInstanceAs (Decidable (∀ x ∈ r.numbers, IsFinite x → Json.ReadsBack x))

/-- Finite numbers always have. -/
theorem LabelingResult.exact (r : LabelingResult) : r.Exact := fun _ _ h => Json.readsBack h

/-- A list has no numbers of single precision if its items have none. -/
theorem singles_ofList_eq_nil {α : Type} {f : α → Json} (h : ∀ a, (f a).singles = [])
    (as : List α) : (Json.ofList f as).singles = [] := by
  rw [Json.ofList, Json.singles, List.eq_nil_iff_forall_not_mem]
  intro x hx
  obtain ⟨item, hitem, hx⟩ := Json.mem_itemSingles.1 hx
  obtain ⟨a, -, rfl⟩ := List.mem_map.1 hitem
  rw [h a] at hx
  cases hx

theorem singles_ofList_string (ss : List String) : (Json.ofList .string ss).singles = [] :=
  singles_ofList_eq_nil (fun _ => rfl) ss

/-- The numbers of a result are those of its settings, its output and its scores. -/
theorem LabelingResult.mem_numbers {r : LabelingResult} {x : Float32} :
    x ∈ r.numbers ↔ x ∈ r.properties.toJson.singles ∨ x ∈ r.output.toJson.singles ∨
      x ∈ r.scores.toJson.singles := by
  have htext : ∀ s, (Json.string s).singles = [] := fun _ => rfl
  rw [numbers, toJson, Json.singles, Json.mem_fieldSingles]
  simp [singles_ofList_string, htext]

/-- **A result reads back from its archive exactly if its numbers are finite.** -/
theorem ArchivedResult.result_ofResult_iff {r : LabelingResult} (h : r.Representable)
    (hexact : r.Exact) : (ofResult r).result = .ok r ↔ r.Finite := by
  have hproperties := (h.properties.recalls (n := 0)).decodeText_eq_ok_iff (by decide)
    fun x hx => hexact x (LabelingResult.mem_numbers.2 (.inl hx))
  have houtput := (h.output.recalls (n := 0)).decodeText_eq_ok_iff (by decide)
    fun x hx => hexact x (LabelingResult.mem_numbers.2 (.inr (.inl hx)))
  have hscores := (h.scores.recalls (n := 0)).decodeText_eq_ok_iff (by decide)
    fun x hx => hexact x (LabelingResult.mem_numbers.2 (.inr (.inr hx)))
  have hfinite : r.Finite ↔ r.properties.toJson.Finite ∧ r.output.toJson.Finite ∧
      r.scores.toJson.Finite := by
    simp only [LabelingResult.Finite, LabelingResult.mem_numbers, Json.Finite, or_imp, forall_and]
  rw [hfinite, ← hproperties.1, ← houtput.1, ← hscores.1]
  obtain ⟨id, ruleSet, task, moment, rulesUsed, properties, output, scores⟩ := r
  simp only [result, bind_eq_ok_iff]
  constructor
  · rintro ⟨p, hp, o, ho, s, hs, heq⟩
    cases heq
    exact ⟨hp, ho, hs⟩
  · rintro ⟨hp, ho, hs⟩
    exact ⟨properties, hp, output, ho, scores, hs, rfl⟩

/-- **An archived result is read from its object**: its parts are texts, whatever they say. -/
theorem ArchivedResult.recalls (a : ArchivedResult) :
    archivedResult.Recalls (n + 2) a.toJson a := by
  have hid := (recalls_of_text (uuid_text a.id) : uuid.Recalls (n + 1) (.string a.id.text) a.id)
  have hruleSet := recalls_string (n := n + 1) a.ruleSet
  have htask := recalls_string (n := n + 1) a.task
  have hmoment := recalls_of_text (n := n + 1) (moment_text a.moment)
  have hrulesUsed := recalls_list fun s (_ : s ∈ a.rulesUsed) => recalls_string (n := n) s
  have hproperties := recalls_string (n := n + 1) a.properties
  have houtput := recalls_string (n := n + 1) a.output
  have hscores := recalls_string (n := n + 1) a.scores
  obtain ⟨id, ruleSet, task, moment, rulesUsed, properties, output, scores⟩ := a
  refine recalls_record fun frame => ⟨_, _, (recalls_pure ArchivedResult.mk).field hid
    |>.field hruleSet |>.field htask |>.field hmoment |>.field hrulesUsed |>.field hproperties
    |>.field houtput |>.field hscores, fun hread => ?_⟩
  simp [hread hid, hread hruleSet, hread htask, hread hmoment, hread hrulesUsed, hread hproperties,
    hread houtput, hread hscores, and_assoc]

/-- **An archived result reads back from its file**, whatever it holds. -/
theorem ArchivedResult.decodeText_pretty (a : ArchivedResult) :
    decodeText archivedResult a.toJson.pretty = .ok a := by
  refine (a.recalls (n := 0)).decodeText_pretty (by decide) ?_
  simp [toJson, Json.singles, Json.fieldSingles, singles_ofList_string]

end RuleVote
