import RuleVote.Proofs.Surrogate.CrossValidation
import RuleVote.Proofs.Surrogate.Recall
/-!
# Rows without a label

Two runs on input that differs in rows without a label only
(`SurrogateInput.AgreeOnLabeled`) select the same rows to fit and to score, so
the folds come to the same and so does the model that is kept
(`SurrogateSettings.train_congr`). What is asked is that a row is selected only
where it has a label: those of a fold are (`labeled_of_labeledAmong`), and so
are those that the last model is fitted to.

Surrogates that learn from all votes are left out: they train on every row.
-/

namespace RuleVote

theorem Matrix.selectRows_congr {α : Type} {m n : Matrix α} (hcols : m.cols = n.cols)
    {rows : List Nat} (h : ∀ i ∈ rows, m.row i = n.row i) :
    m.selectRows rows = n.selectRows rows := by
  have hrows : rows.mapM m.row = rows.mapM n.row := mapM_congr_of_mem h
  rw [selectRows, selectRows, hrows, hcols]

/-- The labels of targets that are made of labels. -/
def Targets.labels? : Targets → Option (List Int)
  | .hard labels => some labels
  | .votes _ labels => some labels
  | .soft _ => none

namespace SurrogateInput

variable {a b input : SurrogateInput} {labels : List Int} {rows : List Nat}

/-- Two inputs have the same shape, the same labels, and the same features of
every row that has a label. -/
structure AgreeOnLabeled (labels : List Int) (a b : SurrogateInput) : Prop where
  rows : a.features.rows = b.features.rows
  cols : a.features.cols = b.features.cols
  classes : a.classes = b.classes
  labels_left : a.targets.labels? = some labels
  labels_right : b.targets.labels? = some labels
  row : ∀ i, Labeled labels i → a.features.row i = b.features.row i

theorem referenceLabels_of_labels? (h : input.targets.labels? = some labels) :
    input.referenceLabels = .ok labels := by
  rw [referenceLabels]
  cases htargets : input.targets with
  | hard | votes =>
    rw [htargets] at h
    exact congrArg Except.ok (Option.some.inj h)
  | soft =>
    rw [htargets] at h
    cases h

/-- The distribution of a label asks for the labels alone. -/
theorem softTargets_congr (hclasses : a.classes = b.classes) (ha : a.targets.labels? = some labels)
    (hb : b.targets.labels? = some labels) : a.softTargets = b.softTargets := by
  have hlabels : ∀ {input : SurrogateInput}, input.targets.labels? = some labels →
      input.softTargets = (do
        let even ← Matrix.filled labels.length input.classes (1 / ofCount input.classes)
        labels.zipIdx.foldlM putLabel even) := by
    intro input h
    rw [softTargets]
    cases htargets : input.targets with
    | hard | votes =>
      rw [htargets] at h
      obtain rfl := Option.some.inj h
      rfl
    | soft =>
      rw [htargets] at h
      cases h
  rw [hlabels ha, hlabels hb, hclasses]

/-- **Labeled rows are selected alike.** -/
theorem AgreeOnLabeled.selectRows (h : AgreeOnLabeled labels a b)
    (hrows : ∀ i ∈ rows, Labeled labels i) :
    a.features.selectRows rows = b.features.selectRows rows :=
  Matrix.selectRows_congr h.cols fun i hi => h.row i (hrows i hi)

end SurrogateInput

open SurrogateInput

variable {a b : SurrogateInput} {labels : List Int} {rows : List Nat}

/-- **What is found among the rows of a fold has a label.** -/
theorem labeled_of_labeledAmong {found : List Nat} (h : labeledAmong labels rows = .ok found) :
    ∀ i ∈ found, Labeled labels i := by
  obtain ⟨known, hknown, -⟩ := bind_eq_ok_iff.1 h
  have hrange : ∀ i ∈ rows, i < labels.length := by
    intro i hi
    obtain ⟨l, hl⟩ := exists_mapM_eq_ok_iff.1 ⟨known, hknown⟩ i hi
    exact (List.getElem?_eq_some_iff.1 (orBreak_eq_ok_iff.1 hl)).1
  intro i hi
  exact (((ends_labeledAmong (E := fun _ => True) hrange).of_ok h i).1 hi).2

/-- **A fold is fitted and scored alike**: only its labeled rows are selected,
whatever is fitted to them. -/
theorem scores_congr (h : AgreeOnLabeled labels a b) {M : Type} {fit fit' : List Nat → Fallible M}
    (hfit : ∀ rows, (∀ i ∈ rows, Labeled labels i) → fit rows = fit' rows)
    (probabilities : M → Matrix Float32 → Fallible (Matrix Float32)) (split : Split) :
    (do
      let train ← labeledAmong labels split.train
      let test ← labeledAmong labels split.test
      let model ← fit train
      let p ← probabilities model (← a.features.selectRows test)
      FoldScores.evaluate (← classesOf labels test) p : Fallible FoldScores) =
    (do
      let train ← labeledAmong labels split.train
      let test ← labeledAmong labels split.test
      let model ← fit' train
      let p ← probabilities model (← b.features.selectRows test)
      FoldScores.evaluate (← classesOf labels test) p) := by
  refine bind_congr_of_ok fun train htrain => bind_congr_of_ok fun test htest => ?_
  rw [hfit train (labeled_of_labeledAmong htrain), h.selectRows (labeled_of_labeledAmong htest)]

/-! ## Regressions on labels -/

namespace ClosedFormModel

variable {settings : ClosedFormSettings}

theorem fitRows_congr (h : AgreeOnLabeled labels a b) (hrows : ∀ i ∈ rows, Labeled labels i) :
    fitRows settings a labels rows = fitRows settings b labels rows := by
  rw [fitRows, fitRows, h.selectRows hrows, h.classes]

theorem evaluate_congr (h : AgreeOnLabeled labels a b) (split : Split) :
    evaluate settings a labels split = evaluate settings b labels split :=
  scores_congr h (fun _ hrows => fitRows_congr h hrows) ClosedFormModel.probabilities split

theorem train_congr (h : AgreeOnLabeled labels a b) (folds : Nat) :
    train settings a folds = train settings b folds := by
  have hevaluate : evaluate settings a labels = evaluate settings b labels :=
    funext fun split => evaluate_congr h split
  have hlast : fitRows settings a labels (labeledPositions labels) =
      fitRows settings b labels (labeledPositions labels) :=
    fitRows_congr h fun i => labeled_of_mem_labeledPositions
  rw [train, train, referenceLabels_of_labels? h.labels_left,
    referenceLabels_of_labels? h.labels_right]
  refine bind_congr_of_ok fun found hfound => ?_
  obtain rfl := Except.ok.inj hfound
  dsimp only
  rw [hevaluate, hlast, h.rows, h.classes]

end ClosedFormModel

/-! ## Networks -/

namespace NeuralModel

variable {settings : NeuralSettings} {targets : Matrix Float32}

theorem fitRows_congr (h : AgreeOnLabeled labels a b) (hrows : ∀ i ∈ rows, Labeled labels i) :
    fitRows settings a targets rows = fitRows settings b targets rows := by
  rw [fitRows, fitRows, h.selectRows hrows]

theorem evaluate_congr (h : AgreeOnLabeled labels a b) (split : Split) :
    evaluate settings a labels targets split = evaluate settings b labels targets split :=
  scores_congr h (fun _ hrows => fitRows_congr h hrows) NeuralModel.probabilities split

theorem train_congr (h : AgreeOnLabeled labels a b) (folds : Nat) :
    train settings a folds = train settings b folds := by
  -- the targets of all rows are the same, whichever of them are selected
  have htargets := softTargets_congr h.classes h.labels_left h.labels_right
  have hevaluate : ∀ targets,
      evaluate settings a labels targets = evaluate settings b labels targets :=
    fun targets => funext fun split => evaluate_congr h split
  have hlast : ∀ targets, fitRows settings a targets (labeledPositions labels) =
      fitRows settings b targets (labeledPositions labels) :=
    fun targets => fitRows_congr h fun i => labeled_of_mem_labeledPositions
  rw [train, train, referenceLabels_of_labels? h.labels_left,
    referenceLabels_of_labels? h.labels_right, htargets]
  refine bind_congr fun _ => bind_congr_of_ok fun found hfound => ?_
  obtain rfl := Except.ok.inj hfound
  simp only [hevaluate, hlast, h.rows, h.classes]

end NeuralModel

/-! ## Surrogates -/

/-- **Training is the same on input that differs in unlabeled rows only**: the
same records and the same model, or the same failure. -/
theorem SurrogateSettings.train_congr {settings : SurrogateSettings}
    (hkind : settings.kind ≠ .endToEnd) (h : AgreeOnLabeled labels a b) (folds : Nat) :
    settings.train a folds = settings.train b folds := by
  cases settings with
  | closedForm settings => rw [train, train, ClosedFormModel.train_congr h]
  | neural settings => rw [train, train, NeuralModel.train_congr h]
  | endToEnd settings => exact absurd rfl hkind

namespace Surrogate

/-- A new surrogate is trained to the model of its settings, and refers to the
labels of its input. -/
theorem train_new {settings : SurrogateSettings} {input : SurrogateInput}
    (h : input.referenceLabels = .ok labels) (folds : Nat) :
    (new settings).train input folds =
      (fun result => (result.1, ⟨settings, some ⟨input, folds, result.1, labels, result.2⟩⟩)) <$>
        settings.train input folds := by
  have honce : trainOnce settings input folds =
      (fun result => ⟨input, folds, result.1, labels, result.2⟩) <$>
        settings.train input folds := by
    rw [trainOnce, h]
    rfl
  rcases (new settings).train_cases input folds with ⟨t, ht, -⟩ | htrain
  · cases ht
  · rw [htrain, show (new settings).settings = settings from rfl, honce, Functor.map_map]

/-- **Rows without a label have no influence on training.** Two inputs of one
shape, labeled alike and with the same features of every labeled row, give new
surrogates the same records or the same failure. Trained, they give every matrix
the same probabilities and the same labels, and refer to the same labels. -/
theorem unlabeled_rows_have_no_influence {settings : SurrogateSettings}
    (hkind : settings.kind ≠ .endToEnd) (h : AgreeOnLabeled labels a b) (folds : Nat) :
    Prod.fst <$> (new settings).train a folds = Prod.fst <$> (new settings).train b folds ∧
      ∀ records s, (new settings).train a folds = .ok (records, s) →
        ∃ s', (new settings).train b folds = .ok (records, s') ∧
          (∀ x, s.probabilities x = s'.probabilities x) ∧ (∀ x, s.predict x = s'.predict x) ∧
          s.reference = s'.reference := by
  rw [train_new (referenceLabels_of_labels? h.labels_left),
    train_new (referenceLabels_of_labels? h.labels_right),
    SurrogateSettings.train_congr hkind h, Functor.map_map, Functor.map_map]
  refine ⟨rfl, fun records s htrain => ?_⟩
  -- the surrogates differ in the input that they remember, not in the model
  obtain ⟨result, hresult, htrained⟩ := map_eq_ok_iff.1 htrain
  obtain ⟨rfl, rfl⟩ := Prod.mk.inj htrained
  exact ⟨_, map_eq_ok_iff.2 ⟨result, hresult, rfl⟩, fun _ => rfl, fun _ => rfl, rfl⟩

/-- Two rows with labels and two without, whose features are no numbers in one
of the inputs, and targets of two kinds. -/
theorem unlabeled_rows_have_no_influence_abstained :
    let settings : SurrogateSettings := .closedForm { ClosedFormSettings.standard with
      maxIterations := 0 }
    let labels : List Int := [0, -1, 1, -1]
    let a : SurrogateInput := ⟨⟨#[1, 2, 3, 4], 4, 1⟩, .hard labels, 2⟩
    let b : SurrogateInput :=
      ⟨⟨#[1, notANumber, 3, notANumber], 4, 1⟩, .votes ⟨#[0, -1, 1, -1], 4, 1⟩ labels, 2⟩
    SurrogateInput.new a.features a.targets a.classes = .ok a ∧
      SurrogateInput.new b.features b.targets b.classes = .ok b ∧
      settings.kind ≠ .endToEnd ∧ AgreeOnLabeled labels a b ∧
      ∃ records s s', (new settings).train a 2 = .ok (records, s) ∧
        (new settings).train b 2 = .ok (records, s') ∧ ∀ x, s.predict x = s'.predict x := by
  intro settings labels a b
  have hkind : settings.kind ≠ .endToEnd := by decide
  have hagree : AgreeOnLabeled labels a b := by
    refine ⟨rfl, rfl, rfl, rfl, rfl, fun i hi => ?_⟩
    obtain ⟨l, hl, hne⟩ := hi
    match i, hl with
    | 0, _ | 2, _ => rfl
    | 1, hl | 3, hl => exact absurd (Option.some.inj hl).symm hne
  have htrains : ((new settings).train a 2).toOption.any (fun _ => true) = true := by
    decide +kernel
  obtain ⟨⟨records, s⟩, htrain, -⟩ := exists_of_any htrains
  obtain ⟨s', htrain', -, hpredict, -⟩ :=
    (unlabeled_rows_have_no_influence hkind hagree 2).2 records s htrain
  exact ⟨rfl, rfl, hkind, hagree, records, s, s', htrain, htrain', hpredict⟩

end Surrogate

end RuleVote
