import RuleVote.Proofs.Score.Evaluation
import RuleVote.Proofs.Surrogate.CrossValidation
import RuleVote.Proofs.Surrogate.Input
import RuleVote.Proofs.Surrogate.Room
/-!
# Training does not break off

Where there is room for it, a surrogate is trained on valid input or reports why
not (`SurrogateSettings.intact_train`). A model that was trained is one for the
features and classes of its input (`SurrogateModel.For`), and such a model
has probabilities and labels for every matrix of these features.
-/

namespace RuleVote

variable {E : Failure → Prop} {input : SurrogateInput} {x : Matrix Float32}
variable {rows features classes : Nat}

/-- **Labeled rows have scores** from whatever has probabilities for rows of the
features, unless there is no row. -/
theorem ends_scores (h : input.Valid) {labels : List Int}
    (hlength : labels.length = input.features.rows) (hlabels : LabelsBelow input.classes labels)
    {rows : List Nat} (hrows : ∀ i ∈ rows, Labeled labels i)
    {probabilities : Matrix Float32 → Fallible (Matrix Float32)}
    (hprobabilities : ∀ {n : Nat} {x : Matrix Float32}, x.Sized n input.features.cols →
      Ends (probabilities x) (fun _ => rows = []) (·.Sized n input.classes)) :
    Ends (do
      let p ← probabilities (← input.features.selectRows rows)
      FoldScores.evaluate (← classesOf labels rows) p) (fun _ => rows = []) fun _ => rows ≠ [] := by
  refine (h.features.sized.selectRows fun i hi => hlength ▸ (hrows i hi).lt).bind fun x hx => ?_
  refine (hprobabilities hx.1).bind fun p hp => ?_
  refine (ends_classesOf hrows hlabels).bind fun y hy => ?_
  have hnil : y = [] ↔ rows = [] := by
    rw [← List.length_eq_zero_iff, ← List.length_eq_zero_iff, hy.1]
  exact (FoldScores.ends_evaluate hp hy.1 hy.2).mono (fun _ => hnil.1) fun _ hne => hne ∘ hnil.2

/-! ## Regressions on hard labels -/

/-- **Classes that are not all the same are two at least.** -/
theorem ends_requireTwoClasses (y : List Nat) :
    Ends (liftFailure (requireTwoClasses y)) (fun _ => ¬1 < y.toFinset.card)
      fun _ => 1 < y.toFinset.card := by
  have hany : (y.any fun c => some c ≠ y.head?) = true ↔ 1 < y.toFinset.card := by
    rw [List.any_eq_true, Finset.one_lt_card]
    cases y with
    | nil => simp
    | cons a y =>
      simp only [List.head?_cons, ne_eq, Option.some.injEq, decide_eq_true_iff, List.mem_toFinset]
      constructor
      · rintro ⟨c, hc, hne⟩
        exact ⟨c, hc, a, List.mem_cons_self, hne⟩
      · -- one of the two is not the first
        rintro ⟨b, hb, c, hc, hne⟩
        by_cases hba : b = a
        · exact ⟨c, hc, fun hca => hne (hba.trans hca.symm)⟩
        · exact ⟨b, hb, hba⟩
  rw [requireTwoClasses]
  split_ifs with h
  · exact hany.1 h
  · exact fun hcard => h (hany.2 hcard)

namespace ClosedFormModel

/-- A model for so many features and classes. -/
structure For (m : ClosedFormModel) (features classes : Nat) : Prop where
  units : m.units.For features
  regression : m.regression.For features classes

/-- **A regression is fitted to rows of two classes at least**, if its settings
are valid. -/
theorem ends_fit (settings : ClosedFormSettings) (hroom : Linear.HasRoom features classes)
    (hx : x.Sized rows features) (y : List Nat) : Ends (fit settings classes x y)
      (fun _ => ¬((untrained settings classes).Accepts rows y ∧ 1 < y.toFinset.card))
      fun m => m.For features classes ∧ 1 < y.toFinset.card := by
  refine ((ends_requireTwoClasses y).mono (fun _ h hfit => h hfit.2) fun _ => id).bind
    fun _ htwo => ?_
  refine ((Standardizer.ends_fit hx).mono (fun _ h hfit => hfit.1.nonempty h) fun _ => id).bind
    fun units hunits => ?_
  refine (hunits.1.transform hx).bind fun z hz => ?_
  refine (LogisticRegression.ends_new hroom.2).bind ?_
  rintro _ rfl
  have hfit := LogisticRegression.ends_fit (m := untrained settings classes) hroom.1 hz y
  exact (hfit.mono (fun _ h hfit => h hfit.1) fun _ => id).bind
    fun _ hm => .ok ⟨⟨hunits.1, hm⟩, htwo⟩

theorem For.probabilities {m : ClosedFormModel} (hm : m.For features classes)
    (hx : x.Sized rows features) : Ends (m.probabilities x) E (·.Sized rows classes) :=
  (hm.units.transform hx).bind fun _ hz => hm.regression.probabilities hz

section

variable {labels : List Int}

variable (settings : ClosedFormSettings)
  (hroom : Linear.HasRoom input.features.cols input.classes)

include hroom

theorem ends_fitRows (h : input.Valid) (hlength : labels.length = input.features.rows)
    (hlabels : LabelsBelow input.classes labels) {rows : List Nat}
    (hrows : ∀ i ∈ rows, Labeled labels i) :
    Ends (fitRows settings input labels rows)
      (fun _ => ¬((untrained settings input.classes).validate = .ok () ∧
        1 < (labelsAmong labels rows).card))
      fun m => m.For input.features.cols input.classes ∧ 1 < (labelsAmong labels rows).card := by
  refine (h.features.sized.selectRows fun i hi => hlength ▸ (hrows i hi).lt).bind fun x hx => ?_
  refine (ends_classesOf hrows hlabels).own_ok.bind fun y hy => ?_
  obtain ⟨hclasses, hlengthy, hbelow⟩ := hy
  rw [← card_classesOf hrows hlabels hclasses]
  refine (ends_fit settings hroom hx.1 y).mono (fun _ hfit hvalid => hfit ⟨?_, hvalid.2⟩)
    fun _ => id
  refine ⟨hvalid.1, hlengthy, fun hzero => ?_, hbelow⟩
  rw [hzero, List.length_eq_zero_iff] at hlengthy
  rw [hlengthy] at hvalid
  exact absurd hvalid.2 (by decide)

/-- **A fold is scored where two labels are left to train on and one is held
out**, if the settings are valid. -/
theorem ends_evaluate (h : input.Valid) (hlength : labels.length = input.features.rows)
    (hlabels : LabelsBelow input.classes labels) {split : Split}
    (hsplit : split.Within input.features.rows) :
    Ends (evaluate settings input labels split)
      (fun _ => ¬((untrained settings input.classes).validate = .ok () ∧
        1 < (labelsAmong labels split.train).card ∧ labelsAmong labels split.test ≠ ∅))
      fun _ => 1 < (labelsAmong labels split.train).card ∧ labelsAmong labels split.test ≠ ∅ := by
  refine (ends_labeledAmong (hlength ▸ hsplit.train)).bind fun train htrain => ?_
  refine (ends_labeledAmong (hlength ▸ hsplit.test)).bind fun test htest => ?_
  have hfit := ends_fitRows settings hroom h hlength hlabels fun i hi => ((htrain i).1 hi).2
  rw [labelsAmong_labeled htrain] at hfit
  refine (hfit.mono (fun _ hf hvalid => hf ⟨hvalid.1, hvalid.2.1⟩) fun _ => id).bind
    fun model hmodel => ?_
  have hscores := ends_scores h hlength hlabels (fun i hi => ((htest i).1 hi).2)
    hmodel.1.probabilities
  simp only [ne_eq, labeled_eq_nil_iff htest] at hscores
  exact hscores.mono (fun _ hnone hvalid => hvalid.2.2 hnone) fun _ hne => ⟨hmodel.2, hne⟩

end

/-- **Training on valid input does not break off** where there is room. -/
theorem intact_train (settings : ClosedFormSettings) (h : input.Valid)
    (hroom : Linear.HasRoom input.features.cols input.classes) (folds : Nat) :
    Intact (train settings input folds)
      fun result => result.2.For input.features.cols input.classes := by
  refine h.referenceLabels.bind fun labels hlabels => ?_
  obtain ⟨hlength, hlabels⟩ := hlabels
  dsimp only
  refine .ite (fun _ => trivial) fun _ => ?_
  refine (intact_crossValidate ((List.length_map _).trans hlength)
    (fun _ hsplit => (ends_evaluate settings hroom h hlength hlabels hsplit).mono
      (fun _ _ => trivial) fun _ _ => trivial) folds _).bind fun records _ => ?_
  have hfit := ends_fitRows settings hroom h hlength hlabels
    fun _ hi => labeled_of_mem_labeledPositions hi
  exact (hfit.mono (fun _ _ => trivial) fun _ => id).bind fun _ hm => .ok hm.1

end ClosedFormModel

/-! ## Networks on distributions -/

namespace NeuralModel

/-- A model for so many features and classes. -/
structure For (m : NeuralModel) (features classes : Nat) : Prop where
  units : m.units.For features
  network : m.network.Sized features classes

/-- **A network is trained on rows**, if its settings suit. -/
theorem ends_fit (settings : NeuralSettings) (hroom : settings.HasRoom features classes)
    (hx : x.Sized rows features) {targets : Matrix Float32}
    (htargets : targets.Sized rows classes) :
    Ends (fit settings x targets)
      (fun _ => ¬(settings.network.Suit features classes ∧ rows ≠ 0))
      fun m => m.For features classes ∧ rows ≠ 0 := by
  refine ((Standardizer.ends_fit hx).mono (fun _ hzero h => h.2 hzero) fun _ => id).bind
    fun units hunits => ?_
  refine (hunits.1.transform hx).bind fun z hz => ?_
  obtain rfl := hz.cols_eq
  obtain rfl := htargets.cols_eq
  refine (Perceptron.ends_new hroom.network).mono (fun _ hnew h => hnew h.1) (fun _ => id)
    |>.bind fun network hnew => ?_
  obtain ⟨hnetwork, hsettings⟩ := hnew
  have hepochs : network.settings.epochs < capacity := hsettings ▸ hroom.losses
  exact (hnetwork.fit hz htargets hunits.2 hepochs).bind fun _ hm =>
    .ok ⟨⟨hunits.1, hm⟩, hunits.2⟩

theorem For.probabilities {m : NeuralModel} (hm : m.For features classes)
    (hx : x.Sized rows features) : Ends (m.probabilities x) E (·.Sized rows classes) :=
  (hm.units.transform hx).bind fun _ hz => hm.network.meanProbabilities hz _ _

section

variable {targets : Matrix Float32} {labels : List Int}

variable (settings : NeuralSettings) (hroom : settings.HasRoom input.features.cols input.classes)

include hroom

theorem ends_fitRows (h : input.Valid)
    (htargets : targets.Sized input.features.rows input.classes) {rows : List Nat}
    (hrows : ∀ i ∈ rows, i < input.features.rows) :
    Ends (fitRows settings input targets rows)
      (fun _ => ¬(settings.network.Suit input.features.cols input.classes ∧
        rows ≠ []))
      fun m => m.For input.features.cols input.classes ∧ rows ≠ [] := by
  refine (h.features.sized.selectRows hrows).bind fun x hx => ?_
  refine (htargets.selectRows hrows).bind fun t ht => ?_
  have hfit := ends_fit settings hroom hx.1 ht.1
  simp only [ne_eq, List.length_eq_zero_iff] at hfit
  exact hfit

/-- **A fold is scored where a label is left to train on and one is held out**, if
the settings suit. -/
theorem ends_evaluate (h : input.Valid)
    (htargets : targets.Sized input.features.rows input.classes)
    (hlength : labels.length = input.features.rows) (hlabels : LabelsBelow input.classes labels)
    {split : Split} (hsplit : split.Within input.features.rows) :
    Ends (evaluate settings input labels targets split)
      (fun _ => ¬(settings.network.Suit input.features.cols input.classes ∧
        labelsAmong labels split.train ≠ ∅ ∧ labelsAmong labels split.test ≠ ∅))
      fun _ => labelsAmong labels split.train ≠ ∅ ∧ labelsAmong labels split.test ≠ ∅ := by
  refine (ends_labeledAmong (hlength ▸ hsplit.train)).bind fun train htrain => ?_
  refine (ends_labeledAmong (hlength ▸ hsplit.test)).bind fun test htest => ?_
  have hfit := ends_fitRows settings hroom h htargets fun i hi =>
    hsplit.train i ((htrain i).1 hi).1
  simp only [ne_eq, labeled_eq_nil_iff htrain] at hfit
  refine (hfit.mono (fun _ hf hvalid => hf ⟨hvalid.1, hvalid.2.1⟩) fun _ => id).bind
    fun model hmodel => ?_
  have hscores := ends_scores h hlength hlabels (fun i hi => ((htest i).1 hi).2)
    hmodel.1.probabilities
  simp only [ne_eq, labeled_eq_nil_iff htest] at hscores
  exact hscores.mono (fun _ hnone hvalid => hvalid.2.2 hnone) fun _ hne => ⟨hmodel.2, hne⟩

end

/-- **Training on valid input does not break off** where there is room. -/
theorem intact_train (settings : NeuralSettings) (h : input.Valid)
    (hroom : settings.HasRoom input.features.cols input.classes)
    (htargets : input.features.rows * input.classes < capacity) (folds : Nat) :
    Intact (train settings input folds)
      fun result => result.2.For input.features.cols input.classes := by
  refine (Ends.lift (fun _ _ => trivial) fun _ _ => trivial).bind fun _ _ => ?_
  refine h.referenceLabels.bind fun labels hlabels => ?_
  obtain ⟨hlength, hlabels⟩ := hlabels
  dsimp only
  refine .ite (fun _ => trivial) fun _ => (h.softTargets htargets).bind fun targets htargets => ?_
  refine (intact_crossValidate ((List.length_map _).trans hlength)
    (fun _ hsplit => (ends_evaluate settings hroom h htargets hlength hlabels hsplit).mono
      (fun _ _ => trivial) fun _ _ => trivial) folds _).bind fun records _ => ?_
  have hfit := ends_fitRows settings hroom h htargets
    fun _ hi => hlength ▸ (labeled_of_mem_labeledPositions hi).lt
  exact (hfit.mono (fun _ _ => trivial) fun _ => id).bind fun _ hm => .ok hm.1

end NeuralModel

/-! ## Networks on all votes -/

namespace EndToEndModel

/-- A model for so many features and classes. -/
structure For (m : EndToEndModel) (features classes : Nat) : Prop where
  units : m.units.For features
  network : m.network.Sized features classes

section

variable {settings : EndToEndSettings} {reliability opinion : Matrix Float32} {votes : Matrix Int}
variable {functions : Nat}

theorem ends_score (hreliability : reliability.Sized functions classes) {row : List Int}
    (hlength : row.length = functions) {c : Nat} (hc : c < classes) :
    Ends (score settings reliability row c) E fun _ => True := by
  refine Ends.foldlM (R := fun _ => True) (fun sum _ p hp => ?_) trivial
  refine .ite (fun _ => ?_) fun _ => .ok trivial
  have hj : p.2 < functions := hlength ▸ List.snd_lt_of_mem_zipIdx (l := row) hp
  exact (hreliability.entry hj hc).bind fun _ _ => .ok trivial

/-- **The votes of a row, or the opinion on it, are a distribution over the
classes.** -/
theorem ends_rowTarget (hreliability : reliability.Sized functions classes)
    (hopinion : opinion.Sized rows classes) {row : List Int} (hlength : row.length = functions)
    (hrow : LabelsBelow classes row) {i : Nat} (hi : i < rows) :
    Ends (rowTarget settings reliability opinion row i) E fun target =>
      target.length = classes := by
  have hbelow : (row.all fun v => decide (v < reliability.cols)) = true := by
    refine List.all_eq_true.2 fun v hv => decide_eq_true ?_
    rw [hreliability.cols_eq]
    rcases hrow v hv with rfl | ⟨-, hlt⟩
    · exact Int.lt_of_lt_of_le (by decide) (Int.natCast_nonneg classes)
    · exact hlt
  refine (Ends.assertThat hbelow).bind fun _ _ => ?_
  refine .ite (fun _ => ?_) fun _ => (hopinion.row hi).imp fun _ h => h.1
  have hscore : ∀ c ∈ List.range reliability.cols,
      Ends (score settings reliability row c) E fun _ => True :=
    fun c hc => ends_score hreliability hlength (hreliability.cols_eq ▸ List.mem_range.1 hc)
  refine (Ends.mapM hscore).bind fun scores hscores => .ok ?_
  rw [length_softmax, List.length_map, hscores.1, List.length_range, hreliability.cols_eq]

/-- Every row of votes has a target. -/
theorem ends_voteTargets (hreliability : reliability.Sized functions classes)
    (hopinion : opinion.Sized rows classes) (hvotes : votes.Sized rows functions)
    (hbelow : LabelsBelow classes votes.data.toList) :
    Ends (voteTargets settings reliability opinion votes) E (·.Sized rows classes) := by
  refine hvotes.allRows.bind fun rs hrs => ?_
  have htarget : ∀ p ∈ rs.zipIdx, Ends (rowTarget settings reliability opinion p.1 p.2) E
      fun target => target.length = classes := by
    rintro ⟨row, i⟩ hp
    obtain ⟨hlength, hsub⟩ := hrs.2 row (List.fst_mem_of_mem_zipIdx hp)
    have hi : i < rows := hrs.1 ▸ List.snd_lt_of_mem_zipIdx (l := rs) hp
    exact ends_rowTarget hreliability hopinion hlength (fun v hv => hbelow v (hsub hv)) hi
  refine (Ends.mapM htarget).bind fun targets htargets => .ok ?_
  rw [hreliability.cols_eq]
  exact Matrix.sized_ofRowsOf (htargets.1.trans (List.length_zipIdx.trans hrs.1)) htargets.2

theorem ends_agreements (hvotes : votes.Sized rows functions) (predicted : List Nat)
    (classes : Nat) :
    Ends (agreements votes predicted classes) E (·.Sized functions classes) := by
  have hcolumn : ∀ j ∈ List.range votes.cols, Ends (votes.column j) E fun _ => True := by
    intro j hj
    exact (hvotes.column (hvotes.cols_eq ▸ List.mem_range.1 hj)).imp fun _ _ => trivial
  refine (Ends.mapM hcolumn).bind fun columns hcolumns => .ok ?_
  refine Matrix.sized_ofRowsOf_map ?_ fun column _ => ?_
  · rw [hcolumns.1, List.length_range, hvotes.cols_eq]
  · rw [List.length_map, List.length_range]

/-- **Every epoch keeps the shape of a model.** -/
theorem For.trainEpochs (hvotes : votes.Sized rows functions)
    (hbelow : LabelsBelow classes votes.data.toList) (hx : x.Sized rows features)
    (hrows : rows ≠ 0) (hclasses : 0 < classes) : ∀ (epochs : Nat) (first : Bool)
      {m : EndToEndModel} (s : KeyStream), m.For features classes →
        m.reliability.Sized functions classes →
          Ends (EndToEndModel.trainEpochs settings votes x epochs first m s) E
            (·.For features classes)
  | 0, _, _, _, hm, _ => .ok hm
  | epochs + 1, first, m, s, hm, hreliability => by
    refine (hm.network.probabilities hx).bind fun opinion hopinion => ?_
    have hnext : ∀ reliability : Matrix Float32, reliability.Sized functions classes →
        Ends (do
          let targets ← voteTargets settings reliability opinion votes
          let moved ← m.network.trainEpoch x targets s
          EndToEndModel.trainEpochs settings votes x epochs false
            { m with network := moved.2.1, reliability } moved.2.2) E (·.For features classes) := by
      intro reliability hreliability
      refine (ends_voteTargets hreliability hopinion hvotes hbelow).bind fun targets htargets => ?_
      refine (hm.network.trainEpoch hx htargets hrows s).bind ?_
      rintro ⟨loss, network, s⟩ hnetwork
      exact For.trainEpochs hvotes hbelow hx hrows hclasses epochs false s ⟨hm.units, hnetwork⟩
        hreliability
    cases first with
    | true => exact hnext m.reliability hreliability
    | false =>
      refine (hopinion.argmaxRows hclasses).bind fun places _ => ?_
      dsimp only
      rw [hm.network.classes_eq]
      exact (ends_agreements hvotes places classes).bind hnext

end

/-- **A network is trained on rows of votes**, if its settings suit. -/
theorem ends_fit (settings : EndToEndSettings) {votes : Matrix Int}
    (hroom : settings.HasRoom features classes votes.cols) (hclasses : 0 < classes)
    (hx : x.Sized rows features) (hvotes : votes.Sized rows votes.cols)
    (hbelow : LabelsBelow classes votes.data.toList) :
    Ends (fit settings classes x votes)
      (fun _ => ¬(settings.network.Suit features classes ∧ rows ≠ 0))
      (·.For features classes) := by
  refine ((Standardizer.ends_fit hx).mono (fun _ hzero h => h.2 hzero) fun _ => id).bind
    fun units hunits => ?_
  refine (hunits.1.transform hx).bind fun z hz => ?_
  obtain rfl := hz.cols_eq
  refine (Perceptron.ends_new hroom.network).mono (fun _ hnew h => hnew h.1) (fun _ => id)
    |>.bind fun network hnew => ?_
  refine (Matrix.ends_filled hroom.reliability _).bind fun reliability hreliability => ?_
  exact For.trainEpochs hvotes hbelow hz hunits.2 hclasses _ true _ ⟨hunits.1, hnew.1⟩ hreliability

theorem For.probabilities {m : EndToEndModel} (hm : m.For features classes)
    (hx : x.Sized rows features) : Ends (m.probabilities x) E (·.Sized rows classes) :=
  (hm.units.transform hx).bind fun _ hz => hm.network.probabilities hz

/-- **A fold is scored where a label is held out**, if there are rows to train on
and the settings suit. -/
theorem ends_evaluate (settings : EndToEndSettings) {votes : Matrix Int}
    (hroom : settings.HasRoom input.features.cols input.classes votes.cols) (h : input.Valid)
    {labels : List Int} (htargets : input.targets = .votes votes labels) {split : Split}
    (hsplit : split.Within input.features.rows) :
    Ends (evaluate settings input votes labels split)
      (fun _ => ¬(settings.network.Suit input.features.cols input.classes ∧
        split.train ≠ [] ∧ labelsAmong labels split.test ≠ ∅))
      fun _ => labelsAmong labels split.test ≠ ∅ := by
  obtain ⟨hvotes, hbelow, hlength, hlabels⟩ : Targets.Fit _ _ (.votes votes labels) :=
    htargets ▸ h.targets
  refine (h.features.sized.selectRows hsplit.train).bind fun x hx => ?_
  refine (hvotes.selectRows hsplit.train).bind fun cast hcast => ?_
  have hcols := hcast.1.cols_eq
  have hclasses := Nat.lt_of_lt_of_le Nat.zero_lt_two h.two_le
  have hfit := ends_fit settings (hcols.symm ▸ hroom) hclasses hx.1
    (hcols.symm ▸ hcast.1) fun v hv => hbelow v (hcast.2 hv)
  simp only [ne_eq, List.length_eq_zero_iff] at hfit
  refine (hfit.mono (fun _ hf hvalid => hf ⟨hvalid.1, hvalid.2.1⟩) fun _ => id).bind
    fun model hmodel => ?_
  refine (ends_labeledAmong (hlength ▸ hsplit.test)).bind fun scored hscored => ?_
  have hscores := ends_scores h hlength hlabels (fun i hi => ((hscored i).1 hi).2)
    hmodel.probabilities
  simp only [ne_eq, labeled_eq_nil_iff hscored] at hscores
  exact hscores.mono (fun _ hnone hvalid => hvalid.2.2 hnone) fun _ => id

/-- **Training on valid input does not break off** where there is room. -/
theorem intact_train (settings : EndToEndSettings) (h : input.Valid)
    (hroom : settings.HasRoom input.features.cols input.classes input.functions) (folds : Nat) :
    Intact (train settings input folds)
      fun result => result.2.For input.features.cols input.classes := by
  refine (Ends.lift (fun _ _ => trivial) fun _ _ => trivial).bind fun _ _ => ?_
  cases htargets : input.targets with
  | hard | soft => trivial
  | votes votes labels =>
    have hfit : Targets.Fit _ _ (.votes votes labels) := htargets ▸ h.targets
    obtain ⟨hvotes, hbelow, hlength, -⟩ := hfit
    rw [SurrogateInput.functions, htargets] at hroom
    dsimp only
    refine (intact_crossValidate ((List.length_map _).trans hlength)
      (fun _ hsplit => (ends_evaluate settings hroom h htargets hsplit).mono
        (fun _ _ => trivial) fun _ _ => trivial) folds _).bind fun records _ => ?_
    have hfit := ends_fit settings hroom (Nat.lt_of_lt_of_le Nat.zero_lt_two h.two_le)
      h.features.sized hvotes hbelow
    exact (hfit.mono (fun _ _ => trivial) fun _ => id).bind fun _ hm => .ok hm

end EndToEndModel

/-! ## All kinds -/

namespace SurrogateModel

/-- A model for so many features and classes. -/
def For (m : SurrogateModel) (features classes : Nat) : Prop :=
  match m with
  | closedForm m => m.For features classes
  | neural m => m.For features classes
  | endToEnd m => m.For features classes

variable {m : SurrogateModel}

/-- **A model has probabilities for every matrix of its features.** -/
theorem For.probabilities (hm : m.For features classes) (hx : x.Sized rows features) :
    Ends (m.probabilities x) E (·.Sized rows classes) := by
  cases m with
  | closedForm m => exact ClosedFormModel.For.probabilities hm hx
  | neural m => exact NeuralModel.For.probabilities hm hx
  | endToEnd m => exact EndToEndModel.For.probabilities hm hx

/-- **A model has a label for every row of its features.** -/
theorem For.predict (hm : m.For features classes) (hclasses : 0 < classes)
    (hx : x.Sized rows features) : Ends (m.predict x) E fun labels => labels.length = rows := by
  refine (hm.probabilities hx).bind fun p hp => ?_
  refine (hp.argmaxRows hclasses).bind fun places hplaces => .ok ?_
  rw [List.length_map, hplaces.1]

/-- **The labels a model predicts are labels of classes**, unless there are too many
of these. -/
theorem For.of_mem_predict (hm : m.For features classes) (hclasses : 0 < classes)
    (hx : x.Sized rows features) {labels : List Int} (h : m.predict x = .ok labels)
    {label : Int} (hlabel : label ∈ labels) :
    (classes ≤ Nat.pow 2 31 → 0 ≤ label) ∧ label < classes := by
  obtain ⟨p, hp, h⟩ := bind_eq_ok_iff.1 h
  obtain ⟨places, hplaces, h⟩ := bind_eq_ok_iff.1 h
  cases h
  have hsized := (hm.probabilities hx (E := fun _ => True)).of_ok hp
  obtain ⟨-, hlt⟩ := (hsized.argmaxRows hclasses (E := fun _ => True)).of_ok hplaces
  obtain ⟨place, hplace, rfl⟩ := List.mem_map.1 hlabel
  exact classLabel_bounds (hlt place hplace)

end SurrogateModel

/-- **Training on valid input does not break off**, whatever the settings are, where
there is room for it. -/
theorem SurrogateSettings.intact_train (settings : SurrogateSettings) (h : input.Valid)
    (hroom : settings.HasRoom input) (folds : Nat) : Intact (settings.train input folds)
      fun result => result.2.For input.features.cols input.classes := by
  have hmodel := hroom.model
  cases settings with
  | closedForm s => exact (ClosedFormModel.intact_train s h hmodel folds).map fun _ hm => hm
  | neural s =>
    exact (NeuralModel.intact_train s h hmodel hroom.targets folds).map fun _ hm => hm
  | endToEnd s => exact (EndToEndModel.intact_train s h hmodel folds).map fun _ hm => hm

end RuleVote
