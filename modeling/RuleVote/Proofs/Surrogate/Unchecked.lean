import RuleVote.Proofs.Surrogate.Recall
import RuleVote.Proofs.Surrogate.Training
/-!
# Training on input that was not checked

A training that gets through has read every row that it needed, whatever its
input is. So it leaves a model for as many features as the input has columns, and
for its classes where its parts go together
(`SurrogateSettings.exists_for_of_train`). Such a model breaks off exactly where a
row of the matrix that it is asked about is missing
(`Surrogate.Genuine.predict_eq_broken_iff`).
-/

namespace RuleVote

variable {x z : Matrix Float32} {features classes : Nat}

/-! ## What is checked -/

/-- The matrices among targets have an entry in every place. -/
def Targets.WellShaped : Targets → Prop
  | .hard _ => True
  | .soft probabilities => probabilities.WellShaped
  | .votes cast _ => cast.WellShaped

/-- Where no label is found that is none, all of them are below the classes. -/
theorem labelsBelow_of_find? {labels : List Int}
    (h : (labels.find? fun l => !isVote classes l) = none) : LabelsBelow classes labels := by
  intro l hl
  have hvote := List.find?_eq_none.1 h l hl
  simp only [isVote, Bool.not_eq_true', Bool.not_eq_false, Bool.or_eq_true, beq_iff_eq,
    Bool.and_eq_true, decide_eq_true_iff] at hvote
  exact hvote

/-- Labels that pass the check are below the classes. -/
theorem SurrogateInput.labelsBelow_of_checkLabels {labels : List Int}
    (h : checkLabels labels classes = .ok ()) : LabelsBelow classes labels := by
  rw [checkLabels] at h
  split at h
  · cases h
  · next hfind => exact labelsBelow_of_find? hfind

/-- Votes that pass the check are below the classes. -/
theorem labelsBelow_of_checkVotes {votes : Matrix Int} (h : checkVotes votes classes = .ok ()) :
    LabelsBelow classes votes.data.toList := by
  rw [checkVotes] at h
  split at h
  · cases h
  · next hfind => exact labelsBelow_of_find? hfind

theorem SurrogateInput.rows_of_checkRows {rows actual : Nat}
    (h : checkRows rows actual = .ok ()) : actual = rows := by
  rw [checkRows] at h
  split_ifs at h with hrows
  exact hrows

/-- **Targets that pass the check fit the rows and the classes.** -/
theorem SurrogateInput.fit_of_checkTargets {rows : Nat} {targets : Targets}
    (hshaped : targets.WellShaped) (h : checkTargets rows classes targets = .ok ()) :
    targets.Fit rows classes := by
  cases targets with
  | hard labels =>
    obtain ⟨_, hrows, hlabels⟩ := bind_eq_ok_iff.1 h
    exact ⟨rows_of_checkRows hrows, labelsBelow_of_checkLabels hlabels⟩
  | soft probabilities =>
    obtain ⟨_, hrows, hcols⟩ := bind_eq_ok_iff.1 h
    split_ifs at hcols with hne
    have hsized := Matrix.WellShaped.sized hshaped
    rwa [rows_of_checkRows hrows, not_not.1 hne] at hsized
  | votes cast labels =>
    obtain ⟨_, hrows, h⟩ := bind_eq_ok_iff.1 h
    obtain ⟨_, hcount, h⟩ := bind_eq_ok_iff.1 h
    obtain ⟨_, hvotes, hlabels⟩ := bind_eq_ok_iff.1 h
    have hsized := Matrix.WellShaped.sized hshaped
    rw [rows_of_checkRows hrows] at hsized
    exact ⟨hsized, labelsBelow_of_checkVotes hvotes, rows_of_checkRows hcount,
      labelsBelow_of_checkLabels hlabels⟩

/-- **Input is valid exactly if its matrices have their shapes and it is
accepted.** -/
theorem SurrogateInput.valid_iff {input : SurrogateInput} : input.Valid ↔
    input.features.WellShaped ∧ input.targets.WellShaped ∧
      new input.features input.targets input.classes = .ok input := by
  constructor
  · intro h
    refine ⟨h.features, ?_, h.new_eq_ok⟩
    have htargets := h.targets
    cases htarget : input.targets with
    | hard labels => trivial
    | soft probabilities =>
      rw [htarget] at htargets
      exact Matrix.Sized.wellShaped htargets
    | votes cast labels =>
      rw [htarget] at htargets
      exact htargets.1.wellShaped
  · rintro ⟨hfeatures, hshaped, hnew⟩
    rw [new] at hnew
    dsimp only at hnew
    split_ifs at hnew with hfew
    · cases hnew
    · obtain ⟨_, hcheck, -⟩ := bind_eq_ok_iff.1 hnew
      exact ⟨hfeatures, fit_of_checkTargets hshaped hcheck, Nat.not_lt.1 hfew⟩

/-! ## What was read is there -/

namespace Matrix

variable {α : Type} {m m' : Matrix α} {indices : List Nat}

/-- Rows that were read make a matrix. -/
theorem sized_of_selectRows (h : m.selectRows indices = .ok m') :
    m'.Sized indices.length m.cols := by
  obtain ⟨rs, hrs, h⟩ := bind_eq_ok_iff.1 h
  obtain rfl := Except.ok.inj h
  refine sized_ofRowsOf (length_of_mapM hrs) fun r hr => ?_
  obtain ⟨i, -, hi⟩ := exists_of_mem_mapM hrs hr
  exact length_of_row hi

/-- All rows are read, or one of them is missing. -/
theorem allRows_cases (m : Matrix α) : (∃ rs, m.allRows = .ok rs) ∨
    m.allRows = .error .broken ∧ ∃ i < m.rows, m.row? i = none := by
  have hlist : ∀ is : List Nat, (∃ rs, is.mapM m.row = .ok rs) ∨
      is.mapM m.row = .error .broken ∧ ∃ i ∈ is, m.row? i = none := by
    intro is
    induction is with
    | nil => exact .inl ⟨[], rfl⟩
    | cons i is ih =>
      rw [List.mapM_cons, row]
      cases hi : m.row? i with
      | none => exact .inr ⟨rfl, i, List.mem_cons_self, hi⟩
      | some r =>
        rcases ih with ⟨rs, hrs⟩ | ⟨hbroken, j, hj, hrow⟩
        · rw [hrs]
          exact .inl ⟨r :: rs, rfl⟩
        · rw [hbroken]
          exact .inr ⟨rfl, j, List.mem_cons_of_mem i hj, hrow⟩
  rcases hlist (List.range m.rows) with hrows | ⟨hbroken, i, hi, hrow⟩
  · exact .inl hrows
  · exact .inr ⟨hbroken, i, List.mem_range.1 hi, hrow⟩

/-- If all rows are read, each of them is there. -/
theorem exists_row?_of_allRows {rs : List (List α)} (h : m.allRows = .ok rs) {i : Nat}
    (hi : i < m.rows) : ∃ r, m.row? i = some r := by
  have hlt : i < rs.length := (shape_of_allRows h).1 ▸ hi
  exact ⟨rs[i], orBreak_eq_ok_iff.1 (row_of_allRows h (List.getElem?_eq_getElem hlt))⟩

/-- A matrix whose rows are all read has the largest entry of each. -/
theorem Sized.exists_argmaxRows {rows cols : Nat} {m : Matrix Float32} (h : m.Sized rows cols) :
    ∃ places, m.argmaxRows = .ok places ∧ places.length = rows := by
  obtain ⟨rs, hrs, hcount, -⟩ := h.allRows.exists_ok
  exact ⟨rs.map argmax, bind_eq_ok_iff.2 ⟨rs, hrs, rfl⟩, (List.length_map _).trans hcount⟩

end Matrix

namespace Standardizer

variable {s : Standardizer}

/-- Units are taken of every column. -/
theorem for_of_fit (h : fit x = .ok s) : s.For x.cols := by
  rw [fit] at h
  dsimp only at h
  split_ifs at h
  · cases h
  · obtain ⟨stats, hstats, h⟩ := bind_eq_ok_iff.1 h
    obtain rfl := Except.ok.inj h
    exact ⟨stats, rfl, (length_of_mapM hstats).trans List.length_range⟩

/-- Only the rows of a matrix are brought to other units. -/
theorem transform_eq_ofRowsOf {rs : List (List Float32)} (h : x.allRows = .ok rs) :
    s.transform x = s.transform (.ofRowsOf x.cols rs) := by
  have hrows := Matrix.allRows_ofRowsOf (Matrix.shape_of_allRows h).2
  rw [transform, transform, h, hrows]
  rfl

/-- A matrix of another number of columns is refused. -/
theorem For.transform_of_ne (hs : s.For features) (hcols : x.cols ≠ features) :
    s.transform x = fail (.shapeMismatch (toString features ++ " features")
      (toString x.cols ++ " features")) := by
  obtain ⟨stats, hstats, rfl⟩ := hs
  rw [Standardizer.transform, hstats]
  dsimp only
  rw [if_pos hcols]
  rfl

/-- Rows that are not there cannot be brought into other units. -/
theorem For.transform_of_broken (hs : s.For x.cols) (h : x.allRows = .error .broken) :
    s.transform x = .error .broken := by
  obtain ⟨stats, hstats, hlength⟩ := hs
  rw [Standardizer.transform, hstats]
  dsimp only
  rw [if_neg (not_not_intro hlength.symm), h]
  rfl

end Standardizer

/-! ## What was trained is a model -/

section

variable {input : SurrogateInput} {folds : Nat} {records : List FoldRecord}

/-- A regression is for the features and classes that it was trained on, whatever else
its input had. -/
theorem ClosedFormModel.for_of_train {settings : ClosedFormSettings} {m : ClosedFormModel}
    (h : train settings input folds = .ok (records, m)) :
    m.For input.features.cols input.classes := by
  obtain ⟨labels, -, h⟩ := bind_eq_ok_iff.1 h
  dsimp only at h
  split_ifs at h
  · cases h
  · obtain ⟨_, -, h⟩ := bind_eq_ok_iff.1 h
    obtain ⟨m', hfit, h⟩ := bind_eq_ok_iff.1 h
    cases h
    obtain ⟨x, hx, hfit⟩ := bind_eq_ok_iff.1 hfit
    obtain ⟨y, -, hfit⟩ := bind_eq_ok_iff.1 hfit
    have hx := Matrix.sized_of_selectRows hx
    have hroom := (hasRoom_of_fit hfit).1
    rw [hx.cols_eq] at hroom
    exact ((ends_fit settings hroom hx y).of_ok hfit).1

/-- A network is for the features and for the columns of the targets that it was trained on. -/
theorem NeuralModel.exists_for_of_train {settings : NeuralSettings} {m : NeuralModel}
    (h : train settings input folds = .ok (records, m)) :
    ∃ targets, input.softTargets = .ok targets ∧ m.For input.features.cols targets.cols := by
  obtain ⟨_, -, h⟩ := bind_eq_ok_iff.1 h
  obtain ⟨labels, -, h⟩ := bind_eq_ok_iff.1 h
  dsimp only at h
  split_ifs at h
  · cases h
  · obtain ⟨targets, htargets, h⟩ := bind_eq_ok_iff.1 h
    obtain ⟨_, -, h⟩ := bind_eq_ok_iff.1 h
    obtain ⟨m', hfit, h⟩ := bind_eq_ok_iff.1 h
    cases h
    obtain ⟨x, hx, hfit⟩ := bind_eq_ok_iff.1 hfit
    obtain ⟨t, ht, hfit⟩ := bind_eq_ok_iff.1 hfit
    have hx := Matrix.sized_of_selectRows hx
    have ht := Matrix.sized_of_selectRows ht
    have hroom := (hasRoom_of_fit hfit).1
    rw [hx.cols_eq, ht.cols_eq] at hroom
    exact ⟨targets, htargets, ((ends_fit settings hroom hx ht).of_ok hfit).1⟩

/-- An epoch is begun only with a target for every row, and with rows. -/
theorem Perceptron.rows_of_checkTargets {p : Perceptron} {targets : Matrix Float32}
    (h : p.checkTargets x targets = .ok ()) : targets.rows = x.rows ∧ x.rows ≠ 0 := by
  obtain ⟨_, -, h⟩ := bind_eq_ok_iff.1 h
  dsimp only at h
  by_cases hshape : targets.rows ≠ x.rows ∨ targets.cols ≠ p.classes
  · rw [if_pos hshape] at h
    cases h
  · rw [if_neg hshape] at h
    split_ifs at h with hrows
    exact ⟨not_not.1 (not_or.1 hshape).1, hrows⟩

namespace EndToEndModel

variable {settings : EndToEndSettings} {reliability opinion targets : Matrix Float32}
variable {votes : Matrix Int} {rows functions : Nat}

theorem sized_of_agreements {predicted : List Nat} {m : Matrix Float32}
    (h : agreements votes predicted classes = .ok m) : m.Sized votes.cols classes := by
  obtain ⟨columns, hcolumns, h⟩ := bind_eq_ok_iff.1 h
  obtain rfl := Except.ok.inj h
  refine Matrix.sized_ofRowsOf_map ((length_of_mapM hcolumns).trans List.length_range) ?_
  intro column _
  rw [List.length_map, List.length_range]

/-- Targets are as wide as the reliabilities, which the opinions are too. -/
theorem sized_of_voteTargets (hreliability : reliability.cols = classes)
    (hopinion : opinion.cols = classes)
    (h : voteTargets settings reliability opinion votes = .ok targets) :
    targets.Sized votes.rows classes := by
  obtain ⟨rs, hrs, h⟩ := bind_eq_ok_iff.1 h
  obtain ⟨found, hfound, h⟩ := bind_eq_ok_iff.1 h
  obtain rfl := Except.ok.inj h
  have hcount : found.length = votes.rows := by
    rw [length_of_mapM hfound, List.length_zipIdx, (Matrix.shape_of_allRows hrs).1]
  subst hreliability
  refine Matrix.sized_ofRowsOf hcount fun target htarget => ?_
  obtain ⟨⟨row, i⟩, -, hrow⟩ := exists_of_mem_mapM hfound htarget
  obtain ⟨_, -, hrow⟩ := bind_eq_ok_iff.1 hrow
  split_ifs at hrow
  · obtain ⟨scores, hscores, hrow⟩ := bind_eq_ok_iff.1 hrow
    obtain rfl := Except.ok.inj hrow
    rw [length_softmax, List.length_map, length_of_mapM hscores, List.length_range]
  · exact (Matrix.length_of_row hrow).trans hopinion

/-- **An epoch that gets through keeps the shape of the network**, whatever the
votes are. -/
theorem for_of_trainEpochs (hz : z.Sized rows features) : ∀ (epochs : Nat) (first : Bool)
    {m m' : EndToEndModel} (s : KeyStream), m.For features classes →
      m.reliability.cols = classes →
      trainEpochs settings votes z epochs first m s = .ok m' → m'.For features classes
  | 0, _, _, _, _, hm, _, h => Except.ok.inj h ▸ hm
  | epochs + 1, first, m, m', s, hm, hreliability, h => by
    obtain ⟨opinion, hopinion, h⟩ := bind_eq_ok_iff.1 h
    have hopinion := (hm.network.probabilities (E := fun _ => False) hz).of_ok hopinion
    -- From the reliability on, the first epoch and the later ones do the same.
    have hnext : ∀ reliability : Matrix Float32, reliability.cols = classes →
        (do
          let targets ← voteTargets settings reliability opinion votes
          let moved ← m.network.trainEpoch z targets s
          trainEpochs settings votes z epochs false { m with network := moved.2.1, reliability }
            moved.2.2) = .ok m' → m'.For features classes := by
      intro reliability hreliability h
      obtain ⟨targets, htargets, h⟩ := bind_eq_ok_iff.1 h
      obtain ⟨⟨loss, network, s'⟩, hepoch, h⟩ := bind_eq_ok_iff.1 h
      have hsized := sized_of_voteTargets hreliability hopinion.cols_eq htargets
      obtain ⟨_, hcheck, -⟩ := bind_eq_ok_iff.1 hepoch
      obtain ⟨hrows, hne⟩ := Perceptron.rows_of_checkTargets (liftFailure_eq_ok_iff.1 hcheck)
      have hfit : targets.Sized rows classes := by
        rwa [← hsized.rows_eq, hrows, hz.rows_eq] at hsized
      have hnetwork : network.Sized features classes :=
        (hm.network.trainEpoch (E := fun _ => False) hz hfit (hz.rows_eq ▸ hne) s).of_ok hepoch
      exact for_of_trainEpochs hz epochs false (m := { m with network, reliability }) s'
        ⟨hm.units, hnetwork⟩ hreliability h
    cases first with
    | true => exact hnext m.reliability hreliability h
    | false =>
      obtain ⟨places, -, h⟩ := bind_eq_ok_iff.1 h
      obtain ⟨found, hfound, h⟩ := bind_eq_ok_iff.1 h
      rw [hm.network.classes_eq] at hfound
      exact hnext found (sized_of_agreements hfound).cols_eq h

/-- A network that was fitted to votes is for the features and classes of the fit. -/
theorem for_of_fit {m : EndToEndModel} (h : fit settings classes x votes = .ok m) :
    m.For x.cols classes := by
  obtain ⟨units, hunits, h⟩ := bind_eq_ok_iff.1 h
  obtain ⟨z, hz, h⟩ := bind_eq_ok_iff.1 h
  obtain ⟨network, hnetwork, h⟩ := bind_eq_ok_iff.1 h
  obtain ⟨reliability, hfilled, h⟩ := bind_eq_ok_iff.1 h
  have hsized := Standardizer.sized_of_transform hz
  have hroom := (Perceptron.hasRoom_of_new hnetwork).1
  have hnetwork := ((Perceptron.ends_new hroom).of_ok hnetwork).1
  rw [hsized.cols_eq] at hnetwork
  obtain ⟨-, rfl⟩ := Matrix.filled_eq_ok_iff.1 hfilled
  exact for_of_trainEpochs hsized _ true _ ⟨Standardizer.for_of_fit hunits, hnetwork⟩ rfl h

theorem for_of_train {m : EndToEndModel} (h : train settings input folds = .ok (records, m)) :
    m.For input.features.cols input.classes := by
  obtain ⟨_, -, h⟩ := bind_eq_ok_iff.1 h
  split at h
  · obtain ⟨_, -, h⟩ := bind_eq_ok_iff.1 h
    obtain ⟨m', hfit, h⟩ := bind_eq_ok_iff.1 h
    cases h
    exact for_of_fit hfit
  · cases h

end EndToEndModel

/-- **What was trained is a model for the columns of its input**, whether or not
the input goes together. Where it does, it is one for the classes of the input. -/
theorem SurrogateSettings.exists_for_of_train {settings : SurrogateSettings}
    {m : SurrogateModel} (h : settings.train input folds = .ok (records, m)) :
    ∃ classes, m.For input.features.cols classes ∧ (input.Valid → classes = input.classes) := by
  cases settings with
  | closedForm settings =>
    obtain ⟨_, htrain, hresult⟩ := map_eq_ok_iff.1 h
    cases hresult
    exact ⟨_, ClosedFormModel.for_of_train htrain, fun _ => rfl⟩
  | neural settings =>
    obtain ⟨_, htrain, hresult⟩ := map_eq_ok_iff.1 h
    cases hresult
    obtain ⟨targets, htargets, hmodel⟩ := NeuralModel.exists_for_of_train htrain
    exact ⟨_, hmodel, fun hvalid => (hvalid.sized_softTargets htargets).cols_eq⟩
  | endToEnd settings =>
    obtain ⟨_, htrain, hresult⟩ := map_eq_ok_iff.1 h
    cases hresult
    exact ⟨_, EndToEndModel.for_of_train htrain, fun _ => rfl⟩

end

/-! ## A model is asked -/

namespace SurrogateModel

variable {m : SurrogateModel}

/-- The units of the features. -/
def units : SurrogateModel → Standardizer
  | closedForm m => m.units
  | neural m => m.units
  | endToEnd m => m.units

theorem For.units (hm : m.For features classes) : m.units.For features := by
  cases m with
  | closedForm m => exact ClosedFormModel.For.units hm
  | neural m => exact NeuralModel.For.units hm
  | endToEnd m => exact EndToEndModel.For.units hm

/-- A model is for one number of features and one number of classes. -/
theorem For.unique (hm : m.For features classes) {features' classes' : Nat}
    (hm' : m.For features' classes') : features = features' ∧ classes = classes' := by
  obtain ⟨stats, hstats, rfl⟩ := hm.units
  obtain ⟨stats', hstats', rfl⟩ := hm'.units
  obtain rfl := Option.some.inj (hstats.symm.trans hstats')
  refine ⟨rfl, ?_⟩
  cases m with
  | closedForm m =>
    obtain ⟨f, hfitted, hf⟩ := ClosedFormModel.For.regression hm
    obtain ⟨f', hfitted', hf'⟩ := ClosedFormModel.For.regression hm'
    obtain ⟨-, rfl⟩ := Prod.mk.inj (Option.some.inj (hfitted.symm.trans hfitted'))
    exact hf.intercepts.symm.trans hf'.intercepts
  | neural m =>
    exact (NeuralModel.For.network hm).classes_eq.symm.trans
      (NeuralModel.For.network hm').classes_eq
  | endToEnd m =>
    exact (EndToEndModel.For.network hm).classes_eq.symm.trans
      (EndToEndModel.For.network hm').classes_eq

/-- A model first brings what it is asked about to its units. -/
theorem exists_predict_eq (m : SurrogateModel) : ∃ rest : Matrix Float32 → Fallible (List Int),
    ∀ x, m.predict x = m.units.transform x >>= rest := by
  cases m with
  | closedForm m =>
    exact ⟨fun z => do return (← (← m.regression.probabilities z).argmaxRows).map classLabel,
      fun x => bind_assoc _ _ _⟩
  | neural m =>
    exact ⟨fun z => do
      let p ← m.network.meanProbabilities z m.passes m.network.settings.seed
      return (← p.argmaxRows).map classLabel, fun x => bind_assoc _ _ _⟩
  | endToEnd m =>
    exact ⟨fun z => do return (← (← m.network.probabilities z).argmaxRows).map classLabel,
      fun x => bind_assoc _ _ _⟩

/-- **What a model answers**: it refuses a matrix of other features, breaks off
where a row is missing, and has a label for every row otherwise. -/
theorem For.predict_cases (hm : m.For features classes) (x : Matrix Float32) :
    (x.cols ≠ features ∧ m.predict x = fail (.shapeMismatch (toString features ++ " features")
      (toString x.cols ++ " features"))) ∨
    (x.cols = features ∧ (∃ i < x.rows, x.row? i = none) ∧ m.predict x = .error .broken) ∨
    (x.cols = features ∧ (∀ i < x.rows, ∃ r, x.row? i = some r) ∧
      ∃ labels, m.predict x = .ok labels ∧ labels.length = x.rows) := by
  obtain ⟨rest, hpredict⟩ := m.exists_predict_eq
  by_cases hcols : x.cols = features
  · right
    rcases x.allRows_cases with ⟨rs, hrs⟩ | ⟨hbroken, hmissing⟩
    · right
      refine ⟨hcols, fun i hi => Matrix.exists_row?_of_allRows hrs hi, ?_⟩
      obtain ⟨hcount, hwidth⟩ := Matrix.shape_of_allRows hrs
      rw [hcols] at hwidth
      have hsized := Matrix.sized_ofRowsOf hcount hwidth
      have hsame : m.predict x = m.predict (.ofRowsOf features rs) := by
        rw [hpredict, hpredict, Standardizer.transform_eq_ofRowsOf hrs, hcols]
      obtain ⟨p, hp, hprobabilities⟩ := (hm.probabilities hsized).exists_ok
      obtain ⟨places, hplaces, hlength⟩ := hprobabilities.exists_argmaxRows
      refine ⟨places.map classLabel, ?_, (List.length_map _).trans hlength⟩
      rw [hsame]
      exact bind_eq_ok_iff.2 ⟨p, hp, bind_eq_ok_iff.2 ⟨places, hplaces, rfl⟩⟩
    · left
      refine ⟨hcols, hmissing, ?_⟩
      rw [hpredict, Standardizer.For.transform_of_broken (hcols ▸ hm.units) hbroken]
      rfl
  · left
    refine ⟨hcols, ?_⟩
    rw [hpredict, hm.units.transform_of_ne hcols]
    rfl

end SurrogateModel

namespace Surrogate

variable {s : Surrogate} {t : Training}

theorem predict_of_training (ht : s.training = some t) (x : Matrix Float32) :
    s.predict x = t.model.predict x := by
  rw [predict, model, ht]
  rfl

/-- **A genuine training left a model for the columns of its input.** -/
theorem Genuine.exists_for (hs : s.Genuine) (ht : s.training = some t) :
    ∃ classes, t.model.For t.input.features.cols classes ∧
      (t.input.Valid → classes = t.input.classes) := by
  obtain ⟨⟨records, m⟩, htrain, h⟩ := bind_eq_ok_iff.1 (hs t ht)
  obtain ⟨reference, -, h⟩ := bind_eq_ok_iff.1 h
  have hmodel : t.model = m := (congrArg Training.model (Except.ok.inj h)).symm
  rw [hmodel]
  exact SurrogateSettings.exists_for_of_train htrain

/-- **When a surrogate breaks off**: it is trained on the features that it is
asked about, and a row is missing. -/
theorem Genuine.predict_eq_broken_iff (hs : s.Genuine) : s.predict x = .error .broken ↔
    ∃ t, s.training = some t ∧ x.cols = t.input.features.cols ∧
      ∃ i < x.rows, x.row? i = none := by
  cases ht : s.training with
  | none =>
    have hfails : s.predict x = fail (.wrongState "trained" "untrained") := by
      rw [predict, model, ht]
      rfl
    rw [hfails]
    constructor
    · intro h
      cases h
    · rintro ⟨t, ht, -⟩
      cases ht
  | some t =>
    obtain ⟨classes, hmodel, -⟩ := hs.exists_for ht
    rw [predict_of_training ht]
    rcases hmodel.predict_cases x with ⟨hcols, hfails⟩ | ⟨hcols, hmissing, hbroken⟩ |
      ⟨hcols, hrows, labels, hlabels, -⟩
    · rw [hfails]
      constructor
      · intro h
        cases h
      · rintro ⟨t', ht', hcols', -⟩
        obtain rfl := Option.some.inj ht'
        exact absurd hcols' hcols
    · -- Only the second of the three answers breaks off.
      exact ⟨fun _ => ⟨t, rfl, hcols, hmissing⟩, fun _ => hbroken⟩
    · rw [hlabels]
      constructor
      · intro h
        cases h
      · rintro ⟨-, -, -, i, hi, hmissing⟩
        obtain ⟨r, hr⟩ := hrows i hi
        rw [hr] at hmissing
        cases hmissing

end Surrogate

end RuleVote
