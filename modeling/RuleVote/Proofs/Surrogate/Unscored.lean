import RuleVote.Proofs.Matrix.Agreement
import RuleVote.Proofs.Score.Folds
import RuleVote.Proofs.Surrogate.HeldOut
import RuleVote.Proofs.Surrogate.Retraining
/-!
# Folds that cannot be scored

An evaluation can fail for many reasons, but most of them would have kept the
last model, which is trained on all rows, from being trained as well. What is
left when a surrogate is trained is that a fold has too few labels to train on
or none to be scored on (`Unscorable`), and that is decided by the labels of
the input and the rows held out. `ClosedFormModel.ends_evaluate` and its
siblings say so of one fold, `failed_iff_of_crossValidate` of all of them. A
training that is recalled had the same labels
(`SurrogateInput.referenceLabels_of_agrees`), so the records of a surrogate
that was called before are no different (`Surrogate.failed_iff_unscorable`).
-/

namespace RuleVote

variable {input : SurrogateInput} {folds : Nat} {records : List FoldRecord}

/-! ## Folds -/

/-- The rows that are left to train on where some rows are held out. -/
def remaining (rows : Nat) (heldOut : List Nat) : List Nat :=
  (List.range rows).filter fun i => i ∉ heldOut

/-- A fold cannot be scored: no row that it holds out has a label, or the rows
that are left have too few of them. -/
def Unscorable (kind : SurrogateKind) (labels : List Int) (heldOut : List Nat) : Prop :=
  let left := labelsAmong labels (remaining labels.length heldOut)
  match kind with
  | .closedForm => left.card < 2 ∨ labelsAmong labels heldOut = ∅
  | .neural => left = ∅ ∨ labelsAmong labels heldOut = ∅
  | .endToEnd => labelsAmong labels heldOut = ∅

instance (kind : SurrogateKind) (labels : List Int) (heldOut : List Nat) :
    Decidable (Unscorable kind labels heldOut) :=
  match kind with
  | .closedForm => inferInstanceAs (Decidable (_ ∨ _))
  | .neural => inferInstanceAs (Decidable (_ ∨ _))
  | .endToEnd => inferInstanceAs (Decidable (_ = _))

/-- A fold of so many rows: it trains on what it does not hold out. -/
structure Split.Divides (split : Split) (rows : Nat) : Prop extends split.Within rows where
  train_eq : split.train = remaining rows split.test
  train_ne_nil : split.train ≠ []

theorem StratifiedFolds.divides_of_mem_splitRows {f : StratifiedFolds} {y : List Nat}
    (hsplits : 2 ≤ f.splits) (hrows : f.splits ≤ y.length) {split : Split}
    (h : split ∈ f.splitRows y) : split.Divides y.length where
  toWithin := within_of_mem_splitRows h
  train_eq := by
    obtain ⟨_, -, -, htrain⟩ := mem_splitRows h
    exact htrain
  train_ne_nil := train_ne_nil hsplits hrows h

/-- An outcome is a failure where the evaluation is. -/
theorem FoldOutcome.failed_iff {C : Prop} {scores : Fallible FoldScores} {outcome : FoldOutcome}
    (hends : Ends scores (fun _ => C) fun _ => ¬C) (h : FoldOutcome.of scores = .ok outcome) :
    (∃ reason, outcome = .failed reason) ↔ C := by
  obtain ⟨s, rfl, hC⟩ | ⟨f, rfl, hC⟩ := hends.cases
  · obtain rfl := Except.ok.inj h
    exact iff_of_false (fun ⟨_, h⟩ => nomatch h) hC
  · obtain rfl := Except.ok.inj h
    exact iff_of_true ⟨_, rfl⟩ hC

/-- **The folds that fail are those whose evaluation does.** -/
theorem failed_iff_of_crossValidate {rows seed : Nat} {strata : List Nat}
    {evaluate : Split → Fallible FoldScores} {C : List Nat → Prop} (hstrata : strata.length = rows)
    (hevaluate : ∀ split, split.Divides rows →
      Ends (evaluate split) (fun _ => C split.test) fun _ => ¬C split.test)
    (h : crossValidate rows strata folds seed evaluate = .ok records) :
    ∀ r ∈ records, (∃ reason, r.outcome = .failed reason) ↔ C r.heldOut := by
  obtain ⟨k, hk, h⟩ := bind_eq_ok_iff.1 h
  rcases checkFolds_cases (liftFailure_eq_ok_iff.1 hk) with ⟨-, rfl⟩ | ⟨htwo, hle, rfl⟩
  · cases h
    exact fun _ hr => (List.not_mem_nil hr).elim
  · obtain ⟨splits, hsplits, h⟩ := bind_eq_ok_iff.1 h
    obtain ⟨_, -, h⟩ := bind_eq_ok_iff.1 h
    have hsplits := liftFailure_eq_ok_iff.1 hsplits
    rw [StratifiedFolds.split] at hsplits
    split_ifs at hsplits
    obtain rfl := Except.ok.inj hsplits
    intro r hr
    obtain ⟨⟨split, fold⟩, hmem, hr⟩ := exists_of_mem_mapM h hr
    obtain ⟨outcome, houtcome, hr⟩ := bind_eq_ok_iff.1 hr
    obtain rfl := Except.ok.inj hr
    have hdivides := StratifiedFolds.divides_of_mem_splitRows htwo (hstrata.symm ▸ hle)
      (List.fst_mem_of_mem_zipIdx hmem)
    exact FoldOutcome.failed_iff (hevaluate split (hstrata ▸ hdivides)) houtcome

/-! ## Kinds of surrogates -/

namespace ClosedFormModel

theorem failed_iff_of_train {settings : ClosedFormSettings} {m : ClosedFormModel}
    (h : input.Valid) (htrain : train settings input folds = .ok (records, m)) :
    ∃ labels, input.referenceLabels = .ok labels ∧
      ∀ r ∈ records, (∃ reason, r.outcome = .failed reason) ↔
        Unscorable .closedForm labels r.heldOut := by
  obtain ⟨labels, hlabels, htrain⟩ := bind_eq_ok_iff.1 htrain
  obtain ⟨hlength, hbelow⟩ := (h.referenceLabels (E := fun _ => True)).of_ok hlabels
  dsimp only at htrain
  split_ifs at htrain
  · cases htrain
  · obtain ⟨records, hrecords, htrain⟩ := bind_eq_ok_iff.1 htrain
    obtain ⟨m, hfit, htrain⟩ := bind_eq_ok_iff.1 htrain
    cases htrain
    obtain ⟨x, hx, hfit⟩ := bind_eq_ok_iff.1 hfit
    obtain ⟨_, -, hfit⟩ := bind_eq_ok_iff.1 hfit
    -- The model was fitted to all rows, so the settings themselves fail no fold.
    obtain ⟨hroom, hvalid⟩ := hasRoom_of_fit hfit
    rw [(Matrix.sized_of_selectRows hx).cols_eq] at hroom
    refine ⟨labels, hlabels, failed_iff_of_crossValidate ((List.length_map _).trans hlength)
      (fun split hsplit => ?_) hrecords⟩
    have hends := ends_evaluate settings hroom h hlength hbelow hsplit.toWithin
    have hiff : Unscorable .closedForm labels split.test ↔
        ¬(1 < (labelsAmong labels split.train).card ∧ labelsAmong labels split.test ≠ ∅) := by
      rw [Unscorable, hlength, ← hsplit.train_eq, not_and_or, not_not, Nat.not_lt]
      exact or_congr_left Nat.lt_succ_iff
    rw [hiff]
    exact hends.mono (fun _ hfail hscored => hfail ⟨hvalid, hscored⟩) fun _ => not_not_intro

end ClosedFormModel

namespace NeuralModel

theorem failed_iff_of_train {settings : NeuralSettings} {m : NeuralModel} (h : input.Valid)
    (htrain : train settings input folds = .ok (records, m)) :
    ∃ labels, input.referenceLabels = .ok labels ∧
      ∀ r ∈ records, (∃ reason, r.outcome = .failed reason) ↔
        Unscorable .neural labels r.heldOut := by
  obtain ⟨_, -, htrain⟩ := bind_eq_ok_iff.1 htrain
  obtain ⟨labels, hlabels, htrain⟩ := bind_eq_ok_iff.1 htrain
  obtain ⟨hlength, hbelow⟩ := (h.referenceLabels (E := fun _ => True)).of_ok hlabels
  dsimp only at htrain
  split_ifs at htrain
  · cases htrain
  · obtain ⟨targets, htargets, htrain⟩ := bind_eq_ok_iff.1 htrain
    obtain ⟨records, hrecords, htrain⟩ := bind_eq_ok_iff.1 htrain
    obtain ⟨m, hfit, htrain⟩ := bind_eq_ok_iff.1 htrain
    cases htrain
    have htargets := h.sized_softTargets htargets
    obtain ⟨x, hx, hfit⟩ := bind_eq_ok_iff.1 hfit
    obtain ⟨t, ht, hfit⟩ := bind_eq_ok_iff.1 hfit
    obtain ⟨hroom, hsuit⟩ := hasRoom_of_fit hfit
    rw [(Matrix.sized_of_selectRows hx).cols_eq, (Matrix.sized_of_selectRows ht).cols_eq,
      htargets.cols_eq] at hroom hsuit
    refine ⟨labels, hlabels, failed_iff_of_crossValidate ((List.length_map _).trans hlength)
      (fun split hsplit => ?_) hrecords⟩
    have hends := ends_evaluate settings hroom h htargets hlength hbelow hsplit.toWithin
    have hiff : Unscorable .neural labels split.test ↔
        ¬(labelsAmong labels split.train ≠ ∅ ∧ labelsAmong labels split.test ≠ ∅) := by
      rw [Unscorable, hlength, ← hsplit.train_eq, not_and_or, not_not, not_not]
    rw [hiff]
    exact hends.mono (fun _ hfail hscored => hfail ⟨hsuit, hscored⟩) fun _ => not_not_intro

end NeuralModel

namespace EndToEndModel

theorem failed_iff_of_train {settings : EndToEndSettings} {m : EndToEndModel} (h : input.Valid)
    (htrain : train settings input folds = .ok (records, m)) :
    ∃ labels, input.referenceLabels = .ok labels ∧
      ∀ r ∈ records, (∃ reason, r.outcome = .failed reason) ↔
        Unscorable .endToEnd labels r.heldOut := by
  obtain ⟨_, -, htrain⟩ := bind_eq_ok_iff.1 htrain
  split at htrain
  · next votes labels htargets =>
    have hfits : Targets.Fit _ _ (.votes votes labels) := htargets ▸ h.targets
    obtain ⟨-, -, hlength, -⟩ := hfits
    obtain ⟨records, hrecords, htrain⟩ := bind_eq_ok_iff.1 htrain
    obtain ⟨m, hfit, htrain⟩ := bind_eq_ok_iff.1 htrain
    cases htrain
    obtain ⟨hroom, hsuit⟩ := hasRoom_of_fit hfit
    refine ⟨labels, by rw [SurrogateInput.referenceLabels, htargets],
      failed_iff_of_crossValidate ((List.length_map _).trans hlength)
        (fun split hsplit => ?_) hrecords⟩
    have hends := ends_evaluate settings hroom h htargets hsplit.toWithin
    exact hends.mono (fun _ hfail => not_not.1 fun hscored =>
      hfail ⟨hsuit, hsplit.train_ne_nil, hscored⟩) fun _ => id
  · cases htrain

end EndToEndModel

/-- **The folds that fail are those that cannot be scored**, for any kind of
surrogate. -/
theorem SurrogateSettings.failed_iff_of_train {settings : SurrogateSettings} {m : SurrogateModel}
    (h : input.Valid) (htrain : settings.train input folds = .ok (records, m)) :
    ∃ labels, input.referenceLabels = .ok labels ∧
      ∀ r ∈ records, (∃ reason, r.outcome = .failed reason) ↔
        Unscorable settings.kind labels r.heldOut := by
  cases settings with
  | closedForm settings =>
    obtain ⟨_, hmodel, hresult⟩ := map_eq_ok_iff.1 htrain
    cases hresult
    exact ClosedFormModel.failed_iff_of_train h hmodel
  | neural settings =>
    obtain ⟨_, hmodel, hresult⟩ := map_eq_ok_iff.1 htrain
    cases hresult
    exact NeuralModel.failed_iff_of_train h hmodel
  | endToEnd settings =>
    obtain ⟨_, hmodel, hresult⟩ := map_eq_ok_iff.1 htrain
    cases hresult
    exact EndToEndModel.failed_iff_of_train h hmodel

/-! ## Surrogates -/

/-- **Inputs that agree have the same labels.** -/
theorem SurrogateInput.referenceLabels_of_agrees {a b : SurrogateInput} (h : a.agrees b = true) :
    a.referenceLabels = b.referenceLabels := by
  simp only [agrees, Bool.and_eq_true] at h
  obtain ⟨⟨-, htargets⟩, -⟩ := h
  rw [referenceLabels, referenceLabels]
  cases ha : a.targets with
  | hard labels =>
    cases hb : b.targets with
    | hard labels' =>
      rw [ha, hb] at htargets
      rw [eq_of_beq htargets]
    | soft | votes =>
      rw [ha, hb] at htargets
      cases htargets
  | soft probabilities =>
    cases hb : b.targets with
    | soft probabilities' =>
      rw [ha, hb] at htargets
      dsimp only
      rw [Matrix.argmaxRows_of_agrees htargets]
    | hard | votes =>
      rw [ha, hb] at htargets
      cases htargets
  | votes cast labels =>
    cases hb : b.targets with
    | votes cast' labels' =>
      rw [ha, hb] at htargets
      rw [eq_of_beq ((Bool.and_eq_true _ _).mp htargets).2]
    | hard | soft =>
      rw [ha, hb] at htargets
      cases htargets

namespace Surrogate

variable {s s' : Surrogate}

theorem failed_iff_of_trainOnce {settings : SurrogateSettings} {t : Training} (h : input.Valid)
    (honce : trainOnce settings input folds = .ok t) :
    ∃ labels, input.referenceLabels = .ok labels ∧
      ∀ r ∈ t.records, (∃ reason, r.outcome = .failed reason) ↔
        Unscorable settings.kind labels r.heldOut := by
  obtain ⟨⟨records, m⟩, htrain, honce⟩ := bind_eq_ok_iff.1 honce
  obtain ⟨_, -, honce⟩ := bind_eq_ok_iff.1 honce
  obtain rfl := Except.ok.inj honce
  exact settings.failed_iff_of_train h htrain

/-- The folds that fail are those that cannot be scored, also of a training that
is recalled. -/
theorem Genuine.failed_iff (hs : s.Genuine) (h : input.Valid)
    (htrain : s.train input folds = .ok (records, s')) :
    ∃ labels, input.referenceLabels = .ok labels ∧
      ∀ r ∈ records, (∃ reason, r.outcome = .failed reason) ↔
        Unscorable s.settings.kind labels r.heldOut := by
  rcases s.train_cases input folds with ⟨t, ht, his, hrecalled⟩ | honce
  · -- the training that is recalled was one on the same labels
    obtain ⟨-, hagrees⟩ := (Bool.and_eq_true _ _).mp his
    rw [hrecalled] at htrain
    cases htrain
    rw [← SurrogateInput.referenceLabels_of_agrees hagrees]
    exact failed_iff_of_trainOnce (h.of_agrees hagrees).1 (hs t ht)
  · obtain ⟨t, honce, hresult⟩ := map_eq_ok_iff.1 (honce.symm.trans htrain)
    cases hresult
    exact failed_iff_of_trainOnce h honce

/-- **A fold fails exactly when it cannot be scored.** Whatever a surrogate was
called with before, a fold of a training on accepted input is recorded as failed
if and only if it is `Unscorable` by the labels of the input. -/
theorem failed_iff_unscorable {settings : SurrogateSettings} {calls : List Call}
    {features : Matrix Float32} {targets : Targets} {classes : Nat}
    (hfeatures : features.WellShaped) (htargets : targets.WellShaped)
    (haccepted : SurrogateInput.new features targets classes = .ok input)
    (htrain : ((new settings).after calls).train input folds = .ok (records, s')) :
    ∃ labels, input.referenceLabels = .ok labels ∧ labels.length = features.rows ∧
      ∀ r ∈ records, (∃ reason, r.outcome = .failed reason) ↔
        Unscorable settings.kind labels r.heldOut := by
  obtain ⟨-, -, rfl⟩ := SurrogateInput.new_eq_ok_iff.1 haccepted
  have hvalid : SurrogateInput.Valid ⟨features, targets, classes⟩ :=
    SurrogateInput.valid_iff.2 ⟨hfeatures, htargets, haccepted⟩
  obtain ⟨hgenuine, hsettings⟩ := (genuine_new settings).after calls
  obtain ⟨labels, hlabels, hfailed⟩ := hgenuine.failed_iff hvalid htrain
  rw [hsettings] at hfailed
  exact ⟨labels, hlabels, ((hvalid.referenceLabels (E := fun _ => True)).of_ok hlabels).1, hfailed⟩

/-- Three rows in three folds, all of which fail: two leave rows of one label
only to train on, and the third holds out a row without a label. -/
theorem failed_iff_unscorable_three :
    let settings : SurrogateSettings := .closedForm { ClosedFormSettings.standard with
      maxIterations := 0 }
    let features : Matrix Float32 := ⟨#[1, 2, 3], 3, 1⟩
    let input : SurrogateInput := ⟨features, .hard [0, 1, -1], 2⟩
    features.WellShaped ∧ Targets.WellShaped (.hard [0, 1, -1]) ∧
      SurrogateInput.new features (.hard [0, 1, -1]) 2 = .ok input ∧
      ∃ records s, ((new settings).after []).train input 3 = .ok (records, s) ∧
        records.map FoldRecord.scores? = [none, none, none] ∧
        ∀ r ∈ records, (∃ reason, r.outcome = .failed reason) ↔
          Unscorable .closedForm [0, 1, -1] r.heldOut := by
  intro settings features input
  have hfeatures : features.WellShaped := rfl
  have htargets : Targets.WellShaped (.hard [0, 1, -1]) := trivial
  have haccepted : SurrogateInput.new features (.hard [0, 1, -1]) 2 = .ok input := rfl
  have htrains : (((new settings).after []).train input 3).toOption.any (fun result =>
      result.1.map FoldRecord.scores? = [none, none, none]) = true := by decide +kernel
  obtain ⟨⟨records, s⟩, htrain, hscores⟩ := exists_of_any htrains
  obtain ⟨labels, hlabels, -, hfailed⟩ :=
    failed_iff_unscorable hfeatures htargets haccepted htrain
  obtain rfl := Except.ok.inj hlabels
  exact ⟨hfeatures, htargets, haccepted, records, s, htrain, of_decide_eq_true hscores, hfailed⟩

end Surrogate

end RuleVote
