import RuleVote.Proofs.Surrogate.Unchecked
/-!
# Surrogates that are trained again

A surrogate that keeps only a genuine training is trained on valid input, or
recalls a training on input that agrees with it. Either way it has a model for
the features and classes of the input (`Surrogate.Genuine.for_of_train`), so it has
a label for every row of them. Where there is room for a training it does not break
off (`Surrogate.Genuine.intact_train`).
-/

namespace RuleVote

theorem Matrix.Sized.of_agrees {α : Type} [BEq α] {a b : Matrix α} {rows cols : Nat}
    (hb : b.Sized rows cols) (h : a.agrees b = true) : a.Sized rows cols := by
  simp only [agrees, Bool.and_eq_true, beq_iff_eq] at h
  obtain ⟨⟨hrows, hcols⟩, hdata⟩ := h
  exact ⟨hrows.trans hb.rows_eq, hcols.trans hb.cols_eq,
    (Array.size_eq_of_beq hdata).trans hb.size_eq⟩

theorem Targets.Fit.of_agrees {a b : Targets} {rows classes : Nat} (hb : b.Fit rows classes)
    (h : a.agrees b = true) : a.Fit rows classes := by
  cases a with
  | hard a =>
    cases b with
    | hard b => exact eq_of_beq h ▸ hb
    | soft | votes => cases h
  | soft a =>
    cases b with
    | soft b => exact Matrix.Sized.of_agrees hb h
    | hard | votes => cases h
  | votes a labels =>
    cases b with
    | votes b labels' =>
      obtain ⟨hvotes, hlabels⟩ := (Bool.and_eq_true _ _).mp h
      rw [Matrix.eq_of_agrees hvotes eq_of_beq, eq_of_beq hlabels]
      exact hb
    | hard | soft => cases h

/-- **What agrees with valid input is valid**, with the same features and
classes. -/
theorem SurrogateInput.Valid.of_agrees {a b : SurrogateInput} (hb : b.Valid)
    (h : a.agrees b = true) :
    a.Valid ∧ a.features.cols = b.features.cols ∧ a.classes = b.classes := by
  simp only [agrees, Bool.and_eq_true, beq_iff_eq] at h
  obtain ⟨⟨hfeatures, htargets⟩, hclasses⟩ := h
  have hsized := hb.features.sized.of_agrees hfeatures
  refine ⟨⟨hsized.wellShaped, ?_, hclasses ▸ hb.two_le⟩, hsized.cols_eq, hclasses⟩
  rw [hsized.rows_eq, hclasses]
  exact hb.targets.of_agrees htargets

namespace Surrogate

variable {s : Surrogate} {input : SurrogateInput} {folds : Nat}

/-- A surrogate has a model for so many features and classes. -/
def For (s : Surrogate) (features classes : Nat) : Prop :=
  ∃ t, s.training = some t ∧ t.model.For features classes

/-- **A surrogate that was trained on valid input has a model for it**, also one that
recalls a training. -/
theorem Genuine.for_of_train (hs : s.Genuine) (h : input.Valid) {records : List FoldRecord}
    {s' : Surrogate} (htrain : s.train input folds = .ok (records, s')) :
    s'.For input.features.cols input.classes := by
  have hgenuine := (hs.of_train htrain).1
  rcases s.train_cases input folds with ⟨t, ht, his, hrecalled⟩ | honce
  · -- the training that is recalled was one on input that agrees
    obtain ⟨-, hagrees⟩ := (Bool.and_eq_true _ _).mp his
    obtain ⟨hvalid, hcols, hclasses⟩ := h.of_agrees hagrees
    cases hrecalled.symm.trans htrain
    obtain ⟨classes, hmodel, hsame⟩ := hgenuine.exists_for ht
    rw [hsame hvalid, hcols, hclasses] at hmodel
    exact ⟨t, ht, hmodel⟩
  · obtain ⟨t, honce, hresult⟩ := map_eq_ok_iff.1 (honce.symm.trans htrain)
    cases hresult
    obtain ⟨hinput, -⟩ := trainOnce_input honce
    obtain ⟨classes, hmodel, hsame⟩ := hgenuine.exists_for rfl
    rw [hinput] at hmodel hsame
    rw [hsame h] at hmodel
    exact ⟨t, rfl, hmodel⟩

theorem intact_trainOnce (settings : SurrogateSettings) (h : input.Valid)
    (hroom : settings.HasRoom input) (folds : Nat) :
    Intact (trainOnce settings input folds) fun _ => True := by
  refine (settings.intact_train h hroom folds).bind ?_
  rintro ⟨records, model⟩ -
  exact h.referenceLabels.bind fun _ _ => .ok trivial

/-- **A surrogate is trained on valid input, or reports why not**, where there is room
for its training. -/
theorem Genuine.intact_train (hs : s.Genuine) (h : input.Valid)
    (hroom : s.settings.HasRoom input) (folds : Nat) : Intact (s.train input folds)
      fun result => result.2.For input.features.cols input.classes := by
  have hends : Intact (s.train input folds) fun _ => True := by
    rcases s.train_cases input folds with ⟨t, -, -, hrecalled⟩ | honce
    · exact .of_eq_ok hrecalled trivial
    · rw [honce]
      exact (intact_trainOnce s.settings h hroom folds).map fun _ _ => trivial
  exact hends.own_ok.imp fun result htrain => hs.for_of_train h htrain.1

variable {E : Failure → Prop} {x : Matrix Float32} {rows features classes : Nat}

/-- A trained surrogate predicts what its model predicts. -/
theorem For.exists_model (hs : s.For features classes) : ∃ m : SurrogateModel,
    m.For features classes ∧ ∀ x, s.predict x = m.predict x := by
  obtain ⟨t, ht, hmodel⟩ := hs
  refine ⟨t.model, hmodel, fun x => ?_⟩
  rw [Surrogate.predict, model, ht]
  rfl

/-- **A trained surrogate has a label for every row of its features.** -/
theorem For.predict (hs : s.For features classes) (hclasses : 0 < classes)
    (hx : x.Sized rows features) : Ends (s.predict x) E fun labels => labels.length = rows := by
  obtain ⟨m, hmodel, heq⟩ := hs.exists_model
  exact heq x ▸ hmodel.predict hclasses hx

/-- **The labels it predicts are labels of classes**, unless there are too many of
these. -/
theorem For.of_mem_predict (hs : s.For features classes) (hclasses : 0 < classes)
    (hx : x.Sized rows features) {labels : List Int} (h : s.predict x = .ok labels) {label : Int}
    (hlabel : label ∈ labels) : (classes ≤ Nat.pow 2 31 → 0 ≤ label) ∧ label < classes := by
  obtain ⟨m, hmodel, heq⟩ := hs.exists_model
  exact hmodel.of_mem_predict hclasses hx (heq x ▸ h) hlabel

end Surrogate

end RuleVote
