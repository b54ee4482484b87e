import RuleVote.Proofs.Surrogate.Lifecycle
import RuleVote.Proofs.Surrogate.Retraining
/-!
# What a trained surrogate labels

Where there is room for it, training on accepted input does not break off, and what
it leaves has a label for every row of a matrix with as many columns
(`Surrogate.For.labels`), whatever the surrogate was called with before. Each label
is a class, as long as these are no more than labels of 32 bits can name. Without
room training does break off: the number of classes of an input has no bound
(`Surrogate.breaks_off_of_many_classes`).
-/

namespace RuleVote

namespace Surrogate

/-- A surrogate labels matrices with so many columns: it refuses any other
matrix, and has one label for every row of these that there is room for, each of
them a class unless there are too many classes. -/
structure Labels (s : Surrogate) (features classes : Nat) : Prop where
  refuses : ∀ x : Matrix Float32, x.cols ≠ features →
    s.predict x = fail (.shapeMismatch (toString features ++ " features")
      (toString x.cols ++ " features"))
  labels : ∀ x : Matrix Float32, x.WellShaped → x.cols = features →
    s.settings.Passes features classes x.rows → ∃ labels,
      s.predict x = .ok labels ∧ labels.length = x.rows ∧
        ∀ l ∈ labels, (classes ≤ Nat.pow 2 31 → 0 ≤ l) ∧ l < classes

variable {s : Surrogate} {calls : List Call} {input : SurrogateInput}

/-- **A model labels the features that it is for.** -/
theorem For.labels {features classes : Nat} (hs : s.For features classes) (hclasses : 0 < classes) :
    s.Labels features classes where
  refuses x hcols := by
    obtain ⟨m, hmodel, hpredict⟩ := hs.exists_model
    rw [hpredict]
    rcases hmodel.predict_cases x with ⟨-, hrefuses⟩ | ⟨hsame, -⟩ | ⟨hsame, -⟩
    · exact hrefuses
    · exact absurd hsame hcols
    · exact absurd hsame hcols
  labels x hx hcols _ := by
    have hsized : x.Sized x.rows features := hcols ▸ hx.sized
    obtain ⟨labels, hlabels, hlength⟩ := (hs.predict hclasses hsized).exists_ok
    exact ⟨labels, hlabels, hlength, fun l hl => hs.of_mem_predict hclasses hsized hlabels hl⟩

/-- **A surrogate is trained, or reports why not.** Whatever it was called with
before, training it on accepted input that there is room for does not break off, and
where it succeeds the surrogate labels matrices with as many columns. -/
theorem trains_or_reports (settings : SurrogateSettings) (calls : List Call)
    {features : Matrix Float32} {targets : Targets} {classes : Nat}
    (hfeatures : features.WellShaped) (htargets : targets.WellShaped)
    (haccepted : SurrogateInput.new features targets classes = .ok input)
    (hroom : settings.HasRoom input) (folds : Nat) :
    (∃ f, ((new settings).after calls).train input folds = fail f) ∨
      ∃ records s, ((new settings).after calls).train input folds = .ok (records, s) ∧
        s.settings = settings ∧ s.Labels features.cols classes := by
  obtain ⟨htwo, -, rfl⟩ := SurrogateInput.new_eq_ok_iff.1 haccepted
  have hvalid : SurrogateInput.Valid ⟨features, targets, classes⟩ :=
    SurrogateInput.valid_iff.2 ⟨hfeatures, htargets, haccepted⟩
  obtain ⟨hgenuine, hsettings⟩ := (genuine_new settings).after calls
  rcases (hgenuine.intact_train hvalid (hsettings.symm ▸ hroom) folds).cases with
    ⟨⟨records, s⟩, htrain, hmodel⟩ | ⟨f, htrain, -⟩
  · exact .inr ⟨records, s, htrain, (hgenuine.of_train htrain).2.trans hsettings,
      hmodel.labels (Nat.lt_of_lt_of_le Nat.zero_lt_two htwo)⟩
  · exact .inl ⟨f, htrain⟩

/-- A surrogate that is trained on one feature after a training that failed, and
labels a row of it. -/
theorem trains_or_reports_one_feature :
    let settings : SurrogateSettings := .closedForm { ClosedFormSettings.standard with
      maxIterations := 0 }
    let features : Matrix Float32 := ⟨#[1, 2], 2, 1⟩
    let input : SurrogateInput := ⟨features, .hard [0, 1], 2⟩
    let calls : List Call := [⟨⟨features, .hard [-1, -1], 2⟩, 0⟩]
    features.WellShaped ∧ Targets.WellShaped (.hard [0, 1]) ∧
      SurrogateInput.new features (.hard [0, 1]) 2 = .ok input ∧ settings.HasRoom input ∧
      ∃ records s label, ((new settings).after calls).train input 0 = .ok (records, s) ∧
        s.predict ⟨#[3], 1, 1⟩ = .ok [label] ∧ 0 ≤ label ∧ label < 2 := by
  intro settings features input calls
  have hfeatures : features.WellShaped := rfl
  have htargets : Targets.WellShaped (.hard [0, 1]) := trivial
  have haccepted : SurrogateInput.new features (.hard [0, 1]) 2 = .ok input := rfl
  have hroom : settings.HasRoom input := by decide
  have htrains : (((new settings).after calls).train input 0).toOption.any (fun _ => true) = true :=
    by decide +kernel
  obtain ⟨_, htrained, -⟩ := exists_of_any htrains
  rcases trains_or_reports settings calls hfeatures htargets haccepted hroom 0
    with ⟨f, hfailed⟩ | ⟨records, s, htrain, hsettings, hlabels⟩
  · rw [hfailed] at htrained
    cases htrained
  · have hpasses : settings.Passes 1 2 1 := by decide
    obtain ⟨labels, hpredict, hlength, hclasses⟩ :=
      hlabels.labels ⟨#[3], 1, 1⟩ rfl rfl (hsettings.symm ▸ hpasses)
    obtain ⟨label, rfl⟩ := List.length_eq_one_iff.1 hlength
    obtain ⟨hnonneg, hlt⟩ := hclasses label List.mem_cons_self
    exact ⟨hfeatures, htargets, haccepted, hroom, records, s, label, htrain, hpredict,
      hnonneg (by decide), hlt⟩

/-- **Without room training breaks off**: an input of two rows may ask for more
classes than any list can hold a number for. -/
theorem breaks_off_of_many_classes :
    let features : Matrix Float32 := ⟨#[1, 2], 2, 1⟩
    let input : SurrogateInput := ⟨features, .hard [0, 1], 18446744073709551615⟩
    features.WellShaped ∧ Targets.WellShaped (.hard [0, 1]) ∧
      SurrogateInput.new features (.hard [0, 1]) 18446744073709551615 = .ok input ∧
      ¬SurrogateSettings.standard.HasRoom input ∧
      (new .standard).train input 0 = .error .broken := by
  intro features input
  have hbroken : ((new .standard).train input 0).breaksOff = true := by decide +kernel
  exact ⟨rfl, trivial, rfl, by decide, Fallible.breaksOff_iff.1 hbroken⟩

end Surrogate

end RuleVote
