import RuleVote.Proofs.Learn.RowWise
import RuleVote.Proofs.Surrogate.Lifecycle
import RuleVote.Proofs.Surrogate.Retraining
import RuleVote.Proofs.Voter.RowWise
/-!
# What is said of one item

The probabilities and the label that an item gets do not depend on which other
items are asked about: it comes to the same to ask about some of the rows of a
matrix, in any order and any number of times, and to take these rows of the answer
about all (`StandsAlone`). This holds of both voters, where their ties abstain, and
of surrogates that were trained on hard labels or on all votes, whatever the calls
were that trained them (`predictions_stand_alone`). It does not hold of surrogates
that average masked passes: the masks are drawn for all rows together.
-/

namespace RuleVote

open RuleVote.Matrix

/-- Probabilities and labels are those that a row has on its own. -/
structure StandsAlone {α : Type} (probabilities : Matrix α → Fallible (Matrix Float32))
    (labels : Matrix α → Fallible (List Int)) : Prop where
  probabilities : RowWise probabilities
  labels : RowWiseLabels labels

namespace SurrogateModel

variable {m : SurrogateModel} {features classes : Nat}

theorem For.rowWise_probabilities (hm : m.For features classes) (hkind : ∀ n, m ≠ .neural n) :
    RowWise m.probabilities := by
  cases m with
  | closedForm m =>
    exact m.units.rowWise_transform.bind
      (ClosedFormModel.For.regression hm).rowWise_probabilities
  | neural m => exact absurd rfl (hkind m)
  | endToEnd m => exact m.units.rowWise_transform.bind m.network.rowWise_probabilities

/-- The label of a row is its most probable one. -/
theorem For.standsAlone (hm : m.For features classes) (hkind : ∀ n, m ≠ .neural n) :
    StandsAlone m.probabilities m.predict := by
  have hprobabilities := hm.rowWise_probabilities hkind
  have hsame : m.predict = fun x => do
      return (← (← m.probabilities x).allRows).map (classLabel ∘ argmax) := by
    funext x
    simp only [SurrogateModel.predict, argmaxRows, bind_assoc, pure_bind, List.map_map]
  exact ⟨hprobabilities, hsame ▸ hprobabilities.labels _⟩

end SurrogateModel

namespace Surrogate

variable {s : Surrogate}

/-- A training leaves a model of the kind of the settings. -/
theorem model_of_trainOnce {settings : SurrogateSettings} {input : SurrogateInput} {folds : Nat}
    {t : Training} (h : trainOnce settings input folds = .ok t)
    (hkind : settings.kind ≠ .neural) : ∀ n, t.model ≠ .neural n := by
  obtain ⟨⟨records, m⟩, htrain, h⟩ := bind_eq_ok_iff.1 h
  obtain ⟨reference, -, h⟩ := bind_eq_ok_iff.1 h
  obtain rfl := Except.ok.inj h
  cases settings with
  | closedForm settings =>
    obtain ⟨_, -, hpair⟩ := map_eq_ok_iff.1 htrain
    cases hpair
    exact nofun
  | neural settings => exact absurd rfl hkind
  | endToEnd settings =>
    obtain ⟨_, -, hpair⟩ := map_eq_ok_iff.1 htrain
    cases hpair
    exact nofun

/-- **A surrogate answers for each row on its own**, trained or not. -/
theorem Genuine.standsAlone (hs : s.Genuine) (hkind : s.settings.kind ≠ .neural) :
    StandsAlone s.probabilities s.predict := by
  cases htraining : s.training with
  | none =>
    have hfails : ∀ x, s.probabilities x = fail (.wrongState "trained" "untrained") ∧
        s.predict x = fail (.wrongState "trained" "untrained") := by
      intro x
      rw [probabilities, predict, model, htraining]
      exact ⟨rfl, rfl⟩
    constructor
    · intro x p hp
      cases (hfails x).1.symm.trans hp
    · intro x labels hlabels
      cases (hfails x).2.symm.trans hlabels
  | some t =>
    obtain ⟨classes, hmodel, -⟩ := hs.exists_for htraining
    have hprobabilities : s.probabilities = t.model.probabilities := by
      funext x
      rw [probabilities, model, htraining]
      rfl
    have hpredict : s.predict = t.model.predict := funext (predict_of_training htraining)
    rw [hprobabilities, hpredict]
    exact hmodel.standsAlone (model_of_trainOnce (hs t htraining) hkind)

end Surrogate

/-- **What is said of one item does not depend on the others.** It does not for the
majority, for a noise model, fitted or not, and for a surrogate after any calls to
train it, unless it averages masked passes. -/
theorem predictions_stand_alone :
    (∀ classes seed stream, StandsAlone (majorityProbabilities classes) fun votes =>
      majorityProbabilities classes votes >>= labelsFrom .abstain seed stream) ∧
    (∀ m : NoiseModel, m.Built → ∀ seed stream, StandsAlone m.probabilities fun votes =>
      m.probabilities votes >>= labelsFrom .abstain seed stream) ∧
    ∀ (settings : SurrogateSettings) (calls : List Surrogate.Call), settings.kind ≠ .neural →
      StandsAlone ((Surrogate.new settings).after calls).probabilities
        ((Surrogate.new settings).after calls).predict := by
  refine ⟨fun classes seed stream => ?_, fun m hm seed stream => ?_, fun settings calls hkind => ?_⟩
  · have hmajority := rowWise_majorityProbabilities classes
    exact ⟨hmajority, rowWise_labelsFrom hmajority seed stream⟩
  · have hmodel := hm.sized.rowWise_probabilities
    exact ⟨hmodel, rowWise_labelsFrom hmodel seed stream⟩
  · obtain ⟨hgenuine, hsettings⟩ := (Surrogate.genuine_new settings).after calls
    exact hgenuine.standsAlone (hsettings ▸ hkind)

/-- Three rows of three, one of them twice: a noise model that was fitted to their
votes, and a surrogate that was trained on two of them. -/
theorem predictions_stand_alone_repeated :
    let indices := [2, 0, 2]
    let votes : Matrix Int := ⟨#[0, 0, 1, -1, 1, 0], 3, 2⟩
    let settings : SurrogateSettings := .closedForm { ClosedFormSettings.standard with
      maxIterations := 0 }
    let calls : List Surrogate.Call := [⟨⟨⟨#[1, 2], 2, 1⟩, .hard [0, 1], 2⟩, 0⟩]
    let x : Matrix Float32 := ⟨#[1, 2, 3], 3, 1⟩
    settings.kind ≠ .neural ∧ (∃ shares shares' votes', votes.selectRows indices = .ok votes' ∧
      majorityProbabilities 2 votes = .ok shares ∧ majorityProbabilities 2 votes' = .ok shares' ∧
        shares.selectRows indices = .ok shares') ∧
    (∃ m p p' votes', (NoiseModel.new 2 2).fit votes 10 0 = .ok m ∧ m.Built ∧
      votes.selectRows indices = .ok votes' ∧ m.probabilities votes = .ok p ∧
        m.probabilities votes' = .ok p' ∧ p.selectRows indices = .ok p') ∧
    ∃ labels labels' x', ((Surrogate.new settings).after calls).predict x = .ok labels ∧
      ((Surrogate.new settings).after calls).predict x' = .ok labels' ∧
        x.selectRows indices = .ok x' ∧ Picks indices labels labels' := by
  intro indices votes settings calls x
  have hkind : settings.kind ≠ .neural := by decide
  have hindices : ∀ i ∈ indices, i < 3 := by decide
  have hvotes : votes.WellShaped := by decide
  have hvalid : ∀ v ∈ votes.data.toList, v = abstain ∨ 0 ≤ v ∧ v < (2 : Nat) := by decide
  obtain ⟨hmajority, hnoise, hsurrogate⟩ := predictions_stand_alone
  refine ⟨hkind, ?_, ?_, ?_⟩
  · obtain ⟨p, hp, -⟩ := exists_majorityProbabilities hvotes hvalid
    obtain ⟨votes', p', hvotes', hp', hpp'⟩ :=
      ((hmajority 2 0 (.ofSeed 0)).probabilities hp).2 indices hindices
    exact ⟨p, p', votes', hvotes', hp, hp', hpp'⟩
  · obtain ⟨m, hm, hsized, hsame⟩ := NoiseModel.exists_fit (m := .new 2 2) hvotes rfl hvalid 10 0
    obtain ⟨p, hp, -⟩ := NoiseModel.exists_probabilities hsized hvotes hsame.2.symm
      (hsame.1 ▸ hvalid)
    have hbuilt : m.Built := (NoiseModel.Built.new 2 2).fit hm
    obtain ⟨votes', p', hvotes', hp', hpp'⟩ :=
      ((hnoise m hbuilt 0 (.ofSeed 0)).probabilities hp).2 indices hindices
    exact ⟨m, p, p', votes', hm, hbuilt, hvotes', hp, hp', hpp'⟩
  · let input : SurrogateInput := ⟨⟨#[1, 2], 2, 1⟩, .hard [0, 1], 2⟩
    have hinput : input.Valid := SurrogateInput.valid_iff.2 ⟨by decide, trivial, rfl⟩
    have htrains :
        ((Surrogate.new settings).train input 0).toOption.any (fun _ => true) = true := by
      decide +kernel
    obtain ⟨⟨records, s⟩, htrain, -⟩ := exists_of_any htrains
    have hmodel : s.For 1 2 := (Surrogate.genuine_new settings).for_of_train hinput htrain
    have hafter : (Surrogate.new settings).after calls = s :=
      congrArg Prod.snd (Surrogate.run_of_ok htrain)
    have hx : x.Sized 3 1 := ⟨rfl, rfl, rfl⟩
    obtain ⟨labels, hlabels, -⟩ := (hmodel.predict Nat.zero_lt_two hx).exists_ok
    rw [← hafter] at hlabels
    obtain ⟨x', labels', hx', hlabels', hpicks⟩ :=
      ((hsurrogate settings calls hkind).labels hlabels).2 indices hindices
    exact ⟨labels, labels', x', hlabels, hlabels', hx', hpicks⟩

end RuleVote
