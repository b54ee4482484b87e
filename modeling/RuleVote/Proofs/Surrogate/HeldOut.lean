import RuleVote.Proofs.Score.Folds
import RuleVote.Proofs.Sequence
import RuleVote.Proofs.Surrogate.Lifecycle
import RuleVote.Proofs.Surrogate.Unchecked
/-!
# Every row is held out once

The records of a cross-validation number its folds in order, and the rows that
they hold out are the tests of the folds (`holdsOut_of_crossValidate`), whatever
became of the evaluations. Each kind of surrogate cross-validates all of the
rows of its input, labeled or not (`SurrogateSettings.exists_crossValidate`), so
a surrogate that is trained has held every row out once, and so has one that
recalls a training (`Surrogate.Genuine.holdsOut`).
-/

namespace RuleVote

variable {input : SurrogateInput} {folds : Nat} {records : List FoldRecord}

/-! ## Records -/

/-- The records of a cross-validation with so many folds over so many rows:
there are none without folds, and otherwise they number the folds in order and
hold every row out once. -/
def HoldsOut (folds rows : Nat) (records : List FoldRecord) : Prop :=
  folds = 0 ∧ records = [] ∨
    2 ≤ folds ∧ folds ≤ rows ∧ records.map FoldRecord.fold = List.range folds ∧
      Partitions rows (records.map FoldRecord.heldOut)

theorem checkFolds_cases {rows : Nat} {k : Option Nat} (h : checkFolds folds rows = .ok k) :
    folds = 0 ∧ k = none ∨ 2 ≤ folds ∧ folds ≤ rows ∧ k = some folds := by
  rw [checkFolds] at h
  split_ifs at h with hzero hrange
  · exact .inl ⟨hzero, (Except.ok.inj h).symm⟩
  · exact .inr ⟨hrange.1, hrange.2, (Except.ok.inj h).symm⟩

/-- **A cross-validation that gets through holds every row out once**, whatever
became of its folds. -/
theorem holdsOut_of_crossValidate {rows seed : Nat} {strata : List Nat}
    {evaluate : Split → Fallible FoldScores} (hstrata : strata.length = rows)
    (h : crossValidate rows strata folds seed evaluate = .ok records) :
    HoldsOut folds rows records := by
  obtain ⟨k, hk, h⟩ := bind_eq_ok_iff.1 h
  rcases checkFolds_cases (liftFailure_eq_ok_iff.1 hk) with ⟨hzero, rfl⟩ | ⟨htwo, hle, rfl⟩
  · cases h
    exact .inl ⟨hzero, rfl⟩
  · obtain ⟨splits, hsplits, h⟩ := bind_eq_ok_iff.1 h
    obtain ⟨_, -, h⟩ := bind_eq_ok_iff.1 h
    have hsplits := liftFailure_eq_ok_iff.1 hsplits
    rw [StratifiedFolds.split] at hsplits
    split_ifs at hsplits
    obtain rfl := Except.ok.inj hsplits
    -- A record has the number and the held-out rows of its split, failed or not.
    have hrecord : ∀ (p : Split × Nat) (r : FoldRecord),
        (do return ⟨p.2, p.1.test, ← FoldOutcome.of (evaluate p.1)⟩ : Fallible FoldRecord) = .ok r →
          r.fold = p.2 ∧ r.heldOut = p.1.test := by
      intro p r hr
      obtain ⟨outcome, -, hr⟩ := bind_eq_ok_iff.1 hr
      obtain rfl := Except.ok.inj hr
      exact ⟨rfl, rfl⟩
    have hfold := map_of_mapM h fun p r hr => (hrecord p r hr).1
    have hheldOut : records.map FoldRecord.heldOut =
        (StratifiedFolds.splitRows _ strata).zipIdx.map (Split.test ∘ Prod.fst) :=
      map_of_mapM h fun p r hr => (hrecord p r hr).2
    rw [List.zipIdx_map_snd, StratifiedFolds.length_splitRows, ← List.range_eq_range'] at hfold
    rw [← List.map_map, List.zipIdx_map_fst] at hheldOut
    refine .inr ⟨htwo, hle, hfold, ?_⟩
    rw [hheldOut, ← hstrata]
    exact StratifiedFolds.partitions_splitRows (Nat.lt_of_lt_of_le Nat.zero_lt_two htwo)

/-! ## Rows and labels -/

theorem Matrix.rows_of_agrees {α : Type} [BEq α] {a b : Matrix α} (h : a.agrees b = true) :
    a.rows = b.rows := by
  simp only [agrees, Bool.and_eq_true, beq_iff_eq] at h
  exact h.1.1

/-- The number of rows that targets are for. -/
def Targets.rows : Targets → Nat
  | .hard labels => labels.length
  | .soft probabilities => probabilities.rows
  | .votes _ labels => labels.length

theorem Targets.rows_of_agrees {a b : Targets} (h : a.agrees b = true) : a.rows = b.rows := by
  cases a with
  | hard a =>
    cases b with
    | hard b => exact congrArg List.length (eq_of_beq h)
    | soft | votes => cases h
  | soft a =>
    cases b with
    | soft b => exact Matrix.rows_of_agrees h
    | hard | votes => cases h
  | votes a l =>
    cases b with
    | votes b m => exact congrArg List.length (eq_of_beq ((Bool.and_eq_true _ _).mp h).2)
    | hard | soft => cases h

namespace SurrogateInput

/-- Targets that are accepted are for as many rows. -/
theorem rows_of_checkTargets {targets : Targets} {rows classes : Nat}
    (h : checkTargets rows classes targets = .ok ()) : targets.rows = rows := by
  cases targets with
  | hard | soft =>
    obtain ⟨_, hrows, -⟩ := bind_eq_ok_iff.1 h
    exact rows_of_checkRows hrows
  | votes =>
    obtain ⟨_, -, h⟩ := bind_eq_ok_iff.1 h
    obtain ⟨_, hrows, -⟩ := bind_eq_ok_iff.1 h
    exact rows_of_checkRows hrows

theorem rows_of_agrees {a b : SurrogateInput} (h : a.agrees b = true) :
    a.features.rows = b.features.rows ∧ a.targets.rows = b.targets.rows := by
  simp only [agrees, Bool.and_eq_true] at h
  obtain ⟨⟨hfeatures, htargets⟩, -⟩ := h
  exact ⟨Matrix.rows_of_agrees hfeatures, Targets.rows_of_agrees htargets⟩

/-- Every row that targets are for has a label. -/
theorem length_referenceLabels {labels : List Int} (h : input.referenceLabels = .ok labels) :
    labels.length = input.targets.rows := by
  rw [referenceLabels] at h
  cases htargets : input.targets with
  | hard | votes =>
    rw [htargets] at h
    obtain rfl := Except.ok.inj h
    rfl
  | soft probabilities =>
    rw [htargets] at h
    obtain ⟨places, hplaces, h⟩ := bind_eq_ok_iff.1 h
    obtain ⟨rs, hrs, hplaces⟩ := bind_eq_ok_iff.1 hplaces
    obtain rfl := Except.ok.inj hplaces
    obtain rfl := Except.ok.inj h
    rw [List.length_map, List.length_map]
    exact (Matrix.shape_of_allRows hrs).1

end SurrogateInput

/-! ## Trainings -/

/-- The records of a training are those of its cross-validation. -/
theorem eq_ok_of_pair {α β : Type} {x : Fallible α} {y : Fallible β} {a : α} {b : β}
    (h : (do let a ← x; return (a, ← y)) = .ok (a, b)) : x = .ok a := by
  obtain ⟨a', hx, h⟩ := bind_eq_ok_iff.1 h
  obtain ⟨b', -, h⟩ := bind_eq_ok_iff.1 h
  cases h
  exact hx

/-- **Every kind of surrogate cross-validates all rows of its input**, by
strata of their labels. -/
theorem SurrogateSettings.exists_crossValidate {settings : SurrogateSettings} {m : SurrogateModel}
    (h : settings.train input folds = .ok (records, m)) :
    ∃ labels seed evaluate, input.referenceLabels = .ok labels ∧
      crossValidate input.features.rows (labels.map (stratum input.classes)) folds seed evaluate =
        .ok records := by
  cases settings with
  | closedForm settings =>
    obtain ⟨⟨records, m⟩, htrain, hresult⟩ := map_eq_ok_iff.1 h
    cases hresult
    obtain ⟨labels, hlabels, htrain⟩ := bind_eq_ok_iff.1 htrain
    dsimp only at htrain
    split_ifs at htrain
    · cases htrain
    · exact ⟨labels, _, _, hlabels, eq_ok_of_pair htrain⟩
  | neural settings =>
    obtain ⟨⟨records, m⟩, htrain, hresult⟩ := map_eq_ok_iff.1 h
    cases hresult
    obtain ⟨_, -, htrain⟩ := bind_eq_ok_iff.1 htrain
    obtain ⟨labels, hlabels, htrain⟩ := bind_eq_ok_iff.1 htrain
    dsimp only at htrain
    split_ifs at htrain
    · cases htrain
    · obtain ⟨targets, -, htrain⟩ := bind_eq_ok_iff.1 htrain
      exact ⟨labels, _, _, hlabels, eq_ok_of_pair htrain⟩
  | endToEnd settings =>
    obtain ⟨⟨records, m⟩, htrain, hresult⟩ := map_eq_ok_iff.1 h
    cases hresult
    obtain ⟨_, -, htrain⟩ := bind_eq_ok_iff.1 htrain
    -- Only hard labels are accepted here, and they are the reference labels.
    split at htrain
    · next votes labels htargets =>
      refine ⟨labels, _, _, ?_, eq_ok_of_pair htrain⟩
      rw [SurrogateInput.referenceLabels, htargets]
    · cases htrain

namespace Surrogate

variable {s s' : Surrogate}

theorem holdsOut_of_trainOnce {settings : SurrogateSettings} {t : Training}
    (hrows : input.targets.rows = input.features.rows)
    (h : trainOnce settings input folds = .ok t) :
    HoldsOut folds input.features.rows t.records := by
  obtain ⟨⟨records, m⟩, htrain, h⟩ := bind_eq_ok_iff.1 h
  obtain ⟨_, -, h⟩ := bind_eq_ok_iff.1 h
  obtain rfl := Except.ok.inj h
  obtain ⟨labels, seed, evaluate, hlabels, hrecords⟩ := settings.exists_crossValidate htrain
  refine holdsOut_of_crossValidate ?_ hrecords
  rw [List.length_map, SurrogateInput.length_referenceLabels hlabels, hrows]

/-- **A training holds every row out once**, also one that is recalled. -/
theorem Genuine.holdsOut (hs : s.Genuine) (hrows : input.targets.rows = input.features.rows)
    (h : s.train input folds = .ok (records, s')) :
    HoldsOut folds input.features.rows records := by
  rcases s.train_cases input folds with ⟨t, ht, his, hrecalled⟩ | htrain
  · -- the training that is recalled was one on as many rows
    obtain ⟨hfolds, hagrees⟩ := (Bool.and_eq_true _ _).mp his
    obtain ⟨hfeatures, htargets⟩ := SurrogateInput.rows_of_agrees hagrees
    rw [hrecalled] at h
    cases h
    have hheld := holdsOut_of_trainOnce (hfeatures ▸ htargets.trans hrows) (hs t ht)
    rwa [hfeatures, eq_of_beq hfolds] at hheld
  · obtain ⟨t, honce, hresult⟩ := map_eq_ok_iff.1 (htrain.symm.trans h)
    cases hresult
    exact holdsOut_of_trainOnce hrows honce

/-- **Cross-validation holds every row out once.** Whatever a surrogate was
called with before, the records that it gives for accepted input are those of
the folds asked for: they number the folds in order, and what they hold out is
every row of the input, labeled or not, and none twice. -/
theorem holds_out_once {settings : SurrogateSettings} {calls : List Call}
    {features : Matrix Float32} {targets : Targets} {classes : Nat}
    (haccepted : SurrogateInput.new features targets classes = .ok input)
    (h : ((new settings).after calls).train input folds = .ok (records, s')) :
    HoldsOut folds features.rows records := by
  obtain ⟨-, hcheck, rfl⟩ := SurrogateInput.new_eq_ok_iff.1 haccepted
  have hrows := SurrogateInput.rows_of_checkTargets hcheck
  exact ((genuine_new settings).after calls).1.holdsOut hrows h

/-- Two rows with labels and two without, where both folds fail: each is trained
on one label only. -/
theorem holds_out_once_failed :
    let settings : SurrogateSettings := .closedForm { ClosedFormSettings.standard with
      maxIterations := 0 }
    let features : Matrix Float32 := ⟨#[1, 2, 3, 4], 4, 1⟩
    let input : SurrogateInput := ⟨features, .hard [0, 1, -1, -1], 2⟩
    SurrogateInput.new features (.hard [0, 1, -1, -1]) 2 = .ok input ∧
      ∃ records s, ((new settings).after [⟨input, 0⟩]).train input 2 = .ok (records, s) ∧
        records.map FoldRecord.scores? = [none, none] ∧ HoldsOut 2 4 records := by
  intro settings features input
  have haccepted : SurrogateInput.new features (.hard [0, 1, -1, -1]) 2 = .ok input := rfl
  have htrains : (((new settings).after [⟨input, 0⟩]).train input 2).toOption.any (fun result =>
      result.1.map FoldRecord.scores? = [none, none]) = true := by decide +kernel
  obtain ⟨⟨records, s⟩, htrain, hfailed⟩ := exists_of_any htrains
  exact ⟨haccepted, records, s, htrain, of_decide_eq_true hfailed, holds_out_once haccepted htrain⟩

end Surrogate

end RuleVote
