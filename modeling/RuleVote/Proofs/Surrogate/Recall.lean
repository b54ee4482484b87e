import RuleVote.Proofs.Number.Order
import RuleVote.Surrogate.Basic
/-!
# Recalled trainings

A surrogate recalls its last training where the input agrees with the one it
was trained on. What agrees is equal, the negative zero apart
(`SurrogateInput.eq_of_agrees`), and a training that is kept is the one that
its own settings and input give (`Surrogate.Genuine`). So recalling a training
and repeating it come to the same (`Surrogate.train_eq`).
-/

namespace RuleVote

/-! ## What agrees -/

/-- The numbers that the settings of a network hold. -/
def NetworkSettings.numbers (s : NetworkSettings) : List Float32 := [s.dropout, s.learningRate]

/-- The numbers that settings hold. -/
def SurrogateSettings.numbers : SurrogateSettings → List Float32
  | .closedForm s => [s.c, s.learningRate]
  | .neural s => s.network.numbers
  | .endToEnd s => s.temperature :: s.network.numbers

/-- The numbers that targets hold. -/
def Targets.numbers : Targets → List Float32
  | .soft probabilities => probabilities.data.toList
  | .hard _ | .votes _ _ => []

/-- The numbers that an input holds. -/
def SurrogateInput.numbers (input : SurrogateInput) : List Float32 :=
  input.features.data.toList ++ input.targets.numbers

theorem NetworkSettings.eq_of_agrees {a b : NetworkSettings} (h : a.agrees b = true)
    (ha : negativeZero ∉ a.numbers) (hb : negativeZero ∉ b.numbers) : a = b := by
  simp only [agrees, Bool.and_eq_true, beq_iff_eq] at h
  obtain ⟨⟨⟨⟨⟨hhidden, hdropout⟩, hrate⟩, hbatch⟩, hepochs⟩, hseed⟩ := h
  simp only [numbers, List.mem_cons, List.not_mem_nil, or_false, not_or, ← ne_eq] at ha hb
  have hdropout := single_eq_of_beq hdropout ha.1.symm hb.1.symm
  have hrate := single_eq_of_beq hrate ha.2.symm hb.2.symm
  cases a
  cases b
  simp only at hhidden hdropout hrate hbatch hepochs hseed
  rw [hhidden, hdropout, hrate, hbatch, hepochs, hseed]

/-- **Settings that agree are equal**, unless they hold a negative zero. -/
theorem SurrogateSettings.eq_of_agrees {a b : SurrogateSettings} (h : a.agrees b = true)
    (ha : negativeZero ∉ a.numbers) (hb : negativeZero ∉ b.numbers) : a = b := by
  cases a with
  | closedForm a =>
    cases b with
    | closedForm b =>
      simp only [agrees, Bool.and_eq_true, beq_iff_eq] at h
      obtain ⟨⟨⟨hc, hrate⟩, hsteps⟩, hseed⟩ := h
      simp only [numbers, List.mem_cons, List.not_mem_nil, or_false, not_or, ← ne_eq] at ha hb
      have hc := single_eq_of_beq hc ha.1.symm hb.1.symm
      have hrate := single_eq_of_beq hrate ha.2.symm hb.2.symm
      cases a
      cases b
      simp only at hc hrate hsteps hseed
      rw [hc, hrate, hsteps, hseed]
    | neural | endToEnd => cases h
  | neural a =>
    cases b with
    | neural b =>
      simp only [agrees, Bool.and_eq_true, beq_iff_eq] at h
      obtain ⟨⟨hnetwork, hpasses⟩, hseed⟩ := h
      have hnetwork := NetworkSettings.eq_of_agrees hnetwork ha hb
      cases a
      cases b
      simp only at hnetwork hpasses hseed
      rw [hnetwork, hpasses, hseed]
    | closedForm | endToEnd => cases h
  | endToEnd a =>
    cases b with
    | endToEnd b =>
      simp only [agrees, Bool.and_eq_true, beq_iff_eq] at h
      obtain ⟨⟨⟨hnetwork, htemperature⟩, hroot⟩, hseed⟩ := h
      simp only [numbers, List.mem_cons, not_or, ← ne_eq] at ha hb
      have hnetwork := NetworkSettings.eq_of_agrees hnetwork ha.2 hb.2
      have htemperature := single_eq_of_beq htemperature ha.1.symm hb.1.symm
      cases a
      cases b
      simp only at hnetwork htemperature hroot hseed
      rw [hnetwork, htemperature, hroot, hseed]
    | closedForm | neural => cases h

theorem Targets.eq_of_agrees {a b : Targets} (h : a.agrees b = true)
    (ha : negativeZero ∉ a.numbers) (hb : negativeZero ∉ b.numbers) : a = b := by
  cases a with
  | hard a =>
    cases b with
    | hard b => rw [eq_of_beq h]
    | soft | votes => cases h
  | soft a =>
    cases b with
    | soft b => rw [Matrix.eq_of_agrees h fun heq => singles_eq_of_beq heq ha hb]
    | hard | votes => cases h
  | votes a labels =>
    cases b with
    | votes b labels' =>
      obtain ⟨hvotes, hlabels⟩ := (Bool.and_eq_true _ _).mp h
      rw [Matrix.eq_of_agrees hvotes eq_of_beq, eq_of_beq hlabels]
    | hard | soft => cases h

/-- **Inputs that agree are equal**, unless they hold a negative zero. -/
theorem SurrogateInput.eq_of_agrees {a b : SurrogateInput} (h : a.agrees b = true)
    (ha : negativeZero ∉ a.numbers) (hb : negativeZero ∉ b.numbers) : a = b := by
  simp only [agrees, Bool.and_eq_true, beq_iff_eq] at h
  obtain ⟨⟨hfeatures, htargets⟩, hclasses⟩ := h
  simp only [numbers, List.mem_append, not_or] at ha hb
  have hfeatures := Matrix.eq_of_agrees hfeatures fun heq => singles_eq_of_beq heq ha.1 hb.1
  have htargets := Targets.eq_of_agrees htargets ha.2 hb.2
  cases a
  cases b
  simp only at hfeatures htargets hclasses
  rw [hfeatures, htargets, hclasses]

/-! ## Trainings -/

namespace Surrogate

/-- A training that is kept is the one that settings and input give. -/
def Genuine (s : Surrogate) : Prop :=
  ∀ t, s.training = some t → trainOnce s.settings t.input t.folds = .ok t

theorem genuine_new (settings : SurrogateSettings) : (new settings).Genuine := nofun

/-- The numbers that are compared to find out whether the last training is
one on the given input. -/
def compared (s : Surrogate) (input : SurrogateInput) (folds : Nat) : List Float32 :=
  match s.training with
  | some t => if t.folds = folds then t.input.numbers ++ input.numbers else []
  | none => []

variable {s : Surrogate} {input : SurrogateInput} {folds : Nat}

theorem trainOnce_input {settings : SurrogateSettings} {t : Training}
    (h : trainOnce settings input folds = .ok t) : t.input = input ∧ t.folds = folds := by
  obtain ⟨_, -, h⟩ := bind_eq_ok_iff.1 h
  obtain ⟨_, -, h⟩ := bind_eq_ok_iff.1 h
  cases h
  exact ⟨rfl, rfl⟩

/-- A surrogate recalls its last training, or trains as a new one does. -/
theorem train_cases (s : Surrogate) (input : SurrogateInput) (folds : Nat) :
    (∃ t, s.training = some t ∧ t.isOf input folds = true ∧
      s.train input folds = .ok (t.records, s)) ∨
    s.train input folds = (fun t => (t.records, { s with training := some t })) <$>
      trainOnce s.settings input folds := by
  cases hrecalled : s.training.filter fun t => t.isOf input folds with
  | some t =>
    obtain ⟨ht, his⟩ := Option.filter_eq_some_iff.1 hrecalled
    refine .inl ⟨t, ht, his, ?_⟩
    rw [train, hrecalled]
    rfl
  | none =>
    right
    rw [train, hrecalled]
    cases trainOnce s.settings input folds <;> rfl

/-- **A surrogate that trains keeps a genuine training**, and has its own
settings still. -/
theorem Genuine.of_train (hs : s.Genuine) {records : List FoldRecord} {s' : Surrogate}
    (h : s.train input folds = .ok (records, s')) : s'.Genuine ∧ s'.settings = s.settings := by
  rcases s.train_cases input folds with ⟨t, -, -, htrain⟩ | htrain
  · rw [htrain] at h
    cases h
    exact ⟨hs, rfl⟩
  · rw [htrain] at h
    cases honce : trainOnce s.settings input folds with
    | error stop =>
      rw [honce] at h
      cases h
    | ok t =>
      rw [honce] at h
      cases h
      obtain ⟨hinput, hfolds⟩ := trainOnce_input honce
      refine ⟨fun t' ht' => ?_, rfl⟩
      obtain rfl := Option.some.inj ht'
      rw [hinput, hfolds]
      exact honce

/-- **Recalling a training and repeating it come to the same.** -/
theorem Genuine.train_eq (hs : s.Genuine) (hzero : negativeZero ∉ s.compared input folds) :
    s.train input folds = (new s.settings).train input folds := by
  have hnew : (new s.settings).train input folds =
      (fun t => (t.records, { s with training := some t })) <$>
        trainOnce s.settings input folds := by
    rcases (new s.settings).train_cases input folds with ⟨t, hnone, -⟩ | htrain
    · cases hnone
    · exact htrain
  rcases s.train_cases input folds with ⟨t, ht, his, htrain⟩ | htrain
  · obtain ⟨hfolds, hagrees⟩ := (Bool.and_eq_true _ _).mp his
    have hfolds := eq_of_beq hfolds
    rw [compared, ht] at hzero
    dsimp only at hzero
    rw [if_pos hfolds, List.mem_append, not_or] at hzero
    have hinput := SurrogateInput.eq_of_agrees hagrees hzero.1 hzero.2
    have honce := hs t ht
    rw [hinput, hfolds] at honce
    have hkept : s = { s with training := some t } := by rw [← ht]
    rw [htrain, hnew, honce]
    exact congrArg (fun s => Except.ok (t.records, s)) hkept
  · rw [htrain, hnew]

end Surrogate

end RuleVote
