import RuleVote.Proofs.Learn.LogisticRegression
import RuleVote.Proofs.Learn.Network
import RuleVote.Surrogate.Basic
/-!
# Room for a training

A training stores lists as long as its settings and the shape of its input say, and
breaks off where one of them is longer than any list can be. There is room for it
(`SurrogateSettings.HasRoom`) if there is room for the model and for the rows on
their way through it. A fit that gets through had room for its model
(`ClosedFormModel.hasRoom_of_fit`, `NeuralModel.hasRoom_of_fit`,
`EndToEndModel.hasRoom_of_fit`).
-/

namespace RuleVote

/-- Networks of settings that agree have the same widths and are trained as long. -/
theorem NetworkSettings.widths_of_agrees {a b : NetworkSettings} (h : a.agrees b = true) :
    a.hidden = b.hidden ∧ a.epochs = b.epochs := by
  simp only [agrees, Bool.and_eq_true, beq_iff_eq] at h
  obtain ⟨⟨⟨⟨⟨hhidden, -⟩, -⟩, -⟩, hepochs⟩, -⟩ := h
  exact ⟨hhidden, hepochs⟩

/-- There is room for a network and for the losses of its epochs. -/
structure NeuralSettings.HasRoom (settings : NeuralSettings) (features classes : Nat) : Prop where
  network : settings.network.HasRoom features classes
  losses : settings.network.epochs < capacity

/-- There is room for a network and for the reliability of so many functions. -/
structure EndToEndSettings.HasRoom (settings : EndToEndSettings)
    (features classes functions : Nat) : Prop where
  network : settings.network.HasRoom features classes
  reliability : functions * classes < capacity

instance (settings : NeuralSettings) (features classes : Nat) :
    Decidable (settings.HasRoom features classes) :=
  decidable_of_iff (settings.network.HasRoom features classes ∧ settings.network.epochs < capacity)
    ⟨fun h => ⟨h.1, h.2⟩, fun h => ⟨h.network, h.losses⟩⟩

instance (settings : EndToEndSettings) (features classes functions : Nat) :
    Decidable (settings.HasRoom features classes functions) :=
  decidable_of_iff (settings.network.HasRoom features classes ∧ functions * classes < capacity)
    ⟨fun h => ⟨h.1, h.2⟩, fun h => ⟨h.network, h.reliability⟩⟩

/-- The number of functions whose votes an input holds. -/
def SurrogateInput.functions (input : SurrogateInput) : Nat :=
  match input.targets with
  | .votes cast _ => cast.cols
  | .hard _ | .soft _ => 0

namespace SurrogateSettings

/-- The widths of the hidden layers, of which a regression has none. -/
def hidden : SurrogateSettings → List Nat
  | closedForm _ => []
  | neural settings => settings.network.hidden
  | endToEnd settings => settings.network.hidden

/-- There is room for so many rows on their way to the probabilities of
classes. -/
def Passes (settings : SurrogateSettings) (features classes rows : Nat) : Prop :=
  ∀ width ∈ features :: settings.hidden ++ [classes], rows * width < capacity

/-- There is room for a model for an input. -/
def Stores (settings : SurrogateSettings) (input : SurrogateInput) : Prop :=
  match settings with
  | closedForm _ => Linear.HasRoom input.features.cols input.classes
  | neural settings => settings.HasRoom input.features.cols input.classes
  | endToEnd settings => settings.HasRoom input.features.cols input.classes input.functions

/-- There is room for a training on an input. -/
structure HasRoom (settings : SurrogateSettings) (input : SurrogateInput) : Prop where
  model : settings.Stores input
  rows : settings.Passes input.features.cols input.classes input.features.rows

instance (settings : SurrogateSettings) (features classes rows : Nat) :
    Decidable (settings.Passes features classes rows) :=
  inferInstanceAs (Decidable (∀ width ∈ _, _))

instance (settings : SurrogateSettings) (input : SurrogateInput) :
    Decidable (settings.Stores input) :=
  match settings with
  | closedForm _ => inferInstanceAs (Decidable (Linear.HasRoom _ _))
  | neural settings => inferInstanceAs (Decidable (settings.HasRoom _ _))
  | endToEnd settings => inferInstanceAs (Decidable (settings.HasRoom _ _ _))

instance (settings : SurrogateSettings) (input : SurrogateInput) :
    Decidable (settings.HasRoom input) :=
  decidable_of_iff (settings.Stores input ∧
      settings.Passes input.features.cols input.classes input.features.rows)
    ⟨fun h => ⟨h.1, h.2⟩, fun h => ⟨h.model, h.rows⟩⟩

/-- There is room for a distribution over the classes for every row. -/
theorem HasRoom.targets {settings : SurrogateSettings} {input : SurrogateInput}
    (h : settings.HasRoom input) : input.features.rows * input.classes < capacity :=
  h.rows _ (List.mem_append_right _ List.mem_cons_self)

/-- **Settings that agree need the same room.** -/
theorem HasRoom.of_agrees {a b : SurrogateSettings} {input : SurrogateInput} (hb : b.HasRoom input)
    (h : a.agrees b = true) : a.HasRoom input := by
  obtain ⟨hmodel, hrows⟩ := hb
  cases a with
  | closedForm a =>
    cases b with
    | closedForm b => exact ⟨hmodel, hrows⟩
    | neural | endToEnd => cases h
  | neural a =>
    cases b with
    | neural b =>
      simp only [agrees, Bool.and_eq_true] at h
      obtain ⟨hhidden, hepochs⟩ := NetworkSettings.widths_of_agrees h.1.1
      have hnetwork : a.network.HasRoom input.features.cols input.classes := by
        rw [NetworkSettings.HasRoom, hhidden]
        exact hmodel.network
      refine ⟨⟨hnetwork, hepochs ▸ hmodel.losses⟩, ?_⟩
      rw [Passes, hidden, hhidden]
      exact hrows
    | closedForm | endToEnd => cases h
  | endToEnd a =>
    cases b with
    | endToEnd b =>
      simp only [agrees, Bool.and_eq_true] at h
      obtain ⟨hhidden, -⟩ := NetworkSettings.widths_of_agrees h.1.1.1
      have hnetwork : a.network.HasRoom input.features.cols input.classes := by
        rw [NetworkSettings.HasRoom, hhidden]
        exact hmodel.network
      refine ⟨⟨hnetwork, hmodel.reliability⟩, ?_⟩
      rw [Passes, hidden, hhidden]
      exact hrows
    | closedForm | neural => cases h

end SurrogateSettings

/-! ## What was fitted -/

variable {x : Matrix Float32} {classes : Nat}

namespace ClosedFormModel

/-- A regression of the settings that was not fitted. -/
def untrained (settings : ClosedFormSettings) (classes : Nat) : LogisticRegression :=
  configured settings (.unfitted classes)

/-- **A regression that was fitted had room**, and its settings are valid. -/
theorem hasRoom_of_fit {settings : ClosedFormSettings} {y : List Nat} {m : ClosedFormModel}
    (h : fit settings classes x y = .ok m) :
    Linear.HasRoom x.cols classes ∧ (untrained settings classes).validate = .ok () := by
  obtain ⟨_, -, h⟩ := bind_eq_ok_iff.1 h
  obtain ⟨units, -, h⟩ := bind_eq_ok_iff.1 h
  obtain ⟨z, hz, h⟩ := bind_eq_ok_iff.1 h
  obtain ⟨regression, hnew, h⟩ := bind_eq_ok_iff.1 h
  obtain ⟨fitted, hfit, -⟩ := bind_eq_ok_iff.1 h
  obtain ⟨hclasses, rfl⟩ := LogisticRegression.new_eq_ok_iff.1 hnew
  obtain ⟨hvalid, hcols⟩ := LogisticRegression.lt_capacity_of_fit hfit
  rw [(Standardizer.sized_of_transform hz).cols_eq] at hcols
  exact ⟨⟨hcols, hclasses⟩, hvalid⟩

end ClosedFormModel

/-- A network that was made for rows in other units had room. -/
theorem Perceptron.hasRoom_of_transform {units : Standardizer} {z : Matrix Float32}
    {settings : NetworkSettings} {p : Perceptron} (hz : units.transform x = .ok z)
    (h : new z.cols classes settings = .ok p) : settings.HasRoom x.cols classes ∧
      settings.Suit x.cols classes ∧ p.settings = settings := by
  rw [(Standardizer.sized_of_transform hz).cols_eq] at h
  obtain ⟨hroom, hsettings⟩ := hasRoom_of_new h
  exact ⟨hroom, ⟨p, h⟩, hsettings⟩

/-- **A network that was trained had room**, and its settings suit. -/
theorem NeuralModel.hasRoom_of_fit {settings : NeuralSettings} {targets : Matrix Float32}
    {m : NeuralModel} (h : fit settings x targets = .ok m) :
    settings.HasRoom x.cols targets.cols ∧ settings.network.Suit x.cols targets.cols := by
  obtain ⟨units, -, h⟩ := bind_eq_ok_iff.1 h
  obtain ⟨z, hz, h⟩ := bind_eq_ok_iff.1 h
  obtain ⟨network, hnew, h⟩ := bind_eq_ok_iff.1 h
  obtain ⟨result, hfit, -⟩ := bind_eq_ok_iff.1 h
  obtain ⟨_, hepochs, -⟩ := bind_eq_ok_iff.1 hfit
  obtain ⟨hroom, hsuit, hsettings⟩ := Perceptron.hasRoom_of_transform hz hnew
  rw [hsettings] at hepochs
  exact ⟨⟨hroom, reserve_eq_ok_iff.1 hepochs⟩, hsuit⟩

/-- **A network that was trained on votes had room**, and its settings suit. -/
theorem EndToEndModel.hasRoom_of_fit {settings : EndToEndSettings} {votes : Matrix Int}
    {m : EndToEndModel} (h : fit settings classes x votes = .ok m) :
    settings.HasRoom x.cols classes votes.cols ∧ settings.network.Suit x.cols classes := by
  obtain ⟨units, -, h⟩ := bind_eq_ok_iff.1 h
  obtain ⟨z, hz, h⟩ := bind_eq_ok_iff.1 h
  obtain ⟨network, hnew, h⟩ := bind_eq_ok_iff.1 h
  obtain ⟨reliability, hfilled, -⟩ := bind_eq_ok_iff.1 h
  obtain ⟨hroom, hsuit, -⟩ := Perceptron.hasRoom_of_transform hz hnew
  exact ⟨⟨hroom, (Matrix.filled_eq_ok_iff.1 hfilled).1⟩, hsuit⟩

end RuleVote
