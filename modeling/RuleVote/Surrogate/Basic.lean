import RuleVote.Surrogate.ClosedForm
import RuleVote.Surrogate.EndToEnd
import RuleVote.Surrogate.Neural

/-!
# Surrogates

A surrogate is its settings and what it was last trained on. Training it
once more on input that agrees with the last one, with as many folds,
recalls the records of that training instead of repeating it. Training that
fails leaves the surrogate as it was.
-/

namespace RuleVote

/-- A trained model. -/
inductive SurrogateModel where
  /-- Trained on hard labels. -/
  | closedForm (model : ClosedFormModel)
  /-- Trained on label probabilities. -/
  | neural (model : NeuralModel)
  /-- Trained on all votes. -/
  | endToEnd (model : EndToEndModel)
deriving Repr

/-- Cross-validates and trains a model. -/
def SurrogateSettings.train (settings : SurrogateSettings) (input : SurrogateInput)
    (folds : Nat) : Fallible (List FoldRecord × SurrogateModel) :=
  match settings with
  | .closedForm s => (Prod.map id .closedForm) <$> ClosedFormModel.train s input folds
  | .neural s => (Prod.map id .neural) <$> NeuralModel.train s input folds
  | .endToEnd s => (Prod.map id .endToEnd) <$> EndToEndModel.train s input folds

namespace SurrogateModel

/-- The probabilities of the labels of every row. -/
def probabilities (m : SurrogateModel) (x : Matrix Float32) : Fallible (Matrix Float32) :=
  match m with
  | .closedForm m => m.probabilities x
  | .neural m => m.probabilities x
  | .endToEnd m => m.probabilities x

/-- The most probable label of every row. -/
def predict (m : SurrogateModel) (x : Matrix Float32) : Fallible (List Int) := do
  return (← (← m.probabilities x).argmaxRows).map classLabel

/-- The reliability of each function for each label, where it was learned. -/
def reliability? : SurrogateModel → Option (Matrix Float32)
  | .endToEnd m => some m.reliability
  | _ => none

end SurrogateModel

/-- A training that was completed. -/
structure Training where
  /-- What was trained on. -/
  input : SurrogateInput
  /-- The number of folds asked for. -/
  folds : Nat
  /-- What became of the folds. -/
  records : List FoldRecord
  /-- The label of every row. -/
  reference : List Int
  /-- The trained model. -/
  model : SurrogateModel
deriving Repr

/-- Whether a training is one on the given input, with as many folds. -/
def Training.isOf (t : Training) (input : SurrogateInput) (folds : Nat) : Bool :=
  t.folds == folds && t.input.agrees input

/-- A surrogate, trained or not. -/
structure Surrogate where
  /-- Its settings. -/
  settings : SurrogateSettings
  /-- Its last training. -/
  training : Option Training
deriving Repr

namespace Surrogate

/-- A surrogate that has not been trained. -/
def new (settings : SurrogateSettings) : Surrogate := ⟨settings, none⟩

/-- A training, whatever went before. -/
def trainOnce (settings : SurrogateSettings) (input : SurrogateInput) (folds : Nat) :
    Fallible Training := do
  let (records, model) ← settings.train input folds
  return ⟨input, folds, records, ← input.referenceLabels, model⟩

/-- Trains the surrogate, or recalls its last training. -/
def train (s : Surrogate) (input : SurrogateInput) (folds : Nat) :
    Fallible (List FoldRecord × Surrogate) := do
  match s.training.filter fun t => t.isOf input folds with
  | some t => return (t.records, s)
  | none =>
    let t ← trainOnce s.settings input folds
    return (t.records, { s with training := some t })

/-- The model of a trained surrogate. -/
def model (s : Surrogate) : Except Failure SurrogateModel :=
  match s.training with
  | some t => .ok t.model
  | none => .error (.wrongState "trained" "untrained")

/-- The probabilities of the labels of every row. -/
def probabilities (s : Surrogate) (x : Matrix Float32) : Fallible (Matrix Float32) := do
  (← s.model).probabilities x

/-- The most probable label of every row. -/
def predict (s : Surrogate) (x : Matrix Float32) : Fallible (List Int) := do
  (← s.model).predict x

/-- The labels that the surrogate was last trained on. -/
def reference (s : Surrogate) : Option (List Int) := s.training.map Training.reference

/-- The reliability of each function for each label, where it was learned. -/
def reliability (s : Surrogate) : Option (Matrix Float32) :=
  s.training.bind fun t => t.model.reliability?

end Surrogate

end RuleVote
