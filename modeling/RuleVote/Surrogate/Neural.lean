import RuleVote.Learn.Standardize
import RuleVote.Surrogate.CrossValidation
import RuleVote.Surrogate.Settings

/-!
# Surrogates from label probabilities

A network on standardised features, trained on the distribution over the
labels of every row. A prediction averages passes with some of the hidden
values dropped. Rows without a label are held out like any other row, but
never fitted and never scored.
-/

namespace RuleVote

/-- A trained network with the units of its features. -/
structure NeuralModel where
  /-- The number of passes averaged for a prediction. -/
  passes : Nat
  /-- The units of the features. -/
  units : Standardizer
  /-- The network. -/
  network : Perceptron
deriving Repr

namespace NeuralModel

/-- Trains a network on rows with known distributions. -/
def fit (settings : NeuralSettings) (x targets : Matrix Float32) : Fallible NeuralModel := do
  let units ← Standardizer.fit x
  let z ← units.transform x
  let network ← Perceptron.new z.cols targets.cols settings.network
  return ⟨settings.passes, units, (← network.fit z targets).2⟩

/-- The probabilities of the labels of every row. -/
def probabilities (m : NeuralModel) (x : Matrix Float32) : Fallible (Matrix Float32) := do
  m.network.meanProbabilities (← m.units.transform x) m.passes m.network.settings.seed

/-- Trains a network on the given rows of an input. -/
def fitRows (settings : NeuralSettings) (input : SurrogateInput) (targets : Matrix Float32)
    (rows : List Nat) : Fallible NeuralModel := do
  fit settings (← input.features.selectRows rows) (← targets.selectRows rows)

/-- Trains a network without the rows held out, and scores it on them. -/
def evaluate (settings : NeuralSettings) (input : SurrogateInput) (labels : List Int)
    (targets : Matrix Float32) (split : Split) : Fallible FoldScores := do
  let train ← labeledAmong labels split.train
  let test ← labeledAmong labels split.test
  let model ← fitRows settings input targets train
  let p ← model.probabilities (← input.features.selectRows test)
  FoldScores.evaluate (← classesOf labels test) p

/-- Cross-validates and trains on all labeled rows. -/
def train (settings : NeuralSettings) (input : SurrogateInput) (folds : Nat) :
    Fallible (List FoldRecord × NeuralModel) := do
  settings.network.validate
  let labels ← input.referenceLabels
  let labeled := SurrogateInput.labeledPositions labels
  if labeled.isEmpty then fail (.training "every row is labeled ABSTAIN")
  let targets ← input.softTargets
  let records ← crossValidate input.features.rows (labels.map (stratum input.classes)) folds
    settings.foldSeed (evaluate settings input labels targets)
  return (records, ← fitRows settings input targets labeled)

end NeuralModel

end RuleVote
