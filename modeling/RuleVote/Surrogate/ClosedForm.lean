import RuleVote.Learn.Standardize
import RuleVote.Surrogate.CrossValidation
import RuleVote.Surrogate.Settings

/-!
# Surrogates from hard labels

A logistic regression on standardised features. Rows without a label are
held out like any other row, but never fitted and never scored.
-/

namespace RuleVote

/-- A fitted regression with the units of its features. -/
structure ClosedFormModel where
  /-- The units of the features. -/
  units : Standardizer
  /-- The regression. -/
  regression : LogisticRegression
deriving Repr

/-- Refuses classes that are all the same. -/
def requireTwoClasses (classes : List Nat) : Except Failure Unit :=
  if classes.any fun c => some c ≠ classes.head? then .ok ()
  else .error (.training "training split contains fewer than two classes")

namespace ClosedFormModel

/-- A regression with the settings of a surrogate. -/
def configured (settings : ClosedFormSettings) (m : LogisticRegression) : LogisticRegression :=
  { m with
    c := settings.c
    learningRate := settings.learningRate
    maxIterations := settings.maxIterations }

/-- Fits a regression to rows with known classes. -/
def fit (settings : ClosedFormSettings) (classes : Nat) (x : Matrix Float32) (y : List Nat) :
    Fallible ClosedFormModel := do
  requireTwoClasses y
  let units ← Standardizer.fit x
  let z ← units.transform x
  let regression ← LogisticRegression.new classes
  return ⟨units, ← (configured settings regression).fit z y⟩

/-- The probabilities of the labels of every row. -/
def probabilities (m : ClosedFormModel) (x : Matrix Float32) : Fallible (Matrix Float32) := do
  m.regression.probabilities (← m.units.transform x)

/-- Fits a regression to the given rows of an input. -/
def fitRows (settings : ClosedFormSettings) (input : SurrogateInput) (labels : List Int)
    (rows : List Nat) : Fallible ClosedFormModel := do
  fit settings input.classes (← input.features.selectRows rows) (← classesOf labels rows)

/-- Fits a regression without the rows held out, and scores it on them. -/
def evaluate (settings : ClosedFormSettings) (input : SurrogateInput) (labels : List Int)
    (split : Split) : Fallible FoldScores := do
  let train ← labeledAmong labels split.train
  let test ← labeledAmong labels split.test
  let model ← fitRows settings input labels train
  let p ← model.probabilities (← input.features.selectRows test)
  FoldScores.evaluate (← classesOf labels test) p

/-- Cross-validates and fits all labeled rows. -/
def train (settings : ClosedFormSettings) (input : SurrogateInput) (folds : Nat) :
    Fallible (List FoldRecord × ClosedFormModel) := do
  let labels ← input.referenceLabels
  let labeled := SurrogateInput.labeledPositions labels
  if labeled.isEmpty then fail (.training "every row is labeled ABSTAIN")
  let records ← crossValidate input.features.rows (labels.map (stratum input.classes)) folds
    settings.foldSeed (evaluate settings input labels)
  return (records, ← fitRows settings input labels labeled)

end ClosedFormModel

end RuleVote
