import RuleVote.Learn.Standardize
import RuleVote.Surrogate.CrossValidation
import RuleVote.Surrogate.Settings

/-!
# Surrogates from all votes

A network that is trained together with how reliable each function is for
each label. Every epoch does two things: the reliability of a function for
a label becomes the share of its votes for the label that the network agrees
with, and the network is trained towards what the votes say when each one
weighs as much as it is reliable. A row nobody votes on is left to the
network's own opinion.
-/

namespace RuleVote

/-- A trained network with the units of its features and the reliability of
every function for every label. -/
structure EndToEndModel where
  /-- The units of the features. -/
  units : Standardizer
  /-- The network. -/
  network : Perceptron
  /-- The reliability of each function for each label. -/
  reliability : Matrix Float32
deriving Repr

namespace EndToEndModel

/-- The reliability before anything is known. -/
def initialReliability : Float32 := (Decimal.mk 7 (-1)).toSingle false

/-- The weight of a vote. -/
def weight (settings : EndToEndSettings) (reliability : Float32) : Float32 :=
  if settings.squareRoot then reliability.sqrt else reliability

/-- The sum of the weights of the votes of a row for a label. -/
def score (settings : EndToEndSettings) (reliability : Matrix Float32) (row : List Int)
    (c : Nat) : Fallible Float32 :=
  row.zipIdx.foldlM (fun sum (v, j) =>
    if v = c then do return sum + weight settings (← reliability.entry j c) else .ok sum) 0

/-- What the votes of row `i` say about its label, or the network's opinion
where there are none. -/
def rowTarget (settings : EndToEndSettings) (reliability opinion : Matrix Float32)
    (row : List Int) (i : Nat) : Fallible (List Float32) := do
  let classes := reliability.cols
  -- a vote beyond the classes has neither a reliability nor a score
  assertThat (row.all fun v => v < classes)
  if row.any fun v => 0 ≤ v then
    let scores ← (List.range classes).mapM (score settings reliability row)
    return softmax (scores.map (· / settings.temperature))
  else opinion.row i

/-- What the votes say about the label of every row. -/
def voteTargets (settings : EndToEndSettings) (reliability opinion : Matrix Float32)
    (votes : Matrix Int) : Fallible (Matrix Float32) := do
  let targets ← (← votes.allRows).zipIdx.mapM fun (row, i) =>
    rowTarget settings reliability opinion row i
  return Matrix.ofRowsOf reliability.cols targets

/-- The share of a function's votes for a label that the network agrees
with. One more agreement and two more votes are assumed. -/
def agreement (column : List Int) (predicted : List Nat) (c : Nat) : Float32 :=
  let cast := (column.zip predicted).filter fun (v, _) => v = c
  (ofCount (cast.countP fun (_, p) => p = c) + 1) / (ofCount cast.length + 2)

/-- The share of each function's votes for each label that the network
agrees with. -/
def agreements (votes : Matrix Int) (predicted : List Nat) (classes : Nat) :
    Fallible (Matrix Float32) := do
  let columns ← (List.range votes.cols).mapM votes.column
  return Matrix.ofRowsOf classes
    (columns.map fun column => (List.range classes).map (agreement column predicted))

/-- Trains for some epochs; the reliabilities stay as they are in the very
first of all. -/
def trainEpochs (settings : EndToEndSettings) (votes : Matrix Int) (z : Matrix Float32) :
    Nat → Bool → EndToEndModel → KeyStream → Fallible EndToEndModel
  | 0, _, m, _ => .ok m
  | epochs + 1, first, m, s => do
    let opinion ← m.network.probabilities z
    let reliability ←
      if first then .ok m.reliability
      else do agreements votes (← opinion.argmaxRows) m.network.classes
    let targets ← voteTargets settings reliability opinion votes
    let (_, network, s) ← m.network.trainEpoch z targets s
    trainEpochs settings votes z epochs false { m with network, reliability } s

/-- Trains on rows with known votes. -/
def fit (settings : EndToEndSettings) (classes : Nat) (x : Matrix Float32) (votes : Matrix Int) :
    Fallible EndToEndModel := do
  let units ← Standardizer.fit x
  let z ← units.transform x
  let network ← Perceptron.new z.cols classes settings.network
  let reliability ← Matrix.filled votes.cols classes initialReliability
  trainEpochs settings votes z settings.network.epochs true ⟨units, network, reliability⟩
    (KeyStream.ofSeed (settings.network.seed + 1))

/-- The probabilities of the labels of every row. -/
def probabilities (m : EndToEndModel) (x : Matrix Float32) : Fallible (Matrix Float32) := do
  m.network.probabilities (← m.units.transform x)

/-- Trains without the rows held out, and scores on those of them that have
a label. -/
def evaluate (settings : EndToEndSettings) (input : SurrogateInput) (votes : Matrix Int)
    (labels : List Int) (split : Split) : Fallible FoldScores := do
  let x := input.features
  let model ← fit settings input.classes (← x.selectRows split.train)
    (← votes.selectRows split.train)
  let scored ← labeledAmong labels split.test
  let p ← model.probabilities (← x.selectRows scored)
  FoldScores.evaluate (← classesOf labels scored) p

/-- Cross-validates and trains on all rows. -/
def train (settings : EndToEndSettings) (input : SurrogateInput) (folds : Nat) :
    Fallible (List FoldRecord × EndToEndModel) := do
  settings.validate
  match input.targets with
  | .votes votes labels =>
    let records ← crossValidate input.features.rows (labels.map (stratum input.classes)) folds
      settings.foldSeed (evaluate settings input votes labels)
    return (records, ← fit settings input.classes input.features votes)
  | _ => fail (.training "end-to-end training needs the full label matrix")

end EndToEndModel

end RuleVote
