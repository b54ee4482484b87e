import RuleVote.Learn.Softmax
import RuleVote.Voter.Majority

/-!
# The noise model

Items have a class drawn from a prior, and each labeling function that votes
on an item of class `c` votes `v` with the probability in row `c` and column
`v` of its table. An abstention says nothing. `fit` estimates prior and
tables from votes alone: each epoch computes the probabilities of the
classes of every item under the current estimate (`posterior`) and then the
estimate that these probabilities make likeliest (`maximize`), until an
epoch changes no parameter by the tolerance.
-/

namespace RuleVote

/-- One row of vote probabilities for each class. -/
abbrev VoteProbabilities := List (List Float32)

/-- A noise model. -/
structure NoiseModel where
  /-- The number of classes. -/
  classes : Nat
  /-- The number of labeling functions. -/
  functions : Nat
  /-- The class priors. -/
  priors : List Float32
  /-- The vote probabilities of each function. -/
  tables : List VoteProbabilities
  /-- The accuracy around which fitting starts. -/
  initialAccuracy : Float32
  /-- The count added to every cell. -/
  smoothing : Float32
  /-- The change of parameters below which fitting stops. -/
  tolerance : Float32
  /-- The epochs of the last fit. -/
  epochs : Nat
deriving Repr

namespace NoiseModel

/-- The vote probabilities of a function of given accuracy, whose errors are
equally likely. -/
def evenTable (classes : Nat) (accuracy : Float32) : VoteProbabilities :=
  let off := if 1 < classes then (1 - accuracy) / ofCount (classes - 1) else 0
  (List.range classes).map fun c =>
    (List.range classes).map fun v => if v = c then accuracy else off

/-- The accuracy of a new model. -/
def defaultAccuracy : Float32 := (Decimal.mk 7 (-1)).toSingle false

/-- The smoothing of a new model. -/
def defaultSmoothing : Float32 := (Decimal.mk 1 (-2)).toSingle false

/-- The tolerance of a new model. -/
def defaultTolerance : Float32 := (Decimal.mk 1 (-6)).toSingle false

/-- The width of the interval on either side of the initial accuracy from
which accuracies are drawn. -/
def jitter : Float32 := (Decimal.mk 5 (-2)).toSingle false

/-- Equal priors. -/
def evenPriors (classes : Nat) : List Float32 := List.replicate classes (1 / ofCount classes)

/-- A model that has not been fitted. -/
def new (classes functions : Nat) : NoiseModel where
  classes
  functions
  priors := evenPriors classes
  tables := List.replicate functions (evenTable classes defaultAccuracy)
  initialAccuracy := defaultAccuracy
  smoothing := defaultSmoothing
  tolerance := defaultTolerance
  epochs := 0

/-- The model with another initial accuracy, from which its tables are
made. -/
def withInitialAccuracy (m : NoiseModel) (accuracy : Float32) : NoiseModel :=
  let accuracy := clampSingle 0 1 accuracy
  { m with
    initialAccuracy := accuracy
    tables := List.replicate m.functions (evenTable m.classes accuracy) }

/-- The model with another smoothing, at least zero. -/
def withSmoothing (m : NoiseModel) (smoothing : Float32) : NoiseModel :=
  { m with smoothing := larger smoothing 0 }

/-- The model with another tolerance, at least zero. -/
def withTolerance (m : NoiseModel) (tolerance : Float32) : NoiseModel :=
  { m with tolerance := larger tolerance 0 }

/-- The cell of a table; zero outside of it. -/
def cell (table : VoteProbabilities) (c v : Nat) : Float32 :=
  ((table[c]?).bind fun row => row[v]?).getD 0

/-- The probability that each function votes for the true class. -/
def accuracies (m : NoiseModel) : List Float32 :=
  m.tables.map fun table => sumSingle (m.priors.zipIdx.map fun (p, c) => p * cell table c c)

/-- Refuses votes of another number of functions. -/
def checkShape (m : NoiseModel) (votes : Matrix Int) : Except Failure Unit :=
  if votes.cols = m.functions then .ok ()
  else .error (.shapeMismatch (toString m.functions ++ " labeling functions")
    (toString votes.cols))

/-- The logarithm of a probability, which is not let below the smallest
normal number. -/
def logProbability (p : Float32) : Float32 := (larger p smallestNormal).log

/-- The probability of a vote of function `j` on items of class `c`. -/
def cellFor (tables : List VoteProbabilities) (j c : Nat) (v : Int) : Fallible Float32 := do
  let table ← orBreak tables[j]?
  entryAt (← orBreak table[c]?) v

/-- Adds to the logarithms for the classes of an item what one more vote on it
says, given with the position of its function. -/
def addVote (tables : List VoteProbabilities) (logs : List Float32) (vote : Int × Nat) :
    Fallible (List Float32) :=
  if vote.1 = abstain then .ok logs
  else logs.zipIdx.mapM fun (l, c) => do
    return l + logProbability (← cellFor tables vote.2 c vote.1)

/-- The probabilities of the classes of an item, given its votes. -/
def posterior (priors : List Float32) (tables : List VoteProbabilities) (row : List Int) :
    Fallible (List Float32) := do
  return softmax (← row.zipIdx.foldlM (addVote tables) (priors.map logProbability))

/-- The probabilities of the classes of every item. -/
def posteriors (m : NoiseModel) (rows : List (List Int)) : Fallible (List (List Float32)) :=
  rows.mapM (posterior m.priors m.tables)

/-- The estimated prior of a class. -/
def estimatePrior (classes : Nat) (smoothing : Float32) (qs : List (List Float32)) (c : Nat) :
    Fallible Float32 := do
  let mass := sumSingle (← qs.mapM fun q => orBreak q[c]?)
  return (mass + smoothing) / (ofCount qs.length + ofCount classes * smoothing)

/-- Adds the probabilities of the classes of an item to the counts for its
vote. -/
def addMass (counts : VoteProbabilities) (v : Int) (q : List Float32) :
    Fallible VoteProbabilities :=
  counts.zipIdx.mapM fun (row, c) => do
    return row.set v.toNat ((← entryAt row v) + (← orBreak q[c]?))

/-- Counts one more item for the vote of function `j` on it. -/
def countItem (j : Nat) (counts : VoteProbabilities) (item : List Int × List Float32) :
    Fallible VoteProbabilities := do
  let v ← orBreak item.1[j]?
  if v = abstain then return counts else addMass counts v item.2

/-- The estimated vote probabilities of function `j`. -/
def estimateTable (classes : Nat) (smoothing : Float32)
    (items : List (List Int × List Float32)) (j : Nat) : Fallible VoteProbabilities := do
  let counts ← items.foldlM (countItem j) (List.replicate classes (List.replicate classes 0))
  return counts.map fun row =>
    let total := sumSingle row + ofCount classes * smoothing
    row.map fun count => (count + smoothing) / total

/-- The larger of a change so far and the changes between two lists. -/
def changeBetween (change : Float32) (new old : List Float32) : Float32 :=
  (List.zipWith (fun a b => (a - b).abs) new old).foldl larger change

/-- The likeliest parameters for given probabilities, and the largest change
of a parameter. -/
def maximize (m : NoiseModel) (rows : List (List Int)) (qs : List (List Float32)) :
    Fallible (NoiseModel × Float32) := do
  let items := rows.zip qs
  let priors ← (List.range m.classes).mapM (estimatePrior m.classes m.smoothing qs)
  let tables ← (List.range m.functions).mapM (estimateTable m.classes m.smoothing items)
  -- all parameters count, the priors and every cell of every table
  let change := changeBetween 0 priors m.priors
  let change := changeBetween change (tables.map List.flatten).flatten
    (m.tables.map List.flatten).flatten
  return ({ m with priors, tables }, change)

/-- Epochs of fitting, `limit` of them at most. -/
def train (rows : List (List Int)) : Nat → NoiseModel → Fallible NoiseModel
  | 0, m => .ok m
  | limit + 1, m => do
    let (next, change) ← m.maximize rows (← m.posteriors rows)
    let next := { next with epochs := m.epochs + 1 }
    if change < m.tolerance then return next else train rows limit next

/-- The parameters from which fitting starts. -/
def startFrom (m : NoiseModel) (seed : Nat) : NoiseModel :=
  let draw (s : KeyStream) : Float32 × KeyStream := s.between (-jitter) jitter
  let (jitters, _) := KeyStream.several draw m.functions (KeyStream.ofSeed seed)
  { m with
    priors := evenPriors m.classes
    tables := jitters.map fun x => evenTable m.classes (clampSingle 0 1 (m.initialAccuracy + x))
    epochs := 0 }

/-- Fits a model to votes. -/
def fit (m : NoiseModel) (votes : Matrix Int) (epochs seed : Nat) : Fallible NoiseModel := do
  liftFailure (m.checkShape votes)
  liftFailure (checkVotes votes m.classes)
  train (← votes.allRows) epochs (m.startFrom seed)

/-- The probabilities of the classes of every item. -/
def probabilities (m : NoiseModel) (votes : Matrix Int) : Fallible (Matrix Float32) := do
  liftFailure (m.checkShape votes)
  liftFailure (checkVotes votes m.classes)
  return Matrix.ofRowsOf m.classes (← m.posteriors (← votes.allRows))

end NoiseModel

end RuleVote
