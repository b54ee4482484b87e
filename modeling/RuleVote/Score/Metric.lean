import RuleVote.Matrix
import RuleVote.Text.SortedMap

/-!
# Metrics of predicted labels

Each class that occurs among true or predicted labels has four counts. A
metric is a ratio of counts for every class, averaged over the classes in
ascending order: plainly (`plain`), over the sums of the counts (`pooled`),
or weighted by the number of true labels of the class. A ratio whose
denominator is zero is zero. Lists of different lengths, or empty ones,
have no metrics.
-/

namespace RuleVote

/-- What happened to one class. -/
structure ClassCounts where
  /-- Predicted and true. -/
  hits : Nat
  /-- Predicted but not true. -/
  falseAlarms : Nat
  /-- True but not predicted. -/
  misses : Nat
  /-- True. -/
  support : Nat
deriving DecidableEq, Repr

namespace ClassCounts

/-- Nothing has happened yet. -/
def zero : ClassCounts := ⟨0, 0, 0, 0⟩

/-- It has been predicted where it is true once more. -/
def hit (c : ClassCounts) : ClassCounts := { c with hits := c.hits + 1 }

/-- It has been predicted where it is not true once more. -/
def alarmed (c : ClassCounts) : ClassCounts := { c with falseAlarms := c.falseAlarms + 1 }

/-- It has not been predicted where it is true once more. -/
def missed (c : ClassCounts) : ClassCounts := { c with misses := c.misses + 1 }

/-- It has been true once more. -/
def supported (c : ClassCounts) : ClassCounts := { c with support := c.support + 1 }

end ClassCounts

/-- How the ratios of several classes become one number. -/
inductive Averaging where
  /-- The mean of the ratios. -/
  | plain
  /-- The ratio of the sums. -/
  | pooled
  /-- The mean weighted by true labels. -/
  | weighted
deriving DecidableEq, Repr

namespace Metric

/-- Breaks off for lists that have no metrics. -/
def checkLabels (truth predicted : List Int) : Fallible Unit := do
  assertThat (predicted.length == truth.length)
  assertThat !truth.isEmpty

/-- The number of positions where the labels agree. -/
def agreements (truth predicted : List Int) : Nat :=
  (truth.zip predicted).countP fun (t, p) => t == p

/-- The share of positions where the labels agree. -/
def accuracy (truth predicted : List Int) : Fallible Float32 := do
  checkLabels truth predicted
  return ofCount (agreements truth predicted) / ofCount truth.length

/-- Counts one more of a class, which starts at zero when it is new. -/
def countOne (c : Int) (count : ClassCounts → ClassCounts) :
    List (Int × ClassCounts) → List (Int × ClassCounts) :=
  SortedMap.upsert c fun counts => count (counts.getD .zero)

/-- Counts one more pair of a true and a predicted label. -/
def countPair (counts : List (Int × ClassCounts)) : Int × Int → List (Int × ClassCounts)
  | (t, p) =>
    let supported := countOne t .supported counts
    if t = p then countOne t .hit supported
    else countOne t .missed (countOne p .alarmed supported)

/-- The counts of every class that occurs, in ascending order. -/
def classCounts (truth predicted : List Int) : List (Int × ClassCounts) :=
  (truth.zip predicted).foldl countPair []

/-- The sum of counts. -/
def totalOf (counts : List Nat) : Nat := counts.foldl (· + ·) 0

/-- A ratio of counts, zero where there is nothing to count. -/
def ratio (num den : Nat) : Float32 := if den = 0 then 0 else ofCount num / ofCount den

/-- The average of a ratio of counts over the classes. -/
def averaged (average : Averaging) (part : ClassCounts → Nat × Nat)
    (counts : List ClassCounts) : Float32 :=
  match average with
  | .pooled =>
    ratio (totalOf (counts.map fun c => (part c).1)) (totalOf (counts.map fun c => (part c).2))
  | .plain =>
    sumSingle (counts.map fun c => ratio (part c).1 (part c).2)
      / ofCount (max counts.length 1)
  | .weighted =>
    let total := totalOf (counts.map ClassCounts.support)
    if total = 0 then 0
    else sumSingle (counts.map fun c =>
      ratio (part c).1 (part c).2 * ofCount c.support / ofCount total)

/-- A metric of two lists of labels. -/
def metric (part : ClassCounts → Nat × Nat) (average : Averaging)
    (truth predicted : List Int) : Fallible Float32 := do
  checkLabels truth predicted
  return averaged average part ((classCounts truth predicted).map Prod.snd)

/-- The share of the predictions of a class that are true. -/
def precision : Averaging → List Int → List Int → Fallible Float32 :=
  metric fun c => (c.hits, c.hits + c.falseAlarms)

/-- The share of the true labels of a class that are predicted. -/
def sensitivity : Averaging → List Int → List Int → Fallible Float32 :=
  metric fun c => (c.hits, c.hits + c.misses)

/-- Counts a pair of a true and a predicted label in a matrix of so many
classes, which has no place for other labels. -/
def countCell (classes : Nat) (m : Matrix Nat) : Int × Int → Fallible (Matrix Nat)
  | (t, p) =>
    if 0 ≤ t ∧ t < classes ∧ 0 ≤ p ∧ p < classes then do
      m.setEntry t.toNat p.toNat ((← m.entry t.toNat p.toNat) + 1)
    else return m

/-- How often each of the first `classes` classes is predicted as each
other. -/
def confusion (classes : Nat) (truth predicted : List Int) : Fallible (Matrix Nat) := do
  assertThat (predicted.length == truth.length)
  (truth.zip predicted).foldlM (countCell classes) (.uniform classes classes 0)

/-- The smallest probability that a loss is taken of. -/
def lossFloor : Float := (Decimal.mk 1 (-15)).toDouble false

/-- The sum of a list in double precision, from the left. -/
def sumDouble (xs : List Float) : Float :=
  xs.foldl (· + ·) (doubleOfBits (BinaryFormat.double.withSign true 0))

/-- A number moved up to a floor and down to one. -/
def clampLoss (p : Float) : Float := if p < lossFloor then lossFloor else if 1 < p then 1 else p

/-- The negative logarithm of the probability of the true class. -/
def rowLoss (target : Nat) (row : List Float32) : Fallible Float := do
  let total := sumDouble (row.map widen)
  let ofShare (p : Float) : Float := -(clampLoss p).log
  if 0 < total then return ofShare (widen (← orBreak row[target]?) / total)
  else return ofShare 0

/-- The mean loss over rows, in double precision throughout. -/
def logLoss (targets : List Nat) (probabilities : Matrix Float32) : Fallible Float := do
  assertThat (probabilities.rows == targets.length)
  if targets.isEmpty then return 0
  let rows ← probabilities.allRows
  let losses ← (targets.zip rows).mapM fun (t, row) => rowLoss t row
  return sumDouble losses / targets.length.toFloat

end Metric

end RuleVote
