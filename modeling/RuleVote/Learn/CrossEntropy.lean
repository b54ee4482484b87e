import RuleVote.Learn.Softmax

/-!
# Cross-entropy

The loss of predicted probabilities against targets that are probabilities
themselves, and its gradient at what the softmax was taken of.
-/

namespace RuleVote

namespace CrossEntropy

/-- The smallest probability that a logarithm is taken of. -/
def floor : Float32 := (Decimal.mk 1 (-12)).toSingle false

/-- The loss of one probability against a positive target. -/
def term (p t : Float32) : Float32 := -t * (larger p floor).log

/-- The mean loss over rows. -/
def loss (probabilities targets : Matrix Float32) : Fallible Float32 := do
  assertThat (probabilities.rows == targets.rows && probabilities.cols == targets.cols)
  if probabilities.rows = 0 then return 0
  let pairs := (probabilities.data.toList.zip targets.data.toList).filter fun (_, t) => 0 < t
  return sumSingle (pairs.map fun (p, t) => term p t) / ofCount probabilities.rows

/-- The gradient of the mean loss. -/
def gradient (probabilities targets : Matrix Float32) : Matrix Float32 :=
  let batch := ofCount (max probabilities.rows 1)
  { probabilities with
    data := Array.zipWith (fun p t => (p - t) / batch) probabilities.data targets.data }

end CrossEntropy

/-- One row for each class in a list: one at the class, zero elsewhere. -/
def oneHot (y : List Nat) (classes : Nat) : Except Failure (Matrix Float32) :=
  match y.find? fun c => classes ≤ c with
  | some bad =>
    .error (.training ("target " ++ toString bad ++ " outside 0.." ++ toString classes))
  | none =>
    .ok (Matrix.ofRowsOf classes (y.map fun t =>
      (List.range classes).map fun c => if c = t then 1 else 0))

end RuleVote
