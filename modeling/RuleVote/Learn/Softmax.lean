import RuleVote.Matrix

/-!
# Softmax

Exponentials divided by their sum. The largest number is subtracted first,
so no exponential overflows.
-/

namespace RuleVote

/-- Exponentials that sum to one. -/
def softmax (xs : List Float32) : List Float32 :=
  let most := largest xs
  let es := xs.map fun x => (x - most).exp
  let total := sumSingle es
  es.map (· / total)

/-- The softmax of every row. -/
def softmaxRows (m : Matrix Float32) : Fallible (Matrix Float32) := do
  return Matrix.ofRowsOf m.cols ((← m.allRows).map softmax)

end RuleVote
