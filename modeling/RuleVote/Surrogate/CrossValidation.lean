import RuleVote.Score.Basic
import RuleVote.Score.Folds
import RuleVote.Surrogate.Input

/-!
# Cross-validation

Every row is held out once, labeled or not; rows without a label are a
stratum of their own. A fold that cannot be trained or evaluated is
recorded with the reason, and the other folds go on.
-/

namespace RuleVote

/-- The stratum of a row: its label, or one beyond all labels. -/
def stratum (classes : Nat) (label : Int) : Nat := if label < 0 then classes else label.toNat

/-- The label of a row. -/
def labelOf (labels : List Int) (row : Nat) : Fallible Int := orBreak labels[row]?

/-- Those of the given rows that have a label. -/
def labeledAmong (labels : List Int) (rows : List Nat) : Fallible (List Nat) := do
  let found ← rows.mapM (labelOf labels)
  return ((rows.zip found).filter fun (_, l) => l ≠ abstain).map Prod.fst

/-- The labels of labeled rows as classes. -/
def classesOf (labels : List Int) (rows : List Nat) : Fallible (List Nat) := do
  return (← rows.mapM (labelOf labels)).map Int.toNat

/-- What became of a fold; one that breaks off leaves no record. -/
def FoldOutcome.of : Fallible FoldScores → Fallible FoldOutcome
  | .ok scores => .ok (.scored scores)
  | .error (.failed f) => .ok (.failed f.text)
  | .error .broken => breakOff

/-- Evaluates the folds of so many rows, divided by their strata. -/
def crossValidate (rows : Nat) (strata : List Nat) (folds seed : Nat)
    (evaluate : Split → Fallible FoldScores) : Fallible (List FoldRecord) := do
  match ← checkFolds folds rows with
  | none => return []
  | some k =>
    let splits ← ((StratifiedFolds.new k).withSeed seed).split strata
    -- every stratum is held out once, so one without a row is always reached
    assertThat (strata.length ≤ rows)
    splits.zipIdx.mapM fun (split, fold) => do
      return ⟨fold, split.test, ← FoldOutcome.of (evaluate split)⟩

end RuleVote
