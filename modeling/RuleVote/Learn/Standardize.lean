import RuleVote.Matrix

/-!
# Standardised features

Every feature is moved to mean zero and, unless it hardly varies, scaled to
deviation one, both taken over the rows that were fitted.
-/

namespace RuleVote

/-- Mean and deviation of every feature, once fitted. -/
structure Standardizer where
  /-- Mean and deviation of each feature. -/
  stats : Option (List (Float32 × Float32))
deriving Repr

namespace Standardizer

/-- Nothing has been fitted. -/
def empty : Standardizer := ⟨none⟩

/-- The deviation up to which a feature is not scaled. -/
def smallestDeviation : Float32 := (Decimal.mk 1 (-10)).toSingle false

/-- Mean and deviation of a column, over all its values. -/
def columnStats (column : List Float32) : Float32 × Float32 :=
  let n := ofCount column.length
  let mean := sumSingle column / n
  let variance := sumSingle (column.map fun v => (v - mean) * (v - mean)) / n
  (mean, variance.sqrt)

/-- Takes mean and deviation from a matrix. -/
def fit (x : Matrix Float32) : Fallible Standardizer := do
  if x.rows = 0 then fail (.other "Cannot fit with zero samples")
  let stats ← (List.range x.cols).mapM fun j => do return columnStats (← x.column j)
  return ⟨some stats⟩

/-- A value in units of its feature. -/
def scale (value : Float32) (stats : Float32 × Float32) : Float32 :=
  let centered := value - stats.1
  if smallestDeviation < stats.2 then centered / stats.2 else centered

/-- The matrix in units of its features. -/
def transform (s : Standardizer) (x : Matrix Float32) : Fallible (Matrix Float32) := do
  match s.stats with
  | none => fail (.other "Scaler not fitted")
  | some stats =>
    if x.cols ≠ stats.length then
      fail (.shapeMismatch (toString stats.length ++ " features")
        (toString x.cols ++ " features"))
    let rows ← x.allRows
    return Matrix.ofRowsOf x.cols (rows.map fun row => List.zipWith scale row stats)

end Standardizer

end RuleVote
