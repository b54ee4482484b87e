import RuleVote.Learn.Softmax
import RuleVote.Learn.Vector

/-!
# Logistic regression

The probabilities of the classes are the softmax of linear functions of the
features. Fitting descends the gradient of the mean loss, with a penalty on
the coefficients, until no entry of the gradient reaches the tolerance.
-/

namespace RuleVote

/-- One linear function for each class. -/
structure LinearFunctions where
  /-- The coefficients of each class. -/
  coefficients : List (List Float32)
  /-- The constant of each class. -/
  intercepts : List Float32
deriving Repr

/-- A logistic regression. -/
structure LogisticRegression where
  /-- The number of classes. -/
  classes : Nat
  /-- The inverse of the penalty. -/
  c : Float32
  /-- The length of a step against the gradient. -/
  learningRate : Float32
  /-- The largest number of steps. -/
  maxIterations : Nat
  /-- The gradient at which fitting stops. -/
  tolerance : Float32
  /-- The steps of the last fit. -/
  iterations : Nat
  /-- The fitted functions of so many features. -/
  fitted : Option (Nat × LinearFunctions)
deriving Repr

namespace LogisticRegression

/-- The inverse penalty used unless another one is given. -/
def defaultC : Float32 := ofCount 1000

/-- A regression that has not been fitted. -/
def unfitted (classes : Nat) : LogisticRegression where
  classes
  c := defaultC
  learningRate := (Decimal.mk 5 (-1)).toSingle false
  maxIterations := 1000
  tolerance := (Decimal.mk 1 (-4)).toSingle false
  iterations := 0
  fitted := none

/-- A new regression, whose constants are stored from the start. -/
def new (classes : Nat) : Fallible LogisticRegression := do
  reserve classes
  return unfitted classes

/-- The constants, zero before the first fit. -/
def intercepts (m : LogisticRegression) : List Float32 :=
  match m.fitted with
  | some (_, f) => f.intercepts
  | none => zeroVector m.classes

/-- The coefficients as a matrix. -/
def coefficients (m : LogisticRegression) : Option (Matrix Float32) :=
  m.fitted.map fun (features, f) => Matrix.ofRowsOf features f.coefficients

/-- Refuses settings with which nothing can be fitted. -/
def validate (m : LogisticRegression) : Except Failure Unit :=
  if m.classes < 2 then .error (.badSetting "n_classes" (toString m.classes) ">= 2")
  else if m.c.isNaN || m.c ≤ 0 then .error (.badSetting "C" (positionalText m.c) "> 0")
  else .ok ()

/-- The probabilities of the classes of a row. -/
def rowProbabilities (f : LinearFunctions) (row : List Float32) : List Float32 :=
  softmax (List.zipWith (fun b w => b + dotSingle w row) f.intercepts f.coefficients)

/-- How far a probability is from the truth. -/
def errorOf (target : Nat) (p : Float32) (c : Nat) : Float32 := p - (if target = c then 1 else 0)

/-- The sums over all rows of the errors of each class, and of the errors
times the features. -/
def gradient (classes features : Nat) (f : LinearFunctions)
    (samples : List (List Float32 × Nat)) : LinearFunctions :=
  let start : LinearFunctions :=
    ⟨List.replicate classes (zeroVector features), zeroVector classes⟩
  samples.foldl (fun sums sample =>
    let errors := (rowProbabilities f sample.1).zipIdx.map fun (p, c) => errorOf sample.2 p c
    { coefficients := List.zipWith (fun e acc => addScaled e acc sample.1) errors sums.coefficients
      intercepts := List.zipWith (· + ·) sums.intercepts errors }) start

/-- The gradient of the penalised mean loss. -/
def meanGradient (count penalty : Float32) (f sums : LinearFunctions) : LinearFunctions where
  coefficients := List.zipWith
    (List.zipWith fun g w => g / count + penalty * w) sums.coefficients f.coefficients
  intercepts := sums.intercepts.map (· / count)

/-- The functions a step further. -/
def descend (rate : Float32) (f g : LinearFunctions) : LinearFunctions where
  coefficients := List.zipWith (List.zipWith fun w d => w - rate * d) f.coefficients g.coefficients
  intercepts := List.zipWith (fun b d => b - rate * d) f.intercepts g.intercepts

/-- The largest entry of a gradient, signs aside. -/
def steepness (g : LinearFunctions) : Float32 :=
  ((g.intercepts ++ g.coefficients.flatten).map Float32.abs).foldl larger 0

/-- At most `limit` steps; the number of those taken is counted. -/
def descendFrom (m : LogisticRegression) (features : Nat) (samples : List (List Float32 × Nat)) :
    Nat → Nat → LinearFunctions → Nat × LinearFunctions
  | 0, taken, f => (taken, f)
  | limit + 1, taken, f =>
    let count := ofCount samples.length
    let g := meanGradient count (1 / (m.c * count)) f (gradient m.classes features f samples)
    let next := descend m.learningRate f g
    if steepness g < m.tolerance then (taken + 1, next)
    else descendFrom m features samples limit (taken + 1) next

/-- Fits the functions to rows with known classes. -/
def fit (m : LogisticRegression) (x : Matrix Float32) (y : List Nat) :
    Fallible LogisticRegression := do
  liftFailure m.validate
  if x.rows ≠ y.length then
    fail (.shapeMismatch (toString x.rows ++ " targets") (toString y.length ++ " targets"))
  if x.rows = 0 then fail (.other "Cannot fit with zero samples")
  match y.find? fun c => m.classes ≤ c with
  | some bad =>
    fail (.training ("target " ++ toString bad ++ " outside 0.." ++ toString m.classes))
  | none => pure ()
  reserve (m.classes * x.cols)
  let samples := (← x.allRows).zip y
  let start : LinearFunctions :=
    ⟨List.replicate m.classes (zeroVector x.cols), zeroVector m.classes⟩
  let (iterations, f) := descendFrom m x.cols samples m.maxIterations 0 start
  return { m with iterations, fitted := some (x.cols, f) }

/-- The probabilities of the classes of every row. -/
def probabilities (m : LogisticRegression) (x : Matrix Float32) : Fallible (Matrix Float32) := do
  match m.fitted with
  | none => fail (.other "Model not fitted yet")
  | some (features, f) =>
    if x.cols ≠ features then
      fail (.shapeMismatch (toString features ++ " features") (toString x.cols ++ " features"))
    return Matrix.ofRowsOf f.intercepts.length ((← x.allRows).map (rowProbabilities f))

end LogisticRegression

end RuleVote
