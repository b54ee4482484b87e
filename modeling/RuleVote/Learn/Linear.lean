import RuleVote.Learn.Vector
import RuleVote.Matrix
import RuleVote.Random.Draw

/-!
# Linear layers

A layer takes a row of inputs to weighted sums of them with a bias each. A
new layer has random weights, spread the wider the fewer inputs there are,
and no bias. `backward` takes the gradient at the outputs to the gradients
at the inputs, the weights and the biases; an output whose gradient is zero
adds nothing to any of them.
-/

namespace RuleVote

/-- A linear layer: one row of weights and one bias for each output. -/
structure Linear where
  /-- The weights. -/
  weight : Matrix Float32
  /-- The biases. -/
  bias : List Float32
deriving Repr

/-- A gradient at the parameters of a layer. -/
structure LinearGradient where
  /-- At the weights. -/
  weight : Matrix Float32
  /-- At the biases. -/
  bias : List Float32
deriving Repr

/-- Random weights for so many inputs and outputs. -/
def randomWeights (inputs outputs : Nat) (s : KeyStream) :
    Fallible (Matrix Float32 × KeyStream) := do
  reserve (outputs * inputs)
  let bound := (6 / ofCount (max inputs 1)).sqrt
  let scale := KeyStream.inclusiveScale (-bound) bound
  let (data, s) := KeyStream.several (fun s => s.within (-bound) scale) (outputs * inputs) s
  return (⟨data.toArray, outputs, inputs⟩, s)

namespace Linear

/-- A new layer. -/
def random (inputs outputs : Nat) (s : KeyStream) : Fallible (Linear × KeyStream) := do
  let (weight, s) ← randomWeights inputs outputs s
  reserve outputs
  return (⟨weight, zeroVector outputs⟩, s)

/-- The outputs for a row of inputs. -/
def forwardRow (l : Linear) (row : List Float32) : Fallible (List Float32) :=
  (List.range l.weight.rows).mapM fun o => do
    return (← orBreak l.bias[o]?) + dotSingle (← l.weight.row o) row

/-- The outputs for every row of inputs. -/
def forward (l : Linear) (x : Matrix Float32) : Fallible (Matrix Float32) := do
  assertThat (x.cols == l.weight.cols)
  return Matrix.ofRowsOf l.weight.rows (← (← x.allRows).mapM l.forwardRow)

/-- The outputs whose gradient is not zero, with it. -/
def activeOutputs (gradients : List Float32) : List (Float32 × Nat) :=
  gradients.zipIdx.filter fun (g, _) => g != 0

/-- Breaks off for a gradient at an output or an input that there is not. -/
def checkActive (l : Linear) (x : Matrix Float32) (row : Nat) (o : Nat) : Fallible Unit := do
  assertThat (o < l.weight.rows)
  assertThat (l.weight.row? o).isSome
  assertThat (l.weight.cols == 0 || row < x.rows)

/-- The gradient at the inputs of one row. -/
def inputGradient (l : Linear) (gradients : List Float32) : Fallible (List Float32) :=
  (activeOutputs gradients).foldlM
    (fun acc (g, o) => do return addScaled g acc (← l.weight.row o)) (zeroVector l.weight.cols)

/-- The gradient at the weights of one output. -/
def weightGradient (inputs o : Nat) (rows : List (List Float32 × List Float32)) :
    List Float32 :=
  rows.foldl (fun acc (xs, gradients) =>
    match gradients[o]? with
    | some g => if g != 0 then addScaled g acc xs else acc
    | none => acc) (zeroVector inputs)

/-- The gradient at the bias of one output. -/
def biasGradient (o : Nat) (rows : List (List Float32 × List Float32)) : Float32 :=
  rows.foldl (fun acc (_, gradients) =>
    match gradients[o]? with
    | some g => if g != 0 then acc + g else acc
    | none => acc) 0

/-- The gradients at inputs and parameters, given the inputs and the
gradient at the outputs. -/
def backward (l : Linear) (x gradOut : Matrix Float32) :
    Fallible (Matrix Float32 × LinearGradient) := do
  let gradRows ← gradOut.allRows
  let inputRows ← (List.range gradOut.rows).mapM x.row
  gradRows.zipIdx.forM fun (gradients, i) =>
    (activeOutputs gradients).forM fun (_, o) => l.checkActive x i o
  let reached ← gradRows.mapM l.inputGradient
  let unreached := List.replicate (x.rows - gradOut.rows) (zeroVector l.weight.cols)
  let rows := inputRows.zip gradRows
  let outputs := List.range l.weight.rows
  return (Matrix.ofRowsOf l.weight.cols ((reached ++ unreached).take x.rows),
    { weight := Matrix.ofRowsOf l.weight.cols
        (outputs.map fun o => weightGradient l.weight.cols o rows)
      bias := outputs.map fun o => biasGradient o rows })

end Linear

end RuleVote
