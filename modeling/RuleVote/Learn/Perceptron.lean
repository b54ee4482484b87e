import RuleVote.Json.Decoder
import RuleVote.Json.Value
import RuleVote.Learn.Adam
import RuleVote.Learn.CrossEntropy
import RuleVote.Learn.Dropout
import RuleVote.Learn.Linear

/-!
# Perceptrons

A network of linear layers with rectified hidden values, dropout while it is
trained, and a softmax at the end. An epoch puts the rows in random order,
cuts them into batches, and moves the parameters once for each batch
(`trainBatch`). Random numbers are taken for the order first and then, batch
by batch, for the masks of the hidden layers.
-/

namespace RuleVote

/-- Settings of a network and its training. -/
structure NetworkSettings where
  /-- The widths of the hidden layers. -/
  hidden : List Nat
  /-- The chance with which a hidden value is dropped. -/
  dropout : Float32
  /-- The length of a step. -/
  learningRate : Float32
  /-- The number of rows in a batch. -/
  batchSize : Nat
  /-- The number of epochs. -/
  epochs : Nat
  /-- The seed of the weights; training uses the next one. -/
  seed : Nat
deriving DecidableEq, Repr

namespace NetworkSettings

/-- The settings used unless others are given. -/
def standard : NetworkSettings where
  hidden := [128, 64]
  dropout := (Decimal.mk 1 (-1)).toSingle false
  learningRate := (Decimal.mk 1 (-3)).toSingle false
  batchSize := 64
  epochs := 15
  seed := 0

/-- The widths in brackets. -/
def widthsText (widths : List Nat) : String :=
  "[" ++ String.intercalate ", " (widths.map toString) ++ "]"

/-- Refuses settings with which nothing can be trained. -/
def validate (s : NetworkSettings) : Except Failure Unit :=
  if s.hidden.contains 0 then
    .error (.badSetting "hidden" (widthsText s.hidden) "all widths > 0")
  else if s.batchSize = 0 then .error (.badSetting "batch_size" "0" "> 0")
  else if !(0 ≤ s.dropout && s.dropout < 1) then
    .error (.badSetting "dropout" (positionalText s.dropout) "in [0, 1)")
  else if s.learningRate.isNaN || s.learningRate ≤ 0 then
    .error (.badSetting "learning_rate" (positionalText s.learningRate) "> 0")
  else .ok ()

/-- The settings as JSON. -/
def toJson (s : NetworkSettings) : Json :=
  .object [("hidden", .ofList .ofNat s.hidden), ("dropout", .single s.dropout),
    ("learning_rate", .single s.learningRate), ("batch_size", .ofNat s.batchSize),
    ("epochs", .ofNat s.epochs), ("seed", .ofNat s.seed)]

end NetworkSettings

/-- Settings of a network, each with its default. -/
def Decoder.networkSettings : Decoder NetworkSettings :=
  let s := NetworkSettings.standard
  (NetworkSettings.mk <$> .defaulted "hidden" (list nat) s.hidden
    <*> .defaulted "dropout" single s.dropout
    <*> .defaulted "learning_rate" single s.learningRate
    <*> .defaulted "batch_size" nat s.batchSize <*> .defaulted "epochs" nat s.epochs
    <*> .defaulted "seed" nat s.seed : RecordDecoder NetworkSettings).decode

/-- A network in training. -/
structure Perceptron where
  /-- The layers, the hidden ones first. -/
  hidden : List Linear
  /-- The last layer. -/
  output : Linear
  /-- The optimizer. -/
  optimizer : Adam
  /-- The settings. -/
  settings : NetworkSettings
  /-- The number of features. -/
  features : Nat
  /-- The number of classes. -/
  classes : Nat
  /-- The number of epochs trained. -/
  epochsRun : Nat
deriving Repr

/-- A hidden layer in a forward pass. -/
structure HiddenPass where
  /-- What went in. -/
  input : Matrix Float32
  /-- What came out of the layer, before it was rectified. -/
  raw : Matrix Float32
  /-- The mask, if there was one. -/
  mask : Option (Matrix Float32)
deriving Repr

/-- A forward pass. -/
structure ForwardPass where
  /-- The hidden layers. -/
  hidden : List HiddenPass
  /-- What went into the last layer. -/
  input : Matrix Float32
  /-- The probabilities. -/
  probabilities : Matrix Float32
deriving Repr

namespace Perceptron

/-- Random layers between the given widths. -/
def randomLayers : List Nat → KeyStream → Fallible (List Linear)
  | inputs :: outputs :: widths, s => do
    let (layer, s) ← Linear.random inputs outputs s
    return layer :: (← randomLayers (outputs :: widths) s)
  | _, _ => .ok []

/-- Refuses a shape that no network has. -/
def checkShape (features classes : Nat) : Except Failure Unit :=
  if classes < 2 ∨ features = 0 then
    .error (.badSetting "shape"
      (toString features ++ " features, " ++ toString classes ++ " classes")
      ">= 1 feature and >= 2 classes")
  else .ok ()

/-- A network with random weights. Its settings are checked, but not whether
its layers are too wide to be stored. -/
def new (features classes : Nat) (settings : NetworkSettings) : Fallible Perceptron := do
  liftFailure settings.validate
  liftFailure (checkShape features classes)
  let layers ← randomLayers (features :: settings.hidden ++ [classes])
    (KeyStream.ofSeed settings.seed)
  return {
    hidden := layers.dropLast
    output := layers.getLastD ⟨⟨#[], 0, 0⟩, []⟩
    optimizer := .new settings.learningRate
    settings, features, classes
    epochsRun := 0 }

/-- All layers in order. -/
def layers (p : Perceptron) : List Linear := p.hidden ++ [p.output]

/-- Refuses rows of another number of features. -/
def checkInput (p : Perceptron) (x : Matrix Float32) : Except Failure Unit :=
  if x.cols = p.features then .ok ()
  else .error (.shapeMismatch (toString p.features ++ " features")
    (toString x.cols ++ " features"))

/-- Refuses rows and targets that do not belong together, and no rows. -/
def checkTargets (p : Perceptron) (x targets : Matrix Float32) : Except Failure Unit := do
  p.checkInput x
  if targets.rows ≠ x.rows ∨ targets.cols ≠ p.classes then
    let shape (rows cols : Nat) := toString rows ++ " x " ++ toString cols ++ " targets"
    .error (.shapeMismatch (shape x.rows p.classes) (shape targets.rows targets.cols))
  if x.rows = 0 then .error (.training "cannot train on zero rows")

/-- Negative values made zero. -/
def rectify (m : Matrix Float32) : Matrix Float32 :=
  { m with data := m.data.map fun v => larger v 0 }

/-- Passes through the hidden layers; what came out of the last of them is
given too. Masks are drawn only from a key stream. -/
def forwardHidden (dropout : Dropout) : List Linear → Matrix Float32 → Option KeyStream →
    Fallible (List HiddenPass × Matrix Float32 × Option KeyStream)
  | [], x, s => .ok ([], x, s)
  | layer :: layers, x, s => do
    let raw ← layer.forward x
    let (mask, s) := match s with
      | none => (none, none)
      | some s =>
        let (mask, s) := dropout.mask raw.rows raw.cols s
        (mask, some s)
    let (passes, out, s) ← forwardHidden dropout layers (Dropout.apply mask (rectify raw)) s
    return (⟨x, raw, mask⟩ :: passes, out, s)

/-- A forward pass. -/
def forward (p : Perceptron) (x : Matrix Float32) (s : Option KeyStream) :
    Fallible (ForwardPass × Option KeyStream) := do
  let (hidden, input, s) ← forwardHidden (.new p.settings.dropout) p.hidden x s
  let probabilities ← softmaxRows (← p.output.forward input)
  return (⟨hidden, input, probabilities⟩, s)

/-- The gradient at the raw values of a hidden layer, given that at its
masked outputs. -/
def backwardHidden (pass : HiddenPass) (grad : Matrix Float32) : Matrix Float32 :=
  let grad := Dropout.apply pass.mask grad
  { grad with data := Array.zipWith (fun g z => if z ≤ 0 then 0 else g) grad.data pass.raw.data }

/-- The gradients at the parameters of the hidden layers, the last of them
first. -/
def backwardLayers : List (Linear × HiddenPass) → Matrix Float32 →
    Fallible (List LinearGradient)
  | [], _ => .ok []
  | (layer, pass) :: rest, grad => do
    let (gradIn, g) ← layer.backward pass.input (backwardHidden pass grad)
    return g :: (← backwardLayers rest gradIn)

/-- The gradients at the parameters of all layers in order. -/
def gradients (p : Perceptron) (pass : ForwardPass) (targets : Matrix Float32) :
    Fallible (List LinearGradient) := do
  let (gradIn, last) ←
    p.output.backward pass.input (CrossEntropy.gradient pass.probabilities targets)
  let reversed ← backwardLayers (p.hidden.zip pass.hidden).reverse gradIn
  return reversed.reverse ++ [last]

/-- Moves the parameters of layers; the first of them has the given
number. -/
def moveLayers : Nat → Adam → List (Linear × LinearGradient) → Fallible (List Linear × Adam)
  | _, a, [] => .ok ([], a)
  | n, a, (layer, g) :: rest => do
    let (weight, a) ← a.update (2 * n) layer.weight.data.toList g.weight.data.toList
    let (bias, a) ← a.update (2 * n + 1) layer.bias g.bias
    let (layers, a) ← moveLayers (n + 1) a rest
    return (⟨{ layer.weight with data := weight.toArray }, bias⟩ :: layers, a)

/-- Trains on one batch; its loss is the one before the parameters move. -/
def trainBatch (p : Perceptron) (x targets : Matrix Float32) (s : KeyStream) :
    Fallible (Float32 × Perceptron × KeyStream) := do
  let (pass, rest) ← p.forward x (some s)
  -- the loss is of the probabilities the step starts from
  let loss ← CrossEntropy.loss pass.probabilities targets
  let grads ← p.gradients pass targets
  let (layers, optimizer) ← moveLayers 0 p.optimizer.step (p.layers.zip grads)
  return (loss,
    { p with hidden := layers.dropLast, output := layers.getLastD p.output, optimizer },
    rest.getD s)

/-- The batches of an epoch as row numbers, in random order. -/
def batches (size rows : Nat) (s : KeyStream) : List (List Nat) × KeyStream :=
  let (order, s) := s.shuffle (List.range rows)
  (pieces size order, s)

/-- Trains on batches in turn; `total` is the sum of their losses, each
times the number of its rows. -/
def trainBatches (x targets : Matrix Float32) :
    List (List Nat) → Float32 → Perceptron → KeyStream →
      Fallible (Float32 × Perceptron × KeyStream)
  | [], total, p, s => .ok (total, p, s)
  | batch :: rest, total, p, s => do
    let (loss, p, s) ← p.trainBatch (← x.selectRows batch) (← targets.selectRows batch) s
    trainBatches x targets rest (total + loss * ofCount batch.length) p s

/-- Trains for an epoch and gives its mean loss. -/
def trainEpoch (p : Perceptron) (x targets : Matrix Float32) (s : KeyStream) :
    Fallible (Float32 × Perceptron × KeyStream) := do
  liftFailure (p.checkTargets x targets)
  let (batches, s) := batches p.settings.batchSize x.rows s
  let (total, p, s) ← trainBatches x targets batches 0 p s
  return (total / ofCount x.rows, { p with epochsRun := p.epochsRun + 1 }, s)

/-- Trains for several epochs and gives their losses. -/
def trainEpochs (x targets : Matrix Float32) :
    Nat → Perceptron → KeyStream → Fallible (List Float32 × Perceptron)
  | 0, p, _ => .ok ([], p)
  | epochs + 1, p, s => do
    let (loss, p, s) ← p.trainEpoch x targets s
    let (losses, p) ← trainEpochs x targets epochs p s
    return (loss :: losses, p)

/-- Trains a network as its settings say and gives the losses, for which
there is to be room before the first epoch. -/
def fit (p : Perceptron) (x targets : Matrix Float32) :
    Fallible (List Float32 × Perceptron) := do
  reserve p.settings.epochs
  trainEpochs x targets p.settings.epochs p (KeyStream.ofSeed (p.settings.seed + 1))

/-- The probabilities of the classes of every row. -/
def probabilities (p : Perceptron) (x : Matrix Float32) : Fallible (Matrix Float32) := do
  liftFailure (p.checkInput x)
  return (← p.forward x none).1.probabilities

/-- Adds masked passes, each divided by their number, to a sum. -/
def addPasses (p : Perceptron) (x : Matrix Float32) (passes : Nat) :
    Nat → Array Float32 → KeyStream → Fallible (Array Float32)
  | 0, sum, _ => .ok sum
  | n + 1, sum, s => do
    let (pass, rest) ← p.forward x (some s)
    let sum := Array.zipWith (fun m q => m + q / ofCount passes) sum pass.probabilities.data
    addPasses p x passes n sum (rest.getD s)

/-- The mean of the probabilities of several masked passes; of one pass
without masks if none is asked for. -/
def meanProbabilities (p : Perceptron) (x : Matrix Float32) (passes seed : Nat) :
    Fallible (Matrix Float32) := do
  if passes = 0 then p.probabilities x
  else
    liftFailure (p.checkInput x)
    let start := Matrix.uniform x.rows p.classes 0
    let data ← addPasses p x passes passes start.data (KeyStream.ofSeed seed)
    return { start with data }

end Perceptron

end RuleVote
