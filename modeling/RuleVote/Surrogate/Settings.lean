import RuleVote.Learn.LogisticRegression
import RuleVote.Learn.Perceptron
import RuleVote.Score.Folds

/-!
# Settings of surrogates

A surrogate learns from the features of items what the rules say about
their labels. There are three kinds: a logistic regression on hard labels
(`closedForm`), a network on label probabilities (`neural`), and a network
that learns together with how reliable each function is (`endToEnd`).

Two settings `agree` when their numbers are equal as numbers: the two zeros
agree, and settings that hold something that is not a number do not even
agree with themselves.
-/

namespace RuleVote

/-- The kinds of surrogates. -/
inductive SurrogateKind where
  /-- Logistic regression on hard labels. -/
  | closedForm
  /-- A network on label probabilities. -/
  | neural
  /-- A network on all votes. -/
  | endToEnd
deriving DecidableEq, Repr

/-- The name of a kind. -/
def SurrogateKind.name : SurrogateKind → String
  | closedForm => "closed_form"
  | neural => "neural"
  | endToEnd => "end_to_end"

/-- Settings of a logistic regression. -/
structure ClosedFormSettings where
  /-- The inverse of the penalty. -/
  c : Float32
  /-- The length of a step. -/
  learningRate : Float32
  /-- The largest number of steps. -/
  maxIterations : Nat
  /-- The seed of the folds. -/
  foldSeed : Nat
deriving DecidableEq, Repr

/-- Settings of a network on label probabilities. -/
structure NeuralSettings where
  /-- The network. -/
  network : NetworkSettings
  /-- The number of masked passes averaged for a prediction. -/
  passes : Nat
  /-- The seed of the folds. -/
  foldSeed : Nat
deriving DecidableEq, Repr

/-- Settings of a network on all votes. -/
structure EndToEndSettings where
  /-- The network. -/
  network : NetworkSettings
  /-- What the score of a class is divided by. -/
  temperature : Float32
  /-- Whether a vote weighs the square root of its reliability. -/
  squareRoot : Bool
  /-- The seed of the folds. -/
  foldSeed : Nat
deriving DecidableEq, Repr

/-- Settings of a surrogate. -/
inductive SurrogateSettings where
  /-- Logistic regression on hard labels. -/
  | closedForm (settings : ClosedFormSettings)
  /-- A network on label probabilities. -/
  | neural (settings : NeuralSettings)
  /-- A network on all votes. -/
  | endToEnd (settings : EndToEndSettings)
deriving DecidableEq, Repr

/-! ## Defaults -/

/-- The settings used unless others are given. -/
def ClosedFormSettings.standard : ClosedFormSettings where
  c := LogisticRegression.defaultC
  learningRate := (Decimal.mk 5 (-1)).toSingle false
  maxIterations := 1000
  foldSeed := StratifiedFolds.defaultSeed

/-- The settings used unless others are given. -/
def NeuralSettings.standard : NeuralSettings where
  network := .standard
  passes := 10
  foldSeed := StratifiedFolds.defaultSeed

/-- The settings used unless others are given: a narrow network, trained
long. -/
def EndToEndSettings.standard : EndToEndSettings where
  network := { NetworkSettings.standard with
    hidden := [10, 10, 5]
    dropout := (Decimal.mk 3 (-1)).toSingle false
    epochs := 100 }
  temperature := 2
  squareRoot := true
  foldSeed := StratifiedFolds.defaultSeed

/-- Refuses settings with which nothing can be trained. -/
def EndToEndSettings.validate (s : EndToEndSettings) : Except Failure Unit := do
  s.network.validate
  if s.temperature.isNaN || s.temperature ≤ 0 then
    .error (.badSetting "temperature" (positionalText s.temperature) "> 0")

namespace SurrogateSettings

/-- The settings used unless others are given. -/
def standard : SurrogateSettings := .closedForm .standard

/-- The kind that the settings are of. -/
def kind : SurrogateSettings → SurrogateKind
  | closedForm _ => .closedForm
  | neural _ => .neural
  | endToEnd _ => .endToEnd

/-- The number of folds unless another one is asked for: none for a network
on all votes. -/
def defaultFolds (s : SurrogateSettings) : Nat :=
  match s.kind with
  | .endToEnd => 0
  | _ => 5

end SurrogateSettings

/-! ## Agreement -/

/-- Equality of network settings, numbers compared as numbers. -/
def NetworkSettings.agrees (a b : NetworkSettings) : Bool :=
  a.hidden == b.hidden && a.dropout == b.dropout && a.learningRate == b.learningRate
    && a.batchSize == b.batchSize && a.epochs == b.epochs && a.seed == b.seed

/-- Equality of settings, numbers compared as numbers. -/
def SurrogateSettings.agrees : SurrogateSettings → SurrogateSettings → Bool
  | .closedForm a, .closedForm b =>
    a.c == b.c && a.learningRate == b.learningRate && a.maxIterations == b.maxIterations
      && a.foldSeed == b.foldSeed
  | .neural a, .neural b =>
    a.network.agrees b.network && a.passes == b.passes && a.foldSeed == b.foldSeed
  | .endToEnd a, .endToEnd b =>
    a.network.agrees b.network && a.temperature == b.temperature
      && a.squareRoot == b.squareRoot && a.foldSeed == b.foldSeed
  | _, _ => false

/-! ## As JSON -/

/-- The settings as the fields of an object. -/
def ClosedFormSettings.fields (s : ClosedFormSettings) : List (String × Json) :=
  [("c", .single s.c), ("learning_rate", .single s.learningRate),
    ("max_iter", .ofNat s.maxIterations), ("random_state", .ofNat s.foldSeed)]

/-- The settings as the fields of an object. -/
def NeuralSettings.fields (s : NeuralSettings) : List (String × Json) :=
  [("network", s.network.toJson), ("mc_samples", .ofNat s.passes),
    ("random_state", .ofNat s.foldSeed)]

/-- The settings as the fields of an object. -/
def EndToEndSettings.fields (s : EndToEndSettings) : List (String × Json) :=
  [("network", s.network.toJson), ("temperature", .single s.temperature),
    ("sqrt_scaling", .bool s.squareRoot), ("random_state", .ofNat s.foldSeed)]

/-- The settings as JSON. -/
def SurrogateSettings.toJson (s : SurrogateSettings) : Json :=
  .object (("variant", .string s.kind.name) :: match s with
    | .closedForm s => s.fields
    | .neural s => s.fields
    | .endToEnd s => s.fields)

namespace Decoder

/-- A kind of surrogates. -/
def surrogateKind : Decoder SurrogateKind :=
  bareChoice ([.closedForm, .neural, .endToEnd].map fun k => (SurrogateKind.name k, k))

/-- Settings of a logistic regression, each with its default. -/
def closedFormSettings : RecordDecoder ClosedFormSettings :=
  let s := ClosedFormSettings.standard
  ClosedFormSettings.mk <$> .defaulted "c" single s.c
    <*> .defaulted "learning_rate" single s.learningRate
    <*> .defaulted "max_iter" nat s.maxIterations
    <*> .defaulted "random_state" nat s.foldSeed

/-- Settings of a network on label probabilities, each with its default. -/
def neuralSettings : RecordDecoder NeuralSettings :=
  let s := NeuralSettings.standard
  NeuralSettings.mk <$> .defaulted "network" networkSettings s.network
    <*> .defaulted "mc_samples" nat s.passes <*> .defaulted "random_state" nat s.foldSeed

/-- Settings of a network on all votes, each with its default. -/
def endToEndSettings : RecordDecoder EndToEndSettings :=
  let s := EndToEndSettings.standard
  EndToEndSettings.mk <$> .defaulted "network" networkSettings s.network
    <*> .defaulted "temperature" single s.temperature
    <*> .defaulted "sqrt_scaling" bool s.squareRoot
    <*> .defaulted "random_state" nat s.foldSeed

/-- Settings of a surrogate. -/
def surrogateSettings : Decoder SurrogateSettings :=
  tagged "variant" [
    ("closed_form", .record (SurrogateSettings.closedForm <$> closedFormSettings)),
    ("neural", .record (SurrogateSettings.neural <$> neuralSettings)),
    ("end_to_end", .record (SurrogateSettings.endToEnd <$> endToEndSettings))]

end Decoder

end RuleVote
