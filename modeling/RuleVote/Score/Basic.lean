import RuleVote.Json.Decoder
import RuleVote.Json.Value
import RuleVote.Score.Metric

/-!
# Scores

A score says how well predicted labels meet true ones, with precision and
sensitivity weighted by class; sensitivity is written as recall. No pairs at
all give a score without metrics. Cross-validation has a score for every
fold that could be trained and evaluated, and a reason for every other one; a
training score averages the former and counts the latter.
-/

namespace RuleVote

/-- How well labels were predicted. -/
structure Score where
  /-- The number of pairs. -/
  count : Nat
  /-- The share of correct labels. -/
  accuracy : Option Float32
  /-- The weighted precision. -/
  precision : Option Float32
  /-- The weighted sensitivity. -/
  sensitivity : Option Float32
deriving DecidableEq, Repr

/-- How a score changed. -/
structure ScoreDelta where
  /-- The change of the number of pairs. -/
  count : Int
  /-- The change of the accuracy. -/
  accuracy : Option Float32
  /-- The change of the precision. -/
  precision : Option Float32
  /-- The change of the sensitivity. -/
  sensitivity : Option Float32
deriving DecidableEq, Repr

namespace Score

/-- The score of no pairs. -/
def empty : Score := ⟨0, none, none, none⟩

/-- The difference of two numbers that may be missing. -/
def difference (now before : Option Float32) : Option Float32 := do return (← now) - (← before)

/-- How a score changed since another one. -/
def delta (now before : Score) : ScoreDelta where
  count := now.count - before.count
  accuracy := difference now.accuracy before.accuracy
  precision := difference now.precision before.precision
  sensitivity := difference now.sensitivity before.sensitivity

/-- The score of predicted labels. -/
def ofLabels (truth predicted : List Int) : Fallible Score := do
  if truth.length ≠ predicted.length then
    fail (.shapeMismatch (toString truth.length ++ " predictions")
      (toString predicted.length ++ " predictions"))
  if truth.isEmpty then return empty
  return {
    count := truth.length
    accuracy := some (← Metric.accuracy truth predicted)
    precision := some (← Metric.precision .weighted truth predicted)
    sensitivity := some (← Metric.sensitivity .weighted truth predicted) }

/-- The pairs of labels of the items that have both. -/
def labelPairs (items : List String) (truth predicted : String → Option Int) :
    List (Int × Int) :=
  items.filterMap fun item => do return (← truth item, ← predicted item)

/-- The score over the items that have a true and a predicted label. -/
def ofItems (items : List String) (truth predicted : String → Option Int) : Score :=
  let pairs := labelPairs items truth predicted
  match ofLabels (pairs.map Prod.fst) (pairs.map Prod.snd) with
  | .ok s => s
  | .error _ => empty

end Score

/-- How well a fold was predicted. -/
structure FoldScores where
  /-- The share of correct labels. -/
  accuracy : Float32
  /-- The weighted precision. -/
  precision : Float32
  /-- The weighted sensitivity. -/
  sensitivity : Float32
  /-- The mean loss. -/
  loss : Float32
deriving DecidableEq, Repr

/-- Evaluates the probabilities predicted for rows whose classes are known. -/
def FoldScores.evaluate (targets : List Nat) (probabilities : Matrix Float32) :
    Fallible FoldScores := do
  if targets.isEmpty then fail (.training "held-out split has no labeled rows")
  if probabilities.rows ≠ targets.length then
    fail (.shapeMismatch (toString targets.length ++ " probability rows")
      (toString probabilities.rows ++ " probability rows"))
  let truth := targets.map Int.ofNat
  let predicted := (← probabilities.argmaxRows).map Int.ofNat
  return {
    accuracy := ← Metric.accuracy truth predicted
    precision := ← Metric.precision .weighted truth predicted
    sensitivity := ← Metric.sensitivity .weighted truth predicted
    loss := narrow (← Metric.logLoss targets probabilities) }

/-- What became of a fold. -/
inductive FoldOutcome where
  /-- It was trained and evaluated. -/
  | scored (scores : FoldScores)
  /-- It was not, for the given reason. -/
  | failed (reason : String)
deriving DecidableEq, Repr

/-- One fold of a cross-validation. -/
structure FoldRecord where
  /-- Its number. -/
  fold : Nat
  /-- The rows it was evaluated on. -/
  heldOut : List Nat
  /-- What became of it. -/
  outcome : FoldOutcome
deriving DecidableEq, Repr

/-- The scores of a fold, if it has any. -/
def FoldRecord.scores? (r : FoldRecord) : Option FoldScores :=
  match r.outcome with
  | .scored s => some s
  | .failed _ => none

/-- The averages over the folds that have scores. -/
structure TrainingScore where
  /-- The number of folds. -/
  folds : Nat
  /-- The number of folds without scores. -/
  failed : Nat
  /-- The mean accuracy. -/
  accuracy : Option Float32
  /-- The mean precision. -/
  precision : Option Float32
  /-- The mean sensitivity. -/
  sensitivity : Option Float32
  /-- The mean loss. -/
  loss : Option Float32
deriving DecidableEq, Repr

/-- The training score of some folds. -/
def TrainingScore.ofFolds (records : List FoldRecord) : TrainingScore :=
  let scored := records.filterMap FoldRecord.scores?
  let mean (f : FoldScores → Float32) : Option Float32 :=
    if scored.isEmpty then none
    else some (sumSingle (scored.map f) / ofCount scored.length)
  { folds := records.length
    failed := records.length - scored.length
    accuracy := mean FoldScores.accuracy
    precision := mean FoldScores.precision
    sensitivity := mean FoldScores.sensitivity
    loss := mean FoldScores.loss }

/-! ## As JSON -/

/-- A score as JSON. -/
def Score.toJson (s : Score) : Json :=
  .object [("count", .ofNat s.count), ("accuracy", .ofOption .single s.accuracy),
    ("precision", .ofOption .single s.precision), ("recall", .ofOption .single s.sensitivity)]

/-- The change of a score as JSON. -/
def ScoreDelta.toJson (s : ScoreDelta) : Json :=
  .object [("count", .integer s.count), ("accuracy", .ofOption .single s.accuracy),
    ("precision", .ofOption .single s.precision), ("recall", .ofOption .single s.sensitivity)]

/-- What became of a fold, as JSON. -/
def FoldOutcome.toJson : FoldOutcome → Json
  | .scored s =>
    .object [("status", .string "scored"), ("accuracy", .single s.accuracy),
      ("precision", .single s.precision), ("recall", .single s.sensitivity), ("loss", .single s.loss)]
  | .failed reason => .object [("status", .string "failed"), ("reason", .string reason)]

/-- A fold as JSON. -/
def FoldRecord.toJson (r : FoldRecord) : Json :=
  .object [("fold", .ofNat r.fold), ("held_out", .ofList .ofNat r.heldOut),
    ("outcome", r.outcome.toJson)]

/-- A training score as JSON. -/
def TrainingScore.toJson (s : TrainingScore) : Json :=
  .object [("folds", .ofNat s.folds), ("failed", .ofNat s.failed),
    ("accuracy", .ofOption .single s.accuracy), ("precision", .ofOption .single s.precision),
    ("recall", .ofOption .single s.sensitivity), ("loss", .ofOption .single s.loss)]

namespace Decoder

/-- A score. -/
def score : Decoder Score :=
  (Score.mk <$> .required "count" nat <*> .optional "accuracy" single
    <*> .optional "precision" single <*> .optional "recall" single : RecordDecoder Score).decode

/-- What became of a fold. -/
def foldOutcome : Decoder FoldOutcome :=
  tagged "status" [
    ("scored", .record
      (FoldOutcome.scored <$> (FoldScores.mk <$> .required "accuracy" single
        <*> .required "precision" single <*> .required "recall" single
        <*> .required "loss" single))),
    ("failed", .record (FoldOutcome.failed <$> .required "reason" string))]

/-- A fold. -/
def foldRecord : Decoder FoldRecord :=
  (FoldRecord.mk <$> .required "fold" nat <*> .required "held_out" (list nat)
    <*> .required "outcome" foldOutcome : RecordDecoder FoldRecord).decode

/-- A training score. -/
def trainingScore : Decoder TrainingScore :=
  (TrainingScore.mk <$> .required "folds" nat <*> .required "failed" nat
    <*> .optional "accuracy" single <*> .optional "precision" single
    <*> .optional "recall" single <*> .optional "loss" single
    : RecordDecoder TrainingScore).decode

end Decoder

end RuleVote
