import RuleVote.Run.Moment
import RuleVote.Run.Settings
import RuleVote.Run.Uuid
import RuleVote.Score.Basic

/-!
# Results of runs

A result keeps the settings of a run, the labels of every item, what became
of the folds and of the rules, and the scores. It never changes; two of them
have a difference of scores.
-/

namespace RuleVote

/-- The settings a run used. -/
structure RunProperties where
  /-- The first stage. -/
  reduction : ReductionSettings
  /-- The second stage. -/
  learning : LearningSettings
  /-- The features learned from. -/
  features : List String
deriving DecidableEq, Repr

/-- The labels of an item. -/
structure ItemLabels where
  /-- The key of the item. -/
  key : String
  /-- What the votes were reduced to. -/
  aggregated : Int
  /-- What the surrogate was trained towards. -/
  target : Int
  /-- What the surrogate predicts. -/
  predicted : Int
  /-- The gold label, if there is one. -/
  gold : Option Int
deriving DecidableEq, Repr

/-- What a run found. -/
structure RunOutput where
  /-- The labels of every item. -/
  items : List ItemLabels
  /-- The folds of the cross-validation. -/
  folds : List FoldRecord
  /-- The rules that were left out. -/
  excluded : List ExcludedRule
  /-- The analysis of the votes. -/
  analysis : VoteAnalysis
deriving DecidableEq, Repr

/-- The scores of a run. -/
structure RunScores where
  /-- The reduced votes against gold labels. -/
  aggregated : Score
  /-- The surrogate against gold labels. -/
  surrogateGold : Score
  /-- The surrogate against the labels it was trained on. -/
  surrogateReference : Score
  /-- The averages over the folds. -/
  training : TrainingScore
deriving DecidableEq, Repr

/-- How the scores changed between two runs. -/
structure RunDelta where
  /-- The reduced votes against gold labels. -/
  aggregated : ScoreDelta
  /-- The surrogate against gold labels. -/
  surrogateGold : ScoreDelta
  /-- The surrogate against the labels it was trained on. -/
  surrogateReference : ScoreDelta
deriving DecidableEq, Repr

/-- How the scores changed since earlier ones. -/
def RunScores.delta (now before : RunScores) : RunDelta where
  aggregated := now.aggregated.delta before.aggregated
  surrogateGold := now.surrogateGold.delta before.surrogateGold
  surrogateReference := now.surrogateReference.delta before.surrogateReference

/-- The record of a run. -/
structure LabelingResult where
  /-- Its identifier. -/
  id : Uuid
  /-- The rule set applied. -/
  ruleSet : String
  /-- The task labeled. -/
  task : String
  /-- When the run was done. -/
  moment : Moment
  /-- The rules that became functions, in the order of their columns. -/
  rulesUsed : List String
  /-- The settings. -/
  properties : RunProperties
  /-- What was found. -/
  output : RunOutput
  /-- The scores. -/
  scores : RunScores
deriving DecidableEq, Repr

/-! ## As JSON -/

/-- The settings a run used, as JSON. -/
def RunProperties.toJson (p : RunProperties) : Json :=
  .object [("label_model", p.reduction.toJson), ("surrogate", p.learning.toJson),
    ("features", .ofList .string p.features)]

/-- The labels of an item as JSON; a missing gold label is left out. -/
def ItemLabels.toJson (l : ItemLabels) : Json :=
  .object ([("key", .string l.key), ("label_model", .integer l.aggregated),
      ("target", .integer l.target), ("surrogate", .integer l.predicted)]
    ++ (l.gold.map fun g => ("gold", .integer g)).toList)

/-- What a run found, as JSON. -/
def RunOutput.toJson (o : RunOutput) : Json :=
  .object [("predictions", .ofList ItemLabels.toJson o.items),
    ("folds", .ofList FoldRecord.toJson o.folds),
    ("excluded", .ofList ExcludedRule.toJson o.excluded), ("analysis", o.analysis.toJson)]

/-- The scores of a run as JSON, given how a training score is written. -/
def RunScores.toJsonWith (training : TrainingScore → Json) (s : RunScores) : Json :=
  .object [("label_model", s.aggregated.toJson), ("surrogate_gold", s.surrogateGold.toJson),
    ("surrogate_reference", s.surrogateReference.toJson), ("training", training s.training)]

/-- The scores of a run as JSON. -/
def RunScores.toJson (s : RunScores) : Json := s.toJsonWith TrainingScore.toJson

/-- The change of scores as JSON. -/
def RunDelta.toJson (d : RunDelta) : Json :=
  .object [("label_model", d.aggregated.toJson), ("surrogate_gold", d.surrogateGold.toJson),
    ("surrogate_reference", d.surrogateReference.toJson)]

/-- The record of a run as JSON. -/
def LabelingResult.toJson (r : LabelingResult) : Json :=
  .object [("id", .string r.id.text), ("ruleset_id", .string r.ruleSet),
    ("task_id", .string r.task), ("timestamp", .string r.moment.text),
    ("rule_set_used", .ofList .string r.rulesUsed), ("properties", r.properties.toJson),
    ("output", r.output.toJson), ("scores", r.scores.toJson)]

namespace Decoder

/-- The settings a run used. -/
def runProperties : Decoder RunProperties :=
  (RunProperties.mk <$> .required "label_model" reductionSettings
    <*> .required "surrogate" learningSettings <*> .required "features" (list string)
    : RecordDecoder RunProperties).decode

/-- The labels of an item. -/
def itemLabels : Decoder ItemLabels :=
  (ItemLabels.mk <$> .required "key" string <*> .required "label_model" index
    <*> .required "target" index <*> .required "surrogate" index
    <*> .defaulted "gold" (nullable index) none : RecordDecoder ItemLabels).decode

/-- What a run found. -/
def runOutput : Decoder RunOutput :=
  (RunOutput.mk <$> .required "predictions" (list itemLabels)
    <*> .required "folds" (list foldRecord) <*> .required "excluded" (list excludedRule)
    <*> .required "analysis" voteAnalysis : RecordDecoder RunOutput).decode

/-- The scores of a run. -/
def runScores : Decoder RunScores :=
  (RunScores.mk <$> .required "label_model" score <*> .required "surrogate_gold" score
    <*> .required "surrogate_reference" score <*> .required "training" trainingScore
    : RecordDecoder RunScores).decode

/-- The record of a run. -/
def labelingResult : Decoder LabelingResult :=
  (LabelingResult.mk <$> .required "id" uuid <*> .required "ruleset_id" string
    <*> .required "task_id" string <*> .required "timestamp" moment
    <*> .required "rule_set_used" (list string) <*> .required "properties" runProperties
    <*> .required "output" runOutput <*> .required "scores" runScores
    : RecordDecoder LabelingResult).decode

end Decoder

end RuleVote
