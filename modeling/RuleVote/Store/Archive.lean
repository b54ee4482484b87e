import RuleVote.Run.Result

/-!
# Archived results

A result is archived with its settings, findings and scores as JSON text.
The text is taken apart only when the result is wanted back.
-/

namespace RuleVote

/-- An archived result. -/
structure ArchivedResult where
  /-- Its identifier. -/
  id : Uuid
  /-- The rule set applied. -/
  ruleSet : String
  /-- The task labeled. -/
  task : String
  /-- When the run was done. -/
  moment : Moment
  /-- The rules that became functions. -/
  rulesUsed : List String
  /-- The settings as text. -/
  properties : String
  /-- What was found, as text. -/
  output : String
  /-- The scores as text. -/
  scores : String
deriving DecidableEq, Repr

namespace ArchivedResult

/-- Archives a result. -/
def ofResult (r : LabelingResult) : ArchivedResult where
  id := r.id
  ruleSet := r.ruleSet
  task := r.task
  moment := r.moment
  rulesUsed := r.rulesUsed
  properties := r.properties.toJson.compact
  output := r.output.toJson.compact
  scores := r.scores.toJson.compact

/-- The result that was archived. -/
def result (a : ArchivedResult) : Except DocumentFault LabelingResult := do
  let properties ← decodeText .runProperties a.properties
  let output ← decodeText .runOutput a.output
  let scores ← decodeText .runScores a.scores
  return ⟨a.id, a.ruleSet, a.task, a.moment, a.rulesUsed, properties, output, scores⟩

/-- An archived result as JSON. -/
def toJson (a : ArchivedResult) : Json :=
  .object [("id", .string a.id.text), ("ruleset_id", .string a.ruleSet),
    ("task_id", .string a.task), ("timestamp", .string a.moment.text),
    ("rule_set_used", .ofList .string a.rulesUsed), ("model_properties", .string a.properties),
    ("results", .string a.output), ("scores", .string a.scores)]

end ArchivedResult

/-- An archived result. -/
def Decoder.archivedResult : Decoder ArchivedResult :=
  (ArchivedResult.mk <$> .required "id" uuid <*> .required "ruleset_id" string
    <*> .required "task_id" string <*> .required "timestamp" moment
    <*> .required "rule_set_used" (list string) <*> .required "model_properties" string
    <*> .required "results" string <*> .required "scores" string
    : RecordDecoder ArchivedResult).decode

end RuleVote
