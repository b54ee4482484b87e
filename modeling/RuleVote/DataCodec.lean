import RuleVote.Label.Labeler

/-!
# Tables and matrices as JSON

A matrix is read without a look at its shape; a feature table and a label
set are checked as if they had been built, and a document that fails the
check does not fit.
-/

namespace RuleVote

/-- A matrix as JSON. -/
def Matrix.toJson {α : Type} (entry : α → Json) (m : Matrix α) : Json :=
  .object [("data", .ofList entry m.data.toList), ("rows", .ofNat m.rows),
    ("cols", .ofNat m.cols)]

/-- A column as JSON. -/
def Column.toJson {α : Type} (value : α → Json) (c : Column α) : Json :=
  .object [("name", .string c.name), ("values", .ofList value c.values)]

/-- A feature table as JSON; a missing label column is left out. -/
def FeatureTable.toJson (t : FeatureTable) : Json :=
  .object ([("keys", .ofList .string t.keys),
      ("columns", .ofList (Column.toJson .single) t.columns)]
    ++ (t.labelColumn.map fun c => ("label_column", c.toJson .integer)).toList)

/-- A vote table as JSON. -/
def VoteTable.toJson (t : VoteTable) : Json :=
  .object [("keys", .ofList .string t.keys), ("functions", .ofList .string t.functions),
    ("votes", t.votes.toJson .integer)]

/-- A label set as JSON. -/
def LabelSet.toJson (s : LabelSet) : Json := .ofList .string s.labels

/-- An excluded rule as JSON. -/
def ExcludedRule.toJson (e : ExcludedRule) : Json :=
  .object [("rule_id", .string e.ruleId), ("reason", .string e.reason)]

/-- The name of a policy. -/
def TiePolicy.name : TiePolicy → String
  | .abstain => "abstain"
  | .random => "random"
  | .trueRandom => "true_random"

namespace Decoder

/-- A matrix of any shape. -/
def matrix {α : Type} (entry : Decoder α) : Decoder (Matrix α) :=
  ((fun data rows cols => Matrix.mk (List.toArray data) rows cols)
    <$> .required "data" (list entry) <*> .required "rows" nat <*> .required "cols" nat
    : RecordDecoder (Matrix α)).decode

/-- A column. -/
def column {α : Type} (value : Decoder α) : Decoder (Column α) :=
  (Column.mk <$> .required "name" string <*> .required "values" (list value)
    : RecordDecoder (Column α)).decode

/-- The table with given parts, if they go together. -/
def buildTable (keys : List String) (columns : List (Column Float32))
    (labelColumn : Option (Column Int)) : Except Failure FeatureTable := do
  let table ← FeatureTable.new keys columns
  match labelColumn with
  | some c => table.withLabelColumn c
  | none => return table

/-- A feature table. -/
def featureTable : Decoder FeatureTable :=
  validated
    (buildTable <$> .required "keys" (list string) <*> .required "columns" (list (column single))
      <*> .defaulted "label_column" (nullable (column index)) none
      : RecordDecoder (Except Failure FeatureTable)).decode
    Except.toOption

/-- A label set. -/
def labelSet : Decoder LabelSet :=
  validated (list string) fun labels => (LabelSet.ofList labels).toOption

/-- A vote table. -/
def voteTable : Decoder VoteTable :=
  (VoteTable.mk <$> .required "keys" (list string) <*> .required "functions" (list string)
    <*> .required "votes" (matrix index) : RecordDecoder VoteTable).decode

/-- An excluded rule. -/
def excludedRule : Decoder ExcludedRule :=
  (ExcludedRule.mk <$> .required "rule_id" string <*> .required "reason" string
    : RecordDecoder ExcludedRule).decode

/-- A policy. -/
def tiePolicy : Decoder TiePolicy :=
  bareChoice ([.abstain, .random, .trueRandom].map fun p => (TiePolicy.name p, p))

end Decoder

end RuleVote
