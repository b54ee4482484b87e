import RuleVote.Rule.Codec
import RuleVote.Run.Result

/-!
# Stores

A store keeps rule sets by name, gold labels by task, and the results of
runs. A gold label is the one for its task and its item: entering another
one replaces the label and who gave it, while the first identifier stays.
-/

namespace RuleVote

/-- The verified label of an item. -/
structure GoldLabel where
  /-- The identifier. -/
  id : String
  /-- The key of the item. -/
  item : String
  /-- The label. -/
  label : Int
  /-- Who entered it. -/
  contributor : String
  /-- The task it belongs to. -/
  task : String
deriving DecidableEq, Repr

namespace GoldLabel

/-- The last label of each item. -/
def byItem (gold : List GoldLabel) (item : String) : Option Int :=
  (gold.reverse.find? fun g => g.item = item).map GoldLabel.label

/-- Whether two gold labels are for the same item of the same task. -/
def isForSame (a b : GoldLabel) : Bool := a.task == b.task && a.item == b.item

/-- Enters a gold label. -/
def upsert (new : GoldLabel) : List GoldLabel → List GoldLabel
  | [] => [new]
  | g :: gold =>
    if g.isForSame new then
      { g with label := new.label, contributor := new.contributor } :: gold
    else g :: upsert new gold

/-- A gold label as JSON. -/
def toJson (g : GoldLabel) : Json :=
  .object [("id", .string g.id), ("item_key", .string g.item), ("label_index", .integer g.label),
    ("contributed_by", .string g.contributor), ("task_id", .string g.task)]

end GoldLabel

/-- A gold label. -/
def Decoder.goldLabel : Decoder GoldLabel :=
  (GoldLabel.mk <$> .required "id" string <*> .required "item_key" string
    <*> .required "label_index" index <*> .required "contributed_by" string
    <*> .required "task_id" string : RecordDecoder GoldLabel).decode

/-- Stores with states of type `σ`. -/
class LabelStore (σ : Type) where
  /-- The rules of a rule set in their order. -/
  rules : σ → String → Except Failure (List Rule)
  /-- Stores a rule set in the place of an earlier one. -/
  saveRules : σ → String → List Rule → Except Failure σ
  /-- The gold labels of a task. -/
  goldLabels : σ → String → Except Failure (List GoldLabel)
  /-- Enters a gold label. -/
  upsertGold : σ → GoldLabel → Except Failure σ
  /-- Keeps a result. -/
  saveResult : σ → LabelingResult → Except Failure σ
  /-- The results for a rule set, the oldest first. -/
  results : σ → String → Except Failure (List LabelingResult)

/-- The failure of looking for a rule set that is not there. -/
def unknownRuleSet (name : String) : Failure := .store ("unknown rule set '" ++ name ++ "'")

/-- Results in the order of their moments; those of one moment stay in the
order they are in. -/
def inOrder (results : List LabelingResult) : List LabelingResult :=
  results.mergeSort fun a b => a.moment.isNotAfter b.moment

end RuleVote
