import RuleVote.FeatureTable
import RuleVote.Label.LabelSet
import RuleVote.Rule.Basic

/-!
# Labeling functions

A rule is compiled once, against a label set and a feature table: every
feature it reads has to exist and every outcome it can name has to be an
abstention or a label. What remains is a function from rows to indices, the
votes.
-/

namespace RuleVote

/-- What a compiled rule does. -/
inductive Decision where
  /-- One vote where the condition is true, another one elsewhere. -/
  | twoWay (condition : Expr) (whenTrue whenFalse : Int)
  /-- A program that returns votes. -/
  | program (block : Block Int)

/-- A labeling function made from a rule. -/
structure RuleFunction where
  /-- The identifier of the rule. -/
  ruleId : String
  /-- The name of the function. -/
  name : String
  /-- The normal text of the rule. -/
  normalized : String
  /-- The features it reads. -/
  features : SortedSet String
  /-- What it does. -/
  decision : Decision

namespace RuleFunction

/-- The failure of a rule that cannot be compiled. -/
def rejection (r : Rule) (reason : String) : Failure := .rejectedRule r.displayName reason

/-- Accepts an index that the label set knows. -/
def resolveIndex (r : Rule) (labels : LabelSet) (index : Int) : Except Failure Int :=
  if labels.isOutcome index then .ok index
  else .error (rejection r
    ("label index " ++ toString index ++ " outside 0.." ++ toString labels.cardinality))

/-- The index that a return names. -/
def resolveTarget (r : Rule) (labels : LabelSet) : ReturnTarget → Except Failure Int
  | .index i => resolveIndex r labels i
  | .label code =>
    match labels.indexOfCode? code with
    | some i => .ok i
    | none => .error (rejection r ("unknown label '" ++ code ++ "'"))

/-- What a parsed rule does, its outcomes resolved. -/
def resolve (r : Rule) (labels : LabelSet) : RuleBody → Except Failure Decision
  | .expression condition => do
    if r.isFreeForm then
      .error (rejection r "free-form rule must be an if/elif/else program")
    return .twoWay condition (← resolveIndex r labels r.whenTrue)
      (← resolveIndex r labels r.whenFalse)
  | .program block => do
    if ¬ r.isFreeForm then
      .error (rejection r "if/return program given for a binary rule; mark it free-form")
    if (Statement.blockTargets block).isEmpty then
      .error (rejection r "free-form rule never returns a label")
    return .program (← Statement.resolveBlock (resolveTarget r labels) block)

/-- A labeling function from a parsed rule. -/
def build (r : Rule) (parsed : ParsedRule) (labels : LabelSet) (table : FeatureTable) :
    Except Failure RuleFunction := do
  match parsed.features.toList.find? fun name => !table.hasColumn name with
  | some name => .error (rejection r ("unknown feature '" ++ name ++ "'"))
  | none => .ok ()
  let decision ← resolve r labels parsed.body
  return ⟨r.id, r.functionName, parsed.normalized, parsed.features, decision⟩

/-- A labeling function from a rule. -/
def compile (r : Rule) (labels : LabelSet) (table : FeatureTable) :
    Except Failure RuleFunction := do
  build r (← parseRule none r.expression) labels table

/-- Every vote the function can give. -/
def outcomes (f : RuleFunction) : SortedSet Int :=
  match f.decision with
  | .twoWay _ a b => .ofList [a, b]
  | .program block => (SortedSet.ofList (Statement.blockTargets block)).insert abstain

/-- The vote on a row; a program that reaches no return abstains. -/
def apply (f : RuleFunction) (row : Row) : Except MissingFeature Int :=
  match f.decision with
  | .twoWay condition a b => do return if ← condition.holds row then a else b
  | .program block => do return (← Statement.runBlock row block).getD abstain

end RuleFunction

end RuleVote
