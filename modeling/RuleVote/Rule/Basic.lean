import RuleVote.Rule.Layout
import RuleVote.Rule.Render

/-!
# Stored rules

A rule is the text its author wrote with the outcomes it maps to. A rule
with two outcomes gives the first where its condition is true and the second
elsewhere; a free-form rule carries a marker in place of an outcome and
returns labels from inside its program.
-/

namespace RuleVote

/-- Rule text after parsing. -/
structure ParsedRule where
  /-- What the rule says. -/
  body : RuleBody
  /-- Its normal text. -/
  normalized : String
  /-- The features it reads. -/
  features : SortedSet String

/-- Parses rule text and renders its normal form. -/
def parseRule (table : Option String) (text : String) : Except Failure ParsedRule := do
  let body ← parseBody text
  return ⟨body, renderBody table body, body.features⟩

/-- A series of parses that keeps count of every feature seen. -/
structure RuleReader where
  /-- The table of the normal texts. -/
  table : Option String
  /-- The features of all rules parsed so far. -/
  features : SortedSet String

namespace RuleReader

/-- A reader that has seen no rule. -/
def new (table : Option String) : RuleReader := ⟨table, .empty⟩

/-- Parses one more rule; a text that is refused leaves the reader as it
was. -/
def parse (r : RuleReader) (text : String) : Except Failure (ParsedRule × RuleReader) := do
  let parsed ← parseRule r.table text
  return (parsed, ⟨r.table, r.features.union parsed.features⟩)

/-- Forgets the features seen. -/
def clear (r : RuleReader) : RuleReader := new r.table

end RuleReader

/-- The mark of a free-form rule in place of an outcome. -/
def freeFormMark : Int := -2

/-- A rule as it is stored. -/
structure Rule where
  /-- The identifier. -/
  id : String
  /-- A name for display. -/
  name : Option String
  /-- Condition or program text. -/
  expression : String
  /-- The outcome where the condition is true, or the mark. -/
  whenTrue : Int
  /-- The outcome elsewhere, or the mark. -/
  whenFalse : Int
deriving DecidableEq, Repr

namespace Rule

/-- A rule that compares one feature with a threshold. -/
def comparison (id feature : String) (op : Comparator) (threshold : Float32)
    (whenTrue whenFalse : Int) : Rule :=
  ⟨id, none, feature ++ " " ++ op.symbol ++ " " ++ positionalText threshold, whenTrue, whenFalse⟩

/-- Whether the rule is a program of its own. -/
def isFreeForm (r : Rule) : Bool := r.whenTrue == freeFormMark || r.whenFalse == freeFormMark

/-- The name if there is one, else the identifier. -/
def displayName (r : Rule) : String := r.name.getD r.id

/-- The name of the labeling function of the rule. -/
def functionName (r : Rule) : String :=
  "rule_" ++ String.ofList
    (r.displayName.toList.map fun c => if c = '-' ∨ c = ' ' then '_' else c)

/-- For a rule that is a single comparison, the comparator for the rows it
does not select. -/
def negatedComparison? (r : Rule) : Option Comparator :=
  match parseBody r.expression with
  | .ok (.expression (.comparison _ [(op, _)])) => some op.negated
  | _ => none

end Rule

end RuleVote
