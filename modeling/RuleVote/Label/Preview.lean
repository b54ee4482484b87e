import RuleVote.Label.RuleFunction
import RuleVote.Text.SortedMap

/-!
# Previews

What a single rule would vote on every item, grouped by vote. The groups
stand in the order of their votes, the keys of a group in the order of the
items, and no group is empty.
-/

namespace RuleVote

/-- The keys of the items, grouped by the vote of a rule. -/
structure RulePreview where
  /-- The groups. -/
  groups : List (Int × List String)
deriving DecidableEq, Repr

namespace RulePreview

/-- Adds a key to the group of a vote. -/
def addKey (vote : Int) (key : String) : List (Int × List String) → List (Int × List String) :=
  SortedMap.upsert vote fun keys => keys.getD [] ++ [key]

/-- The keys with a given vote. -/
def keysFor (p : RulePreview) (vote : Int) : List String := (p.groups.lookup vote).getD []

/-- The number of keys with a label. -/
def labeledCount (p : RulePreview) : Nat :=
  ((p.groups.filter fun g => g.1 ≠ abstain).flatMap Prod.snd).length

/-- Adds the votes of a function on items, given with their positions. -/
def collect (f : RuleFunction) (table : FeatureTable) :
    List (String × Nat) → List (Int × List String) →
      Except MissingFeature (List (Int × List String))
  | [], groups => .ok groups
  | (key, i) :: items, groups => do
    let vote ← f.apply (table.row i)
    collect f table items (addKey vote key groups)

end RulePreview

/-- Compiles a rule and groups the items of a table by its votes. -/
def previewRule (r : Rule) (table : FeatureTable) (labels : LabelSet) :
    Except Failure RulePreview := do
  let f ← RuleFunction.compile r labels table
  match RulePreview.collect f table table.keys.zipIdx [] with
  | .ok groups => return ⟨groups⟩
  | .error missing => .error missing.failure

end RuleVote
