import RuleVote.Store.Basic

/-!
# The store in memory

Everything is kept as it is.
-/

namespace RuleVote

/-- A store in memory. -/
structure MemoryStore where
  /-- The rule sets, those saved last first. -/
  ruleSets : List (String × List Rule)
  /-- The gold labels of all tasks. -/
  gold : List GoldLabel
  /-- The results in the order in which they were saved. -/
  results : List LabelingResult
deriving Repr

namespace MemoryStore

/-- A store with nothing in it. -/
def empty : MemoryStore := ⟨[], [], []⟩

/-- The store with a rule set in the place of an earlier one. -/
def withRules (s : MemoryStore) (name : String) (rules : List Rule) : MemoryStore :=
  { s with ruleSets := (name, rules) :: s.ruleSets.filter fun (n, _) => n ≠ name }

instance : LabelStore MemoryStore where
  rules s name :=
    match s.ruleSets.lookup name with
    | some rules => .ok rules
    | none => .error (unknownRuleSet name)
  saveRules s name rules := .ok (s.withRules name rules)
  goldLabels s task := .ok (s.gold.filter fun g => g.task = task)
  upsertGold s label := .ok { s with gold := label.upsert s.gold }
  saveResult s result := .ok { s with results := s.results ++ [result] }
  results s name := .ok (inOrder (s.results.filter fun r => r.ruleSet = name))

end MemoryStore

end RuleVote
