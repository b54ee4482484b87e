import RuleVote.CommandLine.Outcome
import RuleVote.Rule.Codec

/-!
# Checking a rule

A rule is parsed as a run would parse it. The report has its kind, the
features it reads and its normal form, for a reader or as JSON.
-/

namespace RuleVote

namespace ParsedRule

/-- The name of the kind of a rule. -/
def kindName (p : ParsedRule) : String :=
  if p.body.isProgram then "free_form" else "expression"

/-- The report as JSON. -/
def reportJson (p : ParsedRule) : Json :=
  .object [("kind", .string p.kindName), ("normalized", .string p.normalized),
    ("features", .ofList .string p.features.toList)]

/-- The report for a reader. -/
def report (p : ParsedRule) : String :=
  "RULE\n  Kind:      " ++ p.kindName ++ "\n  Features:  "
    ++ String.intercalate ", " p.features.toList ++ "\n\n" ++ p.normalized ++ "\n"

/-- What is said about a rule that is no different for any item. -/
def notice (p : ParsedRule) : String :=
  if p.features.isEmpty then "warning: rule reads no features\n" else ""

end ParsedRule

/-- Checks a rule. -/
def checkRule {σ : Type} (rule : String) (table : Option String) (json : Bool) :
    CommandOutcome σ :=
  match parseRule table rule with
  | .error f => .failure (.badRule f)
  | .ok p =>
    if json then .answer (p.reportJson.pretty ++ "\n")
    else ⟨0, p.report, p.notice, none⟩

end RuleVote
