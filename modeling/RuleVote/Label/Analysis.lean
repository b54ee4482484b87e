import RuleVote.Json.Decoder
import RuleVote.Json.Value
import RuleVote.Label.VoteTable

/-!
# Analysis of votes

How often each labeling function votes, and how often its votes meet those
of others: they overlap where another function votes too and conflict where
another one votes differently. With gold labels, votes on labeled items are
also counted as correct or incorrect. All shares are of the number of items.
-/

namespace RuleVote

/-- The votes of a row that are no abstentions. -/
def castVotes (row : List Int) : List Int := row.filter (· ≠ abstain)

/-- The labels voted for in a row. -/
def distinctVotes (row : List Int) : SortedSet Int := .ofList (castVotes row)

/-- The share of `count` among `total` items. -/
def share (count total : Nat) : Float32 := ofCount count / ofCount (max total 1)

/-- The number of votes of a column that are no abstentions. -/
def voteCount (column : List Int) : Nat := column.countP (· ≠ abstain)

/-- For each column the share of items it votes on. -/
def voteCoverage (votes : Matrix Int) : Fallible (List Float32) :=
  (List.range votes.cols).mapM fun j => do
    return share (voteCount (← votes.column j)) votes.rows

/-- What is known about one labeling function. -/
structure FunctionSummary where
  /-- The name of the function. -/
  function : String
  /-- The labels it voted for. -/
  polarity : SortedSet Int
  /-- The share of items it voted on. -/
  coverage : Float32
  /-- The share of items where another function voted too. -/
  overlaps : Float32
  /-- The share of items where another function voted differently. -/
  conflicts : Float32
  /-- Votes that agree with the gold label. -/
  correct : Option Nat
  /-- Votes that disagree with the gold label. -/
  incorrect : Option Nat
  /-- The share of correct votes among those that can be judged. -/
  empiricalAccuracy : Option Float32
deriving DecidableEq, Repr

/-- What is known about a vote table. -/
structure VoteAnalysis where
  /-- One summary for each function. -/
  summaries : List FunctionSummary
  /-- The share of items with a vote. -/
  labelCoverage : Float32
  /-- The share of items with two votes. -/
  labelOverlap : Float32
  /-- The share of items with two different votes. -/
  labelConflict : Float32
deriving DecidableEq, Repr

namespace VoteAnalysis

/-- Whether a row has a vote. -/
def isCovered (row : List Int) : Bool := !(castVotes row).isEmpty

/-- Whether a row has two votes. -/
def isOverlapped (row : List Int) : Bool := 1 < (castVotes row).length

/-- Whether a row has two different votes. -/
def isConflicted (row : List Int) : Bool := 1 < (distinctVotes row).toList.length

/-- The number of rows where the function of column `j` votes beside
another one. -/
def overlapCount (rows : List (List Int)) (j : Nat) : Nat :=
  rows.countP fun row => row[j]?.any fun v => v != abstain && isOverlapped row

/-- The number of rows where the function of column `j` votes against
another one. -/
def conflictCount (rows : List (List Int)) (j : Nat) : Nat :=
  rows.countP fun row =>
    row[j]?.any fun v => v != abstain && (distinctVotes row).toList.any (· != v)

/-- The number of votes that can be judged and do, or do not, agree with the
gold label. -/
def judgedCount (agree : Bool) (column gold : List Int) : Nat :=
  (column.zip gold).countP fun (v, g) => v != abstain && g != abstain && (v == g) == agree

/-- The summary of the function of column `j`. -/
def summary (t : VoteTable) (rows : List (List Int)) (gold : Option (List Int)) (j : Nat) :
    Fallible FunctionSummary := do
  let column ← t.votes.column j
  let function ← orBreak t.functions[j]?
  let items := t.votes.rows
  let correct := gold.map (judgedCount true column)
  let incorrect := gold.map (judgedCount false column)
  let accuracy := match correct, incorrect with
    | some ok, some bad =>
      if 0 < ok + bad then some (ofCount ok / ofCount (ok + bad)) else none
    | _, _ => none
  return {
    function
    polarity := .ofList (castVotes column)
    coverage := share (voteCount column) items
    overlaps := share (overlapCount rows j) items
    conflicts := share (conflictCount rows j) items
    correct
    incorrect
    empiricalAccuracy := accuracy }

/-- Analyses a vote table, with a gold label for each item if there are
any. -/
def new (t : VoteTable) (gold : Option (List Int)) : Fallible VoteAnalysis := do
  let items := t.votes.rows
  match gold with
  | some gold =>
    if gold.length ≠ items then
      fail (.shapeMismatch (toString items ++ " gold labels") (toString gold.length))
  | none => pure ()
  let rows ← t.votes.allRows
  let summaries ← (List.range t.votes.cols).mapM (summary t rows gold)
  return ⟨summaries, share (rows.countP isCovered) items, share (rows.countP isOverlapped) items,
    share (rows.countP isConflicted) items⟩

end VoteAnalysis

/-- A summary as JSON. -/
def FunctionSummary.toJson (s : FunctionSummary) : Json :=
  .object [("function", .string s.function),
    ("polarity", .ofList .integer s.polarity.toList),
    ("coverage", .single s.coverage), ("overlaps", .single s.overlaps),
    ("conflicts", .single s.conflicts), ("correct", .ofOption .ofNat s.correct),
    ("incorrect", .ofOption .ofNat s.incorrect),
    ("empirical_accuracy", .ofOption .single s.empiricalAccuracy)]

/-- An analysis as JSON. -/
def VoteAnalysis.toJson (a : VoteAnalysis) : Json :=
  .object [("summaries", .ofList FunctionSummary.toJson a.summaries),
    ("label_coverage", .single a.labelCoverage), ("label_overlap", .single a.labelOverlap),
    ("label_conflict", .single a.labelConflict)]

namespace Decoder

/-- The summary of a labeling function. -/
def functionSummary : Decoder FunctionSummary :=
  (FunctionSummary.mk <$> .required "function" string
    <*> .required "polarity" (fun d => SortedSet.ofList <$> list index d)
    <*> .required "coverage" single <*> .required "overlaps" single
    <*> .required "conflicts" single <*> .optional "correct" nat
    <*> .optional "incorrect" nat <*> .optional "empirical_accuracy" single
    : RecordDecoder FunctionSummary).decode

/-- An analysis. -/
def voteAnalysis : Decoder VoteAnalysis :=
  (VoteAnalysis.mk <$> .required "summaries" (list functionSummary)
    <*> .required "label_coverage" single <*> .required "label_overlap" single
    <*> .required "label_conflict" single : RecordDecoder VoteAnalysis).decode

end Decoder

end RuleVote
