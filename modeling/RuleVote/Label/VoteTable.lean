import RuleVote.Label.RuleFunction

/-!
# Vote tables

One row of votes for each item, one column for each labeling function.
-/

namespace RuleVote

/-- The votes of labeling functions on items. -/
structure VoteTable where
  /-- The keys of the items. -/
  keys : List String
  /-- The names of the functions. -/
  functions : List String
  /-- The votes. -/
  votes : Matrix Int
deriving DecidableEq, Repr

namespace VoteTable

/-- The votes of every function on one row, up to the first that fails. -/
def voteRow (functions : List RuleFunction) (row : Row) : Except MissingFeature (List Int) :=
  functions.mapM fun f => f.apply row

/-- The votes of every function on every row of a table. The failure is that
of the first vote that fails, row by row. -/
def apply (functions : List RuleFunction) (table : FeatureTable) : Except Failure VoteTable :=
  match (List.range table.size).mapM fun i => voteRow functions (table.row i) with
  | .ok rows =>
    .ok ⟨table.keys, functions.map RuleFunction.name, Matrix.ofRowsOf functions.length rows⟩
  | .error missing => .error missing.failure

/-- A table from given votes. -/
def ofVotes (keys functions : List String) (votes : Matrix Int) : Except Failure VoteTable :=
  if votes.rows = keys.length ∧ votes.cols = functions.length then .ok ⟨keys, functions, votes⟩
  else
    let shape (rows cols : Nat) := toString rows ++ " x " ++ toString cols
    .error (.shapeMismatch (shape keys.length functions.length) (shape votes.rows votes.cols))

/-- The votes on the first item with a given key. -/
def rowOf (t : VoteTable) (key : String) : Fallible (Option (List Int)) :=
  match t.keys.findIdx? (· = key) with
  | none => .ok none
  | some i => some <$> t.votes.row i

/-- The votes on one item after a gold label for it, if there is one, has
replaced them. -/
def goldRow (gold : String → Option Int) (key : String) (row : List Int) : List Int :=
  match gold key with
  | some label => row.map fun _ => label
  | none => row

/-- Replaces every vote on the items that have a gold label. -/
def withGold (t : VoteTable) (gold : String → Option Int) : Fallible VoteTable := do
  let rows ← t.votes.allRows
  return { t with votes := Matrix.ofRowsOf t.votes.cols (List.zipWith (goldRow gold) t.keys rows) }

/-- The items at the given positions. -/
def selectRows (t : VoteTable) (indices : List Nat) : Fallible VoteTable := do
  return ⟨← FeatureTable.gather t.keys indices, t.functions, ← t.votes.selectRows indices⟩

end VoteTable

end RuleVote
