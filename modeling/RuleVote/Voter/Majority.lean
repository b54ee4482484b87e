import RuleVote.Voter.TieBreak

/-!
# The majority voter

The probability of a class is its share of the votes on an item; where
nobody votes, all classes are equally likely. A vote is taken for the
position of its class, so votes are checked first: counting one that is no
class would break off. Votes are labels of 32 bits, and classes are taken to be
fewer than these.
-/

namespace RuleVote

/-- Whether a vote is an abstention or a class below `classes`. -/
def isVote (classes : Nat) (v : Int) : Bool := v == abstain || (0 ≤ v && v < classes)

/-- Refuses votes that are neither abstentions nor classes. -/
def checkVotes (votes : Matrix Int) (classes : Nat) : Except Failure Unit :=
  match votes.data.toList.find? fun v => !isVote classes v with
  | some bad =>
    .error (.badSetting "vote" (toString bad)
      ("-1 or a label index below " ++ toString classes))
  | none => .ok ()

/-- The entry at the position that a vote names. -/
def entryAt (xs : List Float32) (v : Int) : Fallible Float32 :=
  if 0 ≤ v then orBreak xs[v.toNat]? else breakOff

/-- Counts one more vote. -/
def countVote (counts : List Float32) (v : Int) : Fallible (List Float32) := do
  return counts.set v.toNat ((← entryAt counts v) + 1)

/-- The shares of the classes in the votes of one row. -/
def majorityRow (classes : Nat) (row : List Int) : Fallible (List Float32) := do
  let cast := row.filter (· ≠ abstain)
  let counts ← cast.foldlM countVote (List.replicate classes 0)
  if cast.isEmpty then return List.replicate classes (1 / ofCount classes)
  else return counts.map (· / ofCount cast.length)

/-- The shares of the classes in the votes of every row. -/
def majorityProbabilities (classes : Nat) (votes : Matrix Int) : Fallible (Matrix Float32) := do
  liftFailure (checkVotes votes classes)
  return Matrix.ofRowsOf classes (← (← votes.allRows).mapM (majorityRow classes))

end RuleVote
