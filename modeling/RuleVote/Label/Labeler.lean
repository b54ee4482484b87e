import RuleVote.Label.Analysis
import RuleVote.Voter.NoiseModel

/-!
# The labeler

A labeler takes rules to labels in steps: it compiles labeling functions,
lets them vote on every item, and reduces the votes of an item to one label,
by majority or by a fitted noise model. A rule that cannot be compiled is
left out with the reason; fewer than three functions are too few. A step
called before the ones it needs is refused and changes nothing. Another
feature table brings the labeler back to its start.
-/

namespace RuleVote

/-- How far a labeler has come. -/
inductive Stage where
  | created | functionsBuilt | applied | fitted | predicted
deriving DecidableEq, Repr

namespace Stage

/-- The position of a stage on the way. -/
def rank : Stage → Nat
  | created => 0
  | functionsBuilt => 1
  | applied => 2
  | fitted => 3
  | predicted => 4

/-- The name of a stage. -/
def name : Stage → String
  | created => "created"
  | functionsBuilt => "functions_built"
  | applied => "applied"
  | fitted => "fitted"
  | predicted => "predicted"

end Stage

/-- A rule that was left out. -/
structure ExcludedRule where
  /-- The identifier of the rule. -/
  ruleId : String
  /-- Why it was left out. -/
  reason : String
deriving DecidableEq, Repr

/-- What reduces the votes on an item to one label. -/
inductive Reducer where
  /-- The majority of votes among so many classes. -/
  | majority (classes : Nat)
  /-- A fitted noise model. -/
  | learned (model : NoiseModel)

namespace Reducer

/-- The probabilities of the classes of every item. -/
def probabilities : Reducer → Matrix Int → Fallible (Matrix Float32)
  | majority classes, votes => majorityProbabilities classes votes
  | learned model, votes => model.probabilities votes

/-- The fitted model, if there is one. -/
def model? : Reducer → Option NoiseModel
  | majority _ => none
  | learned model => some model

end Reducer

/-- Labels with the probabilities they were taken from. -/
structure Aggregate where
  /-- The labels. -/
  labels : List Int
  /-- The probabilities. -/
  probabilities : Matrix Float32
deriving Repr

/-- A labeler. -/
structure Labeler where
  /-- The rules. -/
  rules : List Rule
  /-- The labels of the task. -/
  labels : LabelSet
  /-- The items. -/
  table : FeatureTable
  /-- The identifiers of the rules to be used, unless all are. -/
  selection : Option (List String)
  /-- The compiled rules. -/
  functions : List RuleFunction
  /-- Their identifiers. -/
  usedRules : List String
  /-- The rules that were left out. -/
  excluded : List ExcludedRule
  /-- The votes. -/
  votes : Option VoteTable
  /-- What reduces them. -/
  reducer : Reducer
  /-- The labels found. -/
  foundLabels : Option (List Int)
  /-- The probabilities they were taken from. -/
  foundProbabilities : Option (Matrix Float32)
  /-- How far the labeler has come. -/
  stage : Stage

namespace Labeler

/-- The number of labeling functions below which there is no labeling. -/
def minFunctions : Nat := 3

/-- A labeler at its start. -/
def new (rules : List Rule) (labels : LabelSet) (table : FeatureTable)
    (selection : Option (List String)) : Labeler where
  rules
  labels
  table
  selection
  functions := []
  usedRules := []
  excluded := []
  votes := none
  reducer := .majority labels.cardinality
  foundLabels := none
  foundProbabilities := none
  stage := .created

/-- The labeler back at its start. -/
def reset (l : Labeler) : Labeler := new l.rules l.labels l.table l.selection

/-- The labeler at its start with another table. -/
def rebind (l : Labeler) (table : FeatureTable) : Labeler :=
  new l.rules l.labels table l.selection

/-- Whether a rule is to be used. -/
def isSelected (l : Labeler) (r : Rule) : Bool :=
  match l.selection with
  | none => true
  | some ids => ids.contains r.id

/-- Compiles rules one after the other into a labeler, up to a failure that
is not for the rule alone. -/
def compileAll (l : Labeler) : List Rule → Except Failure Unit × Labeler
  | [] => (.ok (), l)
  | r :: rules =>
    match RuleFunction.compile r l.labels l.table with
    | .ok f =>
      compileAll { l with
        functions := l.functions ++ [f]
        usedRules := l.usedRules ++ [r.id] } rules
    | .error f =>
      if f.isRecoverable then
        compileAll { l with excluded := l.excluded ++ [⟨r.id, f.text⟩] } rules
      else (.error f, l)

/-- Compiles the selected rules. -/
def createFunctions (l : Labeler) : Except Failure Unit × Labeler :=
  -- what was compiled stays visible even where it is too little
  match l.reset.compileAll (l.rules.filter l.isSelected) with
  | (.error f, l) => (.error f, l)
  | (.ok (), l) =>
    if l.functions.length < minFunctions then
      (.error (.tooFewRules l.functions.length minFunctions), l)
    else (.ok (), { l with stage := .functionsBuilt })

/-- The failure of a step that needs an earlier one. -/
def tooEarly (l : Labeler) (needed : Stage) : Failure := .wrongState needed.name l.stage.name

/-- Refuses a step before a stage is reached. -/
def demand (l : Labeler) (needed : Stage) : Except Failure Unit :=
  if l.stage.rank < needed.rank then .error (l.tooEarly needed) else .ok ()

/-- The votes. -/
def currentVotes (l : Labeler) : Except Failure VoteTable :=
  match l.votes with
  | some votes => .ok votes
  | none => .error (l.tooEarly .applied)

/-- Lets the functions vote. -/
def apply (l : Labeler) : Except Failure Labeler := do
  l.demand .functionsBuilt
  let votes ← VoteTable.apply l.functions l.table
  return { l with
    votes := some votes
    reducer := .majority l.labels.cardinality
    foundLabels := none
    foundProbabilities := none
    stage := .applied }

/-- Fits a noise model to the votes. -/
def fit (l : Labeler) (epochs seed : Nat) : Fallible Labeler := do
  liftFailure (l.demand .applied)
  let votes ← liftFailure l.currentVotes
  let model := NoiseModel.new l.labels.cardinality votes.functions.length
  let model ← model.fit votes.votes epochs seed
  return { l with reducer := .learned model, stage := .fitted }

/-- Finds the labels, with a stream to draw from. -/
def predictFrom (l : Labeler) (policy : TiePolicy) (seed : Nat) (stream : KeyStream) :
    Fallible Labeler := do
  liftFailure (l.demand .applied)
  let votes ← liftFailure l.currentVotes
  let probabilities ← l.reducer.probabilities votes.votes
  let labels ← labelsFrom policy seed stream probabilities
  return { l with
    foundLabels := some labels
    foundProbabilities := some probabilities
    stage := .predicted }

/-- Finds the labels, the seed giving the stream. -/
def predict (l : Labeler) (policy : TiePolicy) (seed : Nat) : Fallible Labeler :=
  l.predictFrom policy seed (.ofSeed seed)

/-- The labels found and the probabilities they were taken from. -/
def aggregate (l : Labeler) : Option Aggregate := do
  return ⟨← l.foundLabels, ← l.foundProbabilities⟩

/-- The probabilities of the classes of every item. -/
def probabilities (l : Labeler) : Fallible (Matrix Float32) := do
  liftFailure (l.demand .applied)
  l.reducer.probabilities (← liftFailure l.currentVotes).votes

/-- The analysis of the votes. -/
def analysis (l : Labeler) (gold : Option (List Int)) : Fallible VoteAnalysis := do
  VoteAnalysis.new (← liftFailure l.currentVotes) gold

/-- The features that the compiled rules read. -/
def features (l : Labeler) : SortedSet String :=
  l.functions.foldl (fun s f => s.union f.features) .empty

end Labeler

end RuleVote
