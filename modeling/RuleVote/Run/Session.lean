import RuleVote.Label.Labeler
import RuleVote.Run.Config
import RuleVote.Run.Result
import RuleVote.Store.Basic
import RuleVote.Surrogate.Basic
import RuleVote.Worker.Client

/-!
# Sessions

A session labels the items of a table for a task, run after run. A run

1. reads rules and gold labels from a store (`validGold`),
2. compiles the rules, lets them vote and reduces the votes (`runLabeler`),
3. trains a surrogate on the labels found, with gold labels in their place
   if wanted (`prepare`, `learn`), or has a worker train one,
4. scores both stages and stores the result (`conclude`).

A session remembers the results since the task or the rule set was last
changed, and the surrogate of the last run without a worker, which is used
again as long as its settings agree with those of the next one. A failing run
stores nothing and adds nothing to the history.
-/

namespace RuleVote

/-- What tells a result from all others: who it is and when it was done. -/
structure RunStamp where
  /-- The identifier. -/
  id : Uuid
  /-- The moment. -/
  moment : Moment
deriving DecidableEq, Repr

/-- A session. -/
structure Session where
  /-- The task. -/
  task : Task
  /-- The labels of the task. -/
  labels : LabelSet
  /-- The items. -/
  table : FeatureTable
  /-- The rule set of the last run. -/
  ruleSet : Option String
  /-- The results since the task or the rule set was changed, the oldest
  first. -/
  history : List LabelingResult
  /-- The surrogate of the last run. -/
  surrogate : Option Surrogate
deriving Repr

/-- All that is known before a surrogate learns. -/
structure Lesson where
  /-- The labeler, its work done. -/
  labeler : Labeler
  /-- The gold labels in effect. -/
  gold : String → Option Int
  /-- The labels that the votes were reduced to. -/
  aggregated : List Int
  /-- The labels to be learned. -/
  targets : List Int
  /-- The features to be learned from. -/
  features : List String
  /-- What the surrogate is trained on. -/
  input : SurrogateInput

/-- What came of learning. -/
structure Learned where
  /-- The folds. -/
  records : List FoldRecord
  /-- What the surrogate predicts. -/
  predicted : List Int
  /-- What it was trained on. -/
  reference : List Int
  /-- The surrogate, unless a worker has it. -/
  surrogate : Option Surrogate

namespace Session

/-- A session that has not run yet. -/
def new (task : Task) (table : FeatureTable) : Except Failure Session := do
  return ⟨task, ← task.labelSet, table, none, [], none⟩

/-- How the scores changed between the last two runs. -/
def lastDelta (s : Session) : Option RunDelta :=
  match s.history.reverse with
  | latest :: previous :: _ => some (latest.scores.delta previous.scores)
  | _ => none

/-- Turns to another task, with nothing remembered. -/
def switchTask (s : Session) (task : Task) : Except Failure Session := new task s.table

/-- Turns to other items; the surrogate is dropped. -/
def swapTable (s : Session) (table : FeatureTable) : Session :=
  { s with table, surrogate := none }

/-- Turns to another rule set; history and surrogate are dropped. -/
def selectRuleSet (s : Session) (name : String) : Session :=
  if s.ruleSet = some name then s
  else { s with ruleSet := some name, history := [], surrogate := none }

/-! ## The first stage -/

/-- The gold labels among the given ones that are labels of the task for
items of the table. -/
def validGold (s : Session) (gold : List GoldLabel) (key : String) : Option Int :=
  (GoldLabel.byItem gold key).filter fun label =>
    0 ≤ label && label < s.labels.cardinality && (s.table.rowIndex? key).isSome

/-- Compiles rules, lets them vote and reduces the votes. -/
def runLabeler (s : Session) (rules : List Rule) (settings : ReductionSettings) :
    Fallible Labeler := do
  let (made, l) := (Labeler.new rules s.labels s.table settings.selection).createFunctions
  liftFailure made
  let l ← liftFailure l.apply
  let l ← match settings.method with
    | .labelModel => l.fit settings.epochs settings.seed
    | .majority => .ok l
  l.predict settings.tieBreak settings.seed

/-- The labels that a labeler found. -/
def aggregateOf (l : Labeler) : Except Failure Aggregate :=
  match l.aggregate with
  | some a => .ok a
  | none => .error (l.tooEarly .predicted)

/-! ## The second stage -/

/-- The features to be learned from: those that rules read, or all of them
if that is wanted or rules read none. -/
def learningFeatures (s : Session) (l : Labeler) (settings : LearningSettings) : List String :=
  if settings.onlyRuleFeatures && !l.features.isEmpty then l.features.toList
  else s.table.columns.map Column.name

/-- The labels to be learned: gold labels, if wanted, in the place of those
found. -/
def targetLabels (gold : String → Option Int) (includeGold : Bool) (keys : List String)
    (found : List Int) : List Int :=
  if includeGold then List.zipWith (fun label key => (gold key).getD label) found keys
  else found

/-- Puts all of the mass on the gold labels in their rows. -/
def putGold (gold : String → Option Int) (keys : List String) (m : Matrix Float32) :
    Fallible (Matrix Float32) :=
  (keys.zipIdx.filterMap fun (key, i) => (gold key).map fun label => (label, i)).foldlM
    SurrogateInput.putLabel m

/-- The targets of a kind of surrogate. -/
def targetsOf (kind : SurrogateKind) (gold : String → Option Int) (includeGold : Bool)
    (l : Labeler) (probabilities : Matrix Float32) (targets : List Int) : Fallible Targets := do
  match kind with
  | .closedForm => return .hard targets
  | .neural =>
    return .soft (← if includeGold then putGold gold l.table.keys probabilities
      else .ok probabilities)
  | .endToEnd =>
    let votes ← liftFailure l.currentVotes
    let votes ← if includeGold then votes.withGold gold else .ok votes
    return .votes votes.votes targets

/-- All that is to be known before a surrogate learns. -/
def prepare {σ : Type} [LabelStore σ] (s : Session) (store : σ) (config : RunConfig) :
    Fallible Lesson := do
  let rules ← liftFailure (LabelStore.rules store config.ruleSet)
  let gold := s.validGold (← liftFailure (LabelStore.goldLabels store s.task.id))
  let labeler ← s.runLabeler rules config.reduction
  let found ← liftFailure (aggregateOf labeler)
  let learning := config.learning
  let features := s.learningFeatures labeler learning
  let x ← (← liftFailure (s.table.select features)).toMatrix
  let targets := targetLabels gold learning.includeGold s.table.keys found.labels
  let kindTargets ← targetsOf learning.model.kind gold learning.includeGold labeler
    found.probabilities targets
  let input ← liftFailure (SurrogateInput.new x kindTargets s.labels.cardinality)
  return ⟨labeler, gold, found.labels, targets, features, input⟩

/-- The surrogate of the last run if its settings agree, else a new one. -/
def surrogateFor (s : Session) (settings : SurrogateSettings) : Surrogate :=
  (s.surrogate.filter fun m => m.settings.agrees settings).getD (.new settings)

/-- Trains a surrogate and lets it predict. -/
def learnHere (s : Session) (settings : LearningSettings) (input : SurrogateInput) :
    Fallible Learned := do
  let (records, surrogate) ←
    (s.surrogateFor settings.model).train input settings.effectiveFolds
  let predicted ← surrogate.predict input.features
  let reference ← match surrogate.reference with
    | some labels => .ok labels
    | none => input.referenceLabels
  return ⟨records, predicted, reference, some surrogate⟩

/-- Has a worker train a surrogate and predict. What it was trained on is
known without asking. -/
def learnThere (line : WorkerLine) (settings : LearningSettings) (input : SurrogateInput) :
    Fallible Learned := do
  let _ ← liftFailure (line.init settings.model)
  let records ← liftFailure (line.apply input settings.effectiveFolds)
  let reference ← input.referenceLabels
  let predicted ← liftFailure (line.predict input.features)
  return ⟨records, predicted, reference, none⟩

/-- Learns where the settings say. -/
def learn (s : Session) (config : RunConfig) (line : WorkerLine) (input : SurrogateInput) :
    Fallible Learned :=
  if config.learning.remote then learnThere line config.learning input
  else s.learnHere config.learning input

/-! ## Scores and the result -/

/-- The labels by the keys of their items. -/
def byKey (keys : List String) (labels : List Int) (key : String) : Option Int :=
  (keys.zip labels).reverse.lookup key

/-- The scores of a run over the items with the given keys. -/
def scoresOf (keys : List String) (lesson : Lesson) (learned : Learned) : Fallible RunScores := do
  let labeled := (learned.reference.zip learned.predicted).filter fun (r, _) => r ≠ abstain
  return {
    aggregated := Score.ofItems keys lesson.gold (byKey keys lesson.aggregated)
    surrogateGold := Score.ofItems keys lesson.gold (byKey keys learned.predicted)
    surrogateReference := ← Score.ofLabels (labeled.map Prod.fst) (labeled.map Prod.snd)
    training := TrainingScore.ofFolds learned.records }

/-- The labels of every item. -/
def itemLabels (keys : List String) (lesson : Lesson) (learned : Learned) :
    Fallible (List ItemLabels) :=
  keys.zipIdx.mapM fun (key, i) => do
    return ⟨key, ← orBreak lesson.aggregated[i]?, ← orBreak lesson.targets[i]?,
      ← orBreak learned.predicted[i]?, lesson.gold key⟩

/-- The result of a run. -/
def conclude (s : Session) (config : RunConfig) (stamp : RunStamp) (lesson : Lesson)
    (learned : Learned) : Fallible LabelingResult := do
  let keys := s.table.keys
  let scores ← scoresOf keys lesson learned
  let analysis ← lesson.labeler.analysis (some (keys.map fun key => (lesson.gold key).getD abstain))
  let items ← itemLabels keys lesson learned
  return {
    id := stamp.id
    ruleSet := config.ruleSet
    task := s.task.id
    moment := stamp.moment
    rulesUsed := lesson.labeler.usedRules
    properties := ⟨config.reduction, config.learning, lesson.features⟩
    output := ⟨items, learned.records, lesson.labeler.excluded, analysis⟩
    scores }

/-! ## The run -/

/-- The failure of a run that is configured for another task. -/
def taskMismatch (config : RunConfig) (s : Session) : Failure :=
  .config ("run configured for task '" ++ config.task.id ++ "' but the context holds task '"
    ++ s.task.id ++ "'")

/-- The session with the surrogate of a run, unless a worker has it. -/
def keepSurrogate (s : Session) (config : RunConfig) (surrogate : Option Surrogate) : Session :=
  if config.learning.remote then s else { s with surrogate }

/-- Runs the rule set of a configuration and stores the result. The line is
to the worker, and not used unless the configuration has it. -/
def run {σ : Type} [LabelStore σ] (s : Session) (store : σ) (config : RunConfig)
    (stamp : RunStamp) (line : WorkerLine) : Fallible LabelingResult × Session × σ :=
  if config.task ≠ s.task then (fail (taskMismatch config s), s, store)
  else
    let s := s.selectRuleSet config.ruleSet
    match s.prepare store config with
    | .error e => (.error e, s, store)
    | .ok lesson =>
      match s.learn config line lesson.input with
      -- a surrogate that failed is not used again
      | .error e => (.error e, s.keepSurrogate config none, store)
      | .ok learned =>
        let s := s.keepSurrogate config learned.surrogate
        match s.conclude config stamp lesson learned with
        | .error e => (.error e, s, store)
        | .ok result =>
          match LabelStore.saveResult store result with
          | .error f => (fail f, s, store)
          | .ok store => (.ok result, { s with history := s.history ++ [result] }, store)

end Session

end RuleVote
