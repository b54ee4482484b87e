import RuleVote.Run.Settings
import RuleVote.Toml.Reader
import RuleVote.Worker.Address

/-!
# Configurations

A configuration names a task with its labels and a rule set, and has the
settings of both stages and of the worker, if there is one. The environment
may override where the worker is found: a blank override is none, and a port
that is no number is refused.
-/

namespace RuleVote

/-- What is to be labeled. -/
structure Task where
  /-- The identifier. -/
  id : String
  /-- The names of the labels in index order. -/
  labels : List String
deriving DecidableEq, Repr

/-- The labels of a task. -/
def Task.labelSet (t : Task) : Except Failure LabelSet := LabelSet.ofList t.labels

/-- All that a run needs besides its data. -/
structure RunConfig where
  /-- The task. -/
  task : Task
  /-- The identifier of the rule set. -/
  ruleSet : String
  /-- The first stage. -/
  reduction : ReductionSettings
  /-- The second stage. -/
  learning : LearningSettings
  /-- The worker. -/
  worker : Option WorkerAddress
deriving DecidableEq, Repr

/-- The variable that overrides the host of the worker. -/
def hostVariable : String := "LABELSMITH_WORKER_HOST"

/-- The variable that overrides the port of the worker. -/
def portVariable : String := "LABELSMITH_WORKER_PORT"

namespace RunConfig

/-- The configuration with all settings as they are by default. -/
def new (task : Task) (ruleSet : String) : RunConfig where
  task
  ruleSet
  reduction := .standard
  learning := .standard
  worker := none

/-- Refuses labels that make no label set, and a single fold. -/
def validate (c : RunConfig) : Except Failure Unit := do
  match c.task.labelSet with
  | .ok _ => .ok ()
  | .error f => .error (.config ("task labels: " ++ f.text))
  if c.learning.effectiveFolds = 1 then
    .error (.config "surrogate.folds must be 0 (no cross-validation) or at least 2")

/-- Where the worker is found. -/
def workerAddress (c : RunConfig) : WorkerAddress := c.worker.getD .standard

/-- The configuration with another worker. -/
def withWorker (c : RunConfig) (worker : WorkerAddress) : RunConfig :=
  { c with worker := some worker }

/-- What the environment has under a name, unless it is blank. -/
def override? (environment : String → Option String) (name : String) : Option String :=
  (environment name).filter fun value => !isBlankText value

/-- Overrides where the worker is found. The host is overridden even where
the port is refused. -/
def applyEnvironment (c : RunConfig) (environment : String → Option String) :
    Except Failure Unit × RunConfig :=
  let host := override? environment hostVariable
  let port := override? environment portVariable
  let address := c.workerAddress
  let address := { address with host := (host.map trimText).getD address.host }
  match host, port with
  | none, none => (.ok (), c)
  | some _, none => (.ok (), c.withWorker address)
  | _, some port =>
    -- the complaint shows the port as it was given, blanks and all
    match natBelow? (Nat.pow 2 16) (trimText port) with
    | some n => (.ok (), c.withWorker { address with port := n })
    | none =>
      (.error (.config (portVariable ++ " is not a port: " ++ port)), c.withWorker address)

end RunConfig

/-- A task as JSON. -/
def Task.toJson (t : Task) : Json :=
  .object [("id", .string t.id), ("labels", .ofList .string t.labels)]

/-- A configuration as JSON. -/
def RunConfig.toJson (c : RunConfig) : Json :=
  .object [("task", c.task.toJson), ("ruleset", .string c.ruleSet),
    ("label_model", c.reduction.toJson), ("surrogate", c.learning.toJson),
    ("worker", .ofOption WorkerAddress.toJson c.worker)]

namespace Decoder

/-- A task. -/
def task : Decoder Task :=
  (Task.mk <$> .required "id" string <*> .required "labels" (list string)
    : RecordDecoder Task).decode

/-- A configuration. -/
def runConfig : Decoder RunConfig :=
  (RunConfig.mk <$> .required "task" task <*> .defaulted "ruleset" string ""
    <*> .defaulted "label_model" reductionSettings .standard
    <*> .defaulted "surrogate" learningSettings .standard
    <*> .defaulted "worker" (nullable workerAddress) none : RecordDecoder RunConfig).decode

end Decoder

/-- Reads a configuration and checks it. The environment has no part in
that. -/
def RunConfig.ofToml (text : String) : Except Failure RunConfig := do
  match (Toml.read? text).map Decoder.runConfig with
  | none => .error (.unreadableConfig "malformed text")
  | some (.error fault) => .error (.unreadableConfig fault.text)
  | some (.ok config) =>
    config.validate
    return config

end RuleVote
