import RuleVote.CommandLine.Command
import RuleVote.CommandLine.Outcome
import RuleVote.Run.Session
import RuleVote.Store.Directory
import RuleVote.Store.Memory

/-!
# Batch runs

A batch run reads a configuration, a feature table, rules and gold labels
from files, in this order, enters rules and gold labels into a store, and
runs once. The store is kept in a directory if one is given. What was
entered before a failure stays there.
-/

namespace RuleVote

/-- What is found where a file should be. -/
inductive Source where
  /-- No file. -/
  | missing
  /-- A file that cannot be read. -/
  | unreadable (reason : String)
  /-- A file with its text. -/
  | text (content : String)
deriving DecidableEq, Repr

/-- What is found where the directory of a store should be. -/
inductive Destination where
  /-- A directory; one that did not exist has been made. -/
  | directory (store : DirectoryStore)
  /-- Something else, and no directory can be made. -/
  | blocked (reason : String)
deriving DecidableEq, Repr

/-- What a command can see of the world. -/
structure Surroundings where
  /-- Files. -/
  source : String → Source
  /-- Directories of stores. -/
  destination : String → Destination
  /-- The variables of the environment. -/
  environment : String → Option String
  /-- The present moment. -/
  moment : Moment
  /-- What new identifiers are drawn from. -/
  chance : KeyStream
  /-- Workers. -/
  worker : WorkerAddress → WorkerLine

/-- What a batch run works on. -/
structure BatchInput where
  /-- The configuration. -/
  config : RunConfig
  /-- The items. -/
  table : FeatureTable
  /-- The rules. -/
  rules : List Rule
  /-- The gold labels by the keys of their items, in ascending order. -/
  gold : List (String × Int)

namespace Surroundings

/-! ## Reading -/

/-- What a file of JSON says. -/
def readJson {α : Type} (w : Surroundings) (decoder : Decoder α) (path : String) :
    Except CommandFailure α :=
  match w.source path with
  | .missing => .error (.missingFile path)
  | .unreadable reason => .error (.inputOutput reason)
  | .text content =>
    (decodeText decoder content).mapError fun fault => .unfitInput path fault.text

/-- The rule set of a configuration that names none. -/
def defaultRuleSet : String := "default"

/-- Who contributes the gold labels of a file. -/
def contributor : String := "labelsmith-cli"

/-- The configuration with a rule set named. -/
def named (c : RunConfig) : RunConfig :=
  if isBlankText c.ruleSet then { c with ruleSet := defaultRuleSet } else c

/-- The configuration that a text has in these surroundings. -/
def configOfText (w : Surroundings) (path content : String) : Except Failure RunConfig := do
  let c ← (RunConfig.ofToml content).mapError fun f => .config (path ++ ": " ++ f.text)
  let (applied, c) := c.applyEnvironment w.environment
  applied
  return named c

/-- The configuration in a file. -/
def readConfig (w : Surroundings) (path : String) : Except CommandFailure RunConfig :=
  match w.source path with
  | .missing => .error (.missingFile path)
  | .unreadable reason => .error (.refused (.inputOutput reason))
  | .text content => (w.configOfText path content).mapError .refused

/-- Reads all that a batch run works on. -/
def readInput (w : Surroundings) (paths : RunPaths) : Except CommandFailure BatchInput := do
  let config ← w.readConfig paths.config
  let table ← w.readJson .featureTable paths.features
  let rules ← w.readJson (.list .rule) paths.rules
  let gold ← match paths.gold with
    | some path => w.readJson (.dictionary .index) path
    | none => .ok []
  return ⟨config, table, rules, gold⟩

end Surroundings

namespace BatchInput

/-! ## Running -/

/-- The places of a store that have to do with what is entered. -/
def places (i : BatchInput) : List Place :=
  [DirectoryStore.place .ruleSets i.config.ruleSet,
    DirectoryStore.place .gold i.config.task.id].filterMap Except.toOption

/-- The gold labels to be entered, each with an identifier of its own. -/
def goldLabels (i : BatchInput) (ids : List Uuid) : List GoldLabel :=
  List.zipWith (fun (id : Uuid) (item, label) =>
    ⟨id.text, item, label, Surroundings.contributor, i.config.task.id⟩) ids i.gold

/-- Enters gold labels into a store until one is refused. -/
def enterGold {σ : Type} [LabelStore σ] : σ → List GoldLabel → Except Failure Unit × σ
  | store, [] => (.ok (), store)
  | store, g :: gold =>
    match LabelStore.upsertGold store g with
    | .error f => (.error f, store)
    | .ok store => enterGold store gold

/-- Enters rules and gold labels into a store. -/
def enter {σ : Type} [LabelStore σ] (i : BatchInput) (ids : List Uuid) (store : σ) :
    Except Failure Unit × σ :=
  match LabelStore.saveRules store i.config.ruleSet i.rules with
  | .error f => (.error f, store)
  | .ok store => enterGold store (i.goldLabels ids)

/-- Runs on a store in which everything has been entered. -/
def label {σ : Type} [LabelStore σ] (i : BatchInput) (stamp : RunStamp) (line : WorkerLine)
    (store : σ) : Fallible LabelingResult × σ :=
  match Session.new i.config.task i.table with
  | .error f => (fail f, store)
  | .ok session =>
    let (result, _, store) := session.run store i.config stamp line
    (result, store)

/-- Enters everything into a store and runs. -/
def execute {σ : Type} [LabelStore σ] (i : BatchInput) (w : Surroundings) (store : σ) :
    Fallible LabelingResult × σ :=
  let (ids, chance) := KeyStream.several Uuid.draw i.gold.length w.chance
  match i.enter ids store with
  | (.error f, store) => (fail f, store)
  | (.ok (), store) =>
    i.label ⟨(Uuid.draw chance).1, w.moment⟩ (w.worker i.config.workerAddress) store

end BatchInput

namespace Surroundings

/-- The scores of a run as text. -/
def scoresText (r : LabelingResult) : String := r.scores.toJson.pretty ++ "\n"

/-- Carries out a batch run whose input has been read. -/
def runOn (w : Surroundings) (i : BatchInput) (out : Option String) :
    CommandOutcome DirectoryStore :=
  match out with
  | none => .ofFallible scoresText (i.execute w MemoryStore.empty).1
  | some path =>
    match w.destination path with
    | .blocked reason => .failure (.refused (.inputOutput reason))
    | .directory store =>
      let (result, store) := i.execute w store
      (CommandOutcome.ofFallible scoresText result).leaving path store

/-- Carries out a batch run. -/
def runBatch (w : Surroundings) (paths : RunPaths) : CommandOutcome DirectoryStore :=
  match w.readInput paths with
  | .error f => .failure f
  | .ok input => w.runOn input paths.out

end Surroundings

end RuleVote
