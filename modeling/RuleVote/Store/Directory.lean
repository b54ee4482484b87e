import RuleVote.Store.Archive
import RuleVote.Store.Basic

/-!
# The store in a directory

One JSON file for each rule set, for the gold labels of each task and for
each result, in three folders. Only names that are safe as file names are
accepted. The directory is a map from places to texts.
-/

namespace RuleVote

/-- The folders of the store. -/
inductive Folder where
  /-- Rule sets. -/
  | ruleSets
  /-- Gold labels. -/
  | gold
  /-- Results. -/
  | results
deriving DecidableEq, Repr

/-- All folders. -/
def Folder.all : List Folder := [ruleSets, gold, results]

/-- The name of a folder. -/
def Folder.name : Folder → String
  | ruleSets => "rulesets"
  | gold => "gold"
  | results => "results"

/-- The place of a file. -/
structure Place where
  /-- The folder it is in. -/
  folder : Folder
  /-- Its name. -/
  name : String
deriving DecidableEq, Repr

/-- The path of a place in the directory. -/
def Place.path (p : Place) : String := p.folder.name ++ "/" ++ p.name

/-- A store in a directory. -/
structure DirectoryStore where
  /-- The files with their texts. -/
  files : List (Place × String)
deriving DecidableEq, Repr

namespace DirectoryStore

/-- A directory without files. -/
def empty : DirectoryStore := ⟨[]⟩

/-- The text of a file. -/
def read? (s : DirectoryStore) (place : Place) : Option String := s.files.lookup place

/-- The directory with a file in the place of an earlier one. -/
def write (s : DirectoryStore) (place : Place) (text : String) : DirectoryStore :=
  ⟨(place, text) :: s.files.filter fun (p, _) => p ≠ place⟩

/-- The names of the files of a folder in ascending order. -/
def names (s : DirectoryStore) (folder : Folder) : List String :=
  (SortedSet.ofList ((s.files.filter fun (p, _) => p.folder = folder).map fun (p, _) => p.name)).toList

/-- Whether a character may stand in a file name. -/
def isSafeChar (c : Char) : Bool :=
  c.isAlpha || c.isDigit || c == '-' || c == '_' || c == '.'

/-- Whether an identifier may be made a file name. -/
def isSafe (id : String) : Bool :=
  !id.isEmpty && id.toList.all isSafeChar && id.toList.head? != some '.'

/-- What follows the stem of the name of a file of this store. -/
def suffix : String := ".json"

/-- The place of what an identifier stands for. -/
def place (folder : Folder) (id : String) : Except Failure Place :=
  if isSafe id then .ok ⟨folder, id ++ suffix⟩
  else .error (.store ("invalid identifier '" ++ id ++ "'"))

/-- Whether a file belongs to this store: its name is a stem with the
suffix. -/
def isOwn (name : String) : Bool :=
  suffix.toList.isSuffixOf name.toList && suffix.length < name.length

/-- What a text says. -/
def decode {α : Type} (decoder : Decoder α) (text : String) : Except Failure α :=
  (decodeText decoder text).mapError .document

/-- What a file says, if it exists. -/
def load? {α : Type} (s : DirectoryStore) (decoder : Decoder α) (place : Place) :
    Except Failure (Option α) :=
  (s.read? place).mapM (decode decoder)

/-- The gold labels of a file. -/
def loadGold (s : DirectoryStore) (place : Place) : Except Failure (List GoldLabel) := do
  return (← s.load? (.list .goldLabel) place).getD []

/-- The result in a file, if it is one for the rule set. -/
def loadResult (s : DirectoryStore) (ruleSet name : String) :
    Except Failure (Option LabelingResult) := do
  match ← s.load? .archivedResult ⟨.results, name⟩ with
  | some archived =>
    if archived.ruleSet = ruleSet then some <$> archived.result.mapError .document
    else return none
  | none => return none

instance : LabelStore DirectoryStore where
  rules s name := do
    match ← s.load? (.list .rule) (← place .ruleSets name) with
    | some rules => return rules
    | none => .error (unknownRuleSet name)
  saveRules s name rules := do
    return s.write (← place .ruleSets name) (Json.ofList Rule.toJson rules).pretty
  goldLabels s task := do s.loadGold (← place .gold task)
  upsertGold s label := do
    let place ← place .gold label.task
    return s.write place (Json.ofList GoldLabel.toJson (label.upsert (← s.loadGold place))).pretty
  saveResult s result := do
    return s.write (← place .results result.id.text) (ArchivedResult.ofResult result).toJson.pretty
  results s name := do
    let found ← ((s.names .results).filter isOwn).mapM (s.loadResult name)
    return inOrder (found.filterMap id)

end DirectoryStore

end RuleVote
