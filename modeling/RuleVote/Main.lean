import RuleVote.CommandLine.Program
import Std.Time.DateTime.Timestamp

/-!
# The executable

Looks at the surroundings as far as the words of the command line concern
them, and carries out what the words lead to.
-/

namespace RuleVote

namespace Executable

/-- A reason with the number that the system has for it. -/
def numbered (code : UInt32) (details : String) : String :=
  details ++ " (os error " ++ toString code ++ ")"

/-- The reason for an error. -/
def reasonOf : IO.Error → String
  | .noFileOrDirectory _ code details => numbered code details
  | .permissionDenied _ code details => numbered code details
  | .inappropriateType _ code details => numbered code details
  | .alreadyExists .. => numbered 20 "Not a directory"
  | e => toString e

/-- What is found where a file should be. -/
def lookAt (path : String) : IO Source := do
  try return .text (← IO.FS.readFile path)
  catch
    | .noFileOrDirectory .. => return .missing
    | .inappropriateType .. => return .missing
    | e => return .unreadable (reasonOf e)

/-- The path of something in a directory. -/
def inside (directory path : String) : String := directory ++ "/" ++ path

/-- The directory of a store, made if there is none, with the texts at some
places. -/
def openStore (directory : String) (places : List Place) : IO Destination := do
  try
    for folder in Folder.all do
      IO.FS.createDirAll (inside directory folder.name)
    let mut store := DirectoryStore.empty
    for place in places do
      match ← lookAt (inside directory place.path) with
      | .missing => pure ()
      | .unreadable reason => return .blocked reason
      | .text content => store := store.write place content
    return .directory store
  catch e => return .blocked (reasonOf e)

/-- Writes the files of a store. -/
def writeStore (directory : String) (store : DirectoryStore) : IO Unit := do
  for (place, content) in store.files do
    IO.FS.writeFile (inside directory place.path) content

/-- The present moment. -/
def now : IO Moment := do
  let nanos := (← Std.Time.Timestamp.now).toNanosecondsSinceUnixEpoch.val.toNat
  return (Moment.ofClock? (nanos / nanosPerSecond) (nanos % nanosPerSecond)).getD .epoch

/-- A source of chance that nobody can foresee. -/
def chance : IO KeyStream := do
  let bytes := (← IO.getRandomBytes 32).toList
  let word (i : Nat) : UInt32 :=
    ((bytes.drop (4 * i)).take 4).foldl (fun n b => n * 256 + b.toUInt32) 0
  return ⟨Vector.ofFn fun i => word i.val, 0, []⟩

/-- A finite map of what has been looked up. -/
def known {α : Type} (found : List (String × α)) (default : α) (name : String) : α :=
  (found.lookup name).getD default

/-- Pairs names with what is found under them. -/
def lookUp {α : Type} (look : String → IO α) (names : List String) : IO (List (String × α)) :=
  names.mapM fun name => return (name, ← look name)

/-- The surroundings without directories. -/
def survey (files : List String) : IO Surroundings := do
  let sources ← lookUp lookAt files
  let settings ← lookUp (fun name => IO.getEnv name) [hostVariable, portVariable]
  return {
    source := known sources .missing
    destination := fun _ => .directory .empty
    environment := known settings none
    moment := ← now
    chance := ← chance
    worker := .down }

/-- The surroundings of a run, the store opened once all input is read. -/
def surveyRun (paths : RunPaths) : IO Surroundings := do
  let w ← survey paths.files
  match w.readInput paths, paths.out with
  | .ok input, some directory =>
    let destination ← openStore directory input.places
    return { w with destination := fun _ => destination }
  | _, _ => return w

/-- The surroundings that words concern. -/
def surroundings (words : List String) : IO Surroundings :=
  match Command.ofWords words with
  | .ok (.run paths) => surveyRun paths
  | _ => survey []

/-- Says what an outcome has to say. -/
def say (o : CommandOutcome DirectoryStore) : IO UInt32 := do
  IO.print o.output
  IO.eprint o.trouble
  return o.status.toUInt32

/-- Leaves behind what an outcome leaves behind. -/
def conclude (o : CommandOutcome DirectoryStore) : IO UInt32 := do
  try
    if let some (directory, store) := o.store then writeStore directory store
    say o
  catch e => say (.failure (.refused (.inputOutput (reasonOf e))))

end Executable

end RuleVote

/-- Carries out what the words of the command line lead to. -/
def main (words : List String) : IO UInt32 := do
  let w ← RuleVote.Executable.surroundings words
  RuleVote.Executable.conclude (w.respond words)
