import RuleVote.Worker.Message

/-!
# The worker

A worker holds at most one surrogate and answers one request at a time. It
keeps the surrogate when it is asked for one with settings that agree, and
drops it when training fails, so that a surrogate trained halfway never
labels anything.
-/

namespace RuleVote

/-- A worker with the surrogate it holds. -/
structure Worker where
  /-- The surrogate, if there is one. -/
  surrogate : Option Surrogate
deriving Repr

namespace Worker

/-- A worker that holds nothing. -/
def new : Worker := ⟨none⟩

/-- The failure of a call that needs a surrogate. -/
def uninitialized : Failure := .wrongState "initialized" "uninitialized"

/-- Makes a surrogate unless there is one like it. -/
def init (w : Worker) (settings : SurrogateSettings) : WorkerResponse × Worker :=
  match w.surrogate.filter fun s => s.settings.agrees settings with
  | some _ => (.alreadyInitialized settings.kind, w)
  | none => (.initialized settings.kind, ⟨some (.new settings)⟩)

/-- Trains the surrogate. -/
def apply (w : Worker) (input : SurrogateInput) (folds : Nat) :
    Fallible (WorkerResponse × Worker) :=
  match w.surrogate with
  | none => .ok (.error uninitialized.text, w)
  | some s =>
    match s.train input folds with
    | .ok (records, s) => .ok (.trained records, ⟨some s⟩)
    | .error (.failed f) => .ok (.error f.text, new)
    | .error .broken => breakOff

/-- Labels rows. -/
def predict (w : Worker) (features : Matrix Float32) : Fallible WorkerResponse :=
  match w.surrogate with
  | none => .ok (.error uninitialized.text)
  | some s =>
    match s.predict features with
    | .ok labels => .ok (.predicted labels)
    | .error (.failed f) => .ok (.error f.text)
    | .error .broken => breakOff

/-- Answers a request. It never fails, but breaks off where the parts of a
request do not go together. -/
def handle (w : Worker) : WorkerRequest → Fallible (WorkerResponse × Worker)
  | .init settings => .ok (w.init settings)
  | .apply input folds => w.apply input folds
  | .predict features => do return (← w.predict features, w)
  | .restart => .ok (.cleared, new)

end Worker

end RuleVote
