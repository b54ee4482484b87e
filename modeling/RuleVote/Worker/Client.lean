import RuleVote.Worker.Address
import RuleVote.Worker.Message

/-!
# Calls to a worker

Whoever calls a worker sends a request and waits for its answer. What comes
back is not known before: the call may fail on the way, the worker may say
that it failed, and it may give an answer to another method. All of that is a
failure of the worker. During a run each method is called once at most, so a
`WorkerLine` has one answer for every request.
-/

namespace RuleVote

/-- What comes back from a worker. -/
structure WorkerLine where
  /-- The answer to a request, or what went wrong on the way. -/
  answer : WorkerRequest → Except String WorkerResponse
  /-- The wording of an answer that was not expected. -/
  wording : WorkerResponse → String

namespace WorkerLine

/-- A line without a connection. -/
def down (address : WorkerAddress) : WorkerLine where
  answer request := .error (request.method ++ ": no connection to " ++ address.text)
  wording _ := ""

/-- Sends a request and picks what was asked for out of the answer. -/
def ask {α : Type} (line : WorkerLine) (request : WorkerRequest)
    (pick : WorkerResponse → Option α) : Except Failure α :=
  match line.answer request with
  | .error reason => .error (.remoteWorker reason)
  | .ok (.error message) => .error (.remoteWorker message)
  | .ok response =>
    match pick response with
    | some a => .ok a
    | none =>
      .error (.remoteWorker (request.method ++ ": unexpected reply " ++ line.wording response))

/-- Has a surrogate made, and says whether there was none like it. -/
def init (line : WorkerLine) (settings : SurrogateSettings) : Except Failure Bool :=
  line.ask (.init settings) fun
    | .initialized _ => some true
    | .alreadyInitialized _ => some false
    | _ => none

/-- Has the surrogate trained. -/
def apply (line : WorkerLine) (input : SurrogateInput) (folds : Nat) :
    Except Failure (List FoldRecord) :=
  line.ask (.apply input folds) fun
    | .trained records => some records
    | _ => none

/-- Has rows labeled. -/
def predict (line : WorkerLine) (features : Matrix Float32) : Except Failure (List Int) :=
  line.ask (.predict features) fun
    | .predicted labels => some labels
    | _ => none

end WorkerLine

end RuleVote
