import RuleVote.Surrogate.Basic

/-!
# Messages to and from a worker

A request names its method, a response names its kind of reply. What a
request carries has not been checked.
-/

namespace RuleVote

/-- A call to a worker. -/
inductive WorkerRequest where
  /-- Make a surrogate. -/
  | init (settings : SurrogateSettings)
  /-- Cross-validate and train the surrogate. -/
  | apply (input : SurrogateInput) (folds : Nat)
  /-- Label rows. -/
  | predict (features : Matrix Float32)
  /-- Drop the surrogate. -/
  | restart
deriving Repr

/-- The answer of a worker. -/
inductive WorkerResponse where
  /-- A surrogate was made. -/
  | initialized (kind : SurrogateKind)
  /-- There was a surrogate with these settings already. -/
  | alreadyInitialized (kind : SurrogateKind)
  /-- Training is done. -/
  | trained (folds : List FoldRecord)
  /-- Rows were labeled. -/
  | predicted (labels : List Int)
  /-- The surrogate was dropped. -/
  | cleared
  /-- The call failed. -/
  | error (message : String)
deriving Repr

/-- The name of the method that a request calls. -/
def WorkerRequest.method : WorkerRequest → String
  | init _ => "init"
  | apply _ _ => "apply"
  | predict _ => "predict"
  | restart => "restart"

/-- A request as JSON. -/
def WorkerRequest.toJson (r : WorkerRequest) : Json :=
  .object (("method", .string r.method) :: match r with
    | init settings => [("config", settings.toJson)]
    | apply input folds => [("input", input.toJson), ("folds", .ofNat folds)]
    | predict features => [("features", features.toJson .single)]
    | restart => [])

/-- A response as JSON, given how folds are written. -/
def WorkerResponse.toJson (fold : FoldRecord → Json) : WorkerResponse → Json
  | initialized kind => .object [("reply", .string "initialized"), ("kind", .string kind.name)]
  | alreadyInitialized kind =>
    .object [("reply", .string "already_initialized"), ("kind", .string kind.name)]
  | trained folds => .object [("reply", .string "trained"), ("folds", .ofList fold folds)]
  | predicted labels =>
    .object [("reply", .string "predicted"), ("labels", .ofList .integer labels)]
  | cleared => .object [("reply", .string "cleared")]
  | error message => .object [("reply", .string "error"), ("message", .string message)]

namespace Decoder

/-- A request. -/
def workerRequest : Decoder WorkerRequest :=
  tagged "method" [
    ("init", .record (WorkerRequest.init <$> .required "config" surrogateSettings)),
    ("apply", .record (WorkerRequest.apply <$> .required "input" surrogateInput
      <*> .required "folds" nat)),
    ("predict", .record (WorkerRequest.predict <$> .required "features" (matrix single))),
    ("restart", .bare .restart)]

/-- A response. -/
def workerResponse : Decoder WorkerResponse :=
  tagged "reply" [
    ("initialized", .record (WorkerResponse.initialized <$> .required "kind" surrogateKind)),
    ("already_initialized",
      .record (WorkerResponse.alreadyInitialized <$> .required "kind" surrogateKind)),
    ("trained", .record (WorkerResponse.trained <$> .required "folds" (list foldRecord))),
    ("predicted", .record (WorkerResponse.predicted <$> .required "labels" (list index))),
    ("cleared", .bare .cleared),
    ("error", .record (WorkerResponse.error <$> .required "message" string))]

end Decoder

end RuleVote
