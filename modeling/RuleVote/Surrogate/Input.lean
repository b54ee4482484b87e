import RuleVote.DataCodec
import RuleVote.Voter.Majority

/-!
# What a surrogate is trained on

The features of every row with its targets: one label, one distribution over
the labels, or all votes on it along with its label. Input that comes from
a document has not been checked (`new` checks), so its parts may disagree
about the number of rows.
-/

namespace RuleVote

/-- Training targets. -/
inductive Targets where
  /-- A label, or an abstention, for every row. -/
  | hard (labels : List Int)
  /-- The probabilities of the labels for every row. -/
  | soft (probabilities : Matrix Float32)
  /-- The votes on every row, and its label. -/
  | votes (votes : Matrix Int) (labels : List Int)
deriving Repr

/-- Features and targets. -/
structure SurrogateInput where
  /-- The features of every row. -/
  features : Matrix Float32
  /-- The targets of every row. -/
  targets : Targets
  /-- The number of labels. -/
  classes : Nat
deriving Repr

/-- Equality of targets, numbers compared as numbers. -/
def Targets.agrees : Targets → Targets → Bool
  | hard a, hard b => a == b
  | soft a, soft b => a.agrees b
  | .votes a l, .votes b m => a.agrees b && l == m
  | _, _ => false

namespace SurrogateInput

/-- Equality of inputs, numbers compared as numbers. -/
def agrees (a b : SurrogateInput) : Bool :=
  a.features.agrees b.features && a.targets.agrees b.targets && a.classes == b.classes

/-- Refuses targets for another number of rows. -/
def checkRows (rows actual : Nat) : Except Failure Unit :=
  if actual = rows then .ok ()
  else .error (.shapeMismatch (toString rows ++ " target rows") (toString actual ++ " target rows"))

/-- Refuses labels that are neither abstentions nor classes. -/
def checkLabels (labels : List Int) (classes : Nat) : Except Failure Unit :=
  match labels.find? fun l => !isVote classes l with
  | some bad =>
    .error (.badSetting "label" (toString bad)
      ("-1 or a label index below " ++ toString classes))
  | none => .ok ()

/-- Refuses targets that do not go with so many rows and classes. -/
def checkTargets (rows classes : Nat) : Targets → Except Failure Unit
  | .hard labels => do
    checkRows rows labels.length
    checkLabels labels classes
  | .soft probabilities => do
    checkRows rows probabilities.rows
    if probabilities.cols ≠ classes then
      .error (.shapeMismatch (toString classes ++ " probability columns")
        (toString probabilities.cols ++ " probability columns"))
  | .votes votes labels => do
    checkRows rows votes.rows
    checkRows rows labels.length
    checkVotes votes classes
    checkLabels labels classes

/-- Input whose parts go together. -/
def new (features : Matrix Float32) (targets : Targets) (classes : Nat) :
    Except Failure SurrogateInput := do
  if classes < 2 then .error (.badSetting "n_classes" (toString classes) ">= 2")
  checkTargets features.rows classes targets
  return ⟨features, targets, classes⟩

/-- The label of every row; of a distribution the most probable one. -/
def referenceLabels (input : SurrogateInput) : Fallible (List Int) :=
  match input.targets with
  | .hard labels => .ok labels
  | .votes _ labels => .ok labels
  | .soft probabilities => do return (← probabilities.argmaxRows).map classLabel

/-- The positions of the labels that are no abstentions. -/
def labeledPositions (labels : List Int) : List Nat :=
  (labels.zipIdx.filter fun (l, _) => l ≠ abstain).map Prod.snd

/-- The rows that have a label. -/
def labeledRows (input : SurrogateInput) : Fallible (List Nat) := do
  return labeledPositions (← input.referenceLabels)

/-- Puts all of a row's mass on its label; a row without one is left as it
is. -/
def putLabel (m : Matrix Float32) (label : Int × Nat) : Fallible (Matrix Float32) := do
  if label.1 < 0 then return m
  -- a class beyond the row falls into the next one, which its own label fills later
  (← m.fillRow label.2 0).setEntry label.2 label.1.toNat 1

/-- The distribution over the labels for every row: all mass on its label,
even without one. -/
def softTargets (input : SurrogateInput) : Fallible (Matrix Float32) :=
  let ofLabels (labels : List Int) : Fallible (Matrix Float32) := do
    let even ← Matrix.filled labels.length input.classes (1 / ofCount input.classes)
    labels.zipIdx.foldlM putLabel even
  match input.targets with
  | .soft probabilities => .ok probabilities
  | .hard labels => ofLabels labels
  | .votes _ labels => ofLabels labels

end SurrogateInput

/-! ## As JSON -/

/-- Targets as JSON. -/
def Targets.toJson : Targets → Json
  | hard labels => .object [("kind", .string "hard"), ("labels", .ofList .integer labels)]
  | soft probabilities =>
    .object [("kind", .string "soft"), ("probabilities", probabilities.toJson .single)]
  | .votes cast labels =>
    .object [("kind", .string "votes"), ("votes", cast.toJson .integer),
      ("labels", .ofList .integer labels)]

/-- Input as JSON. -/
def SurrogateInput.toJson (input : SurrogateInput) : Json :=
  .object [("features", input.features.toJson .single), ("targets", input.targets.toJson),
    ("n_classes", .ofNat input.classes)]

namespace Decoder

/-- Training targets. -/
def targets : Decoder Targets :=
  tagged "kind" [
    ("hard", .record (Targets.hard <$> .required "labels" (list index))),
    ("soft", .record (Targets.soft <$> .required "probabilities" (matrix single))),
    ("votes", .record (Targets.votes <$> .required "votes" (matrix index)
      <*> .required "labels" (list index)))]

/-- Input, not checked. -/
def surrogateInput : Decoder SurrogateInput :=
  (SurrogateInput.mk <$> .required "features" (matrix single) <*> .required "targets" targets
    <*> .required "n_classes" nat : RecordDecoder SurrogateInput).decode

end Decoder

end RuleVote
