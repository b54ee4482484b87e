import RuleVote.Label.LabelSet
import RuleVote.Matrix
import RuleVote.Random.Draw

/-!
# From probabilities to labels

The label of a row of probabilities is the only class within a small
tolerance of the largest one. A row with several such classes is tied, and a
policy says what becomes of it: no label, one of the tied classes chosen by
row and seed alone, or any class drawn from a key stream.
-/

namespace RuleVote

/-- What becomes of a tied row. -/
inductive TiePolicy where
  /-- It gets no label. -/
  | abstain
  /-- It gets one of its tied classes, the same one whenever row and seed are
  the same. -/
  | random
  /-- It gets any class at all. -/
  | trueRandom
deriving DecidableEq, Repr

/-- The distance from the largest probability up to which classes tie. -/
def tieTolerance : Float32 := (Decimal.mk 1 (-5)).toSingle false

/-- The classes within the tolerance of the largest probability. -/
def tiedClasses (row : List Float32) : List Nat :=
  let most := largest row
  (row.zipIdx.filter fun (p, _) => (most - p).abs ≤ tieTolerance).map Prod.snd

/-- A word that scatters row numbers for a seed. -/
def scatter (row seed : UInt64) : UInt64 :=
  let z := row + seed * 0x9E3779B97F4A7C15 + 0x9E3779B97F4A7C15
  let z := (z ^^^ (z >>> 30)) * 0xBF58476D1CE4E5B9
  let z := (z ^^^ (z >>> 27)) * 0x94D049BB133111EB
  z ^^^ (z >>> 31)

/-- The position among `count` tied classes that row and seed choose. -/
def tiedPosition (row seed count : Nat) : Nat :=
  (scatter (UInt64.ofNat row) (UInt64.ofNat seed)).toNat % count

/-- The label of the row with a given number. -/
def rowLabel (policy : TiePolicy) (seed classes : Nat) (number : Nat) (row : List Float32)
    (stream : KeyStream) : Int × KeyStream :=
  match tiedClasses row with
  | [] => (abstain, stream)
  | [only] => (classLabel only, stream)
  | tied =>
    match policy with
    | .abstain => (abstain, stream)
    | .random =>
      match tied[tiedPosition number seed tied.length]? with
      | some c => (classLabel c, stream)
      | none => (abstain, stream)
    | .trueRandom =>
      let (c, stream) := stream.choice classes
      (classLabel c, stream)

/-- The labels of rows, the first of them with a given number. -/
def rowLabels (policy : TiePolicy) (seed classes : Nat) :
    Nat → List (List Float32) → KeyStream → List Int
  | _, [], _ => []
  | number, row :: rows, stream =>
    let (label, stream) := rowLabel policy seed classes number row stream
    label :: rowLabels policy seed classes (number + 1) rows stream

/-- The labels of a matrix of probabilities, with a stream to draw from. -/
def labelsFrom (policy : TiePolicy) (seed : Nat) (stream : KeyStream) (m : Matrix Float32) :
    Fallible (List Int) := do
  return rowLabels policy seed m.cols 0 (← m.allRows) stream

/-- The labels of a matrix of probabilities, the seed giving the stream. -/
def labelsOf (policy : TiePolicy) (seed : Nat) (m : Matrix Float32) : Fallible (List Int) :=
  labelsFrom policy seed (.ofSeed seed) m

end RuleVote
