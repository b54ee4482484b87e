import RuleVote.Failure
import RuleVote.Random.Draw
import RuleVote.Text.SortedSet

/-!
# Stratified folds

Rows are put in order class by class, each class in random order if it is to
be shuffled, and then dealt out to the folds in turn, one after the other.
So no two folds differ by more than one row, in all or in any class. A fold
is tested on its own rows and trained on all others, both in ascending
order.
-/

namespace RuleVote

/-- How rows are divided into folds. -/
structure StratifiedFolds where
  /-- The number of folds. -/
  splits : Nat
  /-- Whether the rows of a class are put in random order. -/
  shuffled : Bool
  /-- The seed of the random order. -/
  seed : Nat
deriving DecidableEq, Repr

/-- The rows of a fold. -/
structure Split where
  /-- The rows trained on. -/
  train : List Nat
  /-- The rows held out. -/
  test : List Nat
deriving DecidableEq, Repr

namespace StratifiedFolds

/-- The seed used unless another one is given. -/
def defaultSeed : Nat := 42

/-- Shuffled folds with the default seed. -/
def new (splits : Nat) : StratifiedFolds := ⟨splits, true, defaultSeed⟩

/-- The same folds, shuffled or not. -/
def withShuffle (f : StratifiedFolds) (shuffled : Bool) : StratifiedFolds := { f with shuffled }

/-- The same folds, shuffled with a seed. -/
def withSeed (f : StratifiedFolds) (seed : Nat) : StratifiedFolds :=
  { f with seed, shuffled := true }

/-- The rows of each class, the classes in ascending order. -/
def classRows (y : List Nat) : List (List Nat) :=
  (SortedSet.ofList y).toList.map fun c =>
    (List.range y.length).filter fun i => y[i]? = some c

/-- Shuffles lists one after the other. -/
def shuffleAll : List (List Nat) → KeyStream → List (List Nat)
  | [], _ => []
  | rows :: classes, s =>
    let (rows, s) := s.shuffle rows
    rows :: shuffleAll classes s

/-- The order in which rows are dealt out. -/
def dealingOrder (f : StratifiedFolds) (y : List Nat) : List Nat :=
  let classes := classRows y
  (if f.shuffled then shuffleAll classes (KeyStream.ofSeed f.seed) else classes).flatten

/-- The fold of a row: rows are dealt out in turn, so it is the remainder of
the place of the row. -/
def foldOf (splits : Nat) (order : List Nat) (row : Nat) : Nat := order.idxOf row % splits

/-- The rows of each fold. -/
def splitRows (f : StratifiedFolds) (y : List Nat) : List Split :=
  let order := f.dealingOrder y
  let rows := List.range y.length
  (List.range f.splits).map fun fold =>
    let (test, train) := rows.partition fun i => foldOf f.splits order i = fold
    ⟨train, test⟩

/-- Divides rows with the given classes. -/
def split (f : StratifiedFolds) (y : List Nat) : Except Failure (List Split) :=
  if f.splits < 2 ∨ y.length < f.splits then
    .error (.badSetting "n_splits" (toString f.splits)
      ("2 <= n_splits <= " ++ toString y.length ++ " samples"))
  else .ok (f.splitRows y)

end StratifiedFolds

/-- The number of folds asked for, none for zero; each fold needs a row. -/
def checkFolds (folds rows : Nat) : Except Failure (Option Nat) :=
  if folds = 0 then .ok none
  else if 2 ≤ folds ∧ folds ≤ rows then .ok (some folds)
  else .error (.badSetting "folds" (toString folds)
    ("0 (no cross-validation) or 2..=" ++ toString rows))

end RuleVote
