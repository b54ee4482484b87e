import RuleVote.Matrix
import RuleVote.Rule.Expr

/-!
# Feature tables

Items with a key each, and named columns with a number for every item. A
column of labels that came with the data is kept beside the features and is
none of them. `FeatureTable.new` refuses repeated keys, repeated or empty
column names and columns of another length; `selectRows` may gather an item
twice, and then its key stands for the later one.
-/

namespace RuleVote

/-- A named list of values. -/
structure Column (α : Type) where
  /-- The name. -/
  name : String
  /-- One value for each item. -/
  values : List α
deriving DecidableEq, Repr

/-- A table of items and features. -/
structure FeatureTable where
  /-- The keys of the items. -/
  keys : List String
  /-- The features. -/
  columns : List (Column Float32)
  /-- Labels that came with the data. -/
  labelColumn : Option (Column Int)
deriving DecidableEq, Repr

/-- The first member of a list that occurs before in it. -/
def firstRepeated? (seen : List String) : List String → Option String
  | [] => none
  | s :: rest => if seen.contains s then some s else firstRepeated? (s :: seen) rest

/-- The last position of a member. -/
def lastIndexOf? (s : String) : List String → Option Nat
  | [] => none
  | t :: rest =>
    match lastIndexOf? s rest with
    | some i => some (i + 1)
    | none => if t = s then some 0 else none

namespace FeatureTable

/-- Checks columns one after the other, `seen` being the names before. -/
def checkColumns (items : Nat) (seen : List String) :
    List (Column Float32) → Except Failure Unit
  | [] => .ok ()
  | c :: columns => do
    if c.name.isEmpty then .error (.other "Column names cannot be empty")
    if c.values.length ≠ items then
      .error (.shapeMismatch
        (toString items ++ " values in column '" ++ c.name ++ "'")
        (toString c.values.length))
    if seen.contains c.name then .error (.other ("Duplicate column name '" ++ c.name ++ "'"))
    checkColumns items (c.name :: seen) columns

/-- A table from keys and columns. -/
def new (keys : List String) (columns : List (Column Float32)) : Except Failure FeatureTable := do
  match firstRepeated? [] keys with
  | some key => .error (.other ("Duplicate item key '" ++ key ++ "'"))
  | none => .ok ()
  checkColumns keys.length [] columns
  return ⟨keys, columns, none⟩

/-- The number of items. -/
def size (t : FeatureTable) : Nat := t.keys.length

/-- The feature with a given name. -/
def column? (t : FeatureTable) (name : String) : Option (List Float32) :=
  (t.columns.find? fun c => c.name = name).map Column.values

/-- Whether there is a feature with this name. -/
def hasColumn (t : FeatureTable) (name : String) : Bool := (t.column? name).isSome

/-- The feature with a given name. -/
def column (t : FeatureTable) (name : String) : Except Failure (List Float32) :=
  match t.column? name with
  | some values => .ok values
  | none => .error (.missingFeature name)

/-- The table with a column of labels. -/
def withLabelColumn (t : FeatureTable) (c : Column Int) : Except Failure FeatureTable :=
  if c.values.length ≠ t.size then
    .error (.shapeMismatch (toString t.size ++ " label values") (toString c.values.length))
  else if t.hasColumn c.name then
    .error (.other ("Label column '" ++ c.name ++ "' collides with a feature column"))
  else .ok { t with labelColumn := some c }

/-- The position of an item. -/
def rowIndex? (t : FeatureTable) (key : String) : Option Nat := lastIndexOf? key t.keys

/-- The features of the item at a position. -/
def row (t : FeatureTable) (i : Nat) : Row := fun name =>
  (t.column? name).bind fun values => values[i]?

/-- The named features alone, without the labels. -/
def select (t : FeatureTable) (names : List String) : Except Failure FeatureTable := do
  new t.keys (← names.mapM fun name => do return ⟨name, ← t.column name⟩)

/-- The members at the given positions. -/
def gather {α : Type} (as : List α) (indices : List Nat) : Fallible (List α) :=
  indices.mapM fun i => orBreak as[i]?

/-- The items at the given positions. -/
def selectRows (t : FeatureTable) (indices : List Nat) : Fallible FeatureTable := do
  let keys ← gather t.keys indices
  let columns ← t.columns.mapM fun c => do return (⟨c.name, ← gather c.values indices⟩ : Column _)
  let labelColumn ← t.labelColumn.mapM fun c => do
    return (⟨c.name, ← gather c.values indices⟩ : Column _)
  return ⟨keys, columns, labelColumn⟩

/-- The features as a matrix. -/
def toMatrix (t : FeatureTable) : Fallible (Matrix Float32) := do
  let rows ← (List.range t.size).mapM fun i =>
    t.columns.mapM fun c => orBreak c.values[i]?
  return Matrix.ofRowsOf t.columns.length rows

end FeatureTable

end RuleVote
