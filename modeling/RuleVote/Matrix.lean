import RuleVote.Failure
import RuleVote.Number.Single

/-!
# Matrices

A matrix is its entries in row order with the number of rows and columns.
One that was read from a document may hold fewer or more entries than its
shape asks for (`WellShaped` says that it does not), so reading a row
breaks off where the entries end. A single entry is found at its place
among all entries, whether or not its column exists.
-/

namespace RuleVote

/-- A matrix over `α`. -/
structure Matrix (α : Type) where
  /-- The entries, row after row. -/
  data : Array α
  /-- The number of rows. -/
  rows : Nat
  /-- The number of columns. -/
  cols : Nat
deriving DecidableEq, Repr

namespace Matrix

variable {α : Type}

/-- The number of entries is the one that the shape asks for. -/
def WellShaped (m : Matrix α) : Prop := m.data.size = m.rows * m.cols

instance (m : Matrix α) : Decidable m.WellShaped := inferInstanceAs (Decidable (_ = _))

/-- A matrix from its entries. -/
def ofEntries (rows cols : Nat) (data : List α) : Except Failure (Matrix α) :=
  if data.length = rows * cols then .ok ⟨data.toArray, rows, cols⟩
  else .error (.other "Data length must equal rows * cols")

/-- The matrix with given rows, which all have `cols` entries. -/
def ofRowsOf (cols : Nat) (rows : List (List α)) : Matrix α :=
  ⟨rows.flatten.toArray, rows.length, cols⟩

/-- A matrix from its rows. -/
def ofRows (rows : List (List α)) : Except Failure (Matrix α) :=
  let cols := (rows.head?.map List.length).getD 0
  if rows.all fun row => row.length == cols then .ok (ofRowsOf cols rows)
  else .error (.other "All rows must have the same length")

/-- A matrix of one value. -/
def uniform (rows cols : Nat) (value : α) : Matrix α :=
  ⟨Array.replicate (rows * cols) value, rows, cols⟩

/-- A matrix of one value of four bytes, whose shape may be too large. -/
def filled (rows cols : Nat) (value : α) : Fallible (Matrix α) := do
  reserve (rows * cols)
  return uniform rows cols value

/-- Equality of shape and entries, as `==` of the entries has it. -/
def agrees [BEq α] (a b : Matrix α) : Bool :=
  a.rows == b.rows && a.cols == b.cols && a.data == b.data

/-- A row, unless the entries end before it does. -/
def row? (m : Matrix α) (i : Nat) : Option (List α) :=
  if i * m.cols + m.cols ≤ m.data.size then
    some (m.data.extract (i * m.cols) (i * m.cols + m.cols)).toList
  else none

/-- A row. -/
def row (m : Matrix α) (i : Nat) : Fallible (List α) := orBreak (m.row? i)

/-- All rows in order. -/
def allRows (m : Matrix α) : Fallible (List (List α)) := (List.range m.rows).mapM m.row

/-- The entry at a place. -/
def entry (m : Matrix α) (i j : Nat) : Fallible α := orBreak m.data[i * m.cols + j]?

/-- The matrix with one entry replaced. -/
def setEntry (m : Matrix α) (i j : Nat) (value : α) : Fallible (Matrix α) :=
  let place := i * m.cols + j
  if place < m.data.size then .ok { m with data := m.data.setIfInBounds place value }
  else breakOff

/-- The matrix with every entry of a row replaced by one value. -/
def fillRow (m : Matrix α) (i : Nat) (value : α) : Fallible (Matrix α) :=
  let start := i * m.cols
  if start + m.cols ≤ m.data.size then
    .ok { m with data := m.data.extract 0 start ++ Array.replicate m.cols value
      ++ m.data.extract (start + m.cols) m.data.size }
  else breakOff

/-- A column. -/
def column (m : Matrix α) (j : Nat) : Fallible (List α) :=
  (List.range m.rows).mapM fun i => m.entry i j

/-- The given rows in the given order. -/
def selectRows (m : Matrix α) (indices : List Nat) : Fallible (Matrix α) := do
  return ofRowsOf m.cols (← indices.mapM m.row)

/-- The position of the first largest number of a row. -/
def argmax (xs : List Float32) : Nat :=
  let step (best : Nat × Float32) (next : Float32 × Nat) : Nat × Float32 :=
    if best.2 < next.1 then (next.2, next.1) else best
  match xs with
  | [] => 0
  | x :: _ => (xs.zipIdx.foldl step (0, x)).1

/-- For each row the position of its first largest number. -/
def argmaxRows (m : Matrix Float32) : Fallible (List Nat) := do
  return (← m.allRows).map argmax

end Matrix

end RuleVote
