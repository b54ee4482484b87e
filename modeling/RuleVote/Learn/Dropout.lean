import RuleVote.Matrix
import RuleVote.Random.Draw

/-!
# Dropout

A mask keeps each value with a fixed chance, scaled up so that the mean
stays what it was, and drops it otherwise.
-/

namespace RuleVote

/-- The chance with which a value is dropped, below one. -/
structure Dropout where
  /-- The chance. -/
  chance : Float32
deriving Repr

namespace Dropout

/-- The largest chance. -/
def maxChance : Float32 := (Decimal.mk 999 (-3)).toSingle false

/-- Dropout with a chance moved into range. -/
def new (chance : Float32) : Dropout := ⟨clampSingle 0 maxChance chance⟩

/-- The factor for a value. -/
def factor (d : Dropout) (s : KeyStream) : Float32 × KeyStream :=
  let (v, s) := s.unit
  (if d.chance ≤ v then 1 / (1 - d.chance) else 0, s)

/-- A mask for a matrix; none, and no draw, if nothing is dropped. -/
def mask (d : Dropout) (rows cols : Nat) (s : KeyStream) : Option (Matrix Float32) × KeyStream :=
  if d.chance == 0 then (none, s)
  else
    let (data, s) := KeyStream.several d.factor (rows * cols) s
    (some ⟨data.toArray, rows, cols⟩, s)

/-- Multiplies a matrix by a mask. -/
def apply (mask : Option (Matrix Float32)) (m : Matrix Float32) : Matrix Float32 :=
  match mask with
  | none => m
  | some k => { m with data := Array.zipWith (· * ·) m.data k.data }

end Dropout

end RuleVote
