import RuleVote.Number.Single

/-!
# Vectors

Lists of numbers as vectors.
-/

namespace RuleVote

/-- A list of zeros. -/
def zeroVector (n : Nat) : List Float32 := List.replicate n 0

/-- `acc + factor · xs`, as far as `xs` reaches. -/
def addScaled (factor : Float32) : List Float32 → List Float32 → List Float32
  | a :: acc, x :: xs => (a + factor * x) :: addScaled factor acc xs
  | acc, [] => acc
  | [], _ :: _ => []

/-- A list cut into pieces of `size`, the last one shorter if need be; one
piece if the size is zero. -/
def pieces {α : Type} (size : Nat) (as : List α) : List (List α) :=
  if size = 0 ∨ as.length ≤ size then if as.isEmpty then [] else [as]
  else as.take size :: pieces size (as.drop size)
termination_by as.length
decreasing_by
  simp only [List.length_drop]
  omega

end RuleVote
