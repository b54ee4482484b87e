import RuleVote.Number.Single
import RuleVote.Random.KeyStream

/-!
# Draws

Uniform choices from a key stream. A draw that has to be rejected is
repeated; each repetition is needed with a chance of at most one half, and
after `maxRedraws` of them a value in range is given without a further
draw. A shuffle swaps each position, from the last down to the second, with
one that is not behind it.
-/

namespace RuleVote

namespace KeyStream

/-- How often a draw is repeated at most. -/
def maxRedraws : Nat := 512

/-- A natural number below `n`, from draws of `bits` bits: the high half of
the product with `n`, unless its low half is above the last multiple. -/
def below (bits : Nat) (draw : KeyStream → Nat × KeyStream) (n : Nat) :
    Nat → KeyStream → Nat × KeyStream
  | 0, s => (0, s)
  | redraws + 1, s =>
    let (v, s) := draw s
    -- the largest product of `n` with a power of two that fits, less one
    let zone := n * Nat.pow 2 (bits - 1 - Nat.log2 n) - 1
    if v * n % Nat.pow 2 bits ≤ zone then (v * n / Nat.pow 2 bits, s) else below bits draw n redraws s

/-- A position below `n`, from single words. -/
def position (s : KeyStream) (n : Nat) : Nat × KeyStream := below 32 nextNat32 n maxRedraws s

/-- A class below `n`, from pairs of words. -/
def choice (s : KeyStream) (n : Nat) : Nat × KeyStream := below 64 nextNat64 n maxRedraws s

/-- A number at least zero and below one with 24 random bits. -/
def unit (s : KeyStream) : Float32 × KeyStream :=
  let (word, s) := s.nextNat32
  (ofCount (word / Nat.pow 2 8) * powerSingle 0.5 24, s)

/-- A number at least zero and below one with 23 random bits. -/
def fraction (s : KeyStream) : Float32 × KeyStream :=
  let (word, s) := s.nextNat32
  (singleOfBits (0x3F800000 + word / Nat.pow 2 9) - 1, s)

/-- A number at least `low` and below `high`. -/
def betweenLoop (low high : Float32) : Nat → KeyStream → Float32 × KeyStream
  | 0, s => (low, s)
  | redraws + 1, s =>
    let (v, s) := s.fraction
    let x := v * (high - low) + low
    if high ≤ x then betweenLoop low high redraws s else (x, s)

/-- A number at least `low` and below `high`. -/
def between (s : KeyStream) (low high : Float32) : Float32 × KeyStream :=
  betweenLoop low high maxRedraws s

/-- The largest number that `fraction` gives. -/
def largestFraction : Float32 := 1 - powerSingle 0.5 23

/-- The largest scale, from `scale` downwards, that does not carry the
largest fraction above `high`. -/
def fitScale (low high : Float32) : Nat → Float32 → Float32
  | 0, scale => scale
  | steps + 1, scale =>
    if high < scale * largestFraction + low then
      fitScale low high steps (Float32.ofBits (scale.toBits - 1))
    else scale

/-- The scale with which fractions fill an interval, both ends included. -/
def inclusiveScale (low high : Float32) : Float32 :=
  fitScale low high maxRedraws ((high - low) / largestFraction)

/-- A number of an interval, given the scale that belongs to it. -/
def within (s : KeyStream) (low scale : Float32) : Float32 × KeyStream :=
  let (v, s) := s.fraction
  (v * scale + low, s)

/-- Several draws in order. -/
def several {α : Type} (draw : KeyStream → α × KeyStream) :
    Nat → KeyStream → List α × KeyStream
  | 0, s => ([], s)
  | n + 1, s =>
    let (a, s) := draw s
    let (as, s) := several draw n s
    (a :: as, s)

/-- Swaps the positions from `i` down to the second, each with a drawn one
that is not behind it. -/
def shuffleFrom {α : Type} : Nat → Array α → KeyStream → Array α × KeyStream
  | 0, xs, s => (xs, s)
  | i + 1, xs, s =>
    let (j, s) := s.position (i + 2)
    shuffleFrom i (xs.swapIfInBounds (i + 1) j) s

/-- A list in random order. -/
def shuffle {α : Type} (s : KeyStream) (xs : List α) : List α × KeyStream :=
  let (ys, s) := shuffleFrom (xs.length - 1) xs.toArray s
  (ys.toList, s)

end KeyStream

end RuleVote
