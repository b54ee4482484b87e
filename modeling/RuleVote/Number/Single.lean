import RuleVote.Number.Text

/-!
# Single precision arithmetic

Sums run from the left and start at negative zero, so the sum of one number
is that number, sign of zero included. `larger` ignores a value that is not
a number, `clamp` keeps it, and `power` squares repeatedly.
-/

namespace RuleVote

/-- A count as a single precision number. -/
def ofCount (n : Nat) : Float32 := n.toUInt64.toFloat32

/-- Positive infinity. -/
def infinity : Float32 := singleOfBits BinaryFormat.single.infinityBits

/-- Negative infinity. -/
def negativeInfinity : Float32 :=
  singleOfBits (BinaryFormat.single.withSign true BinaryFormat.single.infinityBits)

/-- The canonical value that is not a number. -/
def notANumber : Float32 := singleOfBits BinaryFormat.single.nanBits

/-- Negative zero, where sums start. -/
def negativeZero : Float32 := singleOfBits (BinaryFormat.single.withSign true 0)

/-- The smallest positive normal number. -/
def smallestNormal : Float32 := singleOfBits (Nat.pow 2 BinaryFormat.single.fractionBits)

/-- The sum of a list, from the left. -/
def sumSingle (xs : List Float32) : Float32 := xs.foldl (· + ·) negativeZero

/-- The sum of the products of two lists, as far as both reach. -/
def dotSingle (xs ys : List Float32) : Float32 := sumSingle (List.zipWith (· * ·) xs ys)

/-- The larger of two numbers; one that is not a number gives way. -/
def larger (a b : Float32) : Float32 :=
  if a.isNaN then b else if a < b then b else a

/-- The largest number of a list, negative infinity if there is none. -/
def largest (xs : List Float32) : Float32 := xs.foldl larger negativeInfinity

/-- The number moved into the interval from `low` to `high`. -/
def clampSingle (low high x : Float32) : Float32 :=
  if x < low then low else if high < x then high else x

/-- `base ^ n` by repeated squaring: `fuel` bounds the number of squarings
and is never short, because each one halves `n`. -/
def powerLoop : Nat → Float32 → Nat → Float32 → Float32
  | 0, _, _, acc => acc
  | fuel + 1, base, n, acc =>
    let acc := if n % 2 = 1 then acc * base else acc
    if n / 2 = 0 then acc else powerLoop fuel (base * base) (n / 2) acc

/-- The `n`-th power. -/
def powerSingle (base : Float32) (n : Nat) : Float32 := powerLoop (n + 1) base n 1

end RuleVote
