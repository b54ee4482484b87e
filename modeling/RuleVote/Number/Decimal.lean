import RuleVote.Number.Binary

/-!
# Decimals

A `Decimal` is a natural number of units of a power of ten. `toSingle` and
`toDouble` read one as the nearest binary number; `shortest` goes back, to
the fewest digits that read as the same number. It walks the decimal grids
from the coarsest to the finer ones and takes the first grid on which one of
the two neighbours of the value reads back; of two such neighbours the
nearer, and an exact tie falls as `Tie` says.
-/

namespace RuleVote

/-- The number `digits · 10 ^ exponent`. -/
structure Decimal where
  /-- The significant digits, read as one natural number. -/
  digits : Nat
  /-- The power of ten that one unit of `digits` stands for. -/
  exponent : Int
deriving DecidableEq, Repr

/-- Which of two equally near decimals is chosen. -/
inductive Tie where
  /-- The one whose last digit is even. -/
  | toEven
  /-- The larger one. -/
  | up
deriving DecidableEq, Repr

/-- The decimal digits of a natural number, most significant first. -/
def decimalDigits (n : Nat) : List Char := Nat.toDigits 10 n

/-- The natural number a list of decimal digits spells. -/
def digitsValue (ds : List Char) : Nat :=
  ds.foldl (fun n d => 10 * n + (d.toNat - 48)) 0

/-- Removes up to `count` trailing zeros. -/
def dropTrailingZeros : Nat → Nat → Nat × Nat
  | 0, n => (n, 0)
  | count + 1, n =>
    if n % 10 = 0 then
      let (m, dropped) := dropTrailingZeros count (n / 10)
      (m, dropped + 1)
    else (n, 0)

namespace Decimal

/-- The number zero. -/
def zero : Decimal := ⟨0, 0⟩

/-- The decimal as a quotient of naturals. -/
def quotient (d : Decimal) : Nat × Nat :=
  if 0 ≤ d.exponent then (d.digits * Nat.pow 10 d.exponent.toNat, 1)
  else (d.digits, Nat.pow 10 (-d.exponent).toNat)

/-- A power of ten that no finite number of either format reaches, and
whose inverse is below all positive ones. -/
def reach : Int := 400

/-- The magnitude bits of the nearest number. A decimal whose leading digit
is out of `reach` is settled by its size, so an exponent of any length costs
nothing. -/
def roundTo (f : BinaryFormat) (d : Decimal) : Nat :=
  let leading := d.exponent + (decimalDigits d.digits).length
  if d.digits = 0 then 0
  -- beyond these bounds the quotient is never formed
  else if reach < leading then f.infinityBits
  else if leading < -reach then 0
  else f.roundQuotient d.quotient.1 d.quotient.2

/-- The nearest single precision number. -/
def toSingle (negative : Bool) (d : Decimal) : Float32 :=
  singleOfBits (BinaryFormat.single.withSign negative (d.roundTo .single))

/-- The nearest double precision number. -/
def toDouble (negative : Bool) (d : Decimal) : Float :=
  doubleOfBits (BinaryFormat.double.withSign negative (d.roundTo .double))

/-- The same number with no trailing zero in its digits. -/
def normalize (d : Decimal) : Decimal :=
  if d.digits = 0 then zero
  else
    let (digits, dropped) := dropTrailingZeros (decimalDigits d.digits).length d.digits
    ⟨digits, d.exponent + dropped⟩

/-- The exact decimal expansion of `significand · 2 ^ exponent`. -/
def ofBinary (significand : Nat) (exponent : Int) : Decimal :=
  if 0 ≤ exponent then ⟨significand * Nat.pow 2 exponent.toNat, 0⟩
  else ⟨significand * Nat.pow 5 (-exponent).toNat, exponent⟩

/-- A power of ten above the exact decimal `d`: the number of its digits
left of the point. -/
def ceilingExponent (d : Decimal) : Int := d.exponent + (decimalDigits d.digits).length

/-- The neighbours of `d` on the grid of multiples of `10 ^ unit`, the one
below (or equal) and the one above, and the order of their distances. -/
def neighbours (d : Decimal) (unit : Int) : Nat × Nat × Ordering :=
  let shift := d.exponent - unit
  let (num, den) :=
    if 0 ≤ shift then (d.digits * Nat.pow 10 shift.toNat, 1) else (d.digits, Nat.pow 10 (-shift).toNat)
  (num / den, num / den + 1, compare (2 * (num % den)) den)

/-- The neighbour on one grid that reads back as `bits`, if there is one. -/
def readsBack? (f : BinaryFormat) (tie : Tie) (exact : Decimal) (bits : Nat) (unit : Int) :
    Option Decimal :=
  let (below, above, order) := exact.neighbours unit
  let low : Decimal := ⟨below, unit⟩
  let high : Decimal := ⟨above, unit⟩
  match low.roundTo f == bits, high.roundTo f == bits with
  | true, true =>
    match order, tie with
    | .lt, _ => some low
    | .gt, _ => some high
    | .eq, .up => some high
    | .eq, .toEven => some (if below % 2 = 0 then low else high)
  | true, false => some low
  | false, true => some high
  | false, false => none

/-- The first grid with a neighbour that reads back, from the grid of
`10 ^ unit` on, each next grid ten times finer. -/
def firstGrid (f : BinaryFormat) (tie : Tie) (exact : Decimal) (bits : Nat) :
    Nat → Int → Decimal
  | 0, _ => exact
  | grids + 1, unit =>
    match exact.readsBack? f tie bits unit with
    | some d => d
    | none => firstGrid f tie exact bits grids (unit - 1)

/-- The fewest digits that read back as the number with magnitude `bits`,
which is `significand · 2 ^ exponent`. -/
def shortest (f : BinaryFormat) (tie : Tie) (bits significand : Nat) (exponent : Int) : Decimal :=
  if significand = 0 then zero
  else
    let exact := ofBinary significand exponent
    (firstGrid f tie exact bits 20 exact.ceilingExponent).normalize

end Decimal

/-- The fewest digits that read back as the magnitude of `x`; zero for a
value that is not finite. -/
def shortestSingle (tie : Tie) (x : Float32) : Decimal :=
  match singleValue x with
  | .finite _ significand exponent =>
    Decimal.shortest .single tie (x.toBits.toNat % BinaryFormat.single.signWeight)
      significand exponent
  | _ => .zero

end RuleVote
