import RuleVote.Number.Decimal

/-!
# Decimals read step by step

`Decimal.toDouble` is the double precision number nearest to a decimal. A
reader of JSON text is content with less: it rounds the digits, rounds the
power of ten, and then their product or quotient, so what it gets may be a
few units in the last place away. Digits that 64 bits no longer hold are left
out.
-/

namespace RuleVote

namespace BinaryFormat

variable (f : BinaryFormat)

/-- The natural number of the format that is nearest to `n`, a tie to even. -/
def nearestNat (n : Nat) : Nat :=
  let unit := Nat.pow 2 (Nat.log2 n - f.fractionBits)
  roundHalfEven n unit * unit

/-- Finite magnitude bits as a quotient of naturals. -/
def quotient (bits : Nat) : Nat × Nat :=
  match f.decode bits with
  | .finite _ significand exponent =>
    if 0 ≤ exponent then (significand * Nat.pow 2 exponent.toNat, 1)
    else (significand, Nat.pow 2 (-exponent).toNat)
  | _ => (0, 1)

/-- The magnitude bits of a number divided by a power of ten of the format. -/
def divideByPower (num den power : Nat) : Nat :=
  f.roundQuotient num (den * f.nearestNat (Nat.pow 10 power))

end BinaryFormat

namespace Decimal

open BinaryFormat

/-- The largest power of ten that is finite in double precision. -/
def maxPower : Nat := 308

/-- The magnitude bits of a decimal read step by step. -/
def stepwise (d : Decimal) : Nat :=
  let n := double.nearestNat d.digits
  let power := d.exponent.natAbs
  if 0 ≤ d.exponent then
    if n = 0 then 0
    else if power ≤ maxPower then double.roundQuotient (n * double.nearestNat (Nat.pow 10 power)) 1
    else double.infinityBits
  else if power ≤ maxPower then double.divideByPower n 1 power
  else if power ≤ 2 * maxPower then
    let (num, den) := double.quotient (double.divideByPower n 1 maxPower)
    double.divideByPower num den (power - maxPower)
  -- two divisions by the largest power leave nothing of 64 bits
  else 0

end Decimal

end RuleVote
