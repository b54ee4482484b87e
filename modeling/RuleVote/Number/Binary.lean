/-!
# Binary interchange formats, exactly

A `BinaryFormat` is the two sizes of an interchange format; `single` and
`double` are the two this library uses. Rounding goes from an exact
quotient of naturals to a bit pattern (`roundQuotient`: to nearest, ties to
even), and `decode` goes from a bit pattern to the exact value. Everything
is natural number arithmetic, so a statement about the text of a number
never has to look inside a floating point operation.
-/

namespace RuleVote

/-- A binary interchange format: how many bits hold the fraction and how
many the exponent. -/
structure BinaryFormat where
  /-- Bits of the fraction, the implicit leading bit not counted. -/
  fractionBits : Nat
  /-- Bits of the biased exponent. -/
  exponentBits : Nat
deriving DecidableEq, Repr

/-- What a bit pattern stands for. -/
inductive BinaryValue where
  /-- Not a number. -/
  | nan
  /-- An infinity; `negative` is its sign. -/
  | infinite (negative : Bool)
  /-- The number `significand · 2 ^ exponent`, negated when `negative`. -/
  | finite (negative : Bool) (significand : Nat) (exponent : Int)
deriving DecidableEq, Repr

/-- The quotient rounded to the nearest natural, a tie to the even one. -/
def roundHalfEven (num den : Nat) : Nat :=
  let quotient := num / den
  let rest := num % den
  if 2 * rest < den then quotient
  else if den < 2 * rest then quotient + 1
  else if quotient % 2 = 0 then quotient else quotient + 1

namespace BinaryFormat

/-- The 32 bit format. -/
def single : BinaryFormat := ⟨23, 8⟩

/-- The 64 bit format. -/
def double : BinaryFormat := ⟨52, 11⟩

variable (f : BinaryFormat)

/-- The exponent of the last place of the smallest numbers. -/
def minExponent : Int := 2 - (Nat.pow 2 (f.exponentBits - 1) : Nat) - f.fractionBits

/-- The pattern of positive infinity, above those of all finite numbers. -/
def infinityBits : Nat := (Nat.pow 2 f.exponentBits - 1) * Nat.pow 2 f.fractionBits

/-- The weight of the sign bit. -/
def signWeight : Nat := Nat.pow 2 (f.exponentBits + f.fractionBits)

/-- The pattern with the given sign and magnitude. -/
def withSign (negative : Bool) (magnitude : Nat) : Nat :=
  if negative then f.signWeight + magnitude else magnitude

/-- The exact value of a bit pattern. -/
def decode (bits : Nat) : BinaryValue :=
  let negative := f.signWeight ≤ bits
  let magnitude := bits % f.signWeight
  let biased := magnitude / Nat.pow 2 f.fractionBits
  let fraction := magnitude % Nat.pow 2 f.fractionBits
  if biased = Nat.pow 2 f.exponentBits - 1 then
    if fraction = 0 then .infinite negative else .nan
  else if biased = 0 then .finite negative fraction f.minExponent
  else .finite negative (Nat.pow 2 f.fractionBits + fraction) (f.minExponent + (biased - 1 : Nat))

/-- The exponent of the leading bit of a positive quotient: the quotient is
at least `2` to this power and below the next one. -/
def leadingExponent (num den : Nat) : Int :=
  let guess : Int := (Nat.log2 num : Int) - Nat.log2 den
  let reached :=
    if 0 ≤ guess then den * Nat.pow 2 guess.toNat ≤ num else den ≤ num * Nat.pow 2 (-guess).toNat
  if reached then guess else guess - 1

/-- The magnitude bits of the number nearest to `num / den`, ties to even.
The two parts of the pattern are added, so a significand that rounds up to
the next power of two carries into the exponent by itself, and what reaches
past the largest number is infinite. -/
def roundQuotient (num den : Nat) : Nat :=
  if num = 0 then 0
  else
    let unit := max (leadingExponent num den - f.fractionBits) f.minExponent
    let significand :=
      if 0 ≤ unit then roundHalfEven num (den * Nat.pow 2 unit.toNat)
      else roundHalfEven (num * Nat.pow 2 (-unit).toNat) den
    min f.infinityBits ((unit - f.minExponent).toNat * Nat.pow 2 f.fractionBits + significand)

/-- The magnitude bits of `significand · 2 ^ exponent` in this format. -/
def roundBinary (significand : Nat) (exponent : Int) : Nat :=
  if 0 ≤ exponent then f.roundQuotient (significand * Nat.pow 2 exponent.toNat) 1
  else f.roundQuotient significand (Nat.pow 2 (-exponent).toNat)

/-- The quiet pattern of a value that is not a number. -/
def nanBits : Nat := f.infinityBits + Nat.pow 2 (f.fractionBits - 1)

/-- A pattern of the format `g`, rounded into the format `f`. -/
def convert (f g : BinaryFormat) (bits : Nat) : Nat :=
  match g.decode bits with
  | .nan => f.nanBits
  | .infinite negative => f.withSign negative f.infinityBits
  | .finite negative significand exponent =>
    f.withSign negative (f.roundBinary significand exponent)

end BinaryFormat

/-- The value of a single precision number. -/
def singleValue (x : Float32) : BinaryValue := BinaryFormat.single.decode x.toBits.toNat

/-- The single precision number with the given pattern. -/
def singleOfBits (bits : Nat) : Float32 := Float32.ofBits (UInt32.ofNat bits)

/-- The double precision number with the given pattern. -/
def doubleOfBits (bits : Nat) : Float := Float.ofBits (UInt64.ofNat bits)

/-- A single precision number widened, which is exact. -/
def widen (x : Float32) : Float :=
  doubleOfBits (BinaryFormat.double.convert BinaryFormat.single x.toBits.toNat)

/-- A double precision number rounded to single precision. -/
def narrow (x : Float) : Float32 :=
  singleOfBits (BinaryFormat.single.convert BinaryFormat.double x.toBits.toNat)

end RuleVote
