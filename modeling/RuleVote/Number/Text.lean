import RuleVote.Number.Decimal

/-!
# The text of a number

Two layouts are in use. `positional` is the one of rule text and messages:
no exponent, and a point only before a fraction. `interchange` is the one of
JSON documents: a point or an exponent always shows that the number is not
an integer, and the exponent appears where the positional text would be
long. Both start from the fewest digits that read back.
-/

namespace RuleVote

/-- `count` zeros. -/
def zeros (count : Nat) : List Char := List.replicate count '0'

/-- A decimal written out in full, without an exponent: digits, then zeros
up to the point, or zeros after the point and then digits. -/
def Decimal.positional (d : Decimal) : List Char :=
  let ds := decimalDigits d.digits
  if 0 ≤ d.exponent then ds ++ zeros d.exponent.toNat
  else
    let places := (-d.exponent).toNat
    if places < ds.length then
      ds.take (ds.length - places) ++ '.' :: ds.drop (ds.length - places)
    else '0' :: '.' :: zeros (places - ds.length) ++ ds

/-- The text of a number in rule text and in messages. -/
def positionalText (x : Float32) : String :=
  match singleValue x with
  | .nan => "NaN"
  | .infinite negative => if negative then "-inf" else "inf"
  | .finite negative _ _ =>
    let digits := (shortestSingle .up x).positional
    String.ofList (if negative then '-' :: digits else digits)

/-- The decisions of an interchange layout: which positions of the point are
written out, and which way two equally near digit strings are settled. -/
structure InterchangeLayout where
  /-- The largest number of digits left of the point that is written out. -/
  maxPoint : Int
  /-- Numbers whose point lies this many places or more left of the first
  digit have an exponent. -/
  minPoint : Int
  /-- How an exact tie is settled. -/
  tie : Tie
deriving Repr

/-- JSON text of single precision numbers: `1e-7` is the largest power of
ten below one with an exponent, `1e13` the smallest above it. -/
def jsonSingleLayout : InterchangeLayout := ⟨13, -6, .toEven⟩

/-- The text of a natural number. -/
def natText (n : Nat) : List Char := decimalDigits n

/-- The text of an integer. -/
def intText (i : Int) : List Char :=
  match i with
  | .ofNat n => natText n
  | .negSucc n => '-' :: natText (n + 1)

/-- A decimal in the given interchange layout. -/
def InterchangeLayout.write (l : InterchangeLayout) (d : Decimal) : List Char :=
  let ds := decimalDigits d.digits
  let point : Int := ds.length + d.exponent
  if d.digits = 0 then ['0', '.', '0']
  else if 0 ≤ d.exponent ∧ point ≤ l.maxPoint then
    d.positional ++ ['.', '0']
  else if l.minPoint < point ∧ point ≤ l.maxPoint then d.positional
  else
    let power := intText (point - 1)
    match ds with
    | [] => []
    | [c] => c :: 'e' :: power
    | c :: rest => c :: '.' :: rest ++ 'e' :: power

/-- JSON text of a single precision number, nothing for one that is not
finite. -/
def jsonSingleText? (x : Float32) : Option String :=
  match singleValue x with
  | .finite negative _ _ =>
    let digits := jsonSingleLayout.write (shortestSingle jsonSingleLayout.tie x)
    some (String.ofList (if negative then '-' :: digits else digits))
  | _ => none

/-- A natural number below `bound`, with a plus sign or without. -/
def natBelow? (bound : Nat) (s : String) : Option Nat :=
  let ds := match s.toList with
    | '+' :: rest => rest
    | cs => cs
  if ds.isEmpty ∨ !ds.all Char.isDigit then none
  else if digitsValue ds < bound then some (digitsValue ds) else none

end RuleVote
