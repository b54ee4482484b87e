import RuleVote.Json.Decoder
import RuleVote.Json.Value
import RuleVote.Random.Draw

/-!
# Universally unique identifiers

Thirty-two hexadecimal digits. New identifiers are drawn at random but for
two digits, which say that they are. Identifiers are written in five groups with hyphens
between them, in lower case; they are read in either case, with the hyphens
or without them, and with hyphens also in braces or after `urn:uuid:`.
-/

namespace RuleVote

/-- An identifier of 128 bits. -/
structure Uuid where
  /-- The hexadecimal digits. -/
  digits : List (Fin 16)
  /-- There are thirty-two of them. -/
  length_digits : digits.length = 32
deriving DecidableEq, Repr

namespace Uuid

/-- The identifier with the given digits, if they are as many as needed. -/
def ofDigits? (digits : List (Fin 16)) : Option Uuid :=
  if h : digits.length = 32 then some ⟨digits, h⟩ else none

/-- The last hexadecimal digit of a number. -/
def digitOf (n : Nat) : Fin 16 := ⟨n % 16, Nat.mod_lt n (by decide)⟩

/-- The digit that a character stands for. -/
def digit? (c : Char) : Option (Fin 16) :=
  let n := c.toNat
  if 48 ≤ n ∧ n ≤ 57 then some (digitOf (n - 48))
  else if 65 ≤ n ∧ n ≤ 70 then some (digitOf (n - 55))
  else if 97 ≤ n ∧ n ≤ 102 then some (digitOf (n - 87))
  else none

/-- The number of digits in each group. -/
def groups : List Nat := [8, 4, 4, 4, 12]

/-- Characters in groups with hyphens between them. -/
def hyphenate : List Nat → List Char → List Char
  | [], cs => cs
  | [_], cs => cs
  | n :: ns, cs => cs.take n ++ '-' :: hyphenate ns (cs.drop n)

/-- The characters of groups of the given sizes, if there are hyphens
between the groups. -/
def ungroup? : List Nat → List Char → Option (List Char)
  | [], cs => some cs
  | [_], cs => some cs
  | n :: ns, cs =>
    match cs.drop n with
    | '-' :: rest => (cs.take n ++ ·) <$> ungroup? ns rest
    | _ => none

/-- An identifier as text. -/
def text (u : Uuid) : String :=
  String.ofList (hyphenate groups (u.digits.map fun d => Json.hexDigit d.val))

/-- The identifier with the given digits, no hyphens among them. -/
def ofPlain? (cs : List Char) : Option Uuid := do ofDigits? (← cs.mapM digit?)

/-- The identifier with the given digits in groups. -/
def ofGrouped? (cs : List Char) : Option Uuid := do ofPlain? (← ungroup? groups cs)

/-- Reads an identifier. -/
def ofText? (s : String) : Option Uuid :=
  let cs := s.toList
  let length := cs.length
  if length = 32 then ofPlain? cs
  else if length = 36 then ofGrouped? cs
  else if length = 38 ∧ cs.head? = some '\x7b' ∧ cs.getLast? = some '\x7d' then
    ofGrouped? cs.dropLast.tail
  else if length = 45 ∧ "urn:uuid:".toList.isPrefixOf cs then ofGrouped? (cs.drop 9)
  else none

/-- The identifier with the digits of a number, of which two are set aside to
say that it was drawn at random. -/
def ofNumber (n : Nat) : Uuid where
  digits := List.ofFn fun i : Fin 32 =>
    let d := n / Nat.pow 16 i.val % 16
    digitOf (if i = 12 then 4 else if i = 16 then 8 + d % 4 else d)
  length_digits := List.length_ofFn

/-- A new identifier. -/
def draw (s : KeyStream) : Uuid × KeyStream :=
  let (low, s) := s.nextNat64
  let (high, s) := s.nextNat64
  (ofNumber (low + Nat.pow 2 64 * high), s)

end Uuid

/-- An identifier. -/
def Decoder.uuid : Decoder Uuid := validated string Uuid.ofText?

end RuleVote
