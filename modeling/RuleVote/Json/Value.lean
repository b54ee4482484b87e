import RuleVote.Number.Text

/-!
# JSON values and their text

Objects keep their fields in the order in which they were built, which is
the order they are written in. A single precision number is written with
the fewest digits that read back; one that is not finite has no JSON text
and is written as `null`. `compact` uses no blanks at all, `pretty` puts
every item on a line of its own, two blanks deeper than its container.
-/

namespace RuleVote

/-- A JSON value to be written. -/
inductive Json where
  | null
  | bool (value : Bool)
  | integer (value : Int)
  /-- A single precision number. -/
  | single (value : Float32)
  /-- A decimal number, written out without an exponent. -/
  | decimal (negative : Bool) (value : Decimal)
  | string (value : String)
  | array (items : List Json)
  | object (fields : List (String × Json))

namespace Json

/-- A natural number. -/
def ofNat (n : Nat) : Json := .integer n

/-- A value that may be absent, `null` standing for its absence. -/
def ofOption {α : Type} (f : α → Json) : Option α → Json
  | some a => f a
  | none => .null

/-- A list of values. -/
def ofList {α : Type} (f : α → Json) (as : List α) : Json := .array (as.map f)

/-- The hexadecimal digit with a value below sixteen. -/
def hexDigit (n : Nat) : Char := Char.ofNat (if n < 10 then 48 + n else 87 + n)

/-- A character inside a quoted JSON string. -/
def escapeChar (c : Char) : List Char :=
  if c = '"' then ['\\', '"']
  else if c = '\\' then ['\\', '\\']
  else if c = '\n' then ['\\', 'n']
  else if c = '\r' then ['\\', 'r']
  else if c = '\t' then ['\\', 't']
  else if c.toNat = 8 then ['\\', 'b']
  else if c.toNat = 12 then ['\\', 'f']
  else if c.toNat < 32 then
    ['\\', 'u', '0', '0', hexDigit (c.toNat / 16), hexDigit (c.toNat % 16)]
  else [c]

/-- A quoted JSON string. -/
def quote (s : String) : List Char :=
  '"' :: s.toList.flatMap escapeChar ++ ['"']

/-- The text of a value that is not a container. -/
def scalarText : Json → List Char
  | .null => "null".toList
  | .bool b => if b then "true".toList else "false".toList
  | .integer i => intText i
  | .single x => ((jsonSingleText? x).getD "null").toList
  | .decimal negative d =>
    if negative ∧ d.digits ≠ 0 then '-' :: d.positional else d.positional
  | .string s => quote s
  | .array _ => []
  | .object _ => []

mutual

/-- The text of a value without blanks. -/
def compactChars : Json → List Char
  | .array items => '[' :: compactItems items ++ [']']
  | .object fields => '\x7b' :: compactFields fields ++ ['\x7d']
  | j => j.scalarText

/-- The items of an array without blanks. -/
def compactItems : List Json → List Char
  | [] => []
  | [item] => compactChars item
  | item :: items => compactChars item ++ ',' :: compactItems items

/-- The fields of an object without blanks. -/
def compactFields : List (String × Json) → List Char
  | [] => []
  | [(key, value)] => quote key ++ ':' :: compactChars value
  | (key, value) :: fields => quote key ++ ':' :: compactChars value ++ ',' :: compactFields fields

end

/-- A line break followed by the indentation of a level. -/
def lineBreak (level : Nat) : List Char := '\n' :: List.replicate (2 * level) ' '

mutual

/-- The text of a value at an indentation level. -/
def prettyChars (level : Nat) : Json → List Char
  | .array [] => ['[', ']']
  | .array items =>
    '[' :: lineBreak (level + 1) ++ prettyItems (level + 1) items ++ lineBreak level ++ [']']
  | .object [] => ['\x7b', '\x7d']
  | .object fields =>
    '\x7b' :: lineBreak (level + 1) ++ prettyFields (level + 1) fields ++ lineBreak level
      ++ ['\x7d']
  | j => j.scalarText

/-- The items of an array, one on a line. -/
def prettyItems (level : Nat) : List Json → List Char
  | [] => []
  | [item] => prettyChars level item
  | item :: items => prettyChars level item ++ ',' :: lineBreak level ++ prettyItems level items

/-- The fields of an object, one on a line. -/
def prettyFields (level : Nat) : List (String × Json) → List Char
  | [] => []
  | [(key, value)] => quote key ++ ':' :: ' ' :: prettyChars level value
  | (key, value) :: fields =>
    quote key ++ ':' :: ' ' :: prettyChars level value ++ ',' :: lineBreak level
      ++ prettyFields level fields

end

/-- The text of a value without blanks. -/
def compact (j : Json) : String := String.ofList j.compactChars

/-- The text of a value with one item on a line. -/
def pretty (j : Json) : String := String.ofList (j.prettyChars 0)

end Json

end RuleVote
