import RuleVote.Number.Decimal

/-!
# Tokens of rule text

Every reader takes a token off the front of a text and gives the token with
the text that is left. Words are runs of letters, digits and underscores
that do not start with a digit; words, keywords and numbers end where no
such character follows. Between tokens stand gaps: spaces, tabs, carriage
returns and line feeds, and no other blanks.

A reader that can fail in several places answers with the text at which it
gave up (`Parsed`), because that text is shown to the author of the rule.
-/

namespace RuleVote

/-- What a reader found with the text after it, or the text at which it
gave up. -/
abbrev Parsed (α : Type) := Except (List Char) (α × List Char)

namespace Token

/-- Characters that start a word. -/
def startsWord (c : Char) : Bool := c.isAlpha || c == '_'

/-- Characters inside a word. -/
def inWord (c : Char) : Bool := c.isAlphanum || c == '_'

/-- Characters that may stand between tokens. -/
def isGap (c : Char) : Bool := c == ' ' || c == '\t' || c == '\r' || c == '\n'

/-- The text without leading gaps. -/
def skipGaps (cs : List Char) : List Char := cs.dropWhile isGap

/-- Whether a word may end in front of this text. -/
def atWordEnd : List Char → Bool
  | [] => true
  | c :: _ => !inWord c

/-- Words with a meaning of their own, which name no feature. -/
def keywords : List String :=
  ["and", "or", "not", "if", "elif", "else", "return", "True", "False"]

/-- The text after a given start. -/
def takeExactly : List Char → List Char → Option (List Char)
  | [], rest => some rest
  | _ :: _, [] => none
  | w :: ws, c :: cs => if w = c then takeExactly ws cs else none

/-- The text after a keyword. -/
def takeKeyword? (word : String) (cs : List Char) : Option (List Char) :=
  (takeExactly word.toList cs).filter atWordEnd

/-- Whether a text starts with a keyword. -/
def startsWith (word : String) (cs : List Char) : Bool := (takeKeyword? word cs).isSome

/-- A word, keyword or not. -/
def takeWord? : List Char → Option (String × List Char)
  | [] => none
  | c :: cs =>
    if startsWord c then
      some (String.ofList (c :: cs.takeWhile inWord), cs.dropWhile inWord)
    else none

/-- A word that is no keyword. -/
def takeName? (cs : List Char) : Option (String × List Char) :=
  (takeWord? cs).filter fun (word, _) => !keywords.contains word

/-- Whether a name can stand in rule text by itself. -/
def isIdentifier (name : String) : Bool :=
  match name.toList with
  | [] => false
  | c :: cs => startsWord c && cs.all inWord && !keywords.contains name

/-- A run of digits, possibly empty. -/
def takeDigits (cs : List Char) : List Char × List Char :=
  (cs.takeWhile Char.isDigit, cs.dropWhile Char.isDigit)

/-- The digits of a number before and after its point. Digits may be
missing on one side of the point, but not on both. -/
def takeMantissa? (cs : List Char) : Option (List Char × List Char × List Char) :=
  match takeDigits cs with
  | ([], '.' :: rest) =>
    match takeDigits rest with
    | ([], _) => none
    | (fraction, rest) => some ([], fraction, rest)
  | ([], _) => none
  | (whole, '.' :: rest) =>
    let (fraction, rest) := takeDigits rest
    some (whole, fraction, rest)
  | (whole, rest) => some (whole, [], rest)

/-- The digits of an exponent after its mark, with the sign. -/
def takeSignedDigits? (cs : List Char) : Option (Int × List Char) :=
  let digits (negative : Bool) (cs : List Char) :=
    match takeDigits cs with
    | ([], _) => none
    | (ds, rest) =>
      some (if negative then -(digitsValue ds : Int) else (digitsValue ds : Int), rest)
  match cs with
  | '-' :: rest => digits true rest
  | '+' :: rest => digits false rest
  | rest => digits false rest

/-- An exponent, zero where there is none. -/
def takeExponent (cs : List Char) : Int × List Char :=
  match cs with
  | 'e' :: rest | 'E' :: rest => (takeSignedDigits? rest).getD (0, cs)
  | _ => (0, cs)

/-- An unsigned decimal number. -/
def takeDecimal? (cs : List Char) : Option (Decimal × List Char) := do
  let (whole, fraction, rest) ← takeMantissa? cs
  let (exponent, rest) := takeExponent rest
  if atWordEnd rest then
    some (⟨digitsValue (whole ++ fraction), exponent - fraction.length⟩, rest)
  else none

/-- A number; one beyond the finite numbers is none. -/
def takeNumber? (cs : List Char) : Option (Float32 × List Char) := do
  let (d, rest) ← takeDecimal? cs
  if d.roundTo .single < BinaryFormat.single.infinityBits then some (d.toSingle false, rest)
  else none

/-- A character that a backslash may stand before. -/
def isEscapable (c : Char) : Bool := c == '\\' || c == '"' || c == '\''

/-- The characters up to the closing quote, which is dropped. -/
def takeQuoted? (quote : Char) : List Char → Option (List Char × List Char)
  | [] => none
  | '\\' :: c :: rest =>
    if isEscapable c then (takeQuoted? quote rest).map fun (s, rest) => (c :: s, rest) else none
  | c :: rest =>
    if c = '\\' then none
    else if c = quote then some ([], rest)
    else (takeQuoted? quote rest).map fun (s, rest) => (c :: s, rest)

/-- A quoted name, which is not empty. -/
def takeString? : List Char → Option (String × List Char)
  | [] => none
  | c :: rest =>
    if c = '"' ∨ c = '\'' then do
      let (s, rest) ← takeQuoted? c rest
      if s.isEmpty then none else some (String.ofList s, rest)
    else none

/-- A given character after gaps. -/
def takeMark? (mark : Char) (cs : List Char) : Option (List Char) :=
  match skipGaps cs with
  | [] => none
  | c :: rest => if c = mark then some rest else none

/-- A quoted feature name in the brackets of a table. -/
def takeLookup? (cs : List Char) : Option (String × List Char) := do
  let (_, rest) ← takeWord? cs
  let rest ← takeMark? '[' rest
  let (name, rest) ← takeString? (skipGaps rest)
  let rest ← takeMark? ']' rest
  return (name, rest)

/-- Takes items off the front of a text as long as `item` finds one and
gets ahead. -/
def many {α : Type} (item : List Char → Option (α × List Char)) (cs : List Char) :
    List α × List Char :=
  match item cs with
  | none => ([], cs)
  | some (a, rest) =>
    if rest.length < cs.length then
      let (as, rest) := many item rest
      (a :: as, rest)
    else ([], cs)
termination_by cs.length

end Token

end RuleVote
