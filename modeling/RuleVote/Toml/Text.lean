import RuleVote.Json.Document
import RuleVote.Json.Reader

/-!
# Gaps, strings and keys of TOML

Every reader takes the characters to be read and gives what it read with
the characters after it, or nothing when the text is at fault. Control
characters other than the tab stand nowhere but in line breaks, and a
carriage return only before a line feed.

Recursion is on a bound for the number of characters, which the length of
the text is.
-/

namespace RuleVote.Toml

/-- A blank inside a line. -/
def isSpace (c : Char) : Bool := c == ' ' || c == '\t'

/-- The text without leading blanks. -/
def skipSpaces (cs : List Char) : List Char := cs.dropWhile isSpace

/-- A character that may stand in a comment or a string. -/
def isPlain (c : Char) : Bool := c == '\t' || (32 ≤ c.toNat && c.toNat ≠ 127)

/-- The text after a line break. -/
def lineBreak? : List Char → Option (List Char)
  | '\n' :: rest => some rest
  | '\r' :: '\n' :: rest => some rest
  | _ => none

/-- The text after the end of a line, blanks and a comment before it
allowed. -/
def lineEnd? (cs : List Char) : Option (List Char) :=
  let rest := match skipSpaces cs with
    | '#' :: rest => rest.dropWhile isPlain
    | rest => rest
  if rest.isEmpty then some [] else lineBreak? rest

/-- The text without leading blanks, comments and line breaks. `commenting`
holds inside a comment. -/
def skipGaps : Bool → List Char → List Char
  | _, [] => []
  | commenting, c :: rest =>
    if commenting ∧ isPlain c then skipGaps true rest
    else if isSpace c ∨ c = '\n' then skipGaps false rest
    else if c = '\r' ∧ rest.head? = some '\n' then skipGaps false rest
    else if c = '#' then skipGaps true rest
    else c :: rest

/-- The text without leading blanks and line breaks. -/
def skipBlankLines : List Char → List Char
  | [] => []
  | c :: rest =>
    if isSpace c ∨ c = '\n' then skipBlankLines rest
    else if c = '\r' ∧ rest.head? = some '\n' then skipBlankLines rest
    else c :: rest

/-! ## Strings -/

/-- The character with a code point of so many hexadecimal digits. -/
def codePoint? (count : Nat) (cs : List Char) : Option (Char × List Char) := do
  if cs.length < count then none
  let ds ← (cs.take count).mapM JsonText.hexValue?
  let n := ds.foldl (fun n d => n * 16 + d) 0
  if n.isValidChar then some (Char.ofNat n, cs.drop count) else none

/-- An escaped character, the backslash already read. -/
def escape? : List Char → Option (Char × List Char)
  | 'u' :: rest => codePoint? 4 rest
  | 'U' :: rest => codePoint? 8 rest
  | '/' :: _ => none
  | c :: rest => (JsonText.escapeLetter? c).map fun d => (d, rest)
  | [] => none

/-- A string on one line, the opening quote already read. -/
def basicString? : Nat → List Char → Option (List Char × List Char)
  | 0, _ => none
  | _ + 1, [] => none
  | _ + 1, '"' :: rest => some ([], rest)
  | fuel + 1, '\\' :: rest => do
    let (c, rest) ← escape? rest
    let (content, rest) ← basicString? fuel rest
    return (c :: content, rest)
  | fuel + 1, c :: rest => do
    if !isPlain c then none
    let (content, rest) ← basicString? fuel rest
    return (c :: content, rest)

/-- A string on one line without escapes, the opening quote already read. -/
def literalString? (cs : List Char) : Option (List Char × List Char) :=
  let isContent (c : Char) : Bool := isPlain c && c != '\''
  match cs.dropWhile isContent with
  | '\'' :: rest => some (cs.takeWhile isContent, rest)
  | _ => none

/-- A run of quotes in a string on several lines: up to two belong to the
content; of three to five the last three close the string. -/
def quoteRun (quote : Char) (cs : List Char) : Nat := (cs.takeWhile (· == quote)).length

/-- A string on several lines, the opening quotes already read. Only with
`escaping` a backslash starts an escape, or joins lines. -/
def longString? (quote : Char) (escaping : Bool) :
    Nat → List Char → Option (List Char × List Char)
  | 0, _ => none
  | _ + 1, [] => none
  | fuel + 1, c :: rest =>
    let push (read : List Char) (rest : List Char) : Option (List Char × List Char) := do
      let (content, rest) ← longString? quote escaping fuel rest
      return (read ++ content, rest)
    if c = quote then
      let run := quoteRun quote (c :: rest)
      if 5 < run then none
      else if 3 ≤ run then some (List.replicate (run - 3) quote, rest.drop (run - 1))
      else push (List.replicate run quote) (rest.drop (run - 1))
    else if escaping ∧ c = '\\' then
      match lineBreak? (skipSpaces rest) with
      | some rest => push [] (skipBlankLines rest)
      | none => do
        let (c, rest) ← escape? rest
        push [c] rest
    else
      match lineBreak? (c :: rest) with
      | some rest => push ['\n'] rest
      | none => if isPlain c then push [c] rest else none

/-- A string on several lines without the line break that opens it. -/
def longBody? (quote : Char) (escaping : Bool) (cs : List Char) :
    Option (List Char × List Char) :=
  let cs := (lineBreak? cs).getD cs
  longString? quote escaping (cs.length + 1) cs

/-- A string of any of the four forms. -/
def string? : List Char → Option (List Char × List Char)
  | '"' :: '"' :: '"' :: rest => longBody? '"' true rest
  | '"' :: rest => basicString? (rest.length + 1) rest
  | '\'' :: '\'' :: '\'' :: rest => longBody? '\'' false rest
  | '\'' :: rest => literalString? rest
  | _ => none

/-! ## Keys -/

/-- A character that needs no quotes in a key. -/
def isKeyChar (c : Char) : Bool := c.isAlpha || c.isDigit || c == '_' || c == '-'

/-- A key without dots. -/
def simpleKey? : List Char → Option (List Char × List Char)
  | '"' :: rest => basicString? (rest.length + 1) rest
  | '\'' :: rest => literalString? rest
  | cs =>
    let key := cs.takeWhile isKeyChar
    if key.isEmpty then none else some (key, cs.dropWhile isKeyChar)

/-- The parts of a key between its dots, with blanks around them. -/
def keyParts? : Nat → List Char → Option (List String × List Char)
  | 0, _ => none
  | fuel + 1, cs => do
    let (part, rest) ← simpleKey? (skipSpaces cs)
    match skipSpaces rest with
    | '.' :: rest => do
      let (parts, rest) ← keyParts? fuel rest
      return (String.ofList part :: parts, rest)
    | rest => return ([String.ofList part], rest)

/-- How deep keys, arrays and tables in braces may be nested. -/
def maxNesting : Nat := 79

/-- A key. -/
def key? (cs : List Char) : Option (List String × List Char) := do
  let (parts, rest) ← keyParts? (cs.length + 1) cs
  if maxNesting < parts.length then none else return (parts, rest)

end RuleVote.Toml
