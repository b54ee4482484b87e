import RuleVote.Toml.Number
import RuleVote.Toml.Table

/-!
# Reading TOML

A document is lines: comments, headers and keys with their values. A header
opens a section, which holds the keys up to the next header; the sections
are put into the tree one after the other. Any fault makes the whole text
unreadable.

Values recurse on a bound for the number of characters, which the length of
the text is.
-/

namespace RuleVote.Toml

/-- A table from the dotted keys in braces. -/
def braces? (pairs : List (List String × Document)) : Option Document :=
  (Entries.assignAll? [] pairs).map fun entries => (Node.table .defined entries).toDocument

mutual

/-- A value inside `depth` brackets. -/
def value? : Nat → Nat → List Char → Option (Document × List Char)
  | 0, _, _ => none
  | fuel + 1, depth, cs =>
    match cs with
    | '"' :: _ | '\'' :: _ => do
      let (content, rest) ← string? cs
      return (.text (some (String.ofList content)), rest)
    | '[' :: rest =>
      if maxNesting ≤ depth then none
      else do
        let (items, rest) ← items? fuel (depth + 1) rest
        return (.array .open items none, rest)
    | '\x7b' :: rest =>
      if maxNesting ≤ depth then none
      else do
        let (pairs, rest) ← match skipSpaces rest with
          | '\x7d' :: rest => some ([], rest)
          | rest => pairs? fuel (depth + 1) rest
        return (← braces? pairs, rest)
    | 't' :: 'r' :: 'u' :: 'e' :: rest => some (.bool true, rest)
    | 'f' :: 'a' :: 'l' :: 's' :: 'e' :: rest => some (.bool false, rest)
    | cs => numeral? cs

/-- The items of an array, a comma after the last of them allowed. -/
def items? : Nat → Nat → List Char → Option (List Document × List Char)
  | 0, _, _ => none
  | fuel + 1, depth, cs =>
    match skipGaps false cs with
    | ']' :: rest => some ([], rest)
    | cs => do
      let (item, rest) ← value? fuel depth cs
      match skipGaps false rest with
      | ']' :: rest => return ([item], rest)
      | ',' :: rest => do
        let (items, rest) ← items? fuel depth rest
        return (item :: items, rest)
      | _ => none

/-- The keys with their values in braces. -/
def pairs? : Nat → Nat → List Char → Option (List (List String × Document) × List Char)
  | 0, _, _ => none
  | fuel + 1, depth, cs => do
    let (key, rest) ← key? cs
    let (value, rest) ← value? fuel depth (skipSpaces (← after? '=' rest))
    match skipSpaces rest with
    | '\x7d' :: rest => return ([(key, value)], rest)
    | ',' :: rest => do
      let (pairs, rest) ← pairs? fuel depth rest
      return ((key, value) :: pairs, rest)
    | _ => none

end

/-- What opens a section. -/
inductive Header where
  /-- A table. -/
  | table (path : List String)
  /-- One more table of an array. -/
  | item (path : List String)

/-- A line of a document. -/
inductive Line where
  /-- A comment, or nothing at all. -/
  | blank
  /-- A header. -/
  | header (header : Header)
  /-- A key with its value. -/
  | pair (key : List String) (value : Document)

/-- A line, and what follows its end. A value may take several lines. -/
def line? (cs : List Char) : Option (Line × List Char) :=
  match skipSpaces cs with
  | [] => some (.blank, [])
  | '#' :: rest => do return (.blank, ← lineEnd? ('#' :: rest))
  | '[' :: '[' :: rest => do
    let (path, rest) ← key? rest
    return (.header (.item path), ← lineEnd? (← after? ']' (← after? ']' rest)))
  | '[' :: rest => do
    let (path, rest) ← key? rest
    return (.header (.table path), ← lineEnd? (← after? ']' rest))
  | cs =>
    match lineBreak? cs with
    | some rest => some (.blank, rest)
    | none => do
      let (key, rest) ← key? cs
      let rest := skipSpaces (← after? '=' rest)
      let (value, rest) ← value? (2 * rest.length + 1) 0 rest
      return (.pair key value, ← lineEnd? rest)

/-- The lines of a text. -/
def lines? : Nat → List Char → Option (List Line)
  | _, [] => some []
  | 0, _ => none
  | fuel + 1, cs => do
    let (line, rest) ← line? cs
    return line :: (← lines? fuel rest)

/-- A header with the keys below it. -/
structure Section where
  /-- The header. -/
  header : Header
  /-- The keys with their values. -/
  pairs : List (List String × Document)

/-- The keys before the first header, and the sections. -/
def sections : List Line → List (List String × Document) × List Section
  | [] => ([], [])
  | .blank :: lines => sections lines
  | .pair key value :: lines =>
    let (pairs, found) := sections lines
    ((key, value) :: pairs, found)
  | .header header :: lines =>
    let (pairs, found) := sections lines
    ([], ⟨header, pairs⟩ :: found)

/-- The document with one more section. -/
def addSection? (entries : Entries) (s : Section) : Option Entries := do
  match s.header with
  | .table path => entries.define? path.dropLast (← path.getLast?) s.pairs
  | .item path => entries.append? path.dropLast (← path.getLast?) s.pairs

/-- Reads a text. A mark of byte order before it is left out. -/
def read? (text : String) : Option Document := do
  let cs := match text.toList with
    | '\ufeff' :: rest => rest
    | cs => cs
  let (pairs, found) := sections (← lines? (cs.length + 1) cs)
  let root ← Entries.assignAll? [] pairs
  let entries ← found.foldlM addSection? root
  return (Node.table .defined entries).toDocument

end RuleVote.Toml
