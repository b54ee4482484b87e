import RuleVote.Json.Document
import RuleVote.Number.Stepwise

/-!
# Reading JSON text

`Document.ofText` turns JSON text into the tree of everything up to its
first fault, and `DocumentText.trailing` tells whether anything but blanks
follows. Numbers and strings are read by the rules of the format: no
leading zeros, at least one digit after a point or an exponent mark, no
control characters in strings, surrogates only in pairs.

The recursion is on a bound for the number of values: every value takes at
least one character, so the length of the text is enough.
-/

namespace RuleVote

namespace JsonText

/-- Blanks between the tokens. -/
def isGap (c : Char) : Bool := c == ' ' || c == '\n' || c == '\t' || c == '\r'

/-- The text without leading gaps. -/
def skipGaps (cs : List Char) : List Char := cs.dropWhile isGap

/-- What a scan found: a value with the text after it, or a fault. -/
inductive Scan (α : Type) where
  | found (value : α) (rest : List Char)
  | torn (wanted skipped : DocumentFault)

/-- The text after a given word, as far as it is there. -/
def word : List Char → List Char → Scan Unit
  | [], rest => .found () rest
  | _ :: _, [] => .torn .truncated .truncated
  | w :: ws, c :: cs => if w = c then word ws cs else .torn .malformed .malformed

/-- The value of a hexadecimal digit. -/
def hexValue? (c : Char) : Option Nat :=
  let n := c.toNat
  if 48 ≤ n ∧ n ≤ 57 then some (n - 48)
  else if 97 ≤ n ∧ n ≤ 102 then some (n - 87)
  else if 65 ≤ n ∧ n ≤ 70 then some (n - 55)
  else none

/-- Four hexadecimal digits. A text ends too early for them when less than four
bytes are left. -/
def hexFour (cs : List Char) : Scan Nat :=
  match cs with
  | a :: b :: c :: d :: rest =>
    match hexValue? a, hexValue? b, hexValue? c, hexValue? d with
    | some a, some b, some c, some d => .found (((a * 16 + b) * 16 + c) * 16 + d) rest
    | _, _, _, _ => .torn .malformed .malformed
  | cs =>
    let fault := if (String.ofList cs).utf8ByteSize < 4 then .truncated else .malformed
    .torn fault fault

/-- The character of an escape with one letter. -/
def escapeLetter? (c : Char) : Option Char :=
  match c with
  | '"' => some '"'
  | '\\' => some '\\'
  | '/' => some '/'
  | 'b' => some (Char.ofNat 8)
  | 'f' => some (Char.ofNat 12)
  | 'n' => some '\n'
  | 'r' => some '\r'
  | 't' => some '\t'
  | _ => none

/-- One character of a string, `none` for a surrogate that has no partner. -/
abbrev Spelled := Option Char

/-- An escape, the backslash already read. -/
def escape (cs : List Char) : Scan Spelled :=
  match cs with
  | [] => .torn .truncated .truncated
  | 'u' :: rest =>
    match hexFour rest with
    | .torn w s => .torn w s
    | .found n rest =>
      if 0xDC00 ≤ n ∧ n ≤ 0xDFFF then .found none rest
      else if 0xD800 ≤ n ∧ n ≤ 0xDBFF then
        -- the partner has to follow at once, as an escape of its own
        match rest with
        | [] => .torn .truncated .truncated
        | ['\\'] => .torn .truncated .truncated
        | '\\' :: 'u' :: more =>
          match hexFour more with
          | .torn w s => .torn w s
          | .found m more =>
            if 0xDC00 ≤ m ∧ m ≤ 0xDFFF then
              .found (some (Char.ofNat (0x10000 + (n - 0xD800) * 1024 + (m - 0xDC00)))) more
            else .found none more
        | _ => .found none rest
      else .found (some (Char.ofNat n)) rest
  | c :: rest =>
    match escapeLetter? c with
    | some d => .found (some d) rest
    | none => .torn .malformed .malformed

/-- A string, the opening quote already read. `spelled` is the part read so
far in reverse, `none` once it cannot be spelled; from then on a reader that
wants the string has failed, whatever follows. -/
def string : Nat → Option (List Char) → List Char → Scan (Option String)
  | 0, _, _ => .torn .truncated .truncated
  | fuel + 1, spelled, cs =>
    let wanted (fault : DocumentFault) := if spelled.isSome then fault else .malformed
    match cs with
    | [] => .torn (wanted .truncated) .truncated
    | '"' :: rest => .found (spelled.map fun s => String.ofList s.reverse) rest
    | '\\' :: rest =>
      match escape rest with
      | .torn w s => .torn (wanted w) s
      | .found none rest => string fuel none rest
      | .found (some c) rest => string fuel (spelled.map (c :: ·)) rest
    | c :: rest =>
      if c.toNat < 32 then .torn .malformed .malformed
      else string fuel (spelled.map (c :: ·)) rest

/-- The digits at the start of a text, and the rest. -/
def digits (cs : List Char) : List Char × List Char :=
  (cs.takeWhile Char.isDigit, cs.dropWhile Char.isDigit)

/-- The fault of a number that breaks off where a digit should stand. -/
def digitMissing {α : Type} : List Char → Scan α
  | [] => .torn .truncated .malformed
  | _ :: _ => .torn .malformed .malformed

/-- The digits before the point. -/
def integerPart (cs : List Char) : Scan (List Char) :=
  match digits cs with
  | ([], rest) => digitMissing rest
  | (['0'], rest) => .found ['0'] rest
  | ('0' :: _ :: _, _) => .torn .malformed .malformed
  | (ds, rest) => .found ds rest

/-- The digits after the point, none when there is no point. -/
def fractionPart (cs : List Char) : Scan (List Char) :=
  match cs with
  | '.' :: rest =>
    match digits rest with
    | ([], rest) => digitMissing rest
    | (ds, rest) => .found ds rest
  | _ => .found [] cs

/-- The exponent, `none` when there is no exponent mark. -/
def exponentPart (cs : List Char) : Scan (Option Int) :=
  let unsigned (negative : Bool) (cs : List Char) : Scan (Option Int) :=
    match digits cs with
    | ([], rest) => digitMissing rest
    | (ds, rest) =>
      .found (some (if negative then -(digitsValue ds : Int) else digitsValue ds)) rest
  match cs with
  | 'e' :: '-' :: rest | 'E' :: '-' :: rest => unsigned true rest
  | 'e' :: '+' :: rest | 'E' :: '+' :: rest => unsigned false rest
  | 'e' :: rest | 'E' :: rest => unsigned false rest
  | _ => .found none cs

/-- A number with the digits put behind it that 64 bits hold, up to the first
that does not fit, and how many digits are left. -/
def significand : Nat → List Char → Nat × Nat
  | n, [] => (n, 0)
  | n, c :: cs =>
    let m := 10 * n + (c.toNat - 48)
    if m < Nat.pow 2 64 then significand m cs else (n, (c :: cs).length)

/-- The decimal that digits, fraction and exponent stand for. Digits that are
left out before the point still count as places. -/
def decimal (whole fraction : List Char) (exponent : Int) : Decimal :=
  let (n, beyond) := significand 0 whole
  let (n, ignored) := significand n fraction
  ⟨n, exponent + beyond - (fraction.length - ignored : Nat)⟩

/-- The number that digits, fraction and exponent stand for. -/
def numeral (negative : Bool) (whole fraction : List Char) (exponent : Option Int) : Numeral :=
  let n := digitsValue whole
  let integral := fraction.isEmpty ∧ exponent.isNone
  if integral ∧ negative ∧ 0 < n ∧ n ≤ Nat.pow 2 63 then .integer (-n)
  else if integral ∧ ¬ negative ∧ n < Nat.pow 2 64 then .integer n
  else
    let bits := (decimal whole fraction (exponent.getD 0)).stepwise
    if bits < BinaryFormat.double.infinityBits then
      .real (doubleOfBits (BinaryFormat.double.withSign negative bits))
    else .excessive

/-- A number. -/
def number (cs : List Char) : Scan Numeral :=
  let (negative, cs) := match cs with
    | '-' :: rest => (true, rest)
    | _ => (false, cs)
  match integerPart cs with
  | .torn w s => .torn w s
  | .found whole cs =>
    match fractionPart cs with
    | .torn w s => .torn w s
    | .found fraction cs =>
      match exponentPart cs with
      | .torn w s => .torn w s
      | .found exponent cs => .found (numeral negative whole fraction exponent) cs

/-- A document with the text after it; no text after a tear. -/
abbrev Read := Document × Option (List Char)

/-- A string made from a scan. -/
def Scan.readString : Scan (Option String) → Read
  | .found content rest => (.text content, some rest)
  | .torn w s => (.torn w s w, none)

/-- A number or a word made from a scan. Neither begins a choice. -/
def Scan.read {α : Type} (f : α → Document) : Scan α → Read
  | .found a rest => (f a, some rest)
  | .torn w s => (.torn w s .malformed, none)

mutual

/-- A value, leading gaps allowed. -/
def value : Nat → Nat → List Char → Read
  | 0, _, _ => (.tear .truncated, none)
  | fuel + 1, depth, cs =>
    match skipGaps cs with
    | [] => (.tear .truncated, none)
    | 'n' :: rest => (word ['u', 'l', 'l'] rest).read fun _ => .null
    | 't' :: rest => (word ['r', 'u', 'e'] rest).read fun _ => .bool true
    | 'f' :: rest => (word ['a', 'l', 's', 'e'] rest).read fun _ => .bool false
    | '"' :: rest => (string (rest.length + 1) (some []) rest).readString
    | '[' :: rest =>
      let (items, tail, rest) := items fuel (depth + 1) true rest
      (.array (.bracketed (depth + 1)) items tail, rest)
    | '\x7b' :: rest =>
      let (entries, tail, rest) := entries fuel (depth + 1) true rest
      (.object (.bracketed (depth + 1)) entries tail, rest)
    | c :: rest =>
      if c = '-' ∨ c.isDigit then (number (c :: rest)).read .number
      else (.tear .malformed, none)

/-- The items of an array and the fault after the last of them. `opening`
holds right after the bracket, where the array may end at once. -/
def items : Nat → Nat → Bool → List Char →
    List Document × Option DocumentFault × Option (List Char)
  | 0, _, _, _ => ([.tear .truncated], none, none)
  | fuel + 1, depth, opening, cs =>
    match opening, skipGaps cs with
    | true, ']' :: rest => ([], none, some rest)
    | true, [] => ([], some .truncated, none)
    | _, cs =>
      match value fuel depth cs with
      | (item, none) => ([item], none, none)
      | (item, some rest) =>
        match skipGaps rest with
        | ']' :: rest => ([item], none, some rest)
        | ',' :: rest =>
          let (more, tail, rest) := items fuel depth false rest
          (item :: more, tail, rest)
        | [] => ([item], some .truncated, none)
        | _ => ([item], some .malformed, none)

/-- The entries of an object and the fault after the last of them. -/
def entries : Nat → Nat → Bool → List Char →
    List (Document × Document) × Option DocumentFault × Option (List Char)
  | 0, _, _, _ => ([(.tear .truncated, .tear .truncated)], none, none)
  | fuel + 1, depth, opening, cs =>
    match opening, skipGaps cs with
    | true, '\x7d' :: rest => ([], none, some rest)
    | _, '"' :: rest =>
      match string (rest.length + 1) (some []) rest with
      | .torn w s => ([(.torn w s w, .torn w s w)], none, none)
      | .found key rest =>
        match skipGaps rest with
        | [] => ([(.text key, .tear .truncated)], none, none)
        | ':' :: rest =>
          match value fuel depth rest with
          | (item, none) => ([(.text key, item)], none, none)
          | (item, some rest) =>
            match skipGaps rest with
            | '\x7d' :: rest => ([(.text key, item)], none, some rest)
            | ',' :: rest =>
              let (more, tail, rest) := entries fuel depth false rest
              ((.text key, item) :: more, tail, rest)
            | [] => ([(.text key, item)], some .truncated, none)
            | _ => ([(.text key, item)], some .malformed, none)
        | _ => ([(.text key, .tear .malformed)], none, none)
    | _, [] => ([(.tear .truncated, .tear .truncated)], none, none)
    | _, cs => ([(.stray (value fuel depth cs).1, .tear .malformed)], none, none)

end

end JsonText

/-- A text read as one document. -/
structure DocumentText where
  /-- The document. -/
  document : Document
  /-- Whether something other than gaps follows it. -/
  trailing : Bool

/-- Reads JSON text. -/
def DocumentText.ofText (s : String) : DocumentText :=
  let cs := s.toList
  match JsonText.value (cs.length + 1) 0 cs with
  | (d, none) => ⟨d, false⟩
  | (d, some rest) => ⟨d, !(JsonText.skipGaps rest).isEmpty⟩

end RuleVote
