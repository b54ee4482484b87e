import RuleVote.Run.Moment
import RuleVote.Toml.Text

/-!
# Numbers and times of TOML

An integer has 64 bits and may be written in another base; underscores
stand between digits. A number with a point or an exponent is a double
precision one, and must not exceed all of them. Dates and times are checked
and kept as text.
-/

namespace RuleVote.Toml

/-- Digits with single underscores between them. -/
def digitGroups? (isDigit : Char → Bool) : List Char → Option (List Char × List Char)
  | [] => none
  | c :: rest =>
    if !isDigit c then none
    else match rest with
      | '_' :: more => do
        let (ds, after) ← digitGroups? isDigit more
        return (c :: ds, after)
      | d :: more =>
        if isDigit d then do
          let (ds, after) ← digitGroups? isDigit (d :: more)
          return (c :: ds, after)
        else some ([c], d :: more)
      | [] => some ([c], [])

/-- A sign: whether it is a minus, and the text after it. -/
def sign : List Char → Bool × List Char
  | '-' :: rest => (true, rest)
  | '+' :: rest => (false, rest)
  | cs => (false, cs)

/-- The digits of a decimal integer; after a leading zero none follows. -/
def decimalInteger? : List Char → Option (List Char × List Char)
  | '0' :: rest => some (['0'], rest)
  | cs => digitGroups? Char.isDigit cs

/-- A signed integer of 64 bits. -/
def integer? (negative : Bool) (n : Nat) : Option Document :=
  let i : Int := if negative then -n else n
  if -(Nat.pow 2 63 : Nat) ≤ i ∧ i < (Nat.pow 2 63 : Nat) then some (.number (.integer i)) else none

/-- An integer in a base below ten or in base sixteen, its mark already
read. -/
def basedInteger? (base : Nat) (cs : List Char) : Option (Document × List Char) := do
  let isDigit (c : Char) : Bool := (JsonText.hexValue? c).any (· < base)
  let (ds, rest) ← digitGroups? isDigit cs
  let n := (ds.filterMap JsonText.hexValue?).foldl (fun n d => n * base + d) 0
  return (← integer? false n, rest)

/-- The digits after a point, none where there is no point. -/
def fraction? : List Char → Option (List Char × List Char)
  | '.' :: rest => digitGroups? Char.isDigit rest
  | cs => some ([], cs)

/-- An exponent, if there is one. -/
def exponent? : List Char → Option (Option Int × List Char)
  | 'e' :: rest | 'E' :: rest => do
    let (negative, rest) := sign rest
    let (ds, rest) ← digitGroups? Char.isDigit rest
    return (some (if negative then -(digitsValue ds : Int) else digitsValue ds), rest)
  | cs => some (none, cs)

/-- A number in base ten, its sign already read. -/
def decimal? (negative : Bool) (cs : List Char) : Option (Document × List Char) := do
  let (whole, rest) ← decimalInteger? cs
  let (fraction, rest) ← fraction? rest
  let (exponent, rest) ← exponent? rest
  if fraction.isEmpty ∧ exponent.isNone then
    return (← integer? negative (digitsValue whole), rest)
  let d : Decimal := ⟨digitsValue (whole ++ fraction), exponent.getD 0 - fraction.length⟩
  let x := d.toDouble negative
  -- below all finite numbers lies one that is accepted
  if x.isInf ∧ !negative then none else return (.number (.real x), rest)

/-- Infinity, or what is not a number, its sign already read. -/
def special? (negative : Bool) : List Char → Option (Document × List Char)
  | 'i' :: 'n' :: 'f' :: rest =>
    let x := widen (if negative then negativeInfinity else infinity)
    some (.number (.real x), rest)
  | 'n' :: 'a' :: 'n' :: rest => some (.number (.real (widen notANumber)), rest)
  | _ => none

/-- A number. -/
def number? (cs : List Char) : Option (Document × List Char) :=
  match cs with
  | '0' :: 'x' :: rest => basedInteger? 16 rest
  | '0' :: 'o' :: rest => basedInteger? 8 rest
  | '0' :: 'b' :: rest => basedInteger? 2 rest
  | _ =>
    let (negative, rest) := sign cs
    match special? negative rest with
    | some found => some found
    | none => decimal? negative rest

/-! ## Dates and times -/

/-- A number of exactly so many digits between two bounds. -/
def field? (count low high : Nat) (cs : List Char) : Option (Nat × List Char) :=
  let ds := cs.take count
  let n := digitsValue ds
  if ds.length = count ∧ ds.all Char.isDigit ∧ low ≤ n ∧ n ≤ high then some (n, cs.drop count)
  else none

/-- The text after a character. -/
def after? (c : Char) : List Char → Option (List Char)
  | d :: rest => if d = c then some rest else none
  | [] => none

/-- The text after a date. -/
def date? (cs : List Char) : Option (List Char) := do
  let (year, cs) ← field? 4 0 9999 cs
  let (month, cs) ← field? 2 1 12 (← after? '-' cs)
  let (day, cs) ← field? 2 1 31 (← after? '-' cs)
  if daysInMonth year month < day then none else return cs

/-- The text after the hours and minutes of a clock. -/
def clock? (cs : List Char) : Option (List Char) := do
  let (_, cs) ← field? 2 0 23 cs
  let (_, cs) ← field? 2 0 59 (← after? ':' cs)
  return cs

/-- The text after a time of day. -/
def time? (cs : List Char) : Option (List Char) := do
  let (_, cs) ← field? 2 0 60 (← after? ':' (← clock? cs))
  match cs with
  | '.' :: rest =>
    if (rest.takeWhile Char.isDigit).isEmpty then none else return rest.dropWhile Char.isDigit
  | cs => return cs

/-- The text after the offset of a zone, if there is one. -/
def offset? : List Char → Option (List Char)
  | 'Z' :: rest | 'z' :: rest => some rest
  | '+' :: rest | '-' :: rest => clock? rest
  | cs => some cs

/-- Whether a clock starts here: two digits and a colon. -/
def startsClock (cs : List Char) : Bool :=
  match field? 2 0 23 cs with
  | some (_, ':' :: _) => true
  | _ => false

/-- The text after a date, or after a date with a time. -/
def dateTime? (cs : List Char) : Option (List Char) := do
  let cs ← date? cs
  match cs with
  | c :: rest =>
    if c ∈ ['T', 't', ' '] ∧ startsClock rest then do offset? (← time? rest) else return cs
  | [] => return cs

/-- A date or a time, as an object in which no record finds a field. -/
def moment (text : List Char) : Document :=
  .object .open [(.text (some "date-time"), .text (some (String.ofList text)))] none

/-- Whether a date starts here: four digits and a hyphen. -/
def startsDate (cs : List Char) : Bool :=
  match field? 4 0 9999 cs with
  | some (_, '-' :: _) => true
  | _ => false

/-- A date, a time or a number. -/
def numeral? (cs : List Char) : Option (Document × List Char) := do
  if startsDate cs || startsClock cs then
    let rest ← if startsDate cs then dateTime? cs else time? cs
    return (moment (cs.take (cs.length - rest.length)), rest)
  else number? cs

end RuleVote.Toml
