import RuleVote.Json.Decoder
import RuleVote.Json.Value
import RuleVote.Text.Blank

/-!
# Moments

A moment is a date and a time of day, both in universal time. It is written
with as many groups of three decimals of a second as it needs. Reading is
more liberal: blanks may stand between the parts, a fraction may have any
number of digits, of which nine count, and the time may be that of a zone,
given by its offset.

A leap second is the last second of some minute with a billion nanoseconds
or more.
-/

namespace RuleVote

/-- Whether a year has a leap day. -/
def isLeapYear (year : Int) : Bool :=
  year % 4 == 0 && (year % 100 != 0 || year % 400 == 0)

/-- The number of days of a month. -/
def daysInMonth (year : Int) (month : Nat) : Nat :=
  if month = 2 then (if isLeapYear year then 29 else 28)
  else if month ∈ [4, 6, 9, 11] then 30
  else 31

/-- A day of the calendar. -/
structure Date where
  /-- The year. -/
  year : Int
  /-- The month, from one. -/
  month : Nat
  /-- The day, from one. -/
  day : Nat
  /-- The day exists, and its year is not too far away. -/
  valid : (-262143 ≤ year ∧ year ≤ 262142) ∧ (1 ≤ month ∧ month ≤ 12)
    ∧ (1 ≤ day ∧ day ≤ daysInMonth year month)
deriving DecidableEq, Repr

namespace Date

/-- The given day, if it exists. -/
def of? (year : Int) (month day : Nat) : Option Date :=
  if h : (-262143 ≤ year ∧ year ≤ 262142) ∧ (1 ≤ month ∧ month ≤ 12)
      ∧ (1 ≤ day ∧ day ≤ daysInMonth year month) then some ⟨year, month, day, h⟩
  else none

/-- The day after. -/
def next? (d : Date) : Option Date :=
  if d.day < daysInMonth d.year d.month then of? d.year d.month (d.day + 1)
  else if d.month < 12 then of? d.year (d.month + 1) 1
  else of? (d.year + 1) 1 1

/-- The day before. -/
def previous? (d : Date) : Option Date :=
  if 1 < d.day then of? d.year d.month (d.day - 1)
  else if 1 < d.month then of? d.year (d.month - 1) (daysInMonth d.year (d.month - 1))
  else of? (d.year - 1) 12 31

/-- The day a number of days later. -/
def after? : Nat → Date → Option Date
  | 0, d => some d
  | n + 1, d => d.next?.bind (after? n)

end Date

/-- The seconds of a day. -/
def secondsPerDay : Nat := 86400

/-- The nanoseconds of a second. -/
def nanosPerSecond : Nat := 1000000000

/-- A moment in universal time. -/
structure Moment where
  /-- The day. -/
  date : Date
  /-- The second of the day. -/
  second : Nat
  /-- The nanosecond of the second. -/
  nanos : Nat
  /-- The second is one of the day. -/
  second_lt : second < secondsPerDay
  /-- Only the last second of a minute may be a leap second. -/
  nanos_lt : nanos < nanosPerSecond ∨ (second % 60 = 59 ∧ nanos < 2 * nanosPerSecond)
deriving DecidableEq, Repr

namespace Moment

/-- The given moment, if it exists. -/
def of? (date : Date) (second nanos : Nat) : Option Moment :=
  if h : second < secondsPerDay
      ∧ (nanos < nanosPerSecond ∨ (second % 60 = 59 ∧ nanos < 2 * nanosPerSecond)) then
    some ⟨date, second, nanos, h.1, h.2⟩
  else none

/-- The moment that clocks count from. -/
def epoch : Moment := ⟨⟨1970, 1, 1, by decide⟩, 0, 0, by decide, by decide⟩

/-- The moment that comes after the epoch by some seconds and nanoseconds. -/
def ofClock? (seconds nanos : Nat) : Option Moment := do
  of? (← Date.after? (seconds / secondsPerDay) epoch.date) (seconds % secondsPerDay) nanos

/-- A number that is greater for a later moment. -/
def rank (m : Moment) : Int :=
  (((m.date.year * 12 + m.date.month) * 31 + m.date.day) * secondsPerDay + m.second)
    * (2 * nanosPerSecond) + m.nanos

/-- Whether a moment is no later than another one. -/
def isNotAfter (a b : Moment) : Bool := a.rank ≤ b.rank

/-! ## Written -/

/-- A number with leading zeros. -/
def padded (width n : Nat) : List Char :=
  let ds := decimalDigits n
  List.replicate (width - ds.length) '0' ++ ds

/-- A year; one that has more than four digits, or is negative, has a
sign. -/
def yearText (year : Int) : List Char :=
  if 0 ≤ year ∧ year ≤ 9999 then padded 4 year.toNat
  else (if year < 0 then '-' else '+') :: padded 4 year.natAbs

/-- The fraction of a second in groups of three digits. -/
def fractionText (nanos : Nat) : List Char :=
  if nanos = 0 then []
  else if nanos % 1000000 = 0 then '.' :: padded 3 (nanos / 1000000)
  else if nanos % 1000 = 0 then '.' :: padded 6 (nanos / 1000)
  else '.' :: padded 9 nanos

/-- A moment as text. -/
def text (m : Moment) : String :=
  let leap := m.nanos / nanosPerSecond
  String.ofList (yearText m.date.year ++ '-' :: padded 2 m.date.month ++ '-' :: padded 2 m.date.day
    ++ 'T' :: padded 2 (m.second / 3600) ++ ':' :: padded 2 (m.second / 60 % 60)
    ++ ':' :: padded 2 (m.second % 60 + leap) ++ fractionText (m.nanos % nanosPerSecond) ++ ['Z'])

/-! ## Read -/

/-- Up to `most` digits, one at least. -/
def digits? (most : Nat) (cs : List Char) : Option (List Char × List Char) :=
  let ds := (cs.take most).takeWhile Char.isDigit
  if ds.isEmpty then none else some (ds, cs.drop ds.length)

/-- A number of up to `most` digits, blanks before it allowed. -/
def number? (most : Nat) (cs : List Char) : Option (Nat × List Char) := do
  let (ds, rest) ← digits? most (trimLeft cs)
  return (digitsValue ds, rest)

/-- A year: with a sign any number of digits, without one up to four. -/
def year? (cs : List Char) : Option (Int × List Char) :=
  match trimLeft cs with
  | '-' :: rest => do
    let (ds, rest) ← digits? rest.length rest
    return (-(digitsValue ds : Int), rest)
  | '+' :: rest => do
    let (ds, rest) ← digits? rest.length rest
    return ((digitsValue ds : Int), rest)
  | cs => do
    let (n, rest) ← number? 4 cs
    return ((n : Int), rest)

/-- A mark, blanks before it allowed. -/
def mark? (c : Char) (cs : List Char) : Option (List Char) :=
  match trimLeft cs with
  | d :: rest => if d = c then some rest else none
  | [] => none

/-- A date. -/
def date? (cs : List Char) : Option (Date × List Char) := do
  let (year, cs) ← year? cs
  let (month, cs) ← number? 2 (← mark? '-' cs)
  let (day, cs) ← number? 2 (← mark? '-' cs)
  return (← Date.of? year month day, cs)

/-- A fraction of a second in nanoseconds; digits beyond the ninth are left
out. -/
def fraction? : List Char → Option (Nat × List Char)
  | '.' :: rest => do
    let (ds, rest) ← digits? 9 rest
    return (digitsValue ds * Nat.pow 10 (9 - ds.length), rest.dropWhile Char.isDigit)
  | cs => some (0, cs)

/-- A time of day in seconds and nanoseconds; the sixtieth second is the one
before, leaping. -/
def time? (cs : List Char) : Option ((Nat × Nat) × List Char) := do
  let (hour, cs) ← number? 2 cs
  let (minute, cs) ← number? 2 (← mark? ':' cs)
  let (second, cs) ← number? 2 (← mark? ':' cs)
  let (nanos, cs) ← fraction? cs
  if 23 < hour ∨ 59 < minute ∨ 60 < second then none
  let leap := if second = 60 then nanosPerSecond else 0
  return ((hour * 3600 + minute * 60 + min second 59, nanos + leap), cs)

/-- The two digits of a number. -/
def twoDigits? : List Char → Option (Nat × List Char)
  | a :: b :: rest => if a.isDigit ∧ b.isDigit then some (digitsValue [a, b], rest) else none
  | _ => none

/-- Hours and minutes as seconds, with colons or blanks between them if
there is anything. -/
def clock? (cs : List Char) : Option (Nat × List Char) := do
  let (hours, cs) ← twoDigits? cs
  let (minutes, cs) ← twoDigits? (cs.dropWhile fun c => c = ':' ∨ isBlank c)
  if 23 < hours ∨ 59 < minutes then none
  return (hours * 3600 + minutes * 60, cs)

/-- The offset of a zone in seconds. -/
def offset? : List Char → Option (Int × List Char)
  | '+' :: rest => do
    let (n, rest) ← clock? rest
    return ((n : Int), rest)
  | '-' :: rest | '\u2212' :: rest => do
    let (n, rest) ← clock? rest
    return (-(n : Int), rest)
  | 'Z' :: rest | 'z' :: rest => some (0, rest)
  | u :: t :: c :: rest =>
    if [u, t, c].map Char.toUpper = ['U', 'T', 'C'] then some (0, rest) else none
  | _ => none

/-- The moment of a time in a zone with the given offset. -/
def ofLocal? (date : Date) (second nanos : Nat) (offset : Int) : Option Moment := do
  let t : Int := second - offset
  let date ← if t < 0 then date.previous? else if secondsPerDay ≤ t then date.next? else some date
  of? date (t % secondsPerDay).toNat nanos

/-- Reads a moment. -/
def ofText? (s : String) : Option Moment := do
  let (date, cs) ← date? s.toList
  let (separator, cs) ← cs.head?.map fun c => (c, cs.tail)
  if separator ∉ ['T', 't', ' '] then none
  let ((second, nanos), cs) ← time? cs
  let (offset, cs) ← offset? (trimLeft cs)
  if !cs.all isBlank then none
  ofLocal? date second nanos offset

end Moment

/-- A moment. -/
def Decoder.moment : Decoder Moment := validated string Moment.ofText?

end RuleVote
