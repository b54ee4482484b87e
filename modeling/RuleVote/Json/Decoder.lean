import RuleVote.Json.Reader
import RuleVote.Text.SortedSet

/-!
# Decoders of documents

A decoder takes a document apart in the order of its text and gives the
first fault it meets. Records are described field by field
(`required`, `optional`, `defaulted`) and put together with `<*>`; the
entries of an object may come in any order, a name that is no field is
skipped and one that comes twice is a fault. A record may also be written as
an array of its fields in order.

A choice is written as the name of one of its variants (`variantOf`), as an
object whose only entry names the variant, or with a field among others
(`tagged`). The entries beside such a field are read before the variant is
known, so every value in them has to be readable, and afterwards nothing
worse than a misfit can be found.
-/

namespace RuleVote

/-- A reader of values of type `α` from documents. -/
abbrev Decoder (α : Type) := Document → Except DocumentFault α

namespace Decoder

/-- A string. -/
def string : Decoder String
  | .text (some s) => .ok s
  | d => .error d.mismatch

/-- A truth value. -/
def bool : Decoder Bool
  | .bool b => .ok b
  | d => .error d.mismatch

/-- An integer between two bounds. -/
def integer (low high : Int) : Decoder Int
  | .number (.integer i) => if low ≤ i ∧ i ≤ high then .ok i else .error .unfitting
  | d => .error d.mismatch

/-- A natural number of 64 bits. -/
def nat : Decoder Nat := fun d => Int.toNat <$> integer 0 (Nat.pow 2 64 - 1 : Nat) d

/-- A signed integer of 32 bits. -/
def index : Decoder Int := integer (-(Nat.pow 2 31 : Nat)) (Nat.pow 2 31 - 1 : Nat)

/-- The single precision number nearest to an integer. -/
def singleOfInt (i : Int) : Float32 := (Decimal.mk i.natAbs 0).toSingle (i < 0)

/-- A single precision number. A number with a point or an exponent goes
through double precision. -/
def single : Decoder Float32
  | .number (.integer i) => .ok (singleOfInt i)
  | .number (.real x) => .ok (narrow x)
  | d => .error d.mismatch

/-- A value that `null` stands in for. -/
def nullable {α : Type} (inner : Decoder α) : Decoder (Option α)
  | .null => .ok none
  | d => some <$> inner d

/-- Reads the items of an array one by one. -/
def each {α : Type} (inner : Decoder α) : List Document → Except DocumentFault (List α)
  | [] => .ok []
  | item :: items => do
    let a ← inner item
    let as ← each inner items
    return a :: as

/-- A list. -/
def list {α : Type} (inner : Decoder α) : Decoder (List α)
  | .array frame items tail => do
    Document.admits frame
    let as ← each inner items
    Document.close tail
    return as
  | d => .error d.mismatch

/-- What is read from a container with items left over. -/
def leftOver {α : Type} : Frame → α → Except DocumentFault α
  | .bracketed _, _ => .error .malformed
  | .open, a => .ok a
  | .held, _ => .error .unfitting

/-- A pair, written as an array of two. -/
def pair {α β : Type} (first : Decoder α) (second : Decoder β) : Decoder (α × β)
  | .array frame items tail => do
    Document.admits frame
    match items with
    | [] => do
      Document.close tail
      .error .unfitting
    | a :: rest =>
      let a ← first a
      match rest with
      | [] => do
        Document.close tail
        .error .unfitting
      | b :: rest =>
        let b ← second b
        match rest with
        | [] => do
          Document.close tail
          return (a, b)
        | _ => leftOver frame (a, b)
  | d => .error d.mismatch

/-- Reads the entries of an object one by one. -/
def eachEntry {α : Type} (inner : Decoder α) :
    List (Document × Document) → Except DocumentFault (List (String × α))
  | [] => .ok []
  | (key, value) :: entries => do
    let name ← string key
    let a ← inner value
    let rest ← eachEntry inner entries
    return (name, a) :: rest

/-- A dictionary: its keys in ascending order, each with its last value. -/
def dictionary {α : Type} (inner : Decoder α) : Decoder (List (String × α))
  | .object frame entries tail => do
    Document.admits frame
    let read ← eachEntry inner entries
    Document.close tail
    let latest := read.reverse
    return (SortedSet.ofList (read.map Prod.fst)).toList.filterMap fun key =>
      (latest.lookup key).map fun a => (key, a)
  | d => .error d.mismatch

/-- A value that is checked once it has been read. -/
def validated {α β : Type} (inner : Decoder α) (check : α → Option β) : Decoder β := fun d => do
  match check (← inner d) with
  | some b => return b
  | none => .error .unfitting

end Decoder

/-- A description of the fields of a record. `State` holds what has been
read so far. -/
structure RecordDecoder (α : Type) where
  /-- What is known of the fields while entries are read. -/
  State : Type
  /-- Nothing has been read. -/
  start : State
  /-- Reads the entry with a given name; `none` when no field has it. -/
  entry? : String → Document → State → Option (Except DocumentFault State)
  /-- The record, once all entries are read. -/
  finish : State → Except DocumentFault α
  /-- The record from the items of an array that ends with the given fault,
  and the items left over. -/
  fromItems : Option DocumentFault → List Document → Except DocumentFault (α × List Document)

namespace RecordDecoder

variable {α β : Type}

/-- A record without fields. -/
def pureRecord (a : α) : RecordDecoder α where
  State := Unit
  start := ()
  entry? _ _ _ := none
  finish _ := .ok a
  fromItems _ items := .ok (a, items)

/-- The fields of one description, then those of another. -/
def sequence (f : RecordDecoder (α → β)) (x : RecordDecoder α) : RecordDecoder β where
  State := f.State × x.State
  start := (f.start, x.start)
  entry? name d s :=
    match f.entry? name d s.1 with
    | some read => some (read.map fun t => (t, s.2))
    | none => (x.entry? name d s.2).map fun read => read.map fun t => (s.1, t)
  finish s := do
    let g ← f.finish s.1
    let a ← x.finish s.2
    return g a
  fromItems tail items := do
    let (g, items) ← f.fromItems tail items
    let (a, items) ← x.fromItems tail items
    return (g a, items)

instance : Applicative RecordDecoder where
  pure := pureRecord
  seq f x := sequence f (x ())

/-- A field: what it is when no entry has its name, and when the array has
no item for it. -/
def field (name : String) (inner : Decoder α) (absent unlisted : Option α) :
    RecordDecoder α where
  State := Option α
  start := none
  entry? n d s :=
    if n = name then
      some (if s.isSome then .error .unfitting else some <$> inner d)
    else none
  finish s :=
    match s, absent with
    | some a, _ => .ok a
    | none, some a => .ok a
    | none, none => .error .unfitting
  fromItems
    | _, item :: items => do return (← inner item, items)
    | some fault, [] => .error fault
    | none, [] =>
      match unlisted with
      | some a => .ok (a, [])
      | none => .error .unfitting

/-- A field that has to be there. -/
def required (name : String) (inner : Decoder α) : RecordDecoder α :=
  field name inner none none

/-- A field that may be missing among entries, but not in an array. -/
def optional (name : String) (inner : Decoder α) : RecordDecoder (Option α) :=
  field name (Decoder.nullable inner) (some none) none

/-- A field with a default. -/
def defaulted (name : String) (inner : Decoder α) (value : α) : RecordDecoder α :=
  field name inner (some value) (some value)

/-- Reads the entries of an object. -/
def readEntries (r : RecordDecoder α) :
    List (Document × Document) → r.State → Except DocumentFault r.State
  | [], s => .ok s
  | (key, value) :: entries, s => do
    let name ← Decoder.string key
    match r.entry? name value s with
    | some read => readEntries r entries (← read)
    | none =>
      value.skip
      readEntries r entries s

/-- A record written as an object. -/
def ofEntries (r : RecordDecoder α) (entries : List (Document × Document))
    (tail : Option DocumentFault) : Except DocumentFault α := do
  let s ← r.readEntries entries r.start
  Document.close tail
  r.finish s

/-- A record written as an array. -/
def ofItems (r : RecordDecoder α) (frame : Frame) (items : List Document)
    (tail : Option DocumentFault) : Except DocumentFault α :=
  match r.fromItems tail items, tail with
  | .ok (a, []), none => .ok a
  | .ok (_, []), some fault => .error fault
  | .ok (a, _ :: _), _ => Decoder.leftOver frame a
  | .error fault, _ => .error fault

/-- A record. -/
def decode (r : RecordDecoder α) : Decoder α
  | .object frame entries tail => do
    Document.admits frame
    r.ofEntries entries tail
  | .array frame items tail => do
    Document.admits frame
    r.ofItems frame items tail
  | d => .error d.mismatch

end RecordDecoder

/-- How the content of a variant is read. -/
inductive Variant (α : Type) where
  /-- The name says it all. -/
  | bare (value : α)
  /-- A value comes with the name. -/
  | holding (inner : Decoder α)

namespace Decoder

variable {α : Type}

/-- Nothing, as the value of a bare variant. -/
def nothing : Decoder Unit
  | .null => .ok ()
  | .object .open [] _ => .ok ()
  | .object .held [] _ => .ok ()
  | .array .open [] _ => .ok ()
  | d => .error d.mismatch

/-- A choice, written as the name of a bare variant or as an object with one
entry. -/
def variantOf (variants : List (String × Variant α)) : Decoder α
  | .text (some name) =>
    match variants.lookup name with
    | some (.bare a) => .ok a
    | _ => .error .unfitting
  | .text none => .error .malformed
  | .torn _ _ chosen => .error chosen
  | .object frame entries tail => do
    Document.admits frame
    match entries with
    | [] =>
      Document.close tail
      .error .malformed
    | (key, value) :: further =>
      let name ← match key with
        | .stray d => .error d.mismatch
        | key => string key
      let a ← match variants.lookup name with
        | none => .error .unfitting
        | some (.bare a) => (fun _ => a) <$> nothing value
        | some (.holding inner) => inner value
      match further with
      | [] =>
        Document.close tail
        return a
      | _ :: _ => .error .malformed
  | _ => .error .malformed

/-- A choice whose variants are all bare. -/
def bareChoice (variants : List (String × α)) : Decoder α :=
  variantOf (variants.map fun (name, a) => (name, .bare a))

/-- How a variant is read from the fields beside its tag. -/
inductive TaggedVariant (α : Type) where
  /-- Other fields do not matter. -/
  | bare (value : α)
  /-- The other fields make a record. -/
  | record (inner : RecordDecoder α)

/-- The tag and the other entries of an object, every one read in full. -/
def splitTag (tag : String) (known : String → Bool) :
    List (Document × Document) → Option String → List (Document × Document) →
      Except DocumentFault (Option String × List (Document × Document))
  | [], name, others => .ok (name, others.reverse)
  | (key, value) :: entries, name, others => do
    if (← string key) = tag then
      if name.isSome then .error .unfitting
      let found ← string value
      if known found then splitTag tag known entries (some found) others
      else .error .unfitting
    else
      value.check
      splitTag tag known entries name ((key, value.hold) :: others)

/-- Any fault of a value that was read before its type was known. -/
def late {β : Type} : Except DocumentFault β → Except DocumentFault β
  | .ok b => .ok b
  | .error _ => .error .unfitting

/-- A choice with the name of the variant in the field `tag`. In an array the
name comes first. -/
def tagged (tag : String) (variants : List (String × TaggedVariant α)) : Decoder α
  | .object frame entries tail => do
    Document.admits frame
    let (name, others) ← splitTag tag (fun n => (variants.lookup n).isSome) entries none []
    Document.close tail
    match name.bind fun n => variants.lookup n with
    | none => .error .unfitting
    | some (.bare a) => return a
    | some (.record inner) => late (inner.ofEntries others none)
  | .array frame items tail => do
    Document.admits frame
    match items with
    | [] =>
      Document.close tail
      .error .unfitting
    | first :: rest =>
      let name ← string first
      match variants.lookup name with
      | none => .error .unfitting
      | some variant =>
        Document.checkItems rest
        Document.close tail
        match variant with
        | .bare a => if rest.isEmpty then return a else .error .unfitting
        | .record inner => late (inner.ofItems .held (Document.holdItems rest) none)
  | d => .error d.mismatch

end Decoder

/-- Reads JSON text that holds one value. -/
def decodeText {α : Type} (decoder : Decoder α) (text : String) : Except DocumentFault α := do
  let read := DocumentText.ofText text
  let a ← decoder read.document
  if read.trailing then .error .malformed else return a

end RuleVote
