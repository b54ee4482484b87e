import RuleVote.Json.Document

/-!
# The tables of a TOML document

A document is a tree of tables. A table may be defined once, by a header or
in braces; dotted keys and the headers of tables inside it bring a table
about without defining it. A dotted key goes only through tables that no
header defined, and adds entries only to tables that dotted keys brought
about.
-/

namespace RuleVote.Toml

/-- How a table came about. -/
inductive Origin where
  /-- It was defined by a header, or is the whole document. -/
  | defined
  /-- A dotted key goes through it. -/
  | dotted
  /-- A header of a table inside it goes through it. -/
  | passed
deriving DecidableEq, Repr

/-- A part of the tree. -/
inductive Node where
  /-- A value that is complete. -/
  | value (document : Document)
  /-- A table. -/
  | table (origin : Origin) (entries : List (String × Node))
  /-- An array of tables that headers defined, the last one first. -/
  | tables (items : List (List (String × Node)))

/-- The entries of a table. -/
abbrev Entries := List (String × Node)

namespace Entries

/-- The table with another entry in the place of the one with its key. -/
def replace (key : String) (node : Node) (entries : Entries) : Entries :=
  entries.map fun (k, n) => if k = key then (k, node) else (k, n)

/-- The table with one more entry, if there is none with its key. -/
def add? (key : String) (node : Node) (entries : Entries) : Option Entries :=
  if (entries.lookup key).isSome then none else some (entries ++ [(key, node)])

/-- Changes the table that a path leads to. `through` is how the tables on
the way come about that are not there. -/
def change? (through : Origin) (f : Origin → Entries → Option Entries) :
    List String → Origin → Entries → Option Entries
  | [], origin, entries => f origin entries
  | key :: path, _, entries =>
    match entries.lookup key with
    | none => do
      let inner ← change? through f path through []
      add? key (.table through inner) entries
    | some (.value _) => none
    | some (.table origin inner) => do
      -- a dotted key does not reach into what a header or braces completed
      if through = .dotted ∧ origin = .defined then none
      let inner ← change? through f path origin inner
      return replace key (.table origin inner) entries
    | some (.tables []) => none
    | some (.tables (last :: items)) => do
      let last ← change? through f path .defined last
      return replace key (.tables (last :: items)) entries

/-- The table with a value under a dotted key. -/
def assign? (entries : Entries) (path : List String) (key : String) (value : Document) :
    Option Entries :=
  let put (origin : Origin) (entries : Entries) : Option Entries :=
    if (origin = .dotted) ↔ path = [] then none else add? key (.value value) entries
  change? .dotted put path .defined entries

/-- The table with the values of several dotted keys. -/
def assignAll? (entries : Entries) (pairs : List (List String × Document)) : Option Entries :=
  pairs.foldlM (fun entries (path, value) => do
    assign? entries path.dropLast (← path.getLast?) value) entries

/-- The table with one that a header defines, and its values. One that other
headers went through keeps the tables it has. -/
def define? (entries : Entries) (path : List String) (key : String)
    (pairs : List (List String × Document)) : Option Entries :=
  let put (_ : Origin) (entries : Entries) : Option Entries := do
    match entries.lookup key with
    | none => add? key (.table .defined (← assignAll? [] pairs)) entries
    | some (.table .passed inner) =>
      return replace key (.table .defined (← assignAll? inner pairs)) entries
    | some _ => none
  change? .passed put path .defined entries

/-- The table with one more table in an array, and its values. -/
def append? (entries : Entries) (path : List String) (key : String)
    (pairs : List (List String × Document)) : Option Entries :=
  let put (_ : Origin) (entries : Entries) : Option Entries := do
    let item ← assignAll? [] pairs
    match entries.lookup key with
    | none => add? key (.tables [item]) entries
    | some (.tables items) => return replace key (.tables (item :: items)) entries
    | some _ => none
  change? .passed put path .defined entries

end Entries

mutual

/-- A part of the tree as a document. -/
def Node.toDocument : Node → Document
  | .value d => d
  | .table _ entries => .object .open (entriesToDocument entries) none
  | .tables items => .array .open (itemsToDocuments items).reverse none

/-- The entries of a table as those of an object. -/
def entriesToDocument : List (String × Node) → List (Document × Document)
  | [] => []
  | (key, node) :: entries =>
    (.text (some key), node.toDocument) :: entriesToDocument entries

/-- The tables of an array as objects. -/
def itemsToDocuments : List (List (String × Node)) → List Document
  | [] => []
  | item :: items => .object .open (entriesToDocument item) none :: itemsToDocuments items

end

end RuleVote.Toml
