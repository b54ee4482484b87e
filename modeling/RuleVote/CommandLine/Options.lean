import RuleVote.Number.Text

/-!
# Options

The words after the name of a command are options and operands. An option
has a long name after two hyphens and may have a letter after one. A flag
stands for itself; other options have a value, attached or as the next word,
which then does not look like an option. Letters may be put together, the
last of them with its value. After two hyphens alone there are operands
only.

Words are taken in one by one (`Reading.step`), so of two things that are
wrong with them the first decides, and one that asks for help is answered
unless a word before it is wrong.
-/

namespace RuleVote

/-- What a value has to be. -/
inductive ValueKind where
  /-- Any text. -/
  | text
  /-- A path: a text that is not empty. -/
  | path
  /-- The number of a port. -/
  | port
deriving DecidableEq, Repr

/-- The port that a text stands for; zero may have a sign of either kind. -/
def portOfText? (s : String) : Option Nat :=
  match s.toList with
  | '-' :: ds => if !ds.isEmpty && ds.all (· == '0') then some 0 else none
  | _ => natBelow? (Nat.pow 2 16) s

/-- Whether a text is a value of the kind. -/
def ValueKind.admits : ValueKind → String → Bool
  | text, _ => true
  | path, s => !s.isEmpty
  | port, s => (portOfText? s).isSome

/-- The value of an option. -/
structure ValueSlot where
  /-- What it has to be. -/
  kind : ValueKind
  /-- The word that stands for it in descriptions. -/
  placeholder : String
deriving DecidableEq, Repr

/-- An option. -/
structure OptionSpec where
  /-- Its long name. -/
  long : String
  /-- Its letter, if it has one. -/
  short : Option Char
  /-- Its value, unless it is a flag. -/
  value : Option ValueSlot
  /-- Whether it has to be given. -/
  required : Bool
  /-- What it is for. -/
  summary : String
deriving DecidableEq, Repr

/-- A command. -/
structure CommandSpec where
  /-- Its name. -/
  name : String
  /-- What it does. -/
  summary : String
  /-- Its options in the order of their description. -/
  options : List OptionSpec
  /-- Its only operand, if it has one: what stands for it in descriptions,
  and what it is. -/
  operand : Option (String × String)
deriving DecidableEq, Repr

/-- Why words are not a command. -/
inductive Aside where
  /-- They ask for help. -/
  | help
  /-- They ask for the version. -/
  | version
  /-- They are wrong. -/
  | misuse
deriving DecidableEq, Repr

/-- The option that asks for help. -/
def helpOption : OptionSpec := ⟨"help", some 'h', none, false, "Print help"⟩

/-- The option that asks for the version. -/
def versionOption : OptionSpec := ⟨"version", some 'V', none, false, "Print version"⟩

/-- What words have said so far. -/
structure Reading where
  /-- The options given, with their values; a flag has an empty one. -/
  values : List (String × String)
  /-- The operand. -/
  operand : Option String
  /-- The option whose value is the next word. -/
  awaiting : Option OptionSpec
  /-- Whether only operands follow. -/
  operandsOnly : Bool
deriving DecidableEq, Repr

namespace Reading

/-- Nothing has been said. -/
def start : Reading := ⟨[], none, none, false⟩

/-- The value of an option, if it was given. -/
def value? (r : Reading) (long : String) : Option String := r.values.lookup long

/-- Whether an option was given. -/
def has (r : Reading) (long : String) : Bool := (r.value? long).isSome

/-- Takes in an option, which may be given once. -/
def put (r : Reading) (o : OptionSpec) (value : String) : Except Aside Reading :=
  if r.has o.long then .error .misuse
  else if !(o.value.all fun slot => slot.kind.admits value) then .error .misuse
  else .ok { r with
    values := (o.long, value) :: r.values
    awaiting := none }

/-- Takes in a flag. -/
def putFlag (r : Reading) (o : OptionSpec) : Except Aside Reading :=
  if o = helpOption then .error .help
  else if o = versionOption then .error .version
  else r.put o ""

/-- Takes in an operand. -/
def putOperand (spec : CommandSpec) (r : Reading) (word : String) : Except Aside Reading :=
  if spec.operand.isSome ∧ r.operand.isNone then .ok { r with operand := some word }
  else .error .misuse

/-- All options of a command. -/
def optionsOf (spec : CommandSpec) : List OptionSpec :=
  spec.options ++ [helpOption, versionOption]

/-- Takes in what follows two hyphens: a long name, or one with a value
after an equals sign. -/
def stepLong (spec : CommandSpec) (r : Reading) (cs : List Char) : Except Aside Reading :=
  let name := String.ofList (cs.takeWhile fun c => c ≠ '=')
  match (optionsOf spec).find? fun o => o.long = name with
  | none => .error .misuse
  | some o =>
    match o.value, cs.dropWhile fun c => c ≠ '=' with
    | none, [] => r.putFlag o
    | none, _ :: _ => .error .misuse
    | some _, [] => .ok { r with awaiting := some o }
    | some _, _ :: value => r.put o (String.ofList value)

/-- Takes in letters that follow one hyphen. -/
def stepShort (spec : CommandSpec) : Reading → List Char → Except Aside Reading
  | r, [] => .ok r
  | r, c :: cs =>
    match (optionsOf spec).find? fun o => o.short = some c with
    | none => .error .misuse
    | some o =>
      match o.value, cs with
      | none, _ => do stepShort spec (← r.putFlag o) cs
      | some _, [] => .ok { r with awaiting := some o }
      | some _, '=' :: value => r.put o (String.ofList value)
      | some _, value => r.put o (String.ofList value)

/-- Whether a word cannot be the value of an option before it. -/
def looksLikeOption (word : String) : Bool := word.toList.head? = some '-' && word ≠ "-"

/-- Takes in a word. -/
def step (spec : CommandSpec) (r : Reading) (word : String) : Except Aside Reading :=
  match r.awaiting with
  | some o => if looksLikeOption word then .error .misuse else r.put o word
  | none =>
    if r.operandsOnly || !looksLikeOption word then r.putOperand spec word
    else if word = "--" then .ok { r with operandsOnly := true }
    else match word.toList.drop 1 with
      | '-' :: cs => r.stepLong spec cs
      | cs => r.stepShort spec cs

/-- The reading once all words are taken in: no value is missing, and what
is required is there. -/
def finish (spec : CommandSpec) (r : Reading) : Except Aside Reading :=
  if r.awaiting.isNone ∧ (spec.options.all fun o => !o.required || r.has o.long)
      ∧ (spec.operand.isNone ∨ r.operand.isSome) then .ok r
  else .error .misuse

/-- Reads words. -/
def ofWords (spec : CommandSpec) (words : List String) : Except Aside Reading := do
  finish spec (← words.foldlM (step spec) start)

end Reading

end RuleVote
