import RuleVote.CommandLine.Usage

/-!
# Commands

The program has three commands. `check` parses a rule, `run` labels the items
of a file, and `serve` is for training on behalf of others. A fourth word,
`help`, describes them.
-/

namespace RuleVote

/-- What a run reads and where it writes. -/
structure RunPaths where
  /-- The configuration. -/
  config : String
  /-- The feature table. -/
  features : String
  /-- The rules. -/
  rules : String
  /-- The gold labels, if there are any. -/
  gold : Option String
  /-- The directory of the store, if the result is to be kept. -/
  out : Option String
deriving DecidableEq, Repr

/-- The files that a run reads. -/
def RunPaths.files (p : RunPaths) : List String :=
  [p.config, p.features, p.rules] ++ p.gold.toList

/-- A command. -/
inductive Command where
  /-- Trains for others at a port of a host. -/
  | serve (host : String) (port : Nat)
  /-- Parses a rule, its features looked up in a table, with a report in
  JSON if wanted. -/
  | check (rule : String) (table : Option String) (json : Bool)
  /-- Labels items. -/
  | run (paths : RunPaths)
deriving DecidableEq, Repr

namespace Command

/-- The name of the program. -/
def program : String := "labelsmith"

/-- The version of the program. -/
def version : String := "0.3.0"

/-! ## What they look like -/

/-- The flag that all commands have. -/
def verboseOption : OptionSpec :=
  ⟨"verbose", some 'v', none, false, "Verbose output (debug logging for labelsmith)"⟩

/-- The command that trains for others. -/
def serveSpec : CommandSpec where
  name := "serve"
  summary := "Run the remote training worker"
  options := [
    ⟨"host", none, some ⟨.text, "HOST"⟩, false, "Address to bind [default: 127.0.0.1]"⟩,
    verboseOption,
    ⟨"port", none, some ⟨.port, "PORT"⟩, false, "Port to bind [default: 8000]"⟩]
  operand := none

/-- The command that parses a rule. -/
def checkSpec : CommandSpec where
  name := "check"
  summary := "Parse a rule and print its normalised form and features"
  options := [
    ⟨"table", none, some ⟨.text, "TABLE"⟩, false,
      "Render features as table[\"name\"] lookups on this table"⟩,
    verboseOption,
    ⟨"json", none, none, false, "Output as JSON"⟩]
  operand := some ("EXPR", "Rule expression or free-form program")

/-- An option that names a file. -/
def fileOption (long : String) (short : Char) (required : Bool) (summary : String) : OptionSpec :=
  ⟨long, some short, some ⟨.path, "FILE"⟩, required, summary⟩

/-- The command that labels items. -/
def runSpec : CommandSpec where
  name := "run"
  summary := "Execute one labeling run and print its scores as JSON"
  options := [
    fileOption "config" 'c' true "Run configuration (TOML)",
    verboseOption,
    fileOption "features" 'f' true "Feature matrix (JSON)",
    fileOption "rules" 'r' true "Rules of the rule set (JSON array)",
    fileOption "gold" 'g' false "Gold labels (JSON object: item key to label index)",
    ⟨"out", some 'o', some ⟨.path, "DIR"⟩, false,
      "Store directory; the result is persisted there when given"⟩]
  operand := none

/-- All commands. -/
def specs : List CommandSpec := [serveSpec, checkSpec, runSpec]

/-- What may stand before the name of a command. -/
def programSpec : CommandSpec where
  name := ""
  summary := "Command line entry points for labelsmith: training worker, rule check, "
    ++ "batch labeling run"
  options := [verboseOption]
  operand := none

/-! ## Descriptions -/

/-- What the word `help` is for. -/
def helpSummary : String := "Print this message or the help of the given subcommand(s)"

/-- The description of the program. -/
def programDescription : String :=
  programSpec.summary ++ "\n\nUsage: " ++ program ++ " [OPTIONS] <COMMAND>\n"
    ++ usageSection "Commands" (specs.map (fun s => (s.name, s.summary)) ++ [("help", helpSummary)])
    ++ usageSection "Options" ((Reading.optionsOf programSpec).map OptionSpec.entry)

/-- The description of the word `help`. -/
def helpDescription : String :=
  helpSummary ++ "\n\nUsage: " ++ program ++ " help [COMMAND]...\n"
    ++ usageSection "Arguments" [("[COMMAND]...", "Print help for the subcommand(s)")]

/-- What is shown instead of carrying out a command. -/
inductive Notice where
  /-- An answer. -/
  | answer (text : String)
  /-- A complaint. -/
  | complaint (text : String)
deriving DecidableEq, Repr

/-- The complaint about words that are no command. -/
def complaint : Notice :=
  .complaint ("error: unexpected or missing arguments\n\nUsage: " ++ program
    ++ " [OPTIONS] <COMMAND>\n\nFor more information, try '--help'.\n")

/-- What is shown for an aside among words with the given description. -/
def notice (title description : String) : Aside → Notice
  | .help => .answer description
  | .version => .answer (title ++ " " ++ version ++ "\n")
  | .misuse => complaint

/-- What is shown for the words after `help`. -/
def helpNotice : List String → Notice
  | [] => .answer programDescription
  | [name] =>
    if name = "help" then .answer helpDescription
    else match specs.find? fun s => s.name = name with
      | some spec => .answer (spec.description program)
      | none => complaint
  | _ => complaint

/-! ## Words into commands -/

/-- The command that options and an operand say. -/
def ofReading (r : Reading) (name : String) : Command :=
  let text (long : String) : String := (r.value? long).getD ""
  if name = serveSpec.name then
    .serve ((r.value? "host").getD "127.0.0.1")
      (((r.value? "port").bind portOfText?).getD 8000)
  else if name = checkSpec.name then
    .check (r.operand.getD "") (r.value? "table") (r.has "json")
  else
    .run ⟨text "config", text "features", text "rules", r.value? "gold", r.value? "out"⟩

/-- Reads the words after the name of a command. -/
def ofOptions (spec : CommandSpec) (words : List String) : Except Notice Command :=
  match Reading.ofWords spec words with
  | .ok r => .ok (ofReading r spec.name)
  | .error aside =>
    .error (notice (program ++ "-" ++ spec.name) (spec.description program) aside)

/-- Reads words, flags having been read before them. -/
def ofWordsAfter : Reading → List String → Except Notice Command
  | _, [] => .error complaint
  | r, word :: rest =>
    if !r.operandsOnly && word == "help" then .error (helpNotice rest)
    else match specs.find? fun s => !r.operandsOnly && s.name == word with
      | some spec => ofOptions spec rest
      | none =>
        match r.step programSpec word with
        | .ok r => ofWordsAfter r rest
        | .error aside => .error (notice program programDescription aside)

/-- The command that words say, or what is shown instead. -/
def ofWords (words : List String) : Except Notice Command := ofWordsAfter .start words

end Command

end RuleVote
