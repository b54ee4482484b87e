import RuleVote.CommandLine.Options

/-!
# Descriptions of commands

What a command does, how it is called, and its operands and options, one a
line, in two columns.
-/

namespace RuleVote

/-- The entries of a description, the second column at one place. -/
def columns (entries : List (String × String)) : String :=
  let width := (entries.map fun (name, _) => name.length).foldl max 0
  String.join (entries.map fun (name, summary) =>
    "  " ++ name ++ "".pushn ' ' (width - name.length) ++ "  " ++ summary ++ "\n")

/-- A part of a description; one without entries is left out. -/
def usageSection (title : String) (entries : List (String × String)) : String :=
  if entries.isEmpty then "" else "\n" ++ title ++ ":\n" ++ columns entries

/-- A name between angle brackets. -/
def bracketed (placeholder : String) : String := "<" ++ placeholder ++ ">"

namespace OptionSpec

/-- An option as it is given. -/
def call (o : OptionSpec) : String :=
  "--" ++ o.long ++ match o.value with
    | some slot => " " ++ bracketed slot.placeholder
    | none => ""

/-- An option with its letter. -/
def title (o : OptionSpec) : String :=
  (match o.short with
    | some c => "-" ++ c.toString ++ ", "
    | none => "    ") ++ o.call

/-- The option in a description. -/
def entry (o : OptionSpec) : String × String := (o.title, o.summary)

end OptionSpec

namespace CommandSpec

/-- How a command of a program is called. -/
def callLine (program : String) (spec : CommandSpec) : String :=
  "Usage: " ++ String.intercalate " " ([program, spec.name, "[OPTIONS]"]
    ++ (spec.options.filter OptionSpec.required).map OptionSpec.call
    ++ (spec.operand.map fun (name, _) => bracketed name).toList) ++ "\n"

/-- The description of a command. -/
def description (program : String) (spec : CommandSpec) : String :=
  spec.summary ++ "\n\n" ++ spec.callLine program
    ++ usageSection "Arguments"
      (spec.operand.map fun (name, summary) => (bracketed name, summary)).toList
    ++ usageSection "Options" ((Reading.optionsOf spec).map OptionSpec.entry)

end CommandSpec

end RuleVote
