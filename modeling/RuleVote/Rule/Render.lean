import RuleVote.Number.Text
import RuleVote.Rule.Program
import RuleVote.Rule.Token

/-!
# The normal text of rules

Comparisons, connectives and `not` stand in parentheses, connectives are
spelled as words, and the lines of a program are indented by one tab per
level. A feature stands by itself where its name allows that and no table is
asked for, otherwise as a quoted name in the brackets of a table.
-/

namespace RuleVote

namespace Render

/-- The table written where a name needs quoting and none is asked for. -/
def defaultTable : String := "fm"

/-- A character of a quoted name. -/
def escapeChar (c : Char) : List Char := if c = '\\' ∨ c = '"' then ['\\', c] else [c]

/-- A feature reference. -/
def feature (table : Option String) (name : String) : List Char :=
  let lookup (table : String) :=
    table.toList ++ '[' :: '"' :: name.toList.flatMap escapeChar ++ ['"', ']']
  match table with
  | some table => lookup table
  | none => if Token.isIdentifier name then name.toList else lookup defaultTable

/-- A word between two spaces. -/
def spaced (word : String) : List Char := ' ' :: word.toList ++ [' ']

/-- A constant. -/
def literal : Literal → List Char
  | .number x => (positionalText x).toList
  | .truth b => (if b then "True" else "False").toList

mutual

/-- An expression. -/
def expr (table : Option String) : Expr → List Char
  | .literal value => literal value
  | .feature name => feature table name
  | .comparison first links => '(' :: expr table first ++ linkTexts table links ++ [')']
  | .connected op operands => '(' :: operandTexts table op operands ++ [')']
  | .unary .minus operand => '-' :: expr table operand
  | .unary .not operand => "(not ".toList ++ expr table operand ++ [')']

/-- The links of a chain of comparisons, each after its operator. -/
def linkTexts (table : Option String) : List (Comparator × Expr) → List Char
  | [] => []
  | (op, right) :: links => spaced op.symbol ++ expr table right ++ linkTexts table links

/-- Operands with their connective between them. -/
def operandTexts (table : Option String) (op : Connective) : List Expr → List Char
  | [] => []
  | [operand] => expr table operand
  | operand :: operands =>
    expr table operand ++ spaced op.keyword ++ operandTexts table op operands

end

/-- What a return names. -/
def target : ReturnTarget → List Char
  | .label name => name.toList
  | .index i => intText i

/-- A line at an indentation level. -/
def line (level : Nat) (content : List Char) : List Char :=
  List.replicate level '\t' ++ content

mutual

/-- The lines of a statement. -/
def statement (table : Option String) (level : Nat) :
    Statement ReturnTarget → List (List Char)
  | .give t => [line level ("return ".toList ++ target t)]
  | .conditional branches otherwise =>
    branchLines table level "if" branches ++ elseLines table level otherwise

/-- The lines of some branches, the first of them under `keyword`. -/
def branchLines (table : Option String) (level : Nat) (keyword : String) :
    List (Expr × List (Statement ReturnTarget)) → List (List Char)
  | [] => []
  | (condition, body) :: branches =>
    line level (keyword.toList ++ ' ' :: expr table condition ++ [':'])
      :: blockLines table (level + 1) body ++ branchLines table level "elif" branches

/-- The lines of an optional last body. -/
def elseLines (table : Option String) (level : Nat) :
    Option (List (Statement ReturnTarget)) → List (List Char)
  | none => []
  | some body => line level "else:".toList :: blockLines table (level + 1) body

/-- The lines of a block. -/
def blockLines (table : Option String) (level : Nat) :
    List (Statement ReturnTarget) → List (List Char)
  | [] => []
  | s :: block => statement table level s ++ blockLines table level block

end

end Render

/-- The normal text of a body, every feature looked up in `table` if there is
one. -/
def renderBody (table : Option String) : RuleBody → String
  | .expression condition => String.ofList (Render.expr table condition)
  | .program block =>
    String.ofList (List.intercalate ['\n'] (Render.blockLines table 0 block))

end RuleVote
