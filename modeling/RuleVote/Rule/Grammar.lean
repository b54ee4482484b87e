import RuleVote.Rule.Expr
import RuleVote.Rule.Token
import RuleVote.Text.Blank

/-!
# The grammar of expressions

From the loosest to the tightest binding: `or`, `and`, `not`, chains of
comparisons, the minus sign, and primaries (numbers, truth values, features,
parentheses). Each level is a reader built over the one below; `expression`
closes the circle at parentheses, each of which costs one unit of depth, so
the length of the text bounds the depth.

A repetition ends in front of the first link that cannot be read. When no
reading of a level succeeds, the text at which it gave up is the one of its
last alternative, which is what `parseExpression` reports.
-/

namespace RuleVote

namespace Grammar

open Token

/-- A sign in front of a value; on a number it becomes part of the number. -/
def negate : Expr → Expr
  | .literal (.number x) => .literal (.number (-x))
  | e => .unary .minus e

/-- Operands joined by a connective; one alone stands for itself. -/
def connect (op : Connective) (first : Expr) : List Expr → Expr
  | [] => first
  | rest => .connected op (first :: rest)

/-- A chain of comparisons; without links it is its first operand. -/
def chain (first : Expr) : List (Comparator × Expr) → Expr
  | [] => first
  | links => .comparison first links

/-- A comparison operator. -/
def takeComparator? : List Char → Option (Comparator × List Char)
  | '<' :: '=' :: rest => some (.lessEqual, rest)
  | '>' :: '=' :: rest => some (.greaterEqual, rest)
  | '=' :: '=' :: rest => some (.equal, rest)
  | '!' :: '=' :: rest => some (.notEqual, rest)
  | '<' :: rest => some (.less, rest)
  | '>' :: rest => some (.greater, rest)
  | _ => none

/-- The sign of a connective, which needs no gap after it. -/
def connectiveSign : Connective → Char
  | .and => '&'
  | .or => '|'

/-- A connective as a keyword or as a sign. -/
def takeConnective? (op : Connective) (cs : List Char) : Option (List Char) :=
  (takeKeyword? op.keyword cs).or (takeExactly [connectiveSign op] cs)

variable (inner : List Char → Parsed Expr)

/-- An expression in parentheses; `inner` reads the part between them. -/
def parenthesized : List Char → Parsed Expr
  | '(' :: rest =>
    match inner rest with
    | .error rest => .error rest
    | .ok (e, rest) =>
      match takeMark? ')' rest with
      | some rest => .ok (e, rest)
      | none => .error (skipGaps rest)
  | cs => .error cs

/-- A number, a truth value, a feature or an expression in parentheses. -/
def primary (cs : List Char) : Parsed Expr :=
  match takeNumber? cs with
  | some (x, rest) => .ok (.literal (.number x), rest)
  | none =>
  match takeKeyword? "True" cs with
  | some rest => .ok (.literal (.truth true), rest)
  | none =>
  match takeKeyword? "False" cs with
  | some rest => .ok (.literal (.truth false), rest)
  | none =>
  match takeLookup? cs with
  | some (name, rest) => .ok (.feature name, rest)
  | none =>
  match takeName? cs with
  | some (name, rest) => .ok (.feature name, rest)
  | none => parenthesized inner cs

/-- A primary after any number of signs. -/
def signed : List Char → Parsed Expr
  | [] => primary inner []
  | c :: rest =>
    if isGap c then signed rest
    else if c = '-' then
      match signed rest with
      | .ok (e, rest) => .ok (negate e, rest)
      -- no primary starts with a sign, so the text is given up where it stands
      | .error _ => .error (c :: rest)
    else primary inner (c :: rest)

/-- A comparison operator with the operand after it. -/
def link (cs : List Char) : Option ((Comparator × Expr) × List Char) := do
  let (op, rest) ← takeComparator? (skipGaps cs)
  let (e, rest) ← (signed inner rest).toOption
  return ((op, e), rest)

/-- A chain of comparisons. -/
def comparison (cs : List Char) : Parsed Expr :=
  match signed inner cs with
  | .error rest => .error rest
  | .ok (first, rest) =>
    let (links, rest) := many (link inner) rest
    .ok (chain first links, rest)

/-- A comparison after any number of `not`s. A `not` that negates nothing is
read as a comparison, where it can be the name of a table. -/
def negation : List Char → Parsed Expr
  | 'n' :: 'o' :: 't' :: rest =>
    if atWordEnd rest then
      match negation rest with
      | .ok (e, rest) => .ok (.unary .not e, rest)
      | .error _ => comparison inner ('n' :: 'o' :: 't' :: rest)
    else comparison inner ('n' :: 'o' :: 't' :: rest)
  | c :: rest => if isGap c then negation rest else comparison inner (c :: rest)
  | [] => comparison inner []

/-- A connective with the operand after it. -/
def further (op : Connective) (operand : List Char → Parsed Expr) (cs : List Char) :
    Option (Expr × List Char) := do
  (operand (← takeConnective? op (skipGaps cs))).toOption

/-- Operands of the level below joined by one connective. -/
def joined (op : Connective) (operand : List Char → Parsed Expr) (cs : List Char) :
    Parsed Expr :=
  match operand cs with
  | .error rest => .error rest
  | .ok (first, rest) =>
    let (operands, rest) := many (further op operand) rest
    .ok (connect op first operands, rest)

/-- An expression whose parentheses nest less than `depth` deep. -/
def expression : Nat → List Char → Parsed Expr
  | 0, cs => .error cs
  | depth + 1, cs => joined .or (joined .and (negation (expression depth))) cs

/-- An expression at the front of a text. Every parenthesis takes a
character, so no text runs out of depth. -/
def takeExpression (cs : List Char) : Parsed Expr := expression (cs.length + 1) cs

end Grammar

/-- The failure for a text that stops fitting the grammar where `rest`
begins. -/
def expressionFailure (text rest : List Char) : Failure :=
  let shown := trimChars rest
  let whole := String.ofList (trimChars text)
  if shown.isEmpty then .malformedRule ("incomplete expression `" ++ whole ++ "`")
  else .malformedRule
    ("unexpected input `" ++ String.ofList shown ++ "` in `" ++ whole ++ "`")

/-- Reads a text that holds one expression and nothing else. -/
def parseExpression (text : List Char) : Except Failure Expr :=
  match Grammar.takeExpression (trimLeft text) with
  | .error rest => .error (expressionFailure text rest)
  | .ok (e, rest) =>
    let rest := Token.skipGaps rest
    if rest.isEmpty then .ok e else .error (expressionFailure text rest)

end RuleVote
