import RuleVote.Failure
import RuleVote.Number.Single
import RuleVote.Text.SortedSet

/-!
# Rule expressions

Every expression has a single precision value. Comparisons and `not` give
one or zero, `and` and `or` give the operand that decides, and a value is
true when it is not zero, so a value that is not a number is true. A chain
of comparisons stops at the first link that does not hold and an operand
after the deciding one is not read, so whether a feature is read at all
depends on the row.
-/

namespace RuleVote

/-- One row of features: the value of a feature, if the row has it. -/
abbrev Row := String → Option Float32

/-- A feature was read that the row does not have. -/
structure MissingFeature where
  /-- The feature. -/
  feature : String
deriving DecidableEq, Repr

/-- The failure that a missing feature is reported as. -/
def MissingFeature.failure (m : MissingFeature) : Failure := .missingFeature m.feature

/-- Comparison operators. -/
inductive Comparator where
  | less | lessEqual | equal | notEqual | greaterEqual | greater
deriving DecidableEq, Repr

namespace Comparator

/-- Every comparator, in the order in which an author is offered them. -/
def all : List Comparator := [less, lessEqual, equal, notEqual, greaterEqual, greater]

/-- The symbol in rule text. -/
def symbol : Comparator → String
  | less => "<"
  | lessEqual => "<="
  | equal => "=="
  | notEqual => "!="
  | greaterEqual => ">="
  | greater => ">"

/-- The comparator with a given symbol. -/
def ofSymbol? (symbol : String) : Option Comparator := all.find? (·.symbol == symbol)

/-- The comparator offered for the rows that a comparison does not select. -/
def negated : Comparator → Comparator
  | less => greaterEqual
  | lessEqual => greater
  | equal => notEqual
  | notEqual => equal
  | greaterEqual => less
  | greater => lessEqual

/-- Whether two values stand in the relation. -/
def holds : Comparator → Float32 → Float32 → Bool
  | less, a, b => a < b
  | lessEqual, a, b => a ≤ b
  | equal, a, b => a == b
  | notEqual, a, b => a != b
  | greaterEqual, a, b => b ≤ a
  | greater, a, b => b < a

end Comparator

/-- Connectives of two or more operands. -/
inductive Connective where
  | and | or
deriving DecidableEq, Repr

/-- The keyword of a connective. -/
def Connective.keyword : Connective → String
  | .and => "and"
  | .or => "or"

/-- Operators of one operand. -/
inductive UnaryOperator where
  /-- Truth negation. -/
  | not
  /-- Arithmetic negation. -/
  | minus
deriving DecidableEq, Repr

/-- Constants. -/
inductive Literal where
  | number (value : Float32)
  | truth (value : Bool)
deriving DecidableEq, Repr

/-- One for true, zero for false. -/
def truthValue (b : Bool) : Float32 := if b then 1 else 0

/-- Whether a value counts as true. -/
def isTrue (x : Float32) : Bool := x != 0

/-- The value of a constant. -/
def Literal.value : Literal → Float32
  | .number x => x
  | .truth b => truthValue b

/-- An expression over the features of a row. -/
inductive Expr where
  /-- A constant. -/
  | literal (value : Literal)
  /-- The value of a feature. -/
  | feature (name : String)
  /-- A chain `first op₁ e₁ op₂ e₂ …`, true when every link holds. -/
  | comparison (first : Expr) (links : List (Comparator × Expr))
  /-- A connective over its operands, in source order. -/
  | connected (op : Connective) (operands : List Expr)
  /-- An operator before its operand. -/
  | unary (op : UnaryOperator) (operand : Expr)
deriving Repr

instance : Inhabited Expr := ⟨.literal (.truth false)⟩

namespace Expr

mutual

/-- The feature names that occur, in source order. -/
def occurrences : Expr → List String
  | .literal _ => []
  | .feature name => [name]
  | .comparison first links => first.occurrences ++ linkOccurrences links
  | .connected _ operands => operandOccurrences operands
  | .unary _ operand => operand.occurrences

/-- The feature names in the links of a chain. -/
def linkOccurrences : List (Comparator × Expr) → List String
  | [] => []
  | (_, right) :: links => right.occurrences ++ linkOccurrences links

/-- The feature names in a list of operands. -/
def operandOccurrences : List Expr → List String
  | [] => []
  | operand :: operands => operand.occurrences ++ operandOccurrences operands

end

/-- Whether an operand settles a connective: a false one does for `and`, a
true one for `or`. -/
def decides (op : Connective) (x : Float32) : Bool :=
  match op with
  | .and => !isTrue x
  | .or => isTrue x

/-- The value of an operator applied to a value. -/
def applyUnary : UnaryOperator → Float32 → Float32
  | .minus, x => -x
  | .not, x => truthValue (!isTrue x)

mutual

/-- The value of an expression on a row. -/
def eval (row : Row) : Expr → Except MissingFeature Float32
  | .literal value => .ok value.value
  | .feature name =>
    match row name with
    | some x => .ok x
    | none => .error ⟨name⟩
  | .comparison first links => do evalLinks row (← eval row first) links
  | .connected op operands => evalOperands row op 0 operands
  | .unary op operand => do return applyUnary op (← eval row operand)

/-- The value of a chain whose last operand read so far had the value `left`. -/
def evalLinks (row : Row) (left : Float32) :
    List (Comparator × Expr) → Except MissingFeature Float32
  | [] => .ok 1
  | (op, right) :: links => do
    let value ← eval row right
    if op.holds left value then evalLinks row value links else return 0

/-- The value of a connective; `last` is the value of the operand before. -/
def evalOperands (row : Row) (op : Connective) (last : Float32) :
    List Expr → Except MissingFeature Float32
  | [] => .ok last
  | operand :: operands => do
    let value ← eval row operand
    if decides op value then return value else evalOperands row op value operands

end

/-- Whether the expression is true on a row. -/
def holds (row : Row) (e : Expr) : Except MissingFeature Bool := do
  return isTrue (← e.eval row)

end Expr

/-- Equality of constants as numbers compare: zeros of both signs agree, and
a value that is not a number agrees with nothing. -/
def Literal.agrees : Literal → Literal → Bool
  | .number x, .number y => x == y
  | .truth a, .truth b => a == b
  | _, _ => false

namespace Expr

mutual

/-- Equality of expressions with constants compared by `Literal.agrees`. -/
def agrees : Expr → Expr → Bool
  | .literal a, .literal b => a.agrees b
  | .feature a, .feature b => a == b
  | .comparison a as, .comparison b bs => a.agrees b && linksAgree as bs
  | .connected op as, .connected op' bs => op == op' && operandsAgree as bs
  | .unary op a, .unary op' b => op == op' && a.agrees b
  | _, _ => false

/-- Equality of the links of two chains. -/
def linksAgree : List (Comparator × Expr) → List (Comparator × Expr) → Bool
  | [], [] => true
  | (op, a) :: as, (op', b) :: bs => op == op' && a.agrees b && linksAgree as bs
  | _, _ => false

/-- Equality of two lists of operands. -/
def operandsAgree : List Expr → List Expr → Bool
  | [], [] => true
  | a :: as, b :: bs => a.agrees b && operandsAgree as bs
  | _, _ => false

end

end Expr

end RuleVote
