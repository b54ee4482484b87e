import RuleVote.Json.Decoder
import RuleVote.Json.Value
import RuleVote.Rule.Basic

/-!
# Rules as JSON

A node of a rule body is an object with one entry, whose key is the kind of
the node. Reading recurses as deep as brackets may nest: every node takes at
least one bracket, so the limit on brackets is the limit on nodes too.
-/

namespace RuleVote

/-- The name of a comparator. -/
def Comparator.name : Comparator → String
  | .less => "Lt"
  | .lessEqual => "Le"
  | .equal => "Eq"
  | .notEqual => "Ne"
  | .greaterEqual => "Ge"
  | .greater => "Gt"

/-- The name of a connective. -/
def Connective.name : Connective → String
  | .and => "And"
  | .or => "Or"

/-- The name of an operator of one operand. -/
def UnaryOperator.name : UnaryOperator → String
  | .not => "Not"
  | .minus => "Neg"

/-- An object with one entry. -/
def Json.node (kind : String) (content : Json) : Json := .object [(kind, content)]

/-- A constant as JSON. -/
def Literal.toJson : Literal → Json
  | .number x => .node "Number" (.single x)
  | .truth b => .node "Bool" (.bool b)

namespace Expr

mutual

/-- An expression as JSON. -/
def toJson : Expr → Json
  | .literal value => .node "Literal" value.toJson
  | .feature name => .node "FeatureRef" (.string name)
  | .comparison first links =>
    .node "Comparison" (.object [("left", toJson first), ("links", .array (linksToJson links))])
  | .connected op operands =>
    .node "BoolOp"
      (.object [("op", .string op.name), ("operands", .array (operandsToJson operands))])
  | .unary op operand =>
    .node "UnaryOp" (.object [("op", .string op.name), ("operand", toJson operand)])

/-- The links of a chain as JSON. -/
def linksToJson : List (Comparator × Expr) → List Json
  | [] => []
  | (op, right) :: links => .array [.string op.name, toJson right] :: linksToJson links

/-- A list of operands as JSON. -/
def operandsToJson : List Expr → List Json
  | [] => []
  | operand :: operands => toJson operand :: operandsToJson operands

end

end Expr

/-- What a return names, as JSON. -/
def ReturnTarget.toJson : ReturnTarget → Json
  | .label name => .node "Label" (.string name)
  | .index i => .node "Index" (.integer i)

namespace Statement

mutual

/-- A statement as JSON. -/
def toJson : Statement ReturnTarget → Json
  | .give target => .node "Return" target.toJson
  | .conditional branches otherwise =>
    .node "Conditional"
      (.object [("branches", .array (branchesToJson branches)),
        ("otherwise", elseToJson otherwise)])

/-- Branches as JSON. -/
def branchesToJson : List (Expr × List (Statement ReturnTarget)) → List Json
  | [] => []
  | (condition, body) :: branches =>
    .array [condition.toJson, .array (blockToJson body)] :: branchesToJson branches

/-- An optional body as JSON. -/
def elseToJson : Option (List (Statement ReturnTarget)) → Json
  | none => .null
  | some body => .array (blockToJson body)

/-- A block as JSON. -/
def blockToJson : List (Statement ReturnTarget) → List Json
  | [] => []
  | s :: block => toJson s :: blockToJson block

end

end Statement

/-- A rule body as JSON. -/
def RuleBody.toJson : RuleBody → Json
  | .expression condition => .node "Expression" condition.toJson
  | .program block => .node "Program" (.array (Statement.blockToJson block))

/-- A parsed rule as JSON. -/
def ParsedRule.toJson (p : ParsedRule) : Json :=
  .object [("body", p.body.toJson), ("normalized", .string p.normalized),
    ("features", .ofList .string p.features.toList)]

/-- A rule as JSON; a missing name is left out. -/
def Rule.toJson (r : Rule) : Json :=
  .object ([("id", .string r.id)] ++ (r.name.map fun n => ("name", Json.string n)).toList
    ++ [("expression", .string r.expression), ("label_a", .integer r.whenTrue),
      ("label_b", .integer r.whenFalse)])

namespace Decoder

/-- A comparator. -/
def comparator : Decoder Comparator :=
  bareChoice (Comparator.all.map fun op => (op.name, op))

/-- A connective. -/
def connective : Decoder Connective :=
  bareChoice ([.and, .or].map fun op => (Connective.name op, op))

/-- An operator of one operand. -/
def unaryOperator : Decoder UnaryOperator :=
  bareChoice ([.not, .minus].map fun op => (UnaryOperator.name op, op))

/-- A constant. -/
def literal : Decoder Literal :=
  variantOf [("Number", .holding fun d => .number <$> single d),
    ("Bool", .holding fun d => .truth <$> bool d)]

/-- What a return names. -/
def returnTarget : Decoder ReturnTarget :=
  variantOf [("Label", .holding fun d => .label <$> string d),
    ("Index", .holding fun d => .index <$> index d)]

/-- An expression nested less than `depth` deep. -/
def exprWithin : Nat → Decoder Expr
  | 0, _ => .error .malformed
  | depth + 1, d =>
    let inner := exprWithin depth
    variantOf [
      ("Literal", .holding fun d => .literal <$> literal d),
      ("FeatureRef", .holding fun d => .feature <$> string d),
      ("Comparison", .holding
        (Expr.comparison <$> .required "left" inner
          <*> .required "links" (list (pair comparator inner)) : RecordDecoder Expr).decode),
      ("BoolOp", .holding
        (Expr.connected <$> .required "op" connective
          <*> .required "operands" (list inner) : RecordDecoder Expr).decode),
      ("UnaryOp", .holding
        (Expr.unary <$> .required "op" unaryOperator
          <*> .required "operand" inner : RecordDecoder Expr).decode)] d

/-- An expression. -/
def expr : Decoder Expr := exprWithin (Document.maxDepth + 1)

/-- A statement nested less than `depth` deep. -/
def statementWithin : Nat → Decoder (Statement ReturnTarget)
  | 0, _ => .error .malformed
  | depth + 1, d =>
    let body := list (statementWithin depth)
    variantOf [
      ("Conditional", .holding
        (Statement.conditional <$> .required "branches" (list (pair expr body))
          <*> .optional "otherwise" body : RecordDecoder (Statement ReturnTarget)).decode),
      ("Return", .holding fun d => .give <$> returnTarget d)] d

/-- A rule body. -/
def ruleBody : Decoder RuleBody :=
  variantOf [("Expression", .holding fun d => .expression <$> expr d),
    ("Program", .holding fun d =>
      .program <$> list (statementWithin (Document.maxDepth + 1)) d)]

/-- A set of strings, written as a list in any order. -/
def stringSet : Decoder (SortedSet String) := fun d => SortedSet.ofList <$> list string d

/-- A parsed rule. -/
def parsedRule : Decoder ParsedRule :=
  (ParsedRule.mk <$> .required "body" ruleBody <*> .required "normalized" string
    <*> .required "features" stringSet : RecordDecoder ParsedRule).decode

/-- A rule. -/
def rule : Decoder Rule :=
  (Rule.mk <$> .required "id" string <*> .defaulted "name" (nullable string) none
    <*> .required "expression" string <*> .required "label_a" index
    <*> .required "label_b" index : RecordDecoder Rule).decode

end Decoder

end RuleVote
