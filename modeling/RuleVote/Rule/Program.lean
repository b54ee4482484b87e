import RuleVote.Rule.Expr

/-!
# Rule programs

A free-form rule is a list of statements: conditionals and returns. Running
a program gives the first return reached, or nothing when it runs off the
end; a conditional whose chosen body reaches no return goes on with the
statement after it. Statements are generic in what they return, so that a
program is resolved once (`resolveBlock`) and run many times.
-/

namespace RuleVote

/-- What a `return` in rule text names. -/
inductive ReturnTarget where
  /-- The code name of a label. -/
  | label (name : String)
  /-- The index of a label. -/
  | index (value : Int)
deriving DecidableEq, Repr

/-- A statement that returns values of type `τ`. -/
inductive Statement (τ : Type) where
  /-- Conditions with their bodies, tried in order, and the body taken when
  none holds. -/
  | conditional (branches : List (Expr × List (Statement τ)))
      (otherwise : Option (List (Statement τ)))
  /-- Ends the program with a target. -/
  | give (target : τ)

/-- A list of statements run in order. -/
abbrev Block (τ : Type) := List (Statement τ)

namespace Statement

variable {τ υ ε : Type}

mutual

/-- The return targets of a statement: bodies in order, the last body last. -/
def targets : Statement τ → List τ
  | .give target => [target]
  | .conditional branches otherwise => branchTargets branches ++ elseTargets otherwise

/-- The return targets of the bodies of some branches. -/
def branchTargets : List (Expr × List (Statement τ)) → List τ
  | [] => []
  | (_, body) :: branches => blockTargets body ++ branchTargets branches

/-- The return targets of an optional body. -/
def elseTargets : Option (List (Statement τ)) → List τ
  | none => []
  | some body => blockTargets body

/-- The return targets of a block. -/
def blockTargets : List (Statement τ) → List τ
  | [] => []
  | s :: block => s.targets ++ blockTargets block

end

mutual

/-- The feature names in the conditions of a statement, in source order. -/
def occurrences : Statement τ → List String
  | .give _ => []
  | .conditional branches otherwise => branchOccurrences branches ++ elseOccurrences otherwise

/-- The feature names in some branches. -/
def branchOccurrences : List (Expr × List (Statement τ)) → List String
  | [] => []
  | (condition, body) :: branches =>
    condition.occurrences ++ blockOccurrences body ++ branchOccurrences branches

/-- The feature names in an optional body. -/
def elseOccurrences : Option (List (Statement τ)) → List String
  | none => []
  | some body => blockOccurrences body

/-- The feature names in a block. -/
def blockOccurrences : List (Statement τ) → List String
  | [] => []
  | s :: block => s.occurrences ++ blockOccurrences block

end

mutual

/-- Replaces every target, stopping at the first one that is rejected. -/
def resolve (f : τ → Except ε υ) : Statement τ → Except ε (Statement υ)
  | .give target => do return .give (← f target)
  | .conditional branches otherwise => do
    let branches ← resolveBranches f branches
    let otherwise ← resolveElse f otherwise
    return .conditional branches otherwise

/-- Replaces the targets of some branches. -/
def resolveBranches (f : τ → Except ε υ) :
    List (Expr × List (Statement τ)) → Except ε (List (Expr × List (Statement υ)))
  | [] => .ok []
  | (condition, body) :: branches => do
    let body ← resolveBlock f body
    let branches ← resolveBranches f branches
    return (condition, body) :: branches

/-- Replaces the targets of an optional body. -/
def resolveElse (f : τ → Except ε υ) :
    Option (List (Statement τ)) → Except ε (Option (List (Statement υ)))
  | none => .ok none
  | some body => do return some (← resolveBlock f body)

/-- Replaces the targets of a block. -/
def resolveBlock (f : τ → Except ε υ) :
    List (Statement τ) → Except ε (List (Statement υ))
  | [] => .ok []
  | s :: block => do
    let s ← resolve f s
    let block ← resolveBlock f block
    return s :: block

end

mutual

/-- Runs a statement: the target reached, if any. -/
def run (row : Row) : Statement τ → Except MissingFeature (Option τ)
  | .give target => .ok (some target)
  | .conditional branches otherwise => do
    match ← runBranches row branches with
    | some reached => return reached
    | none => runElse row otherwise

/-- Runs the body of the first branch whose condition holds and gives what it
reached; nothing when no condition holds. -/
def runBranches (row : Row) :
    List (Expr × List (Statement τ)) → Except MissingFeature (Option (Option τ))
  | [] => .ok none
  | (condition, body) :: branches => do
    if ← condition.holds row then return some (← runBlock row body)
    else runBranches row branches

/-- Runs an optional body. -/
def runElse (row : Row) : Option (List (Statement τ)) → Except MissingFeature (Option τ)
  | none => .ok none
  | some body => runBlock row body

/-- Runs a block up to the first return reached. -/
def runBlock (row : Row) : List (Statement τ) → Except MissingFeature (Option τ)
  | [] => .ok none
  | s :: block => do
    match ← run row s with
    | some target => return some target
    | none => runBlock row block

end

end Statement

/-- The parsed body of a rule. -/
inductive RuleBody where
  /-- A single condition. -/
  | expression (condition : Expr)
  /-- A free-form program. -/
  | program (block : Block ReturnTarget)

namespace RuleBody

/-- Whether the body is a program. -/
def isProgram : RuleBody → Bool
  | expression _ => false
  | program _ => true

/-- The feature names that occur in the body, in source order. -/
def occurrences : RuleBody → List String
  | expression condition => condition.occurrences
  | program block => Statement.blockOccurrences block

/-- The features the body reads. -/
def features (b : RuleBody) : SortedSet String := SortedSet.ofList b.occurrences

end RuleBody

namespace Statement

mutual

/-- Equality of statements with constants compared as numbers. -/
def agrees : Statement ReturnTarget → Statement ReturnTarget → Bool
  | .give a, .give b => a == b
  | .conditional as a, .conditional bs b => branchesAgree as bs && elsesAgree a b
  | _, _ => false

/-- Equality of two lists of branches. -/
def branchesAgree :
    List (Expr × List (Statement ReturnTarget)) →
      List (Expr × List (Statement ReturnTarget)) → Bool
  | [], [] => true
  | (c, a) :: as, (d, b) :: bs => c.agrees d && blocksAgree a b && branchesAgree as bs
  | _, _ => false

/-- Equality of two optional bodies. -/
def elsesAgree :
    Option (List (Statement ReturnTarget)) → Option (List (Statement ReturnTarget)) → Bool
  | none, none => true
  | some a, some b => blocksAgree a b
  | _, _ => false

/-- Equality of two blocks. -/
def blocksAgree : List (Statement ReturnTarget) → List (Statement ReturnTarget) → Bool
  | [], [] => true
  | a :: as, b :: bs => a.agrees b && blocksAgree as bs
  | _, _ => false

end

end Statement

/-- Equality of bodies with constants compared as numbers. -/
def RuleBody.agrees : RuleBody → RuleBody → Bool
  | .expression a, .expression b => a.agrees b
  | .program a, .program b => Statement.blocksAgree a b
  | _, _ => false

end RuleVote
