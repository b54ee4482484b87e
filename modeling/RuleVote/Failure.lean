/-!
# Failures

`Failure` lists the causes an operation reports, `Failure.text` words them.
Two classes matter to a run: a rule that does not parse or does not compile
is left out and the run goes on (`isRecoverable`), while a run with too few
rules, without its worker or without a feature is given up (`abortsRun`).

A computation on data of the wrong shape does not report a failure: it
breaks off where it reads past the end. `Stop` keeps the two apart, so that
"never breaks off" can be stated. It also breaks off where it would store more
numbers than any list can hold (`reserve`): sizes that are settings or counts
of classes are bounded by nothing else. Memory is taken to suffice for all
that fits into lists.
-/

namespace RuleVote

/-- Why a document could not be read. -/
inductive DocumentFault where
  /-- The text is not a document. -/
  | malformed
  /-- The document does not describe a value of the wanted type. -/
  | unfitting
  /-- The text ends too early. -/
  | truncated
deriving DecidableEq, Repr

/-- A cause that an operation reports to its caller. -/
inductive Failure where
  /-- Rule text outside the grammar. -/
  | malformedRule (message : String)
  /-- A parsed rule that cannot become a labeling function. -/
  | rejectedRule (rule reason : String)
  /-- Fewer labeling functions than an aggregation needs. -/
  | tooFewRules (found required : Nat)
  /-- A feature that the active table does not have. -/
  | missingFeature (feature : String)
  /-- Training that cannot be done. -/
  | training (reason : String)
  /-- A call to the remote worker that failed. -/
  | remoteWorker (reason : String)
  /-- An operation called too early. -/
  | wrongState (expected found : String)
  /-- A setting outside its range. -/
  | badSetting (setting value constraint : String)
  /-- Two inputs whose sizes disagree. -/
  | shapeMismatch (expected actual : String)
  /-- A failing store. -/
  | store (reason : String)
  /-- An inconsistent configuration. -/
  | config (reason : String)
  /-- Configuration text that cannot be read at all. -/
  | unreadableConfig (reason : String)
  /-- A failing file operation. -/
  | inputOutput (reason : String)
  /-- A document that cannot be read. -/
  | document (fault : DocumentFault)
  /-- Any other cause, in words. -/
  | other (message : String)
deriving DecidableEq, Repr

namespace DocumentFault

/-- The fault in words. -/
def text : DocumentFault → String
  | malformed => "malformed document"
  | unfitting => "document of another type"
  | truncated => "unexpected end of document"

end DocumentFault

namespace Failure

/-- The wording of a failure. -/
def text : Failure → String
  | malformedRule message => "syntax error in rule: " ++ message
  | rejectedRule rule reason => "cannot compile rule '" ++ rule ++ "': " ++ reason
  | tooFewRules found required =>
    "insufficient rules: " ++ toString found ++ " eligible labeling functions, at least "
      ++ toString required ++ " required"
  | missingFeature feature =>
    "feature '" ++ feature ++ "' is not present in the active feature matrix"
  | training reason => "training failed: " ++ reason
  | remoteWorker reason => "remote worker error: " ++ reason
  | wrongState expected found => "invalid state: expected " ++ expected ++ ", found " ++ found
  | badSetting setting value constraint =>
    "invalid hyperparameter: " ++ setting ++ " = " ++ value ++ ", expected " ++ constraint
  | shapeMismatch expected actual =>
    "dimension mismatch: expected " ++ expected ++ ", got " ++ actual
  | store reason => "store error: " ++ reason
  | config reason => "configuration error: " ++ reason
  | unreadableConfig reason => "configuration error: " ++ reason
  | inputOutput reason => "I/O error: " ++ reason
  | document fault => "serialization error: " ++ fault.text
  | other message => message

/-- Failures that only leave out the offending rule. -/
def isRecoverable : Failure → Bool
  | malformedRule _ | rejectedRule _ _ => true
  | _ => false

/-- Failures that give up the whole run. -/
def abortsRun : Failure → Bool
  | tooFewRules _ _ | remoteWorker _ | missingFeature _ => true
  | _ => false

end Failure

/-- How a computation ends without a value. -/
inductive Stop where
  /-- It reports a failure. -/
  | failed (failure : Failure)
  /-- It breaks off: a position outside its data, or an assertion that does
  not hold. -/
  | broken
deriving DecidableEq, Repr

/-- A computation that may fail or break off. -/
abbrev Fallible (α : Type) := Except Stop α

/-- Reports a failure. -/
def fail {α : Type} (f : Failure) : Fallible α := .error (.failed f)

/-- Breaks off. -/
def breakOff {α : Type} : Fallible α := .error .broken

/-- Breaks off unless the condition holds. -/
def assertThat (condition : Bool) : Fallible Unit := if condition then .ok () else breakOff

/-- The number of four-byte numbers that is too large for a list, which has
fewer than `2 ^ 63` bytes. -/
def capacity : Nat := Nat.pow 2 61

/-- Breaks off where so many four-byte numbers are to be stored that no list
can hold them. -/
def reserve (count : Nat) : Fallible Unit := assertThat (count < capacity)

/-- The value, or a break where there is none. -/
def orBreak {α : Type} : Option α → Fallible α
  | some a => .ok a
  | none => breakOff

/-- A computation that can only fail, among those that may break off too. -/
def liftFailure {α : Type} : Except Failure α → Fallible α
  | .ok a => .ok a
  | .error f => fail f

instance : MonadLift (Except Failure) (Except Stop) := ⟨liftFailure⟩

/-- One computation after another succeeds exactly when both do. -/
theorem bind_eq_ok_iff {ε α β : Type} {x : Except ε α} {f : α → Except ε β} {b : β} :
    (x >>= f) = .ok b ↔ ∃ a, x = .ok a ∧ f a = .ok b := by
  cases x with
  | error e =>
    constructor
    · intro h
      cases h
    · rintro ⟨a, h, -⟩
      cases h
  | ok a =>
    constructor
    · exact fun h => ⟨a, rfl, h⟩
    · rintro ⟨a', h, h'⟩
      cases h
      exact h'

/-- What can only fail succeeds among those that may break off as well. -/
theorem liftFailure_eq_ok_iff {α : Type} {x : Except Failure α} {a : α} :
    liftFailure x = .ok a ↔ x = .ok a := by
  cases x with
  | error f =>
    constructor <;> intro h <;> cases h
  | ok b =>
    constructor <;> intro h <;> cases h <;> rfl

/-- There is room for numbers that are fewer than the capacity. -/
theorem reserve_eq_ok_iff {count : Nat} : reserve count = .ok () ↔ count < capacity := by
  rw [reserve, assertThat]
  by_cases h : count < capacity
  · rw [decide_eq_true h, if_pos rfl]
    exact iff_of_true rfl h
  · rw [decide_eq_false h, if_neg Bool.false_ne_true]
    exact iff_of_false nofun h

/-- A value is there exactly when it can be taken. -/
theorem orBreak_eq_ok_iff {α : Type} {x : Option α} {a : α} : orBreak x = .ok a ↔ x = some a := by
  cases x with
  | none =>
    constructor <;> intro h <;> cases h
  | some b =>
    constructor <;> intro h <;> cases h <;> rfl

end RuleVote
