import RuleVote.Failure

/-!
# Outcomes of commands

A command ends with an exit status, says something on two channels, and may
leave a store behind. Each way to fail has its own status as far as a caller
may want to tell them apart.
-/

namespace RuleVote

/-- Why a command failed. -/
inductive CommandFailure where
  /-- There is no file where one is needed. -/
  | missingFile (path : String)
  /-- A file does not hold what it should. -/
  | unfitInput (path reason : String)
  /-- Something outside did not work. -/
  | inputOutput (reason : String)
  /-- The rule to be checked is none. -/
  | badRule (failure : Failure)
  /-- The run failed. -/
  | refused (failure : Failure)
deriving DecidableEq, Repr

namespace CommandFailure

/-- The failure in words. -/
def text : CommandFailure → String
  | missingFile path => "File not found: " ++ path
  | unfitInput path reason => "Invalid input " ++ path ++ ": " ++ reason
  | inputOutput reason => "IO error: " ++ reason
  | badRule failure => failure.text
  | refused failure => failure.text

/-- The status for a run that failed. -/
def statusOf : Failure → Nat
  | .config _ | .unreadableConfig _ => 4
  | .tooFewRules .. => 6
  | .remoteWorker _ => 10
  | _ => 1

/-- The exit status. -/
def status : CommandFailure → Nat
  | missingFile _ => 3
  | unfitInput .. => 4
  | badRule _ => 5
  | inputOutput _ => 7
  | refused failure => statusOf failure

end CommandFailure

/-- The exit status of words that are no command. -/
def misuseStatus : Nat := 2

/-- The exit status of a command that broke off. -/
def brokenStatus : Nat := 101

/-- What a command leaves behind, `σ` being what a store is. -/
structure CommandOutcome (σ : Type) where
  /-- The exit status. -/
  status : Nat
  /-- What it says. -/
  output : String
  /-- What it says about trouble. -/
  trouble : String
  /-- The store and where it is, if it was opened. -/
  store : Option (String × σ)
deriving Repr

namespace CommandOutcome

variable {σ : Type}

/-- An answer. -/
def answer (text : String) : CommandOutcome σ := ⟨0, text, "", none⟩

/-- A failure. -/
def failure (f : CommandFailure) : CommandOutcome σ :=
  ⟨f.status, "", "error: " ++ f.text ++ "\n", none⟩

/-- The answer to an outcome, if there is one. -/
def ofFallible {α : Type} (say : α → String) : Fallible α → CommandOutcome σ
  | .ok a => answer (say a)
  | .error (.failed f) => failure (.refused f)
  | .error .broken => ⟨brokenStatus, "", "", none⟩

/-- The outcome with a store left behind. -/
def leaving (o : CommandOutcome σ) (path : String) (store : σ) : CommandOutcome σ :=
  { o with store := some (path, store) }

end CommandOutcome

end RuleVote
