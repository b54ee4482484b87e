import RuleVote.CommandLine.Batch
import RuleVote.CommandLine.Check

/-!
# The program

What words on the command line lead to in given surroundings.
-/

namespace RuleVote

namespace Surroundings

/-- Carries out a command. There is no network to serve. -/
def carryOut (w : Surroundings) : Command → CommandOutcome DirectoryStore
  | .serve host port =>
    .failure (.inputOutput ("cannot listen at " ++ (WorkerAddress.mk host port none).text))
  | .check rule table json => checkRule rule table json
  | .run paths => w.runBatch paths

/-- Shows something instead of carrying out a command. -/
def present : Command.Notice → CommandOutcome DirectoryStore
  | .answer text => .answer text
  | .complaint text => ⟨misuseStatus, "", text, none⟩

/-- What words lead to. -/
def respond (w : Surroundings) (words : List String) : CommandOutcome DirectoryStore :=
  match Command.ofWords words with
  | .ok command => w.carryOut command
  | .error notice => present notice

end Surroundings

end RuleVote
