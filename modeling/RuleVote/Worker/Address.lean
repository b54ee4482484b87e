import RuleVote.Json.Decoder
import RuleVote.Json.Value

/-!
# Where a worker is found

A worker listens at a port of a host. A caller waits for its answers for a
while, or for as long as it takes.
-/

namespace RuleVote

/-- Where a worker listens and how long a caller waits for it. -/
structure WorkerAddress where
  /-- The name or address of the host. -/
  host : String
  /-- The port. -/
  port : Nat
  /-- The seconds a call may take, if there is a limit. -/
  timeout : Option Nat
deriving DecidableEq, Repr

namespace WorkerAddress

/-- The address used unless another one is given. -/
def standard : WorkerAddress := ⟨"127.0.0.1", 8000, none⟩

/-- Host and port in one. -/
def text (a : WorkerAddress) : String := a.host ++ ":" ++ toString a.port

/-- An address as JSON. -/
def toJson (a : WorkerAddress) : Json :=
  .object [("host", .string a.host), ("port", .ofNat a.port),
    ("timeout_secs", .ofOption .ofNat a.timeout)]

end WorkerAddress

namespace Decoder

/-- A port. -/
def port : Decoder Nat := fun d => Int.toNat <$> integer 0 (Nat.pow 2 16 - 1 : Nat) d

/-- An address, each part with its default. -/
def workerAddress : Decoder WorkerAddress :=
  let a := WorkerAddress.standard
  (WorkerAddress.mk <$> .defaulted "host" string a.host <*> .defaulted "port" port a.port
    <*> .defaulted "timeout_secs" (nullable nat) a.timeout : RecordDecoder WorkerAddress).decode

end Decoder

end RuleVote
