/-
One-shot actions on miners.

* `Action` — what a miner can be told to do;
* `ActionOutcome` — what came of it.
-/
import MinerFleet.Json.Decode
import MinerFleet.Probe.Failure

namespace MinerFleet

inductive Action where
  | restart | identify
deriving DecidableEq

def Action.names : Choice Action :=
  [("restart", .restart), ("identify", .identify)]

def Action.name (a : Action) : String :=
  Action.names.nameOf a

inductive ActionOutcome where
  /-- The miner took the action; the message is its own. -/
  | ok (message : String)
  | timeout
  | failed (error : String)
deriving DecidableEq

namespace ActionOutcome

def isOk : ActionOutcome → Bool
  | .ok _ => true
  | _ => false

/-- The outcome of a request that was answered, or failed. -/
def ofReply : Except ProbeFailure String → ActionOutcome
  | .ok message => .ok message
  | .error .timeout => .timeout
  | .error failure => .failed failure.message

def toJson : ActionOutcome → Json
  | .ok message => .record [("status", .string "ok"), ("message", .string message)]
  | .timeout => .record [("status", .string "timeout")]
  | .failed error => .record [("status", .string "failed"), ("error", .string error)]

def kinds : Tagged ActionOutcome where
  title := "ActionOutcome"
  tag := "status"
  kinds :=
    [("ok",
      ⟨"struct variant ActionOutcome::Ok", [.needed "message" Decoder.text],
       fun fields => do return .ok (← readField fields "message" Decoder.text)⟩),
     ("timeout", ⟨"", [], fun _ => .ok .timeout⟩),
     ("failed",
      ⟨"struct variant ActionOutcome::Failed", [.needed "error" Decoder.text],
       fun fields => do return .failed (← readField fields "error" Decoder.text)⟩)]

def decode : Decoder ActionOutcome :=
  kinds.decode

end ActionOutcome

end MinerFleet
