/-
What a daemon answers.

* `Content` — the content of an answer, `Content.payload` and `Content.ofBody` its two ends;
* `Plan` — how a route is answered: at once, by the engine, or by a miner;
* `Route.response`, `faultResponse` — the answers.
-/
import MinerFleet.Api.Route
import MinerFleet.Engine.System
import MinerFleet.Fleet.Family
import MinerFleet.Fleet.Filter

namespace MinerFleet.Api

open Http

inductive Content where
  | alive
  | fleet (s : Snapshot)
  | totals (t : FleetTotals)
  | families (l : List Family)
  | started (yes : Bool)
  | device (d : Device)
  | outcome (o : ActionOutcome)

namespace Content

/-- The content as JSON. -/
def toJson : Content → Json
  | .alive => .string "OK"
  | .fleet s => s.toJson
  | .totals t => t.toJson
  | .families l => .array (l.map Family.toJson)
  | .started yes => (Started.mk yes).toJson
  | .device d => d.toJson
  | .outcome o => o.toJson

/-- The content as it is sent: all but a sign of life is JSON. -/
def payload : Content → Payload
  | .alive => .text "OK"
  | c => .json c.toJson

/-- The content of the body that answers a route. -/
def ofBody (body : String) : Route → Except DecodeError Content
  | .health => .ok .alive
  | .fleet _ | .settings _ => (Decoder.ofText Snapshot.decode body).map .fleet
  | .totals => (Decoder.ofText FleetTotals.decode body).map .totals
  | .families => (Decoder.ofText (Decoder.list Family.decode) body).map .families
  | .scan | .refresh => (Decoder.ofText Started.decode body).map fun r => .started r.started
  | .add _ | .remove _ => (Decoder.ofText Device.decode body).map .device
  | .act _ _ => (Decoder.ofText ActionOutcome.decode body).map .outcome

/-- The content of an engine's answer, and what was published when it was given. -/
def ofAnswer (published : Snapshot) : Answer → Content
  | .started yes => .started yes
  | .device d => .device d
  | .done => .fleet published

end Content

/-! ### Responses -/

/-- The status that a fault is answered with. -/
def faultStatus : Fault → Nat
  | .invalidAddress _ | .config _ => 400
  | .unknownDevice _ => 404
  | .duplicate _ => 409
  | .needsUpgrade _ => 422
  | .storage _ => 500
  | .noMiner _ _ | .scanTarget _ => 502
  | .stopped => 503

def faultResponse (fault : Fault) : Response :=
  .json (faultStatus fault) (Complaint.mk fault.message).toJson

namespace Route

/-- The status of an answer when all went well. -/
def status : Route → Nat
  | .add _ => 201
  | .scan | .refresh => 202
  | _ => 200

def response (route : Route) (c : Content) : Response :=
  ⟨route.status, c.payload⟩

/-- The response to a route that the engine has replied to. -/
def replied (route : Route) (sent : Sent) : Response :=
  match sent.answer with
  | .ok answer => route.response (.ofAnswer sent.published answer)
  | .error fault => faultResponse fault

end Route

/-! ### Plans -/

/-- How a route is answered. -/
inductive Plan where
  | respond (r : Response)
  /-- The engine is told, and answers. -/
  | command (c : Command)
  /-- A miner is told, and answers. -/
  | act (d : Device) (action : Action)

/-- How a route is answered while the fleet looks like this. -/
def Route.plan (s : Snapshot) (route : Route) : Plan :=
  match route with
  | .health => .respond (route.response .alive)
  | .fleet none => .respond (route.response (.fleet s))
  | .fleet (some text) => .respond (route.response (.fleet (s.filtered (·.isMatch text))))
  | .totals => .respond (route.response (.totals s.totals))
  | .families =>
    let devices := s.members.map (·.device)
    .respond (route.response (.families (MinerFleet.families devices)))
  | .scan => .command .scan
  | .refresh => .command .refresh
  | .add address => .command (.add address)
  | .remove address => .command (.remove address)
  | .settings changes => .command (.settings changes)
  | .act address action =>
    match s.find? address with
    | some m => .act m.device action
    | none => .respond (faultResponse (.unknownDevice address))

end MinerFleet.Api
