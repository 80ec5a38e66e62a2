/-
The interface of a miner.

* `MinerCall` — what a miner is asked or told, and `MinerCall.requestAt?`, how it is put;
* `readValue`, `readMessage` — what an answer says;
* `resolveLiteral` — the IPv4 address of a host that is written as an address;
* `Network.overHttp` — the network of miners that answer at once.
-/
import MinerFleet.Address.Socket
import MinerFleet.Http.Url
import MinerFleet.Http.Message
import MinerFleet.Json.Reader
import MinerFleet.Probe.Network

namespace MinerFleet

open Http

inductive MinerCall where
  /-- What it says about itself and its state. -/
  | info
  /-- What it says about its chips. -/
  | asic
  | act (action : Action)
deriving DecidableEq

namespace MinerCall

def method : MinerCall → Method
  | .info | .asic => .get
  | .act _ => .post

def place : MinerCall → String
  | .info => "/api/system/info"
  | .asic => "/api/system/asic"
  | .act action => "/api/system/" ++ action.name

/-- Where it is put, and the request. Miners answer only to requests that seem to come from
their own page. -/
def requestAt? (c : MinerCall) (address : String) : Option (Url × Request) := do
  let url ← Url.ofText? ("http://" ++ address ++ c.place)
  return (url, { Request.ofTarget c.method url.target with requestedWith := "XMLHttpRequest" })

end MinerCall

/-! ### Answers -/

/-- The detail of a request that got no answer. -/
def unsent (url : Url) : String :=
  "error sending request for url (" ++ url.text ++ ")"

/-- The failure of an answer that cannot be read. -/
def unreadable : ProbeFailure :=
  .malformed "error decoding response body"

/-- The body of an answer, or why there is none. -/
def bodyOf (url : Url) : Exchange → Except ProbeFailure String
  | .refused => .error (.unreachable (unsent url))
  | .dropped => .error (.brokenOff (unsent url))
  | .answered r =>
    if isSuccess r.status then
      match r.text? with
      | some body => .ok body
      | none => .error unreadable
    else
      .error (.status r.status)

/-- The value that a miner answers with. -/
def readValue (url : Url) (e : Exchange) : Except ProbeFailure Json := do
  match Json.ofText? (← bodyOf url e) with
  | some v => return v
  | none => throw unreadable

/-- The text that a miner answers with. A mark of the byte order in front does not belong to
it. -/
def readMessage (url : Url) (e : Exchange) : Except ProbeFailure String := do
  let body ← bodyOf url e
  match body.toList with
  | '\ufeff' :: cs => return String.ofList cs
  | _ => return body

/-- The IPv4 address of a host. Names are not known here. -/
def resolveLiteral (host : String) : Except ProbeFailure String :=
  if isIpLiteral host then .ok host
  else if (ipv6? host.toList).isSome then
    .error (.unreachable (host ++ " has no IPv4 address"))
  else
    .error (.unreachable "failed to lookup address information: Name or service not known")

namespace Network

section

variable {α : Type} (exchange : Url → Request → Exchange)

/-- What comes of a call at an address. -/
def callWith (read : Url → Exchange → Except ProbeFailure α) (c : MinerCall)
    (address : String) : Reply α :=
  .after 0 <|
    match c.requestAt? address with
    | some (url, request) => read url (exchange url request)
    | none => .error (.brokenOff "builder error")

/-- The network of miners that answer over HTTP, at once. -/
def overHttp : Network where
  info := callWith exchange readValue .info
  asic := callWith exchange readValue .asic
  act address action := callWith exchange readMessage (.act action) address
  resolve host := .after 0 (resolveLiteral host)

end

end Network

end MinerFleet
