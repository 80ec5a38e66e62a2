/-
Requests over the network.

* `lookUp` — the IPv4 address of a host;
* `exchange` — a request is sent, and what comes back;
* `within` — work that is given up when it takes too long.
-/
import MinerFleet.Address.HostName
import MinerFleet.Http.Url
import MinerFleet.Http.Wire
import MinerFleet.Probe.Interface
import Std.Async.DNS
import Std.Async.TCP
import Std.Async.Timer

namespace MinerFleet.Program

open Http Std.Async Std.Net

/-! ### Time -/

/-- Milliseconds pass. -/
def pause (time : Nat) : Async Unit :=
  sleep (.ofNat time)

/-- What comes of work that may take so many milliseconds. -/
def within {α : Type} (limit : Nat) (work : Async α) : Async (Option α) :=
  Async.race (some <$> work) do
    pause limit
    return none

/-! ### Hosts -/

/-- The first IPv4 address of a host. -/
def addressOf (host : String) : Async (Option IPv4Addr) := do
  match IPv4Addr.ofString host with
  | some address => return some address
  | none =>
    let found ← DNS.getAddrInfo host ""
    return found.findSome? fun
      | .v4 address => some address
      | .v6 _ => none

/-- The IPv4 address of a host, as a text. -/
def lookUp (host : String) : Async (Except ProbeFailure String) := do
  try
    match ← addressOf host with
    | some address => return .ok address.toString
    | none => return .error (.unreachable (host ++ " has no IPv4 address"))
  catch e =>
    return .error (.unreachable ("failed to lookup address information: " ++ toString e))

/-! ### Connections -/

/-- The bytes that come over a connection, until there are enough or the connection ends. -/
partial def receive (client : TCP.Socket.Client) (enough : List UInt8 → Bool)
    (bytes : ByteArray) : Async ByteArray := do
  if enough bytes.toList then return bytes
  match ← client.recv? 65536 with
  | some more => receive client enough (bytes ++ more)
  | none => return bytes

/-- A connection to a host, if somebody takes it. -/
def connect (url : Url) : Async (Option TCP.Socket.Client) := do
  try
    let some address ← addressOf url.host | return none
    let client ← TCP.Socket.Client.mk
    client.connect (.v4 ⟨address, url.port.toUInt16⟩)
    return some client
  catch _ =>
    return none

/-- A response is there as soon as its body is. -/
def isWhole (bytes : List UInt8) : Bool :=
  (Arrival.ofBytes? bytes).any fun a => (a.body? false).isSome

/-- Sends a request and waits for the response. -/
def exchange (url : Url) (request : Request) : Async Exchange := do
  let some client ← connect url | return .refused
  try
    client.send (request.wire url.authority).toUTF8
    let bytes ← receive client isWhole .empty
    match readReceived? bytes.toList with
    | some received => return .answered received
    | none => return .dropped
  catch _ =>
    return .dropped

end MinerFleet.Program
