/-
The network, seen from the daemon.

* `Reply` — what becomes of a request: an answer or a failure after some time, or nothing;
* `Reply.within` — the same for somebody who waits for so long and no longer;
* `Network` — what becomes of each request that can be made;
* `Call` — a request that was made, and how long it stayed open.

Times are in milliseconds. An answer at the last moment is still in time.
-/
import MinerFleet.Json.Basic
import MinerFleet.Probe.Action

namespace MinerFleet

/-- What becomes of a request. -/
inductive Reply (α : Type) where
  | after (delay : Nat) (result : Except ProbeFailure α)
  | never

namespace Reply

variable {α β : Type}

/-- What somebody gets who waits `limit` for a reply, and when. -/
def within (limit : Nat) : Reply α → Nat × Except ProbeFailure α
  | .after delay result => if delay ≤ limit then (delay, result) else (limit, .error .timeout)
  | .never => (limit, .error .timeout)

/-- How long a request stays open for somebody who waits `limit` for it. -/
def openFor (limit : Nat) : Reply α → Nat
  | .after delay _ => min delay limit
  | .never => limit

/-- Two requests made together: both results, as soon as both are there. -/
def both : Reply α → Reply β → Reply (Except ProbeFailure α × Except ProbeFailure β)
  | .after a x, .after b y => .after (max a b) (.ok (x, y))
  | _, _ => .never

end Reply

/-- What becomes of each request that can be made. -/
structure Network where
  /-- What a miner at an address says about itself and its state. -/
  info : String → Reply Json
  /-- What it says about its chips. -/
  asic : String → Reply Json
  act : String → Action → Reply String
  /-- The IPv4 address of a host. -/
  resolve : String → Reply String

inductive CallKind where
  | info | asic | act | resolve
deriving DecidableEq

/-- A request that was made: to whom, when, and until when it was open. -/
structure Call where
  kind : CallKind
  target : String
  begins : Nat
  ends : Nat
deriving DecidableEq

namespace Call

/-- How many requests of a kind were made. -/
def count (calls : List Call) (kind : CallKind) : Nat :=
  (calls.filter fun c => c.kind = kind).length

/-- How many requests for information are open at a moment. -/
def openAt (calls : List Call) (now : Nat) : Nat :=
  (calls.filter fun c => c.kind = .info ∧ now < c.ends).length

/-- The most requests for information that were open together, of calls in the order in which
they were made; `others` are the ends of those that may still be open, and `most` of them were
before. -/
def mostOpenFrom (others : List Nat) (most : Nat) : List Call → Nat
  | [] => most
  | c :: calls =>
    if c.kind = .info then
      let still := c.ends :: others.filter fun ends => c.begins < ends
      mostOpenFrom still (max most still.length) calls
    else
      mostOpenFrom others most calls

def mostOpen (calls : List Call) : Nat :=
  mostOpenFrom [] 0 calls

end Call

end MinerFleet
