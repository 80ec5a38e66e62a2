/-
An engine and what goes on around it.

* `System` — the engine, what it has published, the jobs that are under way, and all the replies
  it has sent;
* `System.make` — a system over a store, before it starts;
* `System.command`, `System.tick`, `System.finish` — what can happen next;
* `System.stop` — the engine ends; jobs go on, but what comes of them is dropped.
-/
import MinerFleet.Engine.Basic

namespace MinerFleet

/-- A reply: to which request, and what was published when it was sent. -/
structure Sent where
  ticket : Nat
  answer : Except Fault Answer
  published : Snapshot
deriving DecidableEq

/-- A job under way, by its number. -/
structure Ongoing where
  id : Nat
  job : Job
deriving DecidableEq

structure System (σ : Type) where
  engine : Engine σ
  published : Snapshot
  jobs : List Ongoing := []
  /-- The replies, the latest first. -/
  replies : List Sent := []
  /-- What was told, the latest first. -/
  log : List LogEvent := []
  /-- How many jobs there have been. -/
  launched : Nat := 0
  /-- How many commands there have been. -/
  tickets : Nat := 0
  running : Bool := true

namespace System

variable {σ : Type}

/-- What an effect does. -/
def apply (s : System σ) : Effect → System σ
  | .launch job =>
    { s with jobs := s.jobs ++ [⟨s.launched, job⟩], launched := s.launched + 1 }
  | .publish snapshot => { s with published := snapshot }
  | .reply ticket answer => { s with replies := ⟨ticket, answer, s.published⟩ :: s.replies }
  | .tell e => { s with log := e :: s.log }

/-- The reply to a request, if there has been one. -/
def replyTo? (s : System σ) (ticket : Nat) : Option Sent :=
  s.replies.find? fun r => r.ticket = ticket

/-- The engine ends. -/
def stop (s : System σ) : System σ :=
  if s.running then { s with running := false, log := .stopping :: s.log } else s

variable [Store σ]

/-- An event happens to the engine, and its effects follow in their order. -/
def happen (s : System σ) (event : Event) : System σ :=
  let (engine, effects) := s.engine.step event
  effects.foldl apply { s with engine }

/-- A system over a store, before the engine starts. -/
def make (config : Config) (store : σ) : System σ :=
  let (engine, log) := Engine.make config store
  { engine, published := engine.snapshot, log := log.reverse }

/-- The engine starts. -/
def start (s : System σ) : System σ :=
  s.happen .start

/-- A second passes. -/
def tick (s : System σ) : System σ :=
  if s.running then s.happen .tick else s

/-- A command comes; an engine that has ended does not answer it. -/
def command (s : System σ) (c : Command) : System σ :=
  let ticket := s.tickets
  let s := { s with tickets := ticket + 1 }
  if s.running then s.happen (.command ticket c)
  else s.apply (.reply ticket (.error .stopped))

/-- A job ends. When the engine has ended before, all that is left to do is to tell whoever waits
for the job. -/
def finish (s : System σ) (id : Nat) (result : JobResult) : System σ :=
  let s := { s with jobs := s.jobs.filter fun o => o.id ≠ id }
  if s.running then s.happen (.finished result)
  else
    match result with
    | .probed _ ticket => s.apply (.reply ticket (.error .stopped))
    | _ => s

end System

end MinerFleet
