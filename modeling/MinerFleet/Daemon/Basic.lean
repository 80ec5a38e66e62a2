/-
A daemon at work: its engine, its network and its clients, on one clock.

* `Daemon` — the engine with what goes on around it, how far its jobs are, and the requests that
  are still open;
* `Daemon.start`, `Daemon.request`, `Daemon.stop` — what is done to it;
* `Daemon.advance` — time passes;
* `Daemon.await` — time passes until a request has its response.

Nothing takes time but the network. At each moment the jobs go on first, then the second that is
full passes, and then the requests are answered that can be, or that have waited too long. That a
result comes before the second that is full at the same moment is a choice: an engine for which both
are there may take either first, and a `System.Run` has them in any order. The moments at which
nothing happens are left out. When time has passed up to a moment, what is due at this moment has
not happened yet.
-/
import MinerFleet.Api.Content

namespace MinerFleet

open Api Http

/-- How far a job is. -/
structure StagedJob where
  id : Nat
  stage : Stage

/-- What an open request waits for. -/
inductive Wait where
  /-- The engine's reply, if it comes before a deadline. -/
  | reply (ticket deadline : Nat)
  /-- A miner that was told to do something. -/
  | outcome (ends : Nat) (address : String) (action : Action) (outcome : ActionOutcome)

structure OpenRequest where
  number : Nat
  route : Route
  wait : Wait

/-- When an open request is answered at the latest. -/
def OpenRequest.ends (o : OpenRequest) : Nat :=
  match o.wait with
  | .reply _ deadline => deadline
  | .outcome ends _ _ _ => ends

/-- The time between two ticks. -/
def tickLength : Nat := 1000

structure Daemon (σ : Type) where
  system : System σ
  network : Network
  /-- Milliseconds since the start. -/
  now : Nat := 0
  nextTick : Nat := tickLength
  tasks : List StagedJob := []
  /-- How many jobs have begun. -/
  begun : Nat := 0
  /-- What was asked of the network, the latest first. -/
  calls : List Call := []
  openRequests : List OpenRequest := []
  /-- The responses by the numbers of their requests. -/
  responses : List (Nat × Response) := []
  /-- How many requests there have been. -/
  requests : Nat := 0

namespace Daemon

variable {σ : Type}

/-- How long a request waits for the engine. -/
def commandLimit : Nat := 15000

/-- The response to a request, if there has been one. -/
def responseTo? (d : Daemon σ) (number : Nat) : Option Response :=
  d.responses.lookup number

/-- The fleet as it was published last. -/
def published (d : Daemon σ) : Snapshot :=
  d.system.published

/-! ### Requests -/

def respond (d : Daemon σ) (number : Nat) (r : Response) : Daemon σ :=
  { d with responses := (number, r) :: d.responses }

/-- One more open request. -/
def keepOpen (d : Daemon σ) (o : OpenRequest) : Daemon σ :=
  { d with openRequests := d.openRequests ++ [o] }

/-- Answers an open request if its time has come. -/
def settleRequest (d : Daemon σ) (o : OpenRequest) : Daemon σ :=
  match o.wait with
  | .reply ticket deadline =>
    if deadline ≤ d.now then d.respond o.number (faultResponse .stopped)
    else
      match d.system.replyTo? ticket with
      | some sent => d.respond o.number (o.route.replied sent)
      | none => d.keepOpen o
  | .outcome ends address action outcome =>
    if ends ≤ d.now then
      let d := { d with system := d.system.apply (.tell (.acted address action outcome)) }
      d.respond o.number (o.route.response (.outcome outcome))
    else d.keepOpen o

/-- Answers the open requests whose time has come. -/
def settleRequests (d : Daemon σ) : Daemon σ :=
  d.openRequests.foldl settleRequest { d with openRequests := [] }

/-- The engine ends. -/
def stop (d : Daemon σ) : Daemon σ :=
  { d with system := d.system.stop }

variable [Store σ]

/-! ### Jobs -/

/-- What a moment has made of a job: it goes on, or the engine gets its result. -/
def progress (d : Daemon σ) (id : Nat) (p : Progress) : Daemon σ :=
  let system := p.log.foldl (fun s e => s.apply (.tell e)) d.system
  let d := { d with system, calls := p.calls.reverse ++ d.calls }
  match p.next with
  | .inl stage => { d with tasks := d.tasks ++ [⟨id, stage⟩] }
  | .inr result => { d with system := d.system.finish id result }

/-- The jobs that have been launched begin. -/
def beginJobs (d : Daemon σ) : Daemon σ :=
  let new := d.system.jobs.filter fun o => d.begun ≤ o.id
  new.foldl (fun d o => d.progress o.id (o.job.begins d.network d.now))
    { d with begun := d.system.launched }

/-- A job goes on, if something happens to it now. -/
def stepTask (d : Daemon σ) (t : StagedJob) : Daemon σ :=
  if t.stage.nextEnd?.any (· ≤ d.now) then d.progress t.id (t.stage.step d.network d.now)
  else { d with tasks := d.tasks ++ [t] }

def stepTasks (d : Daemon σ) : Daemon σ :=
  d.tasks.foldl stepTask { d with tasks := [] }

/-! ### Events -/

/-- A daemon over a store, before its engine starts. -/
def make (config : Config) (store : σ) (network : Network) : Daemon σ :=
  { system := .make config store, network }

/-- Something happens to the system, and what it has launched begins. -/
def happen (d : Daemon σ) (f : System σ → System σ) : Daemon σ :=
  { d with system := f d.system }.beginJobs

/-- The engine starts. -/
def start (d : Daemon σ) : Daemon σ :=
  d.happen System.start

/-! ### Time -/

/-- What happens at a moment. The results of jobs come before the second that is full at the same
moment, which is one of the orders in which an engine may take them. -/
def moment (d : Daemon σ) : Daemon σ :=
  let d := d.stepTasks
  let d :=
    if d.nextTick ≤ d.now then
      { d with nextTick := d.nextTick + tickLength }.happen System.tick
    else d
  d.settleRequests

/-- The next moment at which something may happen. -/
def nextMoment (d : Daemon σ) : Nat :=
  (d.tasks.filterMap (·.stage.nextEnd?) ++ d.openRequests.map OpenRequest.ends).foldl min d.nextTick

/-- What is due happens. -/
def catchUp (d : Daemon σ) : Daemon σ :=
  if d.nextMoment ≤ d.now then d.moment else d

/-- Time passes up to the next moment at which something may happen, and it happens. -/
def proceed (d : Daemon σ) : Daemon σ :=
  { d with now := max d.now d.nextMoment }.moment

/-- As `advance`, through at most `fuel` moments. -/
def advanceTo (goal : Nat) : Nat → Daemon σ → Daemon σ
  | 0, d => { d with now := goal }
  | fuel + 1, d =>
    if goal ≤ d.nextMoment then { d with now := goal } else advanceTo goal fuel d.proceed

/-- Time passes. There are not more moments than milliseconds. -/
def advance (d : Daemon σ) (time : Nat) : Daemon σ :=
  advanceTo (d.now + time) time d

/-! ### Requests that come -/

/-- Carries out what a request asks for. -/
def carryOut (d : Daemon σ) (number : Nat) (method : Method) (route : Route) : Daemon σ :=
  match route.plan d.published with
  | .respond r => d.respond number (r.forMethod method)
  | .command c =>
    let wait : Wait := .reply d.system.tickets (d.now + commandLimit)
    ((d.catchUp.happen fun s => s.command c).keepOpen { number, route, wait }).settleRequests
  | .act device action =>
    let address := device.connectionAddress
    let (time, outcome) := d.network.dispatch address action
    let wait : Wait := .outcome (d.now + time) address action outcome
    let d := { d with calls := d.network.actCall d.now address action :: d.calls }
    (d.keepOpen { number, route, wait }).settleRequests

/-- A request comes. Its number is that of the requests before it. -/
def request (d : Daemon σ) (r : Request) : Daemon σ :=
  let number := d.requests
  let d := { d with requests := number + 1 }
  match Route.ofRequest r with
  | .error rejection => d.respond number rejection.response
  | .ok route => d.carryOut number r.method route

/-- As `await`, through at most `fuel` moments. -/
def awaitFrom (number : Nat) : Nat → Daemon σ → Daemon σ
  | 0, d => d
  | fuel + 1, d =>
    if (d.responseTo? number).isSome then d else awaitFrom number fuel d.proceed

/-- Time passes until a request has its response; none waits for longer than `commandLimit`. -/
def await (d : Daemon σ) (number : Nat) : Daemon σ :=
  awaitFrom number (commandLimit + 1) d

/-- Time passes until something is the case, through at most `fuel` moments. -/
def awaitWhen (isSo : Daemon σ → Bool) : Nat → Daemon σ → Daemon σ
  | 0, d => d
  | fuel + 1, d => if isSo d then d else awaitWhen isSo fuel d.proceed

end Daemon

end MinerFleet
