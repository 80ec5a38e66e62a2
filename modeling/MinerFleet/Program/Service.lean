/-
A daemon that runs.

* `Service` — a system with its state file, and those who wait for its replies;
* `Service.happen` — something happens to the system, and its effects are carried out;
* `Service.answer` — the response to a request;
* `runDaemon` — a daemon from its start to its end.

The system decides what happens; here it is only carried out, one event after the other.
-/
import MinerFleet.Daemon.Boot
import MinerFleet.Program.Disk
import MinerFleet.Program.Worker
import Std.Async.Signal

namespace MinerFleet.Program

open Api Http Std.Async Std.Net

/-- A system, the replies that are waited for, by their tickets, and how many requests are being
answered. -/
structure Situation where
  system : System FileStore
  awaited : List (Nat × IO.Promise (Option Sent)) := []
  answering : Nat := 0

structure Service where
  statePath : String
  situation : Std.Mutex Situation

/-- Writes a line of the log. -/
def say (line : String) : IO Unit := do
  let out ← IO.getStdout
  out.putStrLn line
  out.flush

/-- A line about the daemon itself. -/
def sayOf (level message : String) : IO Unit :=
  say (level ++ " axe_swarmd: " ++ message)

def tell (e : LogEvent) : IO Unit :=
  say e.line

namespace Service

/-! ### Events -/

/-- The system with a state file as it is on the disk. -/
def withFolder (s : System FileStore) (folder : Folder) : System FileStore :=
  let registry := s.engine.registry
  { s with engine.registry := { registry with store := { registry.store with folder } } }

/-- Hands the replies to those who wait for them. -/
def deliver (awaited : List (Nat × IO.Promise (Option Sent))) (sent : List Sent) :
    IO (List (Nat × IO.Promise (Option Sent))) := do
  for reply in sent do
    if let some promise := awaited.lookup reply.ticket then
      promise.resolve (some reply)
  return awaited.filter fun a => sent.all fun reply => reply.ticket ≠ a.1

/-- Carries out what an event has made of a situation, but for the jobs, which it gives. -/
def settle (path : String) (before : Folder) (after : Situation) :
    IO (Situation × List Ongoing) := do
  let s := after.system
  try
    writeFolder path before s.engine.registry.store.folder
  catch e =>
    say (LogEvent.format "WARN" "store" "State file was not written" [("error", toString e)])
  for e in s.log.reverse do
    tell e
  let awaited ← deliver after.awaited s.replies
  return ({ after with system := { s with jobs := [], replies := [], log := [] }, awaited }, s.jobs)

/-- Something happens, and its effects are carried out. What comes of a job happens later. -/
partial def happen (service : Service) (event : Situation → Situation) : Async Unit := do
  let jobs ← service.situation.atomically do
    let folder ← readFolder service.statePath
    let before ← get
    let after := event { before with system := withFolder before.system folder }
    let (now, jobs) ← settle service.statePath folder after
    set now
    return jobs
  for o in jobs do
    background do
      let result ← perform tell o.job
      service.happen fun s => { s with system := s.system.finish o.id result }

/-- Something happens to the system. -/
def change (service : Service) (event : System FileStore → System FileStore) : Async Unit :=
  service.happen fun s => { s with system := event s.system }

def now (service : Service) : Async Situation :=
  service.situation.atomically get

/-- The seconds pass, as long as the engine runs; the next is full at a moment. -/
partial def runClock (service : Service) (due : Nat) : Async Unit := do
  pause (due - (← IO.monoMsNow))
  service.change System.tick
  if (← service.now).system.running then
    service.runClock (due + tickLength)

/-! ### Requests -/

/-- The engine's reply to a command, unless it takes too long. -/
def command (service : Service) (c : Command) : Async (Option Sent) := do
  let promise ← IO.Promise.new
  service.happen fun s =>
    { s with awaited := (s.system.tickets, promise) :: s.awaited, system := s.system.command c }
  return (← within Daemon.commandLimit (await promise)).join

/-- The response to a request. -/
def answer (service : Service) (r : Request) : Async Response := do
  match Route.ofRequest r with
  | .error rejection => return rejection.response
  | .ok route =>
    match route.plan (← service.now).system.published with
    | .respond response => return response.forMethod r.method
    | .command c =>
      match ← service.command c with
      | some sent => return route.replied sent
      | none => return faultResponse .stopped
    | .act device action =>
      let address := device.connectionAddress
      let outcome ← order address action
      tell (.acted address action outcome)
      return route.response (.outcome outcome)

/-- One more request is being answered, or one less. -/
def count (service : Service) (f : Nat → Nat) : Async Unit :=
  service.situation.atomically do
    modify fun s => { s with answering := f s.answering }

/-- Answers the one request of a connection. -/
def attend (service : Service) (client : TCP.Socket.Client) : Async Unit := do
  try
    let bytes ← receive client (fun bytes => (readRequest? bytes).isSome) .empty
    if let some r := readRequest? bytes.toList then
      service.count (· + 1)
      try
        client.send (← service.answer r).wire.toUTF8
        client.shutdown
      finally
        service.count (· - 1)
  catch _ =>
    return

/-- Takes one connection after the other. -/
partial def serve (service : Service) (server : TCP.Socket.Server) : Async Unit := do
  let client ← server.accept
  background (service.attend client)
  service.serve server

/-- Waits until no request is being answered. -/
partial def drain (service : Service) : Async Unit := do
  if (← service.now).answering ≠ 0 then
    pause 10
    service.drain

end Service

/-! ### Daemons -/

/-- An address as the system wants it. -/
def socketAddress (s : Socket) : SocketAddress :=
  match s.host with
  | .v4 address => .v4 ⟨(IPv4Addr.ofString address.text).getD default, s.port.toUInt16⟩
  | .v6 groups _ =>
    let part (i : Nat) := (groups.getD i 0).toUInt16
    .v6 ⟨.ofParts (part 0) (part 1) (part 2) (part 3) (part 4) (part 5) (part 6) (part 7),
      s.port.toUInt16⟩

/-- Listens at an address. -/
def listenAt (s : Socket) : IO TCP.Socket.Server := do
  let server ← TCP.Socket.Server.mk
  server.bind (socketAddress s)
  server.listen 128
  return server

/-- Waits for a signal to end. -/
def awaitSignal : IO Unit := do
  let interrupt ← (← Signal.Waiter.mk .sigint false).wait
  let terminate ← (← Signal.Waiter.mk .sigterm false).wait
  let name ← IO.waitAny [interrupt.map fun _ => "SIGINT", terminate.map fun _ => "SIGTERM"]
  sayOf "INFO" ("Received " ++ (← IO.ofExcept name))

/-- A daemon over its store, from its start to its end. -/
def runService (config : Config) (store : FileStore) : IO Unit := do
  let situation ← Std.Mutex.new { system := System.make config store : Situation }
  let service : Service := ⟨config.statePath, situation⟩
  Async.block do
    service.change System.start
    background (service.runClock ((← IO.monoMsNow) + tickLength))
  try
    let server ← listenAt config.listen
    say (LogEvent.format "INFO" "api::server" "API listening" [("listen", config.listen.text)])
    Async.block (background (service.serve server))
    awaitSignal
  catch e =>
    sayOf "ERROR" (bindFailure config.listen ++ ": " ++ toString e)
  Async.block do
    service.change System.stop
    service.drain

/-- A daemon with its settings from the environment. -/
def runDaemon : IO UInt32 := do
  let names := ["AXE_SWARM_SEED", "AXE_SWARM_NETMASK", "AXE_SWARM_LISTEN", "AXE_SWARM_STATE",
    "AXE_SWARM_CONCURRENCY", "AXE_SWARM_STALE_AFTER"]
  let settings ← names.mapM fun name => return (name, ← IO.getEnv name)
  let env (name : String) := (settings.lookup name).join
  let folder ← readFolder (Config.statePathOf env)
  match openStore env folder with
  | .error failure =>
    IO.eprintln failure.line
    return 1
  | .ok (config, store, log) =>
    sayOf "INFO" ("Starting axe-swarm seed=" ++ Text.quote (config.seed.getD "(none)")
      ++ " state=" ++ config.statePath)
    log.forM tell
    runService config store
    sayOf "INFO" "Exiting."
    return 0

end MinerFleet.Program
