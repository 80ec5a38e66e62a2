/-
The engine of a daemon.

* `Engine` — the fleet, the time to its next refresh, and what is going on;
* `Command` — what can be asked of it, and `Answer` what it says to that;
* `Event` — what happens to it: it starts, a second passes, a command comes, work is finished;
* `Effect` — what it does in turn: it launches work, publishes what the fleet looks like, replies
  and tells;
* `Engine.step` — what an event makes of an engine, and the effects in their order.

At most one pass is under way at any time. Miners that are to be added are asked beside it. What
has changed is published before it is replied.
-/
import MinerFleet.Config
import MinerFleet.Engine.Countdown
import MinerFleet.Fleet.Snapshot
import MinerFleet.Probe.Job
import MinerFleet.Registry

namespace MinerFleet

structure Engine (σ : Type) where
  config : Config
  registry : Registry σ
  countdown : Countdown
  view : ViewMode
  /-- Whether the store held any miners when the engine was made. -/
  hadData : Bool
  scanning : Bool := false
  refreshing : Bool := false
  lastPass : Option PassSummary := none
  /-- How many jobs are under way. -/
  inFlight : Nat := 0

inductive Command where
  | scan
  | refresh
  | add (address : String)
  | remove (address : String)
  | settings (changes : Settings)
deriving DecidableEq

inductive Answer where
  /-- Whether a pass was started. -/
  | started (yes : Bool)
  | device (d : Device)
  | done
deriving DecidableEq

inductive Event where
  | start
  | tick
  | command (ticket : Nat) (c : Command)
  | finished (result : JobResult)

inductive Effect where
  | launch (job : Job)
  | publish (s : Snapshot)
  | reply (ticket : Nat) (answer : Except Fault Answer)
  | tell (e : LogEvent)

namespace Engine

variable {σ : Type}

/-- A pass is under way. -/
def busy (e : Engine σ) : Bool :=
  e.scanning || e.refreshing

/-- What the fleet looks like now. -/
def snapshot (e : Engine σ) : Snapshot where
  members := e.registry.devices.map (Member.ofDevice e.config.staleAfter)
  totals := ⟨e.registry.devices.length, e.registry.totals⟩
  sort := e.registry.sort
  refreshInterval := e.countdown.interval
  countdown := e.countdown.remaining
  scanning := e.scanning
  refreshing := e.refreshing
  view := e.view
  lastPass := e.lastPass

/-- Effects that only tell. -/
def telling (log : List LogEvent) : List Effect :=
  log.map .tell

/-- One more job. -/
def launch (e : Engine σ) (job : Job) : Engine σ × List Effect :=
  ({ e with inFlight := e.inFlight + 1 }, [.launch job])

/-! ### Passes -/

/-- Begins a discovery, unless a pass is under way. Without a seed there is nothing to scan. -/
def startScan (e : Engine σ) : Engine σ × List Effect × Except Fault Bool :=
  match e.config.seed with
  | none => (e, [], .error (.config "no seed address is configured for discovery"))
  | some seed =>
    if e.busy then (e, [], .ok false)
    else
      let (e, effects) :=
        { e with scanning := true }.launch
          (.discovery seed e.config.netmask e.config.concurrency)
      (e, effects, .ok true)

/-- Begins a refresh, unless a pass is under way or there are no miners. -/
def startRefresh (e : Engine σ) (fetchAsic : Bool) : Engine σ × List Effect × Bool :=
  if e.busy || e.registry.isEmpty then (e, [], false)
  else
    let (e, effects) :=
      { e with refreshing := true, countdown := e.countdown.reset }.launch
        (.refresh e.registry.devices e.config.concurrency fetchAsic)
    (e, effects, true)

/-- The first pass: over the miners that were stored, or else over the network. -/
def start (e : Engine σ) : Engine σ × List Effect :=
  if e.hadData then
    let (e, effects, _) := e.startRefresh true
    (e, effects)
  else
    match e.startScan with
    | (e, effects, .ok _) => (e, effects)
    | (e, effects, .error fault) => (e, effects ++ telling [.noFirstPass fault])

/-- A second passes. -/
def tick (e : Engine σ) : Engine σ × List Effect :=
  let (countdown, due) := e.countdown.tick e.busy !e.registry.isEmpty
  let e := { e with countdown }
  if due then
    let (e, effects, _) := e.startRefresh false
    (e, effects)
  else
    (e, [])

/-! ### Commands -/

/-- Publishes what the fleet looks like, and replies. -/
def replying (e : Engine σ) (ticket : Nat) (answer : Except Fault Answer) : List Effect :=
  [.publish e.snapshot, .reply ticket answer]

/-- Asks a miner before it is added, unless its address is wrong or known. -/
def add (e : Engine σ) (ticket : Nat) (address : String) : Engine σ × List Effect :=
  let address := Text.trim address
  if !isPeer address then (e, [.reply ticket (.error (.invalidAddress address))])
  else if (e.registry.find? address).isSome then
    (e, [.reply ticket (.error (.duplicate address))])
  else
    e.launch (.peer address ticket)

variable [Store σ]

/-- The engine over a store, and what to tell about it. -/
def make (config : Config) (store : σ) : Engine σ × List LogEvent :=
  let (registry, hadData, log) := Registry.open_ store
  let (interval, log') := Store.load store Store.intervalKey Decoder.uint32
  let (view, log'') := Store.load store Store.viewKey ViewMode.names.decode
  ({ config, registry, hadData
     countdown := interval.elim .default .start
     view := view.getD .grid },
   log ++ log' ++ log'')

/-- Takes a miner out of the fleet. -/
def remove (e : Engine σ) (ticket : Nat) (address : String) : Engine σ × List Effect :=
  match e.registry.remove (Text.trim address) with
  | none => (e, e.replying ticket (.error (.unknownDevice address)))
  | some (d, registry, log) =>
    let e := { e with registry }
    (e, telling (log ++ [.deviceRemoved d.address]) ++ e.replying ticket (.ok (.device d)))

/-- A new interval, which begins at once. -/
def setInterval (e : Engine σ) (interval : UInt32) : Engine σ × List LogEvent :=
  let (registry, log) :=
    e.registry.save Store.intervalKey (.ofNat interval.toNat) .intervalNotSaved
  ({ e with registry, countdown := .start interval }, .intervalChanged interval :: log)

def sortBy (e : Engine σ) (field : SortField) : Engine σ × List LogEvent :=
  let (registry, log) := e.registry.sortBy field
  ({ e with registry }, log)

def setView (e : Engine σ) (view : ViewMode) : Engine σ × List LogEvent :=
  let (registry, log) := e.registry.save Store.viewKey (.string view.name) .viewNotSaved
  ({ e with registry, view }, log)

/-- A change, if there is one. -/
def change {α : Type} (e : Engine σ) (f : Engine σ → α → Engine σ × List LogEvent) :
    Option α → Engine σ × List LogEvent
  | some a => f e a
  | none => (e, [])

/-- Changes the settings all together, or not at all when one of them is wrong. -/
def setAll (e : Engine σ) (changes : Settings) : Except Fault (Engine σ × List LogEvent) :=
  if changes.refreshInterval = some 0 then
    .error (.config "refresh interval must be at least 1 second")
  else
    let (e, log) := e.change setInterval changes.refreshInterval
    let (e, log') := e.change sortBy changes.sort
    let (e, log'') := e.change setView changes.view
    .ok (e, log ++ log' ++ log'')

def settings (e : Engine σ) (ticket : Nat) (changes : Settings) : Engine σ × List Effect :=
  match e.setAll changes with
  | .error fault => (e, e.replying ticket (.error fault))
  | .ok (e, log) => (e, telling log ++ e.replying ticket (.ok .done))

def command (e : Engine σ) (ticket : Nat) : Command → Engine σ × List Effect
  | .scan =>
    let (e, effects, result) := e.startScan
    (e, effects ++ e.replying ticket (result.map .started))
  | .refresh =>
    let (e, effects, started) := e.startRefresh true
    (e, effects ++ e.replying ticket (.ok (.started started)))
  | .add address => e.add ticket address
  | .remove address => e.remove ticket address
  | .settings changes => e.settings ticket changes

/-! ### Finished work -/

/-- A discovery has ended. -/
def discovered (e : Engine σ) : Except Fault Report → Engine σ × List Effect
  | .ok report =>
    let (registry, added, log) := e.registry.merge report.devices
    let found := report.devices.length
    ({ e with registry, scanning := false, lastPass := some (.discovery found added) },
     telling (log ++ [.scanned found added]))
  | .error fault =>
    ({ e with scanning := false, lastPass := some (.discoveryFailed fault.message) },
     telling [.scanFailed fault])

/-- The line about a miner that did not answer. -/
def warning (failure : String × ProbeFailure) : String :=
  "Failed to get info from " ++ failure.1 ++ ": " ++ failure.2.message

/-- A refresh has ended. -/
def refreshed (e : Engine σ) (report : Report) : Engine σ × List Effect :=
  let polled := report.devices.length
  let warnings := report.failures.map warning
  let (registry, log) := e.registry.applyRefresh report.devices
  ({ e with
      registry
      refreshing := false
      countdown := e.countdown.reset
      lastPass := some (.refresh polled warnings) },
   telling (log ++ if warnings = [] then [] else [.refreshed polled warnings.length]))

/-- A miner that was to be added has been asked. -/
def probed (e : Engine σ) (ticket : Nat) (result : Except Fault Device) :
    Engine σ × List Effect :=
  match result with
  | .error fault => (e, telling [.notAdded fault] ++ e.replying ticket (.error fault))
  | .ok d =>
    match e.registry.insert d with
    | .error fault => (e, telling [.notAdded fault] ++ e.replying ticket (.error fault))
    | .ok (registry, log) =>
      let e := { e with registry }
      (e, telling (log ++ [.deviceAdded d.address]) ++ e.replying ticket (.ok (.device d)))

/-- Work has ended. -/
def finish (e : Engine σ) (result : JobResult) : Engine σ × List Effect :=
  let e := { e with inFlight := e.inFlight - 1 }
  match result with
  | .discovered result => e.discovered result
  | .refreshed report => e.refreshed report
  | .probed result ticket => e.probed ticket result

/-! ### Events -/

/-- What an event does, before what has changed is published. -/
def handle (e : Engine σ) : Event → Engine σ × List Effect
  | .start => e.start
  | .tick => e.tick
  | .command ticket c => e.command ticket c
  | .finished result => e.finish result

/-- What an event makes of an engine, and the effects in their order. -/
def step (e : Engine σ) (event : Event) : Engine σ × List Effect :=
  let (e, effects) := e.handle event
  (e, effects ++ [.publish e.snapshot])

end Engine

end MinerFleet
