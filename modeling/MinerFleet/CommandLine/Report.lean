/-
What the command line shows.

* `Order.report` — the lines for what came of an order;
* `fleetLines` — a fleet as a table with its sums;
* `Outcome`, `outcome` — what a run of the program comes to.
-/
import MinerFleet.CommandLine.Arguments
import MinerFleet.Decimal.Binary

namespace MinerFleet.CommandLine

open Api Http Decimal

/-! ### Columns -/

/-- As many blanks as a text lacks to a width. -/
def blanksTo (width : Nat) (s : String) : String :=
  String.ofList (List.replicate (width - s.length) ' ')

/-- A text at the left of a column; one that is too wide sticks out. -/
def left (width : Nat) (s : String) : String :=
  s ++ blanksTo width s

/-- A text at the right of a column. -/
def right (width : Nat) (s : String) : String :=
  blanksTo width s ++ s

/-- A text, or a hyphen in its place. -/
def orHyphen (s : Option String) : String :=
  s.getD "-"

/-- A row of a table of miners. -/
def fleetRow (name address model hashRate power temp best status : String) : String :=
  left 24 name ++ " " ++ left 16 address ++ " " ++ left 10 model ++ " " ++ right 10 hashRate
    ++ " " ++ right 8 power ++ " " ++ right 6 temp ++ " " ++ right 9 best ++ "  " ++ status

/-! ### Fleets -/

def memberLine (m : Member) : String :=
  let d := m.device
  fleetRow d.shortName d.connectionAddress (orHyphen d.deviceModel)
    (fixedText (d.hashRate.getD 0) 2) (fixedText (d.power.getD 0) 1)
    (fixedText (d.temp.getD 0) 1) (Magnitude.format (d.bestDiffValue.getD 0))
    (m.notice.elim "" Notice.text)

def memberLines (members : List Member) : List String :=
  if members = [] then ["No devices."]
  else fleetRow "Name" "IP" "Model" "GH/s" "W" "°C" "Best" "Status" :: members.map memberLine

def totalsLine (t : FleetTotals) : String :=
  toString t.deviceCount ++ " devices  " ++ fixedText t.totals.hashRate 2 ++ " GH/s  "
    ++ fixedText t.totals.power 1 ++ " W  best " ++ t.totals.bestDiffText

def stateLine (s : Snapshot) : String :=
  "sort " ++ s.sort.field.name ++ " " ++ s.sort.direction.name ++ "  next refresh in "
    ++ toString s.countdown.toNat ++ " s (every " ++ toString s.refreshInterval.toNat ++ " s)"
    ++ (if s.scanning then "  [scanning]" else "")
    ++ (if s.refreshing then "  [refreshing]" else "")

def passLines : Option PassSummary → List String
  | some (.discovery found added) =>
    ["Last scan: " ++ toString found ++ " found, " ++ toString added ++ " new"]
  | some (.discoveryFailed error) => ["Last scan failed: " ++ error]
  | some (.refresh _ warnings) => warnings.map ("warning: " ++ ·)
  | none => []

def fleetLines (s : Snapshot) : List String :=
  memberLines s.members ++ ["", totalsLine s.totals, stateLine s] ++ passLines s.lastPass

def familyLine (f : Family) : String :=
  left 12 (orHyphen f.deviceModel) ++ " " ++ left 8 (orHyphen f.asicModel) ++ " x"
    ++ left 3 (toString (f.asicCount.getD 0).toNat) ++ " " ++ orHyphen f.swarmColor

/-! ### Reports -/

def outcomeLine (address : String) : ActionOutcome → String
  | .ok message => address ++ ": " ++ message
  | .timeout => address ++ ": timed out"
  | .failed error => address ++ ": failed: " ++ error

/-- The lines for what came of an order. -/
def Order.report : Order → Content → List String
  | .scan, .started yes =>
    [if yes then "Scan started" else "A scan or refresh is already running"]
  | .refresh, .started yes =>
    [if yes then "Refresh started" else "Nothing to refresh, or a pass is already running"]
  | .add _, .device d => ["Added " ++ d.address ++ " (" ++ d.connectionAddress ++ ")"]
  | .remove _, .device d => ["Removed " ++ d.address]
  | .act address _, .outcome o => [outcomeLine address o]
  | .interval seconds, _ => ["Refresh interval set to " ++ toString seconds.toNat ++ " s"]
  | .view mode, _ => ["View set to " ++ mode.name]
  | .families, .families l => l.map familyLine
  | _, .fleet s => fleetLines s
  | _, _ => []

/-- What a run of the program comes to. -/
structure Outcome where
  exit : Nat
  output : String := ""
  /-- What is said about a failure, if anything is. -/
  complaint : Option String := none
deriving DecidableEq

/-- What a run comes to that the arguments make no sense for. -/
def Outcome.senseless : Outcome :=
  { exit := 2 }

/-- What a run comes to whose order was answered, or was not. -/
def Order.outcome (o : Order) : Except CallFailure Content → Outcome
  | .ok c => { exit := 0, output := String.join ((o.report c).map (· ++ "\n")) }
  | .error failure => { exit := 1, complaint := some ("Error: " ++ failure.message) }

end MinerFleet.CommandLine
