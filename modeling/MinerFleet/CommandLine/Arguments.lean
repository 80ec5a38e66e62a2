/-
The arguments of the command line.

* `Order` — what a user wants, and `Order.route`, what a daemon is asked for it;
* `Verb` — the name of an order, its operand and its option;
* `Reading` — what the arguments come to: an order to some daemon, a text to show, or nothing
  that makes sense;
* `readArguments` — the arguments, read from left to right.

An option stands in front of its value, or is joined to it by an equals sign; a short one may
touch it. Behind a pair of hyphens stand operands only. What begins with a hyphen is no value,
unless it is a hyphen alone.
-/
import MinerFleet.Api.Client

namespace MinerFleet.CommandLine

open Api Text

inductive Order where
  | status (filter : Option String)
  | scan
  | refresh
  | add (address : String)
  | remove (address : String)
  | act (address : String) (action : Action)
  | sort (field : SortField)
  | interval (seconds : UInt32)
  | view (mode : ViewMode)
  | families
deriving DecidableEq

/-- What a daemon is asked for an order. -/
def Order.route : Order → Route
  | .status filter => .fleet filter
  | .scan => .scan
  | .refresh => .refresh
  | .add address => .add address
  | .remove address => .remove address
  | .act address action => .act address action
  | .sort field => .settings { sort := some field }
  | .interval seconds => .settings { refreshInterval := some seconds }
  | .view mode => .settings { view := some mode }
  | .families => .families

/-! ### Verbs -/

/-- An order before its operand is known. -/
inductive Verb where
  | status | scan | refresh | add | remove | restart | identify | sort | interval | view | families
deriving DecidableEq

namespace Verb

/-- The commands by their names, with what is said about them. -/
def table : List (Verb × String × String) :=
  [(.status, "status", "Show the fleet and its totals"),
   (.scan, "scan", "Scan the network for miners"),
   (.refresh, "refresh", "Refresh all devices now"),
   (.add, "add", "Add a device by IP or hostname"),
   (.remove, "remove", "Remove a device"),
   (.restart, "restart", "Restart a device"),
   (.identify, "identify", "Make a device identify itself"),
   (.sort, "sort", "Sort by a field; repeating the active field flips direction"),
   (.interval, "interval", "Set the refresh interval in seconds"),
   (.view, "view", "Set the preferred view"),
   (.families, "families", "List distinct hardware families")]

def ofName? (name : String) : Option Verb :=
  (table.find? fun entry => entry.2.1 = name).map Prod.fst

def name (c : Verb) : String :=
  ((table.lookup c).map Prod.fst).getD ""

def about (c : Verb) : String :=
  ((table.lookup c).map Prod.snd).getD ""

/-- What the operand of a command is called, if it takes one. -/
def operand? : Verb → Option String
  | .status | .scan | .refresh | .families => none
  | .add | .remove | .restart | .identify => some "ADDRESS"
  | .sort => some "FIELD"
  | .interval => some "SECONDS"
  | .view => some "MODE"

/-- Whether a command takes a text to filter by. -/
def takesFilter : Verb → Bool
  | .status => true
  | _ => false

end Verb

/-- A whole number below two to the 32, with a sign or without. -/
def secondsOf? (s : String) : Option UInt32 :=
  let number? (cs : List Char) : Option Nat :=
    if cs = [] ∨ !cs.all Char.isDigit then none
    else some (cs.foldl (fun n c => n * 10 + (c.toNat - '0'.toNat)) 0)
  let below (n : Nat) (bound : Nat) : Option UInt32 :=
    if n < bound then some (UInt32.ofNat n) else none
  match s.toList with
  | '-' :: cs => (number? cs).bind (below · 1)
  | '+' :: cs => (number? cs).bind (below · UInt32.size)
  | cs => (number? cs).bind (below · UInt32.size)

/-- The order of a command with an operand. -/
def Verb.order? (value : String) : Verb → Option Order
  | .status | .scan | .refresh | .families => none
  | .add => some (.add value)
  | .remove => some (.remove value)
  | .restart => some (.act value .restart)
  | .identify => some (.act value .identify)
  | .sort => (SortField.names.ofName? value).map .sort
  | .interval => (secondsOf? value).map .interval
  | .view => (ViewMode.names.ofName? value).map .view

/-- The order of a command that takes no operand. -/
def Verb.bareOrder? (filter : Option String) : Verb → Option Order
  | .status => some (.status filter)
  | .scan => some .scan
  | .refresh => some .refresh
  | .families => some .families
  | .add | .remove | .restart | .identify | .sort | .interval | .view => none

/-! ### Texts to show -/

def version : String :=
  "axe-swarm-cli 0.1.0\n"

/-- Rows of two columns, the first as wide as its widest entry. -/
def twoColumns (rows : List (String × String)) : String :=
  let width := (rows.map fun r => r.1.length).foldl max 0
  String.join (rows.map fun (a, b) =>
    "  " ++ a ++ String.ofList (List.replicate (width - a.length) ' ') ++ "  " ++ b ++ "\n")

/-- What is said about the command that shows this. -/
def aboutHelp : String :=
  "Print this message or the help of the given subcommand(s)"

/-- What is shown about the command that shows this. -/
def helpOnHelp : String :=
  aboutHelp ++ "\n\nUsage: axe-swarm-cli help [COMMAND]...\n\nArguments:\n"
    ++ twoColumns [("[COMMAND]...", "Print help for the subcommand(s)")]

/-- What is shown about the whole program; `base` is what the environment says about the
daemon. -/
def overview (base : Option String) : String :=
  "Control the axe-swarm daemon\n\nUsage: axe-swarm-cli [OPTIONS] <COMMAND>\n\nCommands:\n"
    ++ twoColumns (Verb.table.map (fun entry => entry.2)
      ++ [("help", aboutHelp)])
    ++ "\nOptions:\n"
    ++ twoColumns
      [("    --api-url <API_URL>",
        "API base URL [env: AXE_SWARM_API_URL=" ++ base.getD "" ++ "] [default: "
          ++ defaultBase ++ "]"),
       ("-h, --help", "Print help"), ("-V, --version", "Print version")]

/-- What is shown about a command. -/
def Verb.help (c : Verb) : String :=
  let options :=
    (if c.takesFilter then
      [("-f, --filter <FILTER>", "Only show devices matching this text")] else [])
    ++ [("-h, --help", "Print help")]
  let usage := "Usage: axe-swarm-cli " ++ c.name
    ++ (if c.takesFilter then " [OPTIONS]" else "")
    ++ (c.operand?.elim "" fun o => " <" ++ o ++ ">")
  c.about ++ "\n\n" ++ usage ++ "\n"
    ++ (c.operand?.elim "" fun o => "\nArguments:\n" ++ twoColumns [("<" ++ o ++ ">", "")])
    ++ "\nOptions:\n" ++ twoColumns options

/-! ### Reading -/

/-- What the arguments come to. -/
inductive Reading where
  /-- An order to the daemon at a base, if one was named. -/
  | order (o : Order) (base : Option String)
  | display (text : String)
  | senseless

/-- What an argument is. -/
inductive Argument where
  /-- Operands only follow. -/
  | separator
  /-- An option by its long name, perhaps with a value. -/
  | long (name : String) (value : Option String)
  /-- Options by their letters, the last perhaps with a value. -/
  | short (letters : List Char)
  | operand (value : String)

def Argument.ofText (s : String) : Argument :=
  match s.toList with
  | ['-', '-'] => .separator
  | '-' :: '-' :: cs =>
    let (name, value) := splitOnce '=' (String.ofList cs)
    .long name value
  | '-' :: c :: cs => .short (c :: cs)
  | _ => .operand s

/-- The value of an option from the arguments behind it. -/
def nextValue? : List String → Option (String × List String)
  | [] => none
  | s :: rest =>
    match Argument.ofText s with
    | .operand value => some (value, rest)
    | _ => none

/-- The value of a short option: what touches it, or else the next argument. -/
def touching? (cs : List Char) (rest : List String) : Option (String × List String) :=
  match cs with
  | [] => nextValue? rest
  | '=' :: value => some (String.ofList value, rest)
  | value => some (String.ofList value, rest)

/-- The value of a long option. -/
def joined? (value : Option String) (rest : List String) : Option (String × List String) :=
  match value with
  | some value => some (value, rest)
  | none => nextValue? rest

/-- What has been said to a command so far. -/
structure Said where
  filter : Option String := none
  order : Option Order := none

namespace Verb

variable (c : Verb) (base : Option String)

/-- An operand of a command, which takes one at most. -/
def withOperand? (said : Said) (value : String) : Option Said :=
  if said.order.isSome then none
  else (c.order? value).map fun order => { said with order := some order }

/-- A text to filter by, which is given once at most. -/
def withFilter? (said : Said) (value : String) : Option Said :=
  if c.takesFilter && said.filter.isNone then some { said with filter := some value } else none

/-- All has been said. -/
def close (said : Said) : Reading :=
  match said.order <|> c.bareOrder? said.filter with
  | some order => .order order base
  | none => .senseless

/-- Operands up to the end. -/
def readOperands (said : Said) : List String → Reading
  | [] => c.close base said
  | s :: rest =>
    match c.withOperand? said s with
    | some said => readOperands said rest
    | none => .senseless

/-- The arguments behind a command, at most `fuel` of them. -/
def readFrom : Nat → Said → List String → Reading
  | _, said, [] => c.close base said
  | 0, _, _ :: _ => .senseless
  | fuel + 1, said, s :: rest =>
    let filtered (given : Option (String × List String)) : Reading :=
      match given with
      | none => .senseless
      | some (value, rest) =>
        match c.withFilter? said value with
        | some said => readFrom fuel said rest
        | none => .senseless
    match Argument.ofText s with
    | .separator => c.readOperands base said rest
    | .long "help" none => .display c.help
    | .long "filter" value => filtered (joined? value rest)
    | .short ('h' :: _) => .display c.help
    | .short ('f' :: cs) => filtered (touching? cs rest)
    | .operand value =>
      match c.withOperand? said value with
      | some said => readFrom fuel said rest
      | none => .senseless
    | .long _ _ | .short _ => .senseless

/-- The arguments behind a command. -/
def read (rest : List String) : Reading :=
  c.readFrom base rest.length {} rest

end Verb

/-- The arguments of a request for help. -/
def readHelp (env : Option String) : List String → Reading
  | [] => .display (overview env)
  | [name] =>
    match Verb.ofName? name with
    | some c => .display c.help
    | none => if name = "help" then .display helpOnHelp else .senseless
  | _ => .senseless

/-- The arguments, at most `fuel` of them; `base` is the daemon that they have named. -/
def readFrom (env : Option String) : Nat → Option String → List String → Reading
  | _, _, [] => .senseless
  | 0, _, _ :: _ => .senseless
  | fuel + 1, base, s :: rest =>
    match Argument.ofText s with
    | .long "api-url" value =>
      match joined? value rest, base with
      | some (value, rest), none => readFrom env fuel (some value) rest
      | _, _ => .senseless
    | .long "help" none => .display (overview env)
    | .long "version" none => .display version
    | .short ('h' :: _) => .display (overview env)
    | .short ('V' :: _) => .display version
    | .operand "help" => readHelp env rest
    | .operand name =>
      match Verb.ofName? name with
      | some c => c.read base rest
      | none => .senseless
    | .separator | .long _ _ | .short _ => .senseless

/-- The arguments of the program. The daemon is named by an argument, or else by the
environment. -/
def readArguments (env : Option String) (arguments : List String) : Reading :=
  match readFrom env arguments.length none arguments with
  | .order o base => .order o (base <|> env)
  | other => other

end MinerFleet.CommandLine
