/-
What can be asked of a daemon over HTTP.

* `Route` — a question or an order;
* `Route.method`, `Route.place`, `Route.body?` — how it is put;
* `Route.ofRequest` — what a request asks for, or `Rejection`, why it asks for nothing.

A request is judged from the outside in: its path, its method, what its path or query says, the
type of its body, and the body. The parts of a path may hold escapes where they name something.
-/
import MinerFleet.Api.Body
import MinerFleet.Fleet.Snapshot
import MinerFleet.Http.Message
import MinerFleet.Probe.Action
import MinerFleet.Text.Percent

namespace MinerFleet.Api

open Text Http

inductive Route where
  | health
  /-- The fleet, or only the miners in which a text is found. -/
  | fleet (filter : Option String)
  | totals
  | families
  | scan
  | refresh
  | add (address : String)
  | remove (address : String)
  | act (address : String) (action : Action)
  | settings (changes : Settings)
deriving DecidableEq

namespace Route

def method : Route → Method
  | .health | .fleet _ | .totals | .families => .get
  | .scan | .refresh | .add _ | .act _ _ => .post
  | .remove _ => .delete
  | .settings _ => .patch

/-- The path of all there is. -/
def root : String := "/api/v0"

/-- Where it is asked for, below the root. -/
def place : Route → String
  | .health => "/health"
  | .fleet _ => "/swarm"
  | .totals => "/swarm/totals"
  | .families => "/swarm/families"
  | .scan => "/swarm/scan"
  | .refresh => "/swarm/refresh"
  | .add _ => "/swarm/devices"
  | .remove address => "/swarm/devices/" ++ address
  | .act address action => "/swarm/devices/" ++ address ++ "/" ++ action.name
  | .settings _ => "/swarm/settings"

def body? : Route → Option Json
  | .add address => some (AddRequest.mk address).toJson
  | .settings changes => some changes.toJson
  | _ => none

end Route

/-! ### Rejections -/

/-- Why a request asks for nothing. -/
inductive Rejection where
  | noRoute
  | wrongMethod
  | malformedQuery
  /-- A name in the path is no text. -/
  | malformedPath
  | unknownAction (name : String)
  /-- The body is not announced as JSON. -/
  | notJson
  | malformedBody
  | wrongShape (error : DecodeError)

namespace Rejection

def status : Rejection → Nat
  | .malformedQuery | .malformedPath | .unknownAction _ | .malformedBody => 400
  | .noRoute => 404
  | .wrongMethod => 405
  | .notJson => 415
  | .wrongShape _ => 422

/-- Most rejections say no more than their status. -/
def response : Rejection → Response
  | .unknownAction name =>
    .json 400 (Complaint.mk ("unknown action " ++ quote name)).toJson
  | r => .bare r.status

end Rejection

/-! ### Requests -/

/-- The pairs of a query. -/
def queryPairs (query : String) : List (String × String) :=
  ((splitAt '&' query).filter (· ≠ "")).map fun piece =>
    let (key, value) := splitOnce '=' piece
    (formDecode key, formDecode (value.getD ""))

/-- The value of a key that may stand in a query once. -/
def queryValue (query : Option String) (key : String) : Except Rejection (Option String) :=
  match (queryPairs (query.getD "")).filter fun pair => pair.1 = key with
  | [] => .ok none
  | [pair] => .ok (some pair.2)
  | _ => .error .malformedQuery

/-- A name in a path. -/
def pathName (part : String) : Except Rejection String :=
  match utf8? (percentBytes part) with
  | some name => .ok name
  | none => .error .malformedPath

/-- The name of a type of content that is JSON, whatever is said behind it. -/
def isJsonType (contentType : String) : Bool :=
  match splitOnce '/' (String.ofList ((splitOnce ';' contentType).1.toList.map Char.toLower)) with
  | ("application", some kind) => ((splitAt '+' kind).getLast?).any (· = "json")
  | _ => false

/-- The body of a request. -/
def readBody {α : Type} (r : Request) (d : Decoder α) : Except Rejection α :=
  if !r.contentType.any isJsonType then .error .notJson
  else
    (Decoder.ofText d r.body).mapError fun e =>
      if e.isMalformed then .malformedBody else .wrongShape e

/-- The parts of a path below the root. -/
def partsBelow? (path : String) : Option (List String) :=
  match splitAt '/' path with
  | "" :: "api" :: "v0" :: parts => some parts
  | _ => none

/-- What is meant by the method and the path of a request. -/
def Route.ofParts (r : Request) : List String → Except Rejection Route
  | ["health"] => asking (.ok .health)
  | ["swarm"] => asking do return .fleet (← queryValue r.query "filter")
  | ["swarm", "totals"] => asking (.ok .totals)
  | ["swarm", "families"] => asking (.ok .families)
  | ["swarm", "scan"] => ordering .post (.ok .scan)
  | ["swarm", "refresh"] => ordering .post (.ok .refresh)
  | ["swarm", "settings"] =>
    ordering .patch do return .settings (← readBody r Settings.decode)
  | ["swarm", "devices"] =>
    ordering .post do return .add (← readBody r AddRequest.decode).address
  | ["swarm", "devices", address] =>
    if address = "" then .error .noRoute
    else ordering .delete do return .remove (← pathName address)
  | ["swarm", "devices", address, action] =>
    if action = "" then .error .noRoute
    else ordering .post do
      let address ← pathName address
      let name ← pathName action
      match Action.names.ofName? name with
      | some action => return .act address action
      | none => throw (.unknownAction name)
  | _ => .error .noRoute
where
  asking (route : Except Rejection Route) : Except Rejection Route :=
    if r.method = .get ∨ r.method = .head then route else .error .wrongMethod
  ordering (method : Method) (route : Except Rejection Route) : Except Rejection Route :=
    if r.method = method then route else .error .wrongMethod

/-- What a request asks for. -/
def Route.ofRequest (r : Request) : Except Rejection Route :=
  match partsBelow? r.path with
  | some parts => Route.ofParts r parts
  | none => .error .noRoute

end MinerFleet.Api
