/-
The client of a daemon.

* `callOf?` — the request for a route, and to whom it is sent;
* `readAnswer` — what came of it: the content of the answer, or `CallFailure`, why there is none.
-/
import MinerFleet.Api.Content
import MinerFleet.Http.Url

namespace MinerFleet.Api

open Http

/-- Where a daemon is found unless it is said otherwise. -/
def defaultBase : String := "http://127.0.0.1:7786"

/-- A text without the slashes at its end. -/
def withoutSlashes (s : String) : String :=
  String.ofList (s.toList.reverse.dropWhile (· = '/')).reverse

/-- The address of a route on a daemon. -/
def urlOf? (base : String) (route : Route) : Option Url := do
  let url ← Url.ofText? (withoutSlashes base ++ Route.root ++ route.place)
  match route with
  | .fleet (some text) => return url.addQuery "filter" text
  | _ => return url

/-- The address of a route and the request that is sent there. -/
def callOf? (base : String) (route : Route) : Option (Url × Request) := do
  let url ← urlOf? base route
  let request := Request.ofTarget route.method url.target
  match route.body? with
  | some v => return (url, request.withBody "application/json" v.compact)
  | none => return (url, request)

/-! ### Answers -/

inductive CallFailure where
  | unreachable
  | malformed
  /-- The daemon could not do it; it may say why. -/
  | refused (status : Nat) (complaint : Option Complaint)

namespace CallFailure

def message : CallFailure → String
  | .unreachable => "daemon unreachable"
  | .malformed => "malformed response"
  | .refused status (some complaint) => complaint.error ++ " (" ++ statusText status ++ ")"
  | .refused status none => "request failed: " ++ statusText status

end CallFailure

/-- The complaint in a body, if that is what it holds. -/
def complaintIn? (body : Option String) : Option Complaint :=
  body.bind fun text => (Decoder.ofText Complaint.decode text).toOption

/-- What came of the request for a route. -/
def readAnswer (route : Route) : Exchange → Except CallFailure Content
  | .refused | .dropped => .error .unreachable
  | .answered r =>
    if isSuccess r.status then
      match r.text?.map fun body => Content.ofBody body route with
      | some (.ok c) => .ok c
      | _ => .error .malformed
    else
      .error (.refused r.status (complaintIn? r.text?))

end MinerFleet.Api
