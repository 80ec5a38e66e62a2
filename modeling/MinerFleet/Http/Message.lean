/-
Requests and responses.

* `Request` — what a client sends, `Request.ofTarget` and `Request.target` its path and query in
  one text;
* `Response` — what a server answers;
* `Exchange` — what a client sees of it: an answer, perhaps not all of it, or none.
-/
import MinerFleet.Http.Status
import MinerFleet.Json.Printer
import MinerFleet.Text.Basic

namespace MinerFleet.Http

open Text

inductive Method where
  | get | head | post | patch | delete
  | other (name : String)
deriving DecidableEq

namespace Method

def name : Method → String
  | .get => "GET"
  | .head => "HEAD"
  | .post => "POST"
  | .patch => "PATCH"
  | .delete => "DELETE"
  | .other name => name

def ofName : String → Method
  | "GET" => .get
  | "HEAD" => .head
  | "POST" => .post
  | "PATCH" => .patch
  | "DELETE" => .delete
  | name => .other name

end Method

structure Request where
  method : Method
  /-- The path as it is written, with its escapes. -/
  path : String
  /-- What follows the question mark, if there is one. -/
  query : Option String := none
  contentType : Option String := none
  /-- By what the request was made, for servers that want to know. -/
  requestedWith : Option String := none
  body : String := ""
deriving DecidableEq

namespace Request

/-- The path, and the query if there is one. -/
def target (r : Request) : String :=
  r.path ++ (r.query.elim "" ("?" ++ ·))

/-- A request for a target. A fragment is not part of it. -/
def ofTarget (method : Method) (target : String) : Request :=
  let (path, query) := splitOnce '?' (splitOnce '#' target).1
  { method, path, query }

/-- The request with a body. -/
def withBody (r : Request) (contentType body : String) : Request :=
  { r with contentType := some contentType, body }

end Request

/-! ### Responses -/

inductive Payload where
  | empty
  | text (s : String)
  | json (v : Json)

structure Response where
  status : Nat
  payload : Payload

namespace Response

def json (status : Nat) (v : Json) : Response :=
  ⟨status, .json v⟩

/-- A response that says no more than its status. -/
def bare (status : Nat) : Response :=
  ⟨status, .empty⟩

/-- The response without its body, if that was not asked for. -/
def forMethod (r : Response) : Method → Response
  | .head => bare r.status
  | _ => r

/-- The text of a response's body. -/
def body (r : Response) : String :=
  match r.payload with
  | .empty => ""
  | .text s => s
  | .json v => v.compact

end Response

/-! ### Exchanges -/

/-- A response as it arrives. -/
structure Received where
  status : Nat
  /-- The text of its body, unless the connection broke off before its end. -/
  body : Option String

/-- What becomes of a request. -/
inductive Exchange where
  /-- Nobody took the connection. -/
  | refused
  /-- The connection was closed without an answer. -/
  | dropped
  | answered (r : Received)

/-- The exchange of a request that gets a response. -/
def Exchange.ofResponse (r : Response) : Exchange :=
  .answered ⟨r.status, some r.body⟩

/-- The text of the body, as far as the status allows for one. -/
def Received.text? (r : Received) : Option String :=
  if isBodyless r.status then some "" else r.body

end MinerFleet.Http
