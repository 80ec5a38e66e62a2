/-
Messages as they travel.

* `Request.wire`, `Response.wire` — messages as they are sent, one to a connection;
* `Head` — the first line of a message and its fields;
* `Arrival` — a message of which perhaps only a part has arrived;
* `readRequest?`, `readReceived?` — what has arrived, as a request or as a response.

A body ends where its length says, behind its last chunk, or where the connection ends.
-/
import MinerFleet.Http.Message
import MinerFleet.Text.Basic
import MinerFleet.Text.Percent

namespace MinerFleet.Http

open Text

/-! ### Writing -/

/-- A message with its fields and its body. -/
def wireMessage (line : String) (fields : List (String × String)) (body : String) : String :=
  let all := fields ++ [("Content-Length", toString body.utf8ByteSize), ("Connection", "close")]
  line ++ "\r\n" ++ String.join (all.map fun f => f.1 ++ ": " ++ f.2 ++ "\r\n") ++ "\r\n" ++ body

/-- A field that may be absent. -/
def fieldOf (name : String) (value : Option String) : List (String × String) :=
  value.toList.map fun v => (name, v)

/-- A request as it is sent to a host. -/
def Request.wire (r : Request) (host : String) : String :=
  wireMessage (r.method.name ++ " " ++ r.target ++ " HTTP/1.1")
    ([("Host", host)] ++ fieldOf "Content-Type" r.contentType
      ++ fieldOf "X-Requested-With" r.requestedWith)
    r.body

/-- The type of a response's body. -/
def Payload.contentType? : Payload → Option String
  | .empty => none
  | .text _ => some "text/plain; charset=utf-8"
  | .json _ => some "application/json"

/-- A response as it is sent. -/
def Response.wire (r : Response) : String :=
  wireMessage ("HTTP/1.1 " ++ statusText r.status)
    (fieldOf "Content-Type" r.payload.contentType?) r.body

/-! ### Heads -/

/-- The first line of a message, and its fields by their names in small letters. -/
structure Head where
  line : String
  fields : List (String × String)

/-- The bytes in front of the first empty line and those behind it. -/
def splitHead? : List UInt8 → Option (List UInt8 × List UInt8)
  | 13 :: 10 :: 13 :: 10 :: rest => some ([], rest)
  | b :: rest => (splitHead? rest).map fun (head, body) => (b :: head, body)
  | [] => none

/-- A line without the carriage return at its end. -/
def trimLine (s : String) : String :=
  String.ofList (s.toList.filter (· ≠ '\r'))

def fieldOfLine (s : String) : String × String :=
  let (name, value) := splitOnce ':' s
  (String.ofList (name.toList.map Char.toLower), trim (value.getD ""))

def Head.ofBytes (bytes : List UInt8) : Head :=
  match (splitAt '\n' (utf8Lossy bytes)).map trimLine with
  | [] => ⟨"", []⟩
  | line :: fields => ⟨line, fields.map fieldOfLine⟩

def Head.get? (h : Head) (name : String) : Option String :=
  h.fields.lookup name

/-- The length that the body is said to have. -/
def Head.contentLength? (h : Head) : Option Nat :=
  (h.get? "content-length").bind String.toNat?

/-! ### Bodies -/

/-- The number that a row of hexadecimal digits in front of some bytes denotes. -/
def chunkLength (n : Nat) : List UInt8 → Nat
  | [] => n
  | b :: rest =>
    match hexValue? (Char.ofNat b.toNat) with
    | some v => chunkLength (n * 16 + v) rest
    | none => n

/-- What stands behind the end of the first line. -/
def behindLine? : List UInt8 → Option (List UInt8)
  | 13 :: 10 :: rest => some rest
  | _ :: rest => behindLine? rest
  | [] => none

/-- The chunks of a body put together, at most `fuel` of them; none if one is missing. -/
def joinChunks? : Nat → List UInt8 → Option (List UInt8)
  | 0, _ => none
  | fuel + 1, bytes =>
    match behindLine? bytes with
    | none => none
    | some rest =>
      match chunkLength 0 bytes with
      | 0 => some []
      | n =>
        if rest.length < n + 2 then none
        else (joinChunks? fuel (rest.drop (n + 2))).map (rest.take n ++ ·)

/-- A message of which a part has arrived: its head, and what stands behind. -/
structure Arrival where
  head : Head
  rest : List UInt8

namespace Arrival

/-- The message in some bytes, as soon as its head is there. -/
def ofBytes? (bytes : List UInt8) : Option Arrival :=
  (splitHead? bytes).map fun (head, rest) => ⟨.ofBytes head, rest⟩

/-- The body, when all of it has arrived. Without a length it ends with the connection, which is
what `closed` says. -/
def body? (a : Arrival) (closed : Bool) : Option (List UInt8) :=
  if a.head.get? "transfer-encoding" = some "chunked" then joinChunks? a.rest.length a.rest
  else
    match a.head.contentLength? with
    | some n => if a.rest.length < n then none else some (a.rest.take n)
    | none => if closed then some a.rest else none

end Arrival

/-! ### Reading -/

/-- The request in some bytes, when all of it has arrived. One without a length has no body. -/
def readRequest? (bytes : List UInt8) : Option Request := do
  let a ← Arrival.ofBytes? bytes
  let body ← if a.head.contentLength?.isNone && (a.head.get? "transfer-encoding").isNone then
      some [] else a.body? false
  match splitAt ' ' a.head.line with
  | method :: target :: _ =>
    return { Request.ofTarget (.ofName method) target with
      contentType := a.head.get? "content-type"
      requestedWith := a.head.get? "x-requested-with"
      body := (utf8? body).getD "\ufffd" }
  | _ => none

/-- The response in the bytes of a connection that has ended. -/
def readReceived? (bytes : List UInt8) : Option Received := do
  let a ← Arrival.ofBytes? bytes
  match splitAt ' ' a.head.line with
  | _ :: status :: _ => return ⟨← status.toNat?, (a.body? true).map utf8Lossy⟩
  | _ => none

end MinerFleet.Http
