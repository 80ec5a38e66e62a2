/-
Addresses of web pages.

* `Url` — a host, a port, a path and a query;
* `Url.ofText?` — the address in a text, as browsers read it;
* `Url.addQuery` — one more pair in the query;
* `Url.target`, `Url.authority`, `Url.origin` — what is asked for, and who is asked.

Blanks around an address and line breaks in it do not count. Steps up and steps on the spot are
taken out of a path. What may not stand in a path or a query is escaped, and what is escaped
already stays so.
-/
import MinerFleet.Text.Basic
import MinerFleet.Text.Percent

namespace MinerFleet.Http

open Text

structure Url where
  host : String
  port : Nat
  /-- The path, with a slash in front. -/
  path : String
  query : Option String := none
deriving DecidableEq

namespace Url

/-! ### Escapes -/

/-- A character that is printed, and no blank. -/
def isVisible (c : Char) : Bool :=
  '\x21' ≤ c && c ≤ '\x7e'

/-- What stands in a path without an escape. -/
def isPathPlain (c : Char) : Bool :=
  isVisible c && ['"', '#', '<', '>', '?', '\x60', '\x7b', '\x7d'].all (c ≠ ·)

/-- What stands in a query without an escape. -/
def isQueryPlain (c : Char) : Bool :=
  isVisible c && ['"', '#', '<', '>', '\''].all (c ≠ ·)

/-! ### Paths -/

/-- A part of a path without the escapes of points. -/
def plainPoints : List Char → List Char
  | '%' :: '2' :: 'e' :: cs => '.' :: plainPoints cs
  | '%' :: '2' :: 'E' :: cs => '.' :: plainPoints cs
  | c :: cs => c :: plainPoints cs
  | [] => []

/-- The parts of a path without steps up and steps on the spot; `above` are the parts so far, the
latest first. A path that ends in a step ends in a slash. -/
def walk (above : List (List Char)) : List (List Char) → List (List Char)
  | [] => above.reverse
  | part :: parts =>
    let (above, isStep) :=
      match plainPoints part with
      | ['.', '.'] => (above.tail, true)
      | ['.'] => (above, true)
      | _ => (part :: above, false)
    if isStep && parts.isEmpty then (([] : List Char) :: above).reverse else walk above parts

/-- A path as it is asked for. Slashes of both kinds divide it. -/
def pathOf (cs : List Char) : String :=
  let parts := splitChars '/' (cs.map fun c => if c = '\\' then '/' else c)
  let parts := if cs = [] then parts else parts.tail
  joinWith "" ((walk [] parts).map fun part =>
    "/" ++ percentEncode isPathPlain (String.ofList part))

/-! ### Hosts -/

/-- What cannot stand in a host. -/
def isHostForbidden (c : Char) : Bool :=
  !isVisible c || ['#', '%', '/', ':', '<', '>', '?', '@', '[', '\\', ']', '^', '|'].contains c

/-- The number of a port. -/
def portOf? : List Char → Option Nat
  | [] => some 80
  | cs =>
    if cs.all Char.isDigit then
      let port := cs.foldl (fun n c => n * 10 + (c.toNat - '0'.toNat)) 0
      if port < UInt16.size then some port else none
    else
      none

/-- A host and its port. Whatever stands in front of an at sign tells who asks. -/
def authorityOf? (cs : List Char) : Option (String × Nat) :=
  let cs := (splitChars '@' cs).getLastD []
  let host := cs.takeWhile (· ≠ ':')
  let port := (cs.dropWhile (· ≠ ':')).drop 1
  if host = [] || host.any isHostForbidden then none
  else (portOf? port).map fun port => (String.ofList (host.map Char.toLower), port)

/-! ### Addresses -/

def isSlash (c : Char) : Bool :=
  c = '/' || c = '\\'

/-- A text without the blanks around it and the line breaks in it. -/
def tidied (s : String) : List Char :=
  let trim (cs : List Char) := cs.dropWhile (· ≤ ' ')
  (trim (trim s.toList).reverse).reverse.filter fun c => ['\t', '\n', '\r'].all (c ≠ ·)

/-- What stands behind the name of the protocol. -/
def behindScheme? (cs : List Char) : Option (List Char) :=
  if (cs.takeWhile (· ≠ ':')).map Char.toLower = "http".toList then
    some ((cs.dropWhile (· ≠ ':')).drop 1 |>.dropWhile isSlash)
  else
    none

/-- The address in a text. -/
def ofText? (s : String) : Option Url := do
  let cs ← behindScheme? ((tidied s).takeWhile (· ≠ '#'))
  let front := cs.takeWhile (· ≠ '?')
  let query := (cs.dropWhile (· ≠ '?')).tail?
  let isAuthority c := !isSlash c
  let (host, port) ← authorityOf? (front.takeWhile isAuthority)
  return {
    host, port
    path := pathOf (front.dropWhile isAuthority)
    query := query.map fun q => percentEncode isQueryPlain (String.ofList q) }

/-- One more pair in the query. -/
def addQuery (u : Url) (key value : String) : Url :=
  let pair := formEncode key ++ "=" ++ formEncode value
  let query := match u.query with
    | none | some "" => pair
    | some q => q ++ "&" ++ pair
  { u with query := some query }

/-- What is asked for. -/
def target (u : Url) : String :=
  u.path ++ (u.query.elim "" ("?" ++ ·))

/-- The host, and the port unless it is the usual one. -/
def authority (u : Url) : String :=
  u.host ++ (if u.port = 80 then "" else ":" ++ toString u.port)

/-- Who is asked. -/
def origin (u : Url) : String :=
  "http://" ++ u.authority

/-- The address in its usual form. -/
def text (u : Url) : String :=
  u.origin ++ u.target

end Url

end MinerFleet.Http
