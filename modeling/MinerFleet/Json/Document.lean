/-
JSON texts, taken apart but not yet judged.

* `Document` — the tree of a text: fields as they are written, repeated ones included, and the
  places where the text is damaged;
* `Document.value?` — the value of a text without damage; of repeated fields the last counts;
* `Document.isWhole` — the text does not break off: it may be passed over, if not used;
* `Document.ofJson` — the tree of a value.

A record is read from a document field by field, and what is wrong first is reported first: so
damage stands in the tree at its place.
-/
import MinerFleet.Json.Basic

namespace MinerFleet

/-- What can be wrong with a part of a text. -/
inductive Damage where
  /-- Well-formed, but without a value: a number too large for a float, half a surrogate pair,
  brackets nested too deep. -/
  | unreadable
  /-- Here the text stops to be JSON. -/
  | cut
deriving DecidableEq

inductive Document where
  | null
  | bool (b : Bool)
  | number (n : Number)
  | string (s : String)
  | array (items : List Document) (damage : Option Damage)
  | object (fields : List (String × Document)) (damage : Option Damage)
  | damaged (damage : Damage)

namespace Document

instance : Inhabited Document := ⟨.null⟩

mutual
/-- The tree of a value. -/
def ofJson : Json → Document
  | .null => .null
  | .bool b => .bool b
  | .number n => .number n
  | .string s => .string s
  | .array items => .array (ofItems items) none
  | .object fields => .object (ofFields fields) none

def ofItems : List Json → List Document
  | [] => []
  | v :: vs => ofJson v :: ofItems vs

def ofFields : List (String × Json) → List (String × Document)
  | [] => []
  | (k, v) :: fields => (k, ofJson v) :: ofFields fields
end

mutual
/-- The value of a document without damage. -/
def value? : Document → Option Json
  | .null => some .null
  | .bool b => some (.bool b)
  | .number n => some (.number n)
  | .string s => some (.string s)
  | .array items damage => if damage.isSome then none else (valuesOf? items).map .array
  | .object fields damage =>
    if damage.isSome then none else (fieldValues? fields).map Json.record
  | .damaged _ => none

def valuesOf? : List Document → Option (List Json)
  | [] => some []
  | d :: ds =>
    match value? d, valuesOf? ds with
    | some v, some vs => some (v :: vs)
    | _, _ => none

def fieldValues? : List (String × Document) → Option (List (String × Json))
  | [] => some []
  | (k, d) :: ds =>
    match value? d, fieldValues? ds with
    | some v, some vs => some ((k, v) :: vs)
    | _, _ => none
end

mutual
/-- The text of the document does not break off anywhere. -/
def isWhole : Document → Bool
  | .array items damage => damage != some .cut && areWhole items
  | .object fields damage => damage != some .cut && fieldsWhole fields
  | .damaged damage => damage != .cut
  | .null | .bool _ | .number _ | .string _ => true

def areWhole : List Document → Bool
  | [] => true
  | d :: ds => isWhole d && areWhole ds

def fieldsWhole : List (String × Document) → Bool
  | [] => true
  | (_, d) :: ds => isWhole d && fieldsWhole ds
end

/-- The fields of an object. -/
def fields : Document → List (String × Document)
  | .object fields _ => fields
  | _ => []

end Document

end MinerFleet
