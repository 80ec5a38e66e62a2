/-
Typed readings of JSON documents.

* `DecodeError` — why a document is not what was expected, and `DecodeError.message`;
* `Decoder` — a reading of documents, with one for each basic type;
* `Shape` — a record by its fields, written as an object or as the array of its fields;
* `Choice` — a value by its name; `Tagged` — a record whose kind stands in one of its fields.

Documents are judged from left to right and the first fault is reported. Fields that nobody asked
for are passed over. When all fields are judged, the first missing one is reported, in the order
of the shape.
-/
import MinerFleet.Json.Printer
import MinerFleet.Json.Reader
import MinerFleet.Text.Basic
import MinerFleet.Text.Quoted

namespace MinerFleet

open Text

/-- Why a document is not what was expected. -/
inductive DecodeError where
  | wrongType (found : String) (expected : String)
  | outOfRange (found : Int) (expected : String)
  | missingField (name : String)
  | duplicateField (name : String)
  | unknownVariant (name : String) (known : List String)
  | wrongLength (length : Nat) (expected : String)
  | tooLong (length : Nat)
  | notVariant (found : String)
  /-- An object that should have the name of a variant as its only key; its first field may be
  wrong as well. -/
  | notSingle (first : Option DecodeError)
  | noAlternative (name : String)
  | notFlag (found : Json)
  | notText (found : Json)
  | damaged

namespace DecodeError

/-- The variants that could have been named. -/
def variantList (known : List String) : String :=
  let quoted := known.map fun name => "`" ++ name ++ "`"
  match quoted with
  | [] => "there are no variants"
  | [a] => "expected " ++ a
  | [a, b] => "expected " ++ a ++ " or " ++ b
  | _ => "expected one of " ++ joinWith ", " quoted

def message : DecodeError → String
  | .wrongType found expected => "invalid type: " ++ found ++ ", expected " ++ expected
  | .outOfRange found expected =>
    "invalid value: integer `" ++ toString found ++ "`, expected " ++ expected
  | .missingField name => "missing field `" ++ name ++ "`"
  | .duplicateField name => "duplicate field `" ++ name ++ "`"
  | .unknownVariant name known => "unknown variant `" ++ name ++ "`, " ++ variantList known
  | .wrongLength length expected =>
    "invalid length " ++ toString length ++ ", expected " ++ expected
  | .tooLong length =>
    "invalid length " ++ toString length ++ ", expected fewer elements in array"
  | .notVariant found => "invalid type: " ++ found ++ ", expected string or map"
  | .notSingle _ => "invalid value: map, expected map with a single key"
  | .noAlternative name => "data did not match any variant of untagged enum " ++ name
  | .notFlag found => "expected a flag, found " ++ found.compact
  | .notText found => "expected text, found " ++ found.compact
  | .damaged => "the text is not JSON"

/-- In a text, the fault is found as one of its form: the text is no JSON, or it holds something
else at a place where only a name or the end of a list may stand. -/
def isMalformed : DecodeError → Bool
  | .damaged | .tooLong _ | .notVariant _ => true
  | .notSingle none => true
  | .notSingle (some first) => first.isMalformed
  | _ => false

end DecodeError

/-- What a document is, for messages. -/
def Document.kind : Document → String
  | .null => "null"
  | .bool b => "boolean `" ++ (if b then "true" else "false") ++ "`"
  | .number (.int n) => "integer `" ++ toString n ++ "`"
  | .number (.float x) => "floating point `" ++ Number.floatText x ++ "`"
  | .string s => "string " ++ quote s
  | .array _ _ => "sequence"
  | .object _ _ => "map"
  | .damaged _ => "nothing"

/-- A typed reading of documents. -/
abbrev Decoder (α : Type) := Document → Except DecodeError α

namespace Decoder

variable {α : Type}

/-- The fault of a document that is not of the expected type. -/
def mismatch (expected : String) : Document → DecodeError
  | .damaged _ => .damaged
  | doc => .wrongType doc.kind expected

/-- Any value, as it is. -/
def value : Decoder Json := fun doc =>
  match doc.value? with
  | some v => .ok v
  | none => .error .damaged

def text : Decoder String
  | .string s => .ok s
  | doc => .error (mismatch "a string" doc)

def bool : Decoder Bool
  | .bool b => .ok b
  | doc => .error (mismatch "a boolean" doc)

/-- A number, whole or not. -/
def float : Decoder Float
  | .number n => .ok n.toFloat
  | doc => .error (mismatch "f64" doc)

/-- A whole number below a bound. -/
def natBelow (bound : Nat) (name : String) : Decoder Nat
  | .number (.int n) =>
    if 0 ≤ n ∧ n < bound then .ok n.toNat else .error (.outOfRange n name)
  | doc => .error (mismatch name doc)

def uint32 : Decoder UInt32 := fun doc =>
  (natBelow UInt32.size "u32" doc).map UInt32.ofNat

def uint64 : Decoder UInt64 := fun doc =>
  (natBelow UInt64.size "u64" doc).map UInt64.ofNat

/-- A number of things. -/
def count : Decoder Nat :=
  natBelow UInt64.size "usize"

/-- A value that may be absent, which is written `null`. -/
def option (d : Decoder α) : Decoder (Option α)
  | .null => .ok none
  | doc => (d doc).map some

/-- A list of things, read one after the other. -/
def list (d : Decoder α) : Decoder (List α)
  | .array items damage => do
    let all ← items.mapM d
    if damage.isSome then throw .damaged
    return all
  | doc => .error (mismatch "a sequence" doc)

/-- The reading of a whole text, which holds nothing but one document. -/
def ofText (d : Decoder α) (s : String) : Except DecodeError α := do
  let (doc, isAll) := Document.ofText s
  let a ← d doc
  if isAll then return a else throw .damaged

/-- The judgement of a reading, without its result. -/
def check (d : Decoder α) : Document → Except DecodeError Unit := fun doc =>
  (d doc).map fun _ => ()

end Decoder

/-! ### Records -/

/-- A field of a record: its name, other names for it, whether it may be left out, and which
documents may stand in it. -/
structure FieldRule where
  name : String
  aliases : List String
  required : Bool
  check : Document → Except DecodeError Unit

namespace FieldRule

variable {α : Type}

/-- A field that has to be there. -/
def needed (name : String) (d : Decoder α) : FieldRule :=
  ⟨name, [], true, d.check⟩

/-- A field that may be left out or `null`. -/
def optional (name : String) (d : Decoder α) : FieldRule :=
  ⟨name, [], false, (Decoder.option d).check⟩

/-- The rule for a key, which may be another name of its field. -/
def find? (rules : List FieldRule) (key : String) : Option FieldRule :=
  rules.find? fun rule => rule.name = key || rule.aliases.contains key

end FieldRule

/-- The fields of a record that are known, under their own names, judged in the order in which
they are written. `other` judges the keys that no rule knows. -/
def judgeFields (rules : List FieldRule)
    (other : String → Document → Except DecodeError Unit) (seen : List String) :
    List (String × Document) → Except DecodeError (List (String × Document))
  | [] => .ok []
  | (key, doc) :: fields =>
    match FieldRule.find? rules key with
    | none => do
      other key doc
      judgeFields rules other seen fields
    | some rule =>
      if seen.contains rule.name then .error (.duplicateField rule.name)
      else do
        rule.check doc
        return (rule.name, doc) :: (← judgeFields rules other (rule.name :: seen) fields)

/-- The first field that has to be there and is not. -/
def requireFields (rules : List FieldRule) (fields : List (String × Document)) :
    Except DecodeError Unit :=
  match rules.find? fun rule => rule.required && (lookup rule.name fields).isNone with
  | some rule => .error (.missingField rule.name)
  | none => .ok ()

/-- A field that was judged before. -/
def readField {α : Type} (fields : List (String × Document)) (name : String) (d : Decoder α) :
    Except DecodeError α :=
  match lookup name fields with
  | some doc => d doc
  | none => .error (.missingField name)

/-- A field that was judged before and may be left out or `null`. -/
def readOptional {α : Type} (fields : List (String × Document)) (name : String) (d : Decoder α) :
    Except DecodeError (Option α) :=
  match lookup name fields with
  | some doc => Decoder.option d doc
  | none => .ok none

/-- Judges the fields of a record that is written as the array of its fields. -/
def judgeItems : List FieldRule → List Document → Except DecodeError (List (String × Document))
  | rule :: rules, doc :: docs => do
    rule.check doc
    return (rule.name, doc) :: (← judgeItems rules docs)
  | _, _ => .ok []

/-- How many items are meant, in words. -/
def elementsText (n : Nat) : String :=
  toString n ++ if n = 1 then " element" else " elements"

/-- A record: what it is called and its fields. -/
structure Shape where
  title : String
  rules : List FieldRule

namespace Shape

/-- A key that no rule knows may hold anything that does not break off. -/
def ignore (_ : String) (doc : Document) : Except DecodeError Unit :=
  if doc.isWhole then .ok () else .error .damaged

/-- The judged fields of a record, from an object. -/
def ofFields (s : Shape) (fields : List (String × Document)) (damage : Option Damage) :
    Except DecodeError (List (String × Document)) := do
  let known ← judgeFields s.rules ignore [] fields
  if damage.isSome then throw .damaged
  requireFields s.rules known
  return known

/-- The judged fields of a record, from an array; `surplus` is the fault of too long a one. -/
def ofItems (s : Shape) (surplus : Nat → DecodeError) (items : List Document)
    (damage : Option Damage) : Except DecodeError (List (String × Document)) := do
  let known ← judgeItems s.rules items
  if items.length < s.rules.length then
    if damage.isSome then throw .damaged
    throw (.wrongLength items.length (s.title ++ " with " ++ elementsText s.rules.length))
  if s.rules.length < items.length then throw (surplus items.length)
  if damage.isSome then throw .damaged
  return known

/-- The judged fields of a record. -/
def fields (s : Shape) : Decoder (List (String × Document))
  | .object fields damage => s.ofFields fields damage
  | .array items damage => s.ofItems .tooLong items damage
  | doc => .error (Decoder.mismatch s.title doc)

end Shape

/-! ### Variants -/

/-- Values by their names. -/
abbrev Choice (α : Type) := List (String × α)

namespace Choice

variable {α : Type}

/-- The value of a name. -/
def named (c : Choice α) (name : String) : Except DecodeError α :=
  match lookup name c with
  | some a => .ok a
  | none => .error (.unknownVariant name (c.map Prod.fst))

/-- A name stands alone, or as the only key of an object whose value is `null`. -/
def decode (c : Choice α) : Decoder α
  | .string name => c.named name
  | .object [] _ => .error (.notSingle none)
  | .object ((name, doc) :: rest) damage =>
    let first : Except DecodeError α := do
      let a ← c.named name
      match doc with
      | .null => return a
      | doc => throw (Decoder.mismatch "unit" doc)
    if rest.isEmpty ∧ damage.isNone then first
    else
      .error (.notSingle (match first with | .ok _ => none | .error e => some e))
  | .damaged _ => .error .damaged
  | doc => .error (.notVariant doc.kind)

/-- The name of a value. -/
def nameOf [DecidableEq α] (c : Choice α) (a : α) : String :=
  ((c.find? fun entry => entry.2 = a).map Prod.fst).getD ""

/-- The value with exactly this name. -/
def ofName? (c : Choice α) (name : String) : Option α :=
  lookup name c

end Choice

/-- A kind of record: the rules of its fields, and how the record is made from them. A kind
without fields takes whatever stands beside its name. -/
structure RecordKind (α : Type) where
  title : String
  rules : List FieldRule
  make : List (String × Document) → Except DecodeError α

/-- Records of several kinds, whose kind stands in the field `tag`. -/
structure Tagged (α : Type) where
  title : String
  tag : String
  kinds : List (String × RecordKind α)

namespace Tagged

variable {α : Type}

/-- The kind that a document names. -/
def kindOf (t : Tagged α) : Decoder (RecordKind α)
  | .string name =>
    match lookup name t.kinds with
    | some k => .ok k
    | none => .error (.unknownVariant name (t.kinds.map Prod.fst))
  | doc => .error (Decoder.mismatch "variant identifier" doc)

/-- Looks for the kind among the fields; the other fields have to be values. -/
def split (t : Tagged α) (kind : Option (RecordKind α)) :
    List (String × Document) → Except DecodeError (Option (RecordKind α) × List (String × Document))
  | [] => .ok (kind, [])
  | (key, doc) :: fields =>
    if key = t.tag then
      if kind.isSome then .error (.duplicateField t.tag)
      else do
        let k ← t.kindOf doc
        t.split (some k) fields
    else do
      let _ ← Decoder.value doc
      let (kind, rest) ← t.split kind fields
      return (kind, (key, doc) :: rest)

/-- Reads a record from an object with its kind in a field, or from an array with its kind in
front of its fields. -/
def decode (t : Tagged α) : Decoder α
  | .object fields damage => do
    let (kind, rest) ← t.split none fields
    if damage.isSome then throw .damaged
    match kind with
    | none => throw (.missingField t.tag)
    | some k => k.make (← (Shape.mk k.title k.rules).ofFields rest none)
  | .array [] _ => .error (.missingField t.tag)
  | .array (first :: rest) damage => do
    let k ← t.kindOf first
    let _ ← rest.mapM Decoder.value
    if damage.isSome then throw .damaged
    if k.rules.isEmpty then k.make []
    else
      let surplus n := DecodeError.wrongLength n (elementsText k.rules.length ++ " in sequence")
      k.make (← (Shape.mk k.title k.rules).ofItems surplus rest none)
  | doc => .error (Decoder.mismatch ("internally tagged enum " ++ t.title) doc)

end Tagged

end MinerFleet
