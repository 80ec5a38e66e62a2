/-
JSON values as text.

* `Json.compact` — on one line, without blanks;
* `Json.pretty` — one field or item a line, two spaces deeper for each level.
-/
import MinerFleet.Json.Basic
import MinerFleet.Text.Percent

namespace MinerFleet.Json

open Text

/-- Four hexadecimal digits, small letters. -/
def hex4 (n : Nat) : String :=
  String.ofList ([n / 4096, n / 256 % 16, n / 16 % 16, n % 16].map fun d => (hexDigit d).toLower)

/-- One character between the quotes of a JSON string. -/
def escapeChar (c : Char) : String :=
  if c = '"' then "\\\""
  else if c = '\\' then "\\\\"
  else if c = '\n' then "\\n"
  else if c = '\r' then "\\r"
  else if c = '\t' then "\\t"
  else if c = '\x08' then "\\b"
  else if c = '\x0c' then "\\f"
  else if c.toNat < 0x20 then "\\u" ++ hex4 c.toNat
  else String.singleton c

/-- A text as a JSON string. -/
def stringText (s : String) : String :=
  "\"" ++ String.join (s.toList.map escapeChar) ++ "\""

mutual
/-- A value on one line. -/
def compact : Json → String
  | .null => "null"
  | .bool b => if b then "true" else "false"
  | .number n => n.text
  | .string s => stringText s
  | .array items => "[" ++ compactItems items ++ "]"
  | .object fields => "\x7b" ++ compactFields fields ++ "\x7d"

def compactItems : List Json → String
  | [] => ""
  | [v] => v.compact
  | v :: vs => v.compact ++ "," ++ compactItems vs

def compactFields : List (String × Json) → String
  | [] => ""
  | [(k, v)] => stringText k ++ ":" ++ v.compact
  | (k, v) :: fields => stringText k ++ ":" ++ v.compact ++ "," ++ compactFields fields
end

/-- A new line, `depth` levels deep. -/
def newLine (depth : Nat) : String :=
  "\n" ++ String.ofList (List.replicate (2 * depth) ' ')

mutual
/-- A value over several lines; its own brackets stand `depth` levels deep. -/
def prettyAt (depth : Nat) : Json → String
  | .array [] => "[]"
  | .object [] => "\x7b\x7d"
  | .array items => "[" ++ prettyItems (depth + 1) items ++ newLine depth ++ "]"
  | .object fields => "\x7b" ++ prettyFields (depth + 1) fields ++ newLine depth ++ "\x7d"
  | .null => "null"
  | .bool b => if b then "true" else "false"
  | .number n => n.text
  | .string s => stringText s

def prettyItems (depth : Nat) : List Json → String
  | [] => ""
  | [v] => newLine depth ++ v.prettyAt depth
  | v :: vs => newLine depth ++ v.prettyAt depth ++ "," ++ prettyItems depth vs

def prettyFields (depth : Nat) : List (String × Json) → String
  | [] => ""
  | [(k, v)] => newLine depth ++ stringText k ++ ": " ++ v.prettyAt depth
  | (k, v) :: fields =>
    newLine depth ++ stringText k ++ ": " ++ v.prettyAt depth ++ "," ++ prettyFields depth fields
end

/-- A value over several lines. -/
def pretty (v : Json) : String :=
  v.prettyAt 0

end MinerFleet.Json
