/-
Models of miners.

* `modelOfBoard` — the model that a board version stands for;
* `colorOfModel` — the colour in which a model is shown;
* `Device.classified` — a record with the model, the colour and the readings filled in that older
  firmware does not report under their present names.
-/
import MinerFleet.Device.Basic

namespace MinerFleet

/-- Board versions that stand for a model against the rule of the first digit. -/
def boardExceptions : List (String × String) :=
  [("2.2", "Max"), ("0.11", "Ultra")]

/-- The model for the first digit of a board version. -/
def boardModels : List (Char × String) :=
  [('1', "Max"), ('2', "Ultra"), ('3', "UltraHex"), ('4', "Supra"), ('6', "Gamma"),
   ('8', "GammaTurbo")]

def modelColors : List (String × String) :=
  [("Max", "red"), ("Ultra", "purple"), ("Supra", "blue"), ("UltraHex", "orange"),
   ("Gamma", "green"), ("GammaHex", "lime"), ("GammaTurbo", "cyan")]

def unknownModel : String := "Other"

def unknownColor : String := "gray"

/-- The model of a board. A version of a single byte says nothing. -/
def modelOfBoard (version : Option String) : String :=
  match version with
  | none => unknownModel
  | some v =>
    if v.utf8ByteSize ≤ 1 then unknownModel
    else
      match lookup v boardExceptions with
      | some model => model
      | none =>
        match v.toList with
        | [] => unknownModel
        | first :: _ => (boardModels.lookup first).getD unknownModel

def colorOfModel (model : String) : String :=
  (lookup model modelColors).getD unknownColor

namespace Device

/-- Whether the record has all that `classified` would fill in. -/
def isClassified (d : Device) : Bool :=
  d.deviceModel.isSome && d.swarmColor.isSome && d.poolDifficulty.isSome && d.hashRate.isSome

/-- The record with model, colour, pool difficulty and hash rate filled in where they are
missing. -/
def classified (d : Device) : Device :=
  if d.isClassified then d
  else
    let model := d.deviceModel.getD (modelOfBoard d.boardVersion)
    { d with
      deviceModel := some model
      swarmColor := d.swarmColor.or (some (colorOfModel model))
      poolDifficulty := d.poolDifficulty.or d.stratumDiff
      hashRate := d.hashRate.or d.legacyHashRate }

end Device

end MinerFleet
