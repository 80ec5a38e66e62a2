/-
A folder of the file system, as far as a state file needs one.

* `Folder` — files and folders by their names, in a folder that may be gone;
* `Folder.read`, `Folder.write`, `Folder.rename` — what is done to files;
* `FileFault` — why it could not be done.
-/
import MinerFleet.Json.KeyMap

namespace MinerFleet

inductive Node where
  | file (text : String)
  | folder
deriving DecidableEq

/-- What stands in a folder; nothing does when the folder is gone. -/
structure Folder where
  there : Bool := true
  nodes : KeyMap Node := KeyMap.empty
deriving DecidableEq

inductive FileFault where
  | missing
  | isFolder
deriving DecidableEq

def FileFault.message : FileFault → String
  | .missing => "No such file or directory (os error 2)"
  | .isFolder => "Is a directory (os error 21)"

namespace Folder

instance : Inhabited Folder := ⟨{}⟩

/-- The text of a file. -/
def read (f : Folder) (name : String) : Except FileFault String :=
  match f.nodes.get? name with
  | some (.file text) => .ok text
  | some .folder => .error .isFolder
  | none => .error .missing

/-- Makes a file with the given text, in place of the one that is there. -/
def write (f : Folder) (name text : String) : Except FileFault Folder :=
  if !f.there then .error .missing
  else
    match f.nodes.get? name with
    | some .folder => .error .isFolder
    | _ => .ok { f with nodes := f.nodes.insert name (.file text) }

/-- Gives a file another name, in place of the file that has it; all at once. -/
def rename (f : Folder) (old new : String) : Except FileFault Folder :=
  match f.nodes.get? old with
  | none => .error .missing
  | some node =>
    match f.nodes.get? new with
    | some .folder => .error .isFolder
    | _ => .ok { f with nodes := (f.nodes.erase old).insert new node }

/-- Makes a folder, unless a file stands in its place; makes this folder first if it is gone. -/
def makeFolder (f : Folder) (name : String) : Option Folder :=
  match f.nodes.get? name with
  | some (.file _) => none
  | _ => some { there := true, nodes := f.nodes.insert name .folder }

/-- Takes this folder away with all that is in it, if it is there. -/
def removeAll (f : Folder) : Option Folder :=
  if f.there then some { there := false, nodes := KeyMap.empty } else none

/-- The names of what stands in the folder, in order. -/
def names (f : Folder) : List String :=
  f.nodes.entries.map Prod.fst

end Folder

end MinerFleet
