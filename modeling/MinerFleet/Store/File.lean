/-
A store in one file.

* `FileStore` — the values, and the file that holds them as one JSON object;
* `FileStore.openIn` — the store that a file holds; one that does not hold any starts empty;
* `FileStore.put` — a new value; the file is written anew, under another name first.

The other name makes sure that the file is whole at every moment: it is either the old one or the
new one. A value whose write failed stays in the program, and is written with the next one.
-/
import MinerFleet.Store.Basic
import MinerFleet.Store.Folder
import MinerFleet.Text.Basic

namespace MinerFleet

/-- The values of a store, and the file that they are kept in. -/
structure FileStore where
  folder : Folder
  file : String
  values : KeyMap Json

namespace FileStore

/-- The text of a file with some values. -/
def document (values : KeyMap Json) : String :=
  (Json.ofMap values).pretty

/-- The values in the text of a file, if it is a JSON object. -/
def valuesOf? (text : String) : Option (KeyMap Json) :=
  match Json.ofText? text with
  | some (.object fields) => some (KeyMap.ofList fields)
  | _ => none

/-- A path whose last name has lost its last extension. A point in front is no extension. Paths that
end in a slash, or in a slash and a point, are left out: no file has such a path. -/
def stem (path : String) : String :=
  let back := path.toList.reverse
  let isName (c : Char) : Bool := c ≠ '/'
  match (back.takeWhile isName).dropWhile (· ≠ '.') with
  | [] | [_] => path
  | _ :: front => String.ofList (front ++ back.dropWhile isName).reverse

/-- The name under which a file is written before it takes its place. -/
def draftName (file : String) : String :=
  stem file ++ ".json.tmp"

/-- The store that a file holds, and what to tell about it. -/
def openIn (folder : Folder) (file : String) : Except Fault (FileStore × List LogEvent) :=
  match folder.read file with
  | .ok text =>
    match valuesOf? text with
    | some values => .ok (⟨folder, file, values⟩, [])
    | none => .ok (⟨folder, file, KeyMap.empty⟩, [.corruptFile file])
  | .error .missing => .ok (⟨folder, file, KeyMap.empty⟩, [.newFile file])
  | .error fault => .error (.storage fault.message)

/-- The folder after its file was written anew, and the fault if that failed. -/
def flush (folder : Folder) (file : String) (values : KeyMap Json) : Folder × Option Fault :=
  match folder.write (draftName file) (document values) with
  | .error fault => (folder, some (.storage fault.message))
  | .ok drafted =>
    match drafted.rename (draftName file) file with
    | .error fault => (drafted, some (.storage fault.message))
    | .ok done => (done, none)

/-- Puts a value under a key and writes the file anew. -/
def put (s : FileStore) (key : String) (v : Json) : FileStore × Option Fault :=
  let values := s.values.insert key v
  let (folder, fault) := flush s.folder s.file values
  (⟨folder, s.file, values⟩, fault)

end FileStore

instance : Store FileStore where
  get? s key := s.values.get? key
  put := FileStore.put

end MinerFleet
