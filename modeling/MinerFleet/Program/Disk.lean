/-
The state file on the disk.

* `readFolder` — what stands where the state file and its draft belong;
* `writeFolder` — the disk is brought to what a folder says after a change.
-/
import MinerFleet.Store.File

namespace MinerFleet.Program

/-- The folder that a path lies in. -/
def parent (path : String) : String :=
  match path.toList.reverse.dropWhile (· ≠ '/') with
  | [] => "."
  | [_] => "/"
  | _ :: front => String.ofList front.reverse

/-- What stands at a path. What cannot be read counts as a folder, since no file can take its
place. -/
def readNode (path : String) : IO (Option Node) := do
  try
    return some (.file (← IO.FS.readFile path))
  catch
    | .noFileOrDirectory .. => return none
    | _ => return some .folder

/-- Whether a folder is there. -/
def isFolder (path : String) : IO Bool := do
  try
    let place ← IO.FS.realPath path
    place.isDir
  catch _ =>
    return false

/-- What stands where a state file and its draft belong. -/
def readFolder (path : String) : IO Folder := do
  let mut nodes : KeyMap Node := KeyMap.empty
  for name in [path, FileStore.draftName path] do
    if let some node ← readNode name then
      nodes := nodes.insert name node
  return { there := ← isFolder (parent path), nodes }

/-- Brings the disk to what a folder says after a change. The draft is whole before it takes the
place of the file. -/
def writeFolder (path : String) (before after : Folder) : IO Unit := do
  let draft := FileStore.draftName path
  let changed (name : String) : Option String :=
    if after.nodes.get? name = before.nodes.get? name then none else (after.read name).toOption
  match changed path with
  | some text =>
    IO.FS.writeFile draft text
    IO.FS.rename draft path
  | none =>
    if let some text := changed draft then
      IO.FS.writeFile draft text

end MinerFleet.Program
