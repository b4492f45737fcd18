import Berrify.Command

/-!
# The program

`main` takes a picture of the part of the disk that a request is about, carries the request out on
the picture, and then writes and removes the files that have changed.
-/

namespace Berrify

/-- The location of an absolute path. -/
def locationOfPath (path : String) : Location :=
  (Path.components path).filterMap fun
    | .name text => some text
    | _ => none

/-- The path of a location. -/
def pathOfLocation (loc : Location) : String :=
  "/" ++ "/".intercalate loc

/-- Adds a file. One that cannot be read counts as empty. -/
def pictureFile (tree : FileTree) (path : String) : IO FileTree := do
  let bytes ← try IO.FS.readBinFile path catch _ => pure .empty
  return tree.addFile (locationOfPath path) bytes.toList

/-- Adds a directory and all that is below it. -/
partial def pictureDir (tree : FileTree) (path : String) : IO FileTree := do
  let mut tree := tree.addDir (locationOfPath path)
  for entry in ← ((← IO.currentDir) / path).readDir do
    let text := entry.path.toString
    if ← entry.path.isDir then tree ← pictureDir tree text
    else tree ← pictureFile tree text
  return tree

/-- Adds what a path leads to, and the names beside it. -/
def picturePath (tree : FileTree) (path : String) : IO FileTree := do
  let place := (← IO.currentDir) / path
  if !(← place.pathExists) then return tree
  let full := (← IO.FS.realPath place).toString
  if ← place.isDir then pictureDir tree full
  else
    let parent := pathOfLocation (locationOfPath full).dropLast
    let mut tree := tree
    for entry in ← ((← IO.currentDir) / parent).readDir do
      let text := entry.path.toString
      if ← entry.path.isDir then tree := tree.addDir (locationOfPath text)
      else tree ← pictureFile tree text
    return tree

/-- The part of the disk that a request is about. -/
def picture : Request → IO FileTree
  | .translate invocation => do
    let workDir := locationOfPath (← IO.currentDir).toString
    let tree : FileTree := FileTree.addDir { workDir } workDir
    let tree ← picturePath tree (invocation.settings.getD (Path.join "." Settings.fileName))
    picturePath tree invocation.input
  | _ => return {}

/-- Brings the disk from one tree to another. -/
def carryOver (before after : FileTree) : IO Unit := do
  for (loc, _) in before.files do
    if !after.hasFile loc then IO.FS.removeFile (pathOfLocation loc)
  for (loc, bytes) in after.files do
    if before.contents? loc != some bytes then
      IO.FS.writeBinFile (pathOfLocation loc) ⟨bytes.toArray⟩

end Berrify

/-- The command. -/
def main (args : List String) : IO UInt32 := do
  let request := Berrify.Request.ofArgs args
  let before ← Berrify.picture request
  let outcome := request.perform before
  Berrify.carryOver before outcome.tree
  IO.print outcome.output
  for complaint in outcome.complaints do
    IO.eprintln complaint
  return outcome.status.toUInt32
