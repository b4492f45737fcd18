import Berrify.Failure
import Berrify.Path

/-!
# File trees

`FileTree` is a file system without links : directories, and files with their contents. A `Location`
is the list of names that lead from the root to a place. `FileTree.resolve` finds the location of a
path as an operating system does, so that each step needs a directory; on it rest reading
(`FileTree.readText`), writing (`FileTree.write`) and removing (`FileTree.removeFile`).
-/

namespace Berrify

/-- The names from the root to a place. -/
abbrev Location := List String

/-- A file system without links. -/
structure FileTree where
  /-- Where paths start that are not absolute. -/
  workDir : Location := []
  /-- The directories besides the root. -/
  dirs : List Location := []
  files : List (Location × List UInt8) := []

namespace FileTree

instance : Inhabited FileTree := ⟨{}⟩

/-- Whether a directory is at a location. -/
def hasDir (tree : FileTree) (loc : Location) : Bool :=
  loc.isEmpty || tree.dirs.contains loc

/-- The contents of the file at a location. -/
def contents? (tree : FileTree) (loc : Location) : Option (List UInt8) :=
  tree.files.lookup loc

/-- Whether a file is at a location. -/
def hasFile (tree : FileTree) (loc : Location) : Bool :=
  (tree.contents? loc).isSome

/-- The location that segments of a path lead to. Each of them needs a directory to start from, even
one that is empty. -/
def walk (tree : FileTree) : Location → List String → Except AccessError Location
  | loc, [] => .ok loc
  | loc, segment :: rest =>
    if tree.hasFile loc then .error .notDirectory
    else if !tree.hasDir loc then .error .notFound
    else if segment == "" || segment == "." then tree.walk loc rest
    else if segment == ".." then tree.walk loc.dropLast rest
    else tree.walk (loc ++ [segment]) rest

/-- The location of a path; there need not be anything yet. -/
def resolve (tree : FileTree) (path : String) : Except AccessError Location :=
  if path.isEmpty then .error .notFound
  else tree.walk (if Path.isAbsolute path then [] else tree.workDir) (Path.segments path)

/-- Whether a path leads to a file. -/
def isFile (tree : FileTree) (path : String) : Bool :=
  match tree.resolve path with
  | .ok loc => tree.hasFile loc
  | .error _ => false

/-- Whether a path leads to a directory. -/
def isDir (tree : FileTree) (path : String) : Bool :=
  match tree.resolve path with
  | .ok loc => tree.hasDir loc
  | .error _ => false

/-- The contents of the file at a path. -/
def readBytes (tree : FileTree) (path : String) : Except AccessError (List UInt8) := do
  let loc ← tree.resolve path
  match tree.contents? loc with
  | some bytes => return bytes
  | none => .error (if tree.hasDir loc then .isDirectory else .notFound)

/-- The text of the file at a path. -/
def readText (tree : FileTree) (path : String) : Except AccessError String := do
  match String.fromUTF8? ⟨(← tree.readBytes path).toArray⟩ with
  | some text => return text
  | none => .error .notText

/-! ## Changes -/

/-- Puts contents for a location in a list of files : in place if it is there, else at the end. -/
def putFile (loc : Location) (bytes : List UInt8) :
    List (Location × List UInt8) → List (Location × List UInt8)
  | [] => [(loc, bytes)]
  | (other, old) :: rest =>
    if other == loc then (loc, bytes) :: rest else (other, old) :: putFile loc bytes rest

/-- The tree after a file has been written at a path. -/
def write (tree : FileTree) (path : String) (bytes : List UInt8) : Except AccessError FileTree := do
  let loc ← tree.resolve path
  if tree.hasDir loc then .error .isDirectory
  else return { tree with files := putFile loc bytes tree.files }

/-- The tree after the file at a path has been removed, if there is one. -/
def removeFile (tree : FileTree) (path : String) : FileTree :=
  match tree.resolve path with
  | .ok loc => { tree with files := tree.files.filter (·.1 != loc) }
  | .error _ => tree

/-- The tree with a directory and all directories above it. -/
def addDir (tree : FileTree) (loc : Location) : FileTree :=
  let above := (List.range loc.length).map fun i => loc.take (i + 1)
  { tree with dirs := tree.dirs ++ above.filter fun dir => !tree.dirs.contains dir }

/-- The tree with a file at a location, and all directories above it. -/
def addFile (tree : FileTree) (loc : Location) (bytes : List UInt8) : FileTree :=
  let tree := tree.addDir loc.dropLast
  { tree with files := putFile loc bytes tree.files }

end FileTree

end Berrify
