/-!
# Paths

A path is a text with slashes, kept as it was given. `Path.components` is what a path is made of :
empty parts and dots do not count, except for a dot at the start. Paths are equal if their
components are (`Path.same`). `Path.withExtension` puts another extension behind the stem of the
last component.
-/

namespace Berrify.Path

/-- A part of a path. -/
inductive Component where
  | root
  | here
  | up
  | name (text : String)
deriving DecidableEq, Repr

/-- The texts between the slashes. -/
def segments (path : String) : List String :=
  (path.toList.splitOn '/').map String.ofList

/-- Whether a path starts at the root. -/
def isAbsolute (path : String) : Bool :=
  path.toList.head? == some '/'

/-- What a path is made of. -/
def components (path : String) : List Component :=
  let parts := segments path
  let lead := if isAbsolute path then [.root]
    else if parts.head? == some "." then [.here]
    else []
  lead ++ ((parts.filter fun part => part != "" && part != ".").map fun part =>
    if part == ".." then .up else .name part)

/-- Whether two paths have the same components. -/
def same (p q : String) : Bool :=
  components p == components q

/-- The last component, if it is a name. -/
def fileName? (path : String) : Option String :=
  match (components path).getLast? with
  | some (.name text) => some text
  | _ => none

/-! ## Extensions -/

/-- A file name parted at its last dot. A dot at the start parts nothing. -/
def partName (file : String) : String × Option String :=
  let behind := (file.toList.reverse.takeWhile (· != '.')).reverse
  let length := file.toList.length - behind.length
  if length ≤ 1 then (file, none)
  else (String.ofList (file.toList.take (length - 1)), some (String.ofList behind))

/-- The extension of the last component. -/
def extension? (path : String) : Option String :=
  (fileName? path).bind fun file => (partName file).2

/-- The reverse of a path without what follows its last component, given in reverse. -/
def trimBack : List Char → List Char
  | '/' :: rest => trimBack rest
  | '.' :: '/' :: rest => trimBack rest
  | cs => cs

/-- Puts an extension behind the stem of the last component. A path whose last component is no name
stays as it is. -/
def putExtension (path extension : String) : String :=
  match fileName? path with
  | none => path
  | some file =>
    let suffix := file.length - (partName file).1.length
    let stem := ((trimBack path.toList.reverse).drop suffix).reverse
    String.ofList stem ++ if extension.isEmpty then "" else "." ++ extension

/-- Drops characters, given in reverse, that take at most a number of bytes. -/
def dropBytes : Nat → List Char → List Char
  | _, [] => []
  | bytes, c :: rest =>
    if c.utf8Size ≤ bytes then dropBytes (bytes - c.utf8Size) rest else c :: rest

/-- The path with another extension. As many bytes as the old extension has are cut off first, so
that a name which is all dots before its extension is no longer one. -/
def withExtension (path extension : String) : String :=
  match extension? path with
  | none => putExtension path extension
  | some old =>
    putExtension (String.ofList (dropBytes old.utf8ByteSize path.toList.reverse).reverse) extension

/-! ## Joining -/

/-- The path of a name below a directory. -/
def join (dir name : String) : String :=
  if dir.isEmpty || dir.toList.getLast? == some '/' then dir ++ name else dir ++ "/" ++ name

/-- The path of a list of names below a directory. -/
def joinAll (dir : String) (names : List String) : String :=
  names.foldl join dir

end Berrify.Path
