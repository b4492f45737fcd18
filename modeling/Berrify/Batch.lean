import Berrify.FileTree
import Berrify.Report
import Berrify.Settings

/-!
# Translating files

A file is translated in two steps : its text is read and translated (`Translator.targetOf`), and
then either the output is written or an output left by an earlier run is removed
(`Translator.settle`). `Translator.translateFile` takes both steps for one file, and
`Translator.translatePath` for all sources below a directory, which `sourcesBelow` lists.
`Settings.find` looks for the settings in force.
-/

namespace Berrify

/-! ## Sources -/

/-- The extension of source files. -/
def sourceExtension : String := "py"

/-- Whether a name is hidden. -/
def isHidden (name : String) : Bool :=
  name.toList.head? == some '.'

/-- The locations, relative to a directory, of the sources below it : files with the extension of
sources that neither are hidden nor lie in a hidden directory. -/
def sourceNames (tree : FileTree) (dir : Location) : List Location :=
  let below := tree.files.filterMap fun (loc, _) =>
    if dir.isPrefixOf loc then some (loc.drop dir.length) else none
  below.filter fun names =>
    !names.isEmpty && !names.any isHidden &&
      names.getLast?.bind (fun name => (Path.partName name).2) == some sourceExtension

/-- Whether a location comes before another : name by name, each by its characters. -/
def precedes : Location → Location → Bool
  | [], _ => true
  | _ :: _, [] => false
  | a :: as, b :: bs => if a = b then precedes as bs else a < b

/-- The paths of the sources below a path, in order. A path that leads to a file is a source itself
if it has the extension. -/
def sourcesBelow (tree : FileTree) (root : String) : Except Failure (List String) :=
  match tree.resolve root with
  | .error error => .error (.search root error)
  | .ok loc =>
    if tree.hasDir loc then
      .ok (((sourceNames tree loc).mergeSort precedes).map (Path.joinAll root))
    else if tree.hasFile loc then
      .ok (if Path.extension? root == some sourceExtension then [root] else [])
    else .error (.search root .notFound)

/-! ## Files -/

namespace Translator

/-- The path of the output for a source. -/
def outputPath (t : Translator) (input : String) : String :=
  Path.withExtension input t.extension

/-- The target script of the file at a path. -/
def targetOf (t : Translator) (tree : FileTree) (input : String) : Except Failure String := do
  t.run (← (tree.readText input).mapError (.access input))

/-- Writes the output at a path, or removes what is there if there is no output. -/
def settle (output : String) (result : Except Failure String) (tree : FileTree) :
    Except Failure String × FileTree :=
  match result with
  | .error failure => (.error failure, tree.removeFile output)
  | .ok text =>
    match tree.write output text.toUTF8.toList with
    | .ok tree => (.ok output, tree)
    | .error error => (.error (.access output error), tree)

/-- Translates the file at a path. A file that would be its own output is left alone. -/
def translateFile (t : Translator) (input : String) (tree : FileTree) :
    Except Failure String × FileTree :=
  let output := t.outputPath input
  if Path.same output input then (.error (.access input .isInput), tree)
  else settle output (t.targetOf tree input) tree

/-- Translates files one after the other. -/
def translateAll (t : Translator) : List String → FileTree → List Report × FileTree
  | [], tree => ([], tree)
  | input :: rest, tree =>
    let (result, tree) := t.translateFile input tree
    let (reports, tree) := t.translateAll rest tree
    (⟨input, result⟩ :: reports, tree)

/-- Translates the file at a path, or all sources below a directory. -/
def translatePath (t : Translator) (input : String) (tree : FileTree) :
    Except Failure (List Report) × FileTree :=
  if tree.isDir input then
    match sourcesBelow tree input with
    | .error failure => (.error failure, tree)
    | .ok sources =>
      let (reports, tree) := t.translateAll sources tree
      (.ok reports, tree)
  else
    let (reports, tree) := t.translateAll [input] tree
    (.ok reports, tree)

end Translator

/-! ## Settings files -/

namespace Settings

/-- The settings in a file. -/
def load (tree : FileTree) (path : String) : Except Failure Settings := do
  parse (← (tree.readText path).mapError (.access path)) |>.mapError (.settings path)

/-- The settings in a given file, else those in the settings file of a directory, else
the defaults. -/
def find (tree : FileTree) (given : Option String) (dir : String) : Except Failure Settings :=
  match given with
  | some path => load tree path
  | none =>
    let path := Path.join dir fileName
    if tree.isFile path then load tree path else .ok {}

end Settings

end Berrify
