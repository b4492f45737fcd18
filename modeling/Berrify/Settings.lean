import Berrify.Toml.Reader
import Berrify.Translator

/-!
# Settings

`Settings` are what a settings file may say : further substitutions, names of classes and methods,
how scopes nest, and what the output looks like. `Settings.parse` reads them from text. Every group
and every entry may be absent, and unknown entries are passed over. A group may also be written as
an array of its entries in order. `Settings.translator` is the translator that settings describe.
-/

namespace Berrify

/-- What may be configured. -/
structure Settings where
  /-- Further substitutions; those with an empty pattern are kept here but never apply. -/
  substitutions : Substitutions := []
  classes : NameMap String := .empty
  methods : NameMap (NameMap String) := .empty
  scopeMode : ScopeMode := .lexical
  extension : String := "be"
  declareMembers : Bool := false

namespace Settings

open Toml (Value)

/-- The name of the settings file that is looked for. -/
def fileName : String := "pyberry.toml"

/-! ## Values -/

/-- A text. -/
def text? : Value → Option String
  | .string s => some s
  | _ => none

/-- A flag. -/
def flag? : Value → Option Bool
  | .boolean b => some b
  | _ => none

/-- The items of an array. -/
def items? : Value → Option (List Value)
  | .array items => some items
  | _ => none

/-- A table whose values are all read by the same rule. -/
def table? {α : Type} (read : Value → Option α) : Value → Option (NameMap α)
  | .table entries => do
    return .ofList (← entries.mapM fun (key, value) => do return (key, ← read value))
  | _ => none

/-- A pair of texts; what follows them is passed over. -/
def substitution? : Value → Option Substitution
  | .array (pattern :: value :: _) => do return ⟨← text? pattern, ← text? value⟩
  | _ => none

/-- Whether a value is an empty table or an empty array. -/
def isHollow : Value → Bool
  | .table [] => true
  | .array [] => true
  | _ => false

/-- The scope mode of a name. -/
def modeOfName? : String → Option ScopeMode
  | "lexical" => some .lexical
  | "flat" => some .flat
  | _ => none

/-- A scope mode : its name, or a table whose one key is the name and whose value is empty. -/
def mode? : Value → Option ScopeMode
  | .string name => modeOfName? name
  | .table [(name, value)] => if isHollow value then modeOfName? name else none
  | _ => none

/-- The entries of a group under the given names : those of a table by name, those of an array in
order. -/
def group? (names : List String) : Value → Option (List (Option Value))
  | .table entries => some (names.map fun name => entries.lookup name)
  | .array items => some ((List.range names.length).map fun i => items[i]?)
  | _ => none

/-- An entry that may be absent, in which case it is as it was. -/
def orKeep {α : Type} (read : Value → Option α) (old : α) : Option Value → Option α
  | none => some old
  | some value => read value

/-! ## Groups -/

/-- Reads the group of substitutions. -/
def readSubstitutions (s : Settings) (group : Value) : Option Settings := do
  match ← group? ["substitutions"] group with
  | [subs] =>
    let read (v : Value) : Option Substitutions := do (← items? v).mapM substitution?
    return { s with substitutions := ← orKeep read s.substitutions subs }
  | _ => none

/-- Reads the group of names. -/
def readNames (s : Settings) (group : Value) : Option Settings := do
  match ← group? ["classes", "methods"] group with
  | [classes, methods] =>
    return { s with
      classes := ← orKeep (table? text?) s.classes classes
      methods := ← orKeep (table? (table? text?)) s.methods methods }
  | _ => none

/-- Reads the group of scopes. -/
def readScope (s : Settings) (group : Value) : Option Settings := do
  match ← group? ["mode"] group with
  | [mode] => return { s with scopeMode := ← orKeep mode? s.scopeMode mode }
  | _ => none

/-- Reads the group of output. -/
def readOutput (s : Settings) (group : Value) : Option Settings := do
  match ← group? ["extension", "declare_members"] group with
  | [extension, members] =>
    return { s with
      extension := ← orKeep text? s.extension extension
      declareMembers := ← orKeep flag? s.declareMembers members }
  | _ => none

/-- Reads all groups. -/
def ofValue? (value : Value) : Option Settings := do
  match ← group? ["prepass", "mappings", "scope", "output"] value with
  | [subs, names, scope, output] =>
    let s : Settings := {}
    let s ← orKeep s.readSubstitutions s subs
    let s ← orKeep s.readNames s names
    let s ← orKeep s.readScope s scope
    orKeep s.readOutput s output
  | _ => none

/-! ## Settings files -/

/-- Whether an extension may be that of output files. That of source files would let a script be
written over. -/
def isExtension (extension : String) : Bool :=
  !extension.isEmpty && !Text.occursIn "/" extension &&
    String.ofList (extension.toList.map Char.toLower) != "py"

/-- The settings that a text denotes. -/
def parse (text : String) : Except SettingsError Settings :=
  match (Toml.parse? text).bind ofValue? with
  | none => .error .malformed
  | some s => if isExtension s.extension then .ok s else .error (.badExtension s.extension)

/-! ## Use -/

/-- Whether names are configured. -/
def renames (s : Settings) : Bool :=
  !s.classes.isEmpty || !s.methods.isEmpty

/-- The tables of names. -/
def naming (s : Settings) : Naming :=
  if s.renames then Naming.builtin.extend s.classes s.methods else .builtin

/-- All substitutions. -/
def allSubstitutions (s : Settings) : Substitutions :=
  Substitutions.builtin.extend s.substitutions

/-- The style of the output. -/
def style (s : Settings) : Style :=
  { naming := s.naming, scopeMode := s.scopeMode, declareMembers := s.declareMembers }

/-- The translator that the settings describe. -/
def translator (s : Settings) : Translator :=
  { substitutions := s.allSubstitutions, style := s.style, extension := s.extension }

end Settings

end Berrify
