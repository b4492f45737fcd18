import Berrify.Failure
import Berrify.Text.Digits

/-!
# Reports

A `Report` says what became of one source file : the path of the output or a failure.
`Report.writeAll` writes a list of reports as JSON, with an indentation of two spaces and the keys
in a fixed order.
-/

namespace Berrify

/-- What became of a source file. -/
structure Report where
  input : String
  /-- The path of the output. -/
  result : Except Failure String

namespace Report

/-- Whether the file could not be translated. -/
def isError (r : Report) : Bool :=
  match r.result with
  | .ok _ => false
  | .error _ => true

/-! ## JSON -/

/-- A character inside a JSON string. -/
def jsonChar (c : Char) : List Char :=
  if c = '\x22' then ['\\', '\x22']
  else if c = '\\' then ['\\', '\\']
  else if c = '\n' then ['\\', 'n']
  else if c = '\r' then ['\\', 'r']
  else if c = '\t' then ['\\', 't']
  else if c = '\x08' then ['\\', 'b']
  else if c = '\x0c' then ['\\', 'f']
  else if c.toNat < 0x20 then
    ['\\', 'u', '0', '0', Text.hexDigit (c.toNat / 16), Text.hexDigit (c.toNat % 16)]
  else [c]

/-- A JSON string. -/
def jsonString (text : String) : String :=
  "\"" ++ String.ofList (text.toList.flatMap jsonChar) ++ "\""

/-- The keys and values of a report, in order. -/
def fields (r : Report) : List (String × String) :=
  ("input", r.input) :: match r.result with
    | .ok output => [("status", "ok"), ("output", output)]
    | .error failure =>
      [("status", "error"), ("kind", failure.kind), ("message", failure.message)]

/-- A report as an indented JSON object. -/
def write (r : Report) : String :=
  let lines := r.fields.map fun (key, value) => "    " ++ jsonString key ++ ": " ++ jsonString value
  "  \x7b\n" ++ ",\n".intercalate lines ++ "\n  \x7d"

/-- Reports as a JSON array. -/
def writeAll (reports : List Report) : String :=
  if reports.isEmpty then "[]" else "[\n" ++ ",\n".intercalate (reports.map write) ++ "\n]"

end Report

end Berrify
