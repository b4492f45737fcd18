/-!
# Lines of output

A `Line` is a text and the number of blocks it stands in; `Line.nest` puts it one block deeper and
`Line.render` indents it by four spaces for each block. `Line.joinAll` is the text of a whole
script : every line ends in a line feed.

A `Draft` collects lines at a current level that can be raised and lowered.
-/

namespace Berrify

/-- A line and its depth. -/
structure Line where
  level : Nat
  text : String
deriving DecidableEq, Repr

namespace Line

/-- One level of indentation. -/
def indentation : String := "    "

/-- The indented text of a line. -/
def render (line : Line) : String :=
  String.join (List.replicate line.level indentation) ++ line.text

/-- A line at the outermost level. -/
def flush (text : String) : Line := ⟨0, text⟩

/-- The same line one block deeper. -/
def nest (line : Line) : Line := { line with level := line.level + 1 }

/-- The text of a script. -/
def joinAll (lines : List Line) : String :=
  String.join (lines.map fun line => line.render ++ "\n")

end Line

/-- Lines written so far and the level of the next one. -/
structure Draft where
  lines : List Line := []
  level : Nat := 0

namespace Draft

/-- Adds a line at the current level. -/
def write (d : Draft) (text : String) : Draft :=
  { d with lines := d.lines ++ [⟨d.level, text⟩] }

/-- Raises the level. -/
def indent (d : Draft) : Draft :=
  { d with level := d.level + 1 }

/-- Lowers the level, which does not go below the outermost one. -/
def dedent (d : Draft) : Draft :=
  { d with level := d.level - 1 }

/-- The text written so far. -/
def text (d : Draft) : String :=
  Line.joinAll d.lines

end Draft

end Berrify
