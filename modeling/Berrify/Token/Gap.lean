import Berrify.Token

/-!
# Gaps between tokens

`Gap.scan` reads what may stand between two tokens : blanks, comments and line continuations.
`breakIndent?` says whether a line ends where a gap goes on, and how far the next line that holds
more than a comment is indented.
-/

namespace Berrify

/-- Whether a character is blank : white space, or one of three characters without a width. -/
def isBlank (c : Char) : Bool :=
  let n := c.toNat
  (0x9 ≤ n && n ≤ 0xD) || n == 0x20 || n == 0x85 || n == 0xA0 || n == 0x1680 ||
    (0x2000 ≤ n && n ≤ 0x200B) || n == 0x2028 || n == 0x2029 || n == 0x202F || n == 0x205F ||
    n == 0x2060 || n == 0x3000 || n == 0xFEFF

/-- The indentation of the next line, given that `indent` has been measured on the current one and
that a line end has been `found` or not. A space counts one and a tab eight; a carriage return and
a form feed start the count again. Lines that hold only a comment do not count, and a comment
before the line end hides it for now. The end of the script ends a line. -/
def breakIndent? (inComment found : Bool) (indent : Nat) : List Char → Option Nat
  | [] => some 0
  | c :: rest =>
    if inComment then breakIndent? (c != '\n') found 0 rest
    else if c = '\n' then breakIndent? false true 0 rest
    else if c = ' ' then breakIndent? false found (indent + 1) rest
    else if c = '\t' then breakIndent? false found (indent + 8) rest
    else if c = '\r' ∨ c = '\x0c' then breakIndent? false found 0 rest
    else if c = '#' then if found then breakIndent? true true 0 rest else none
    else if c = '\\' then
      match rest with
      | '\n' :: more => breakIndent? false found indent more
      | '\r' :: '\n' :: more => breakIndent? false found indent more
      | [] => some 0
      | ['\r'] => some 0
      | _ => none
    else if found then some indent
    else none

/-- What stands between two tokens. -/
structure Gap where
  /-- The line at the end of the gap. -/
  line : Nat
  /-- The characters read so far, the last one first. -/
  readBack : List Char := []
  continuations : List Continuation := []
  lineBreak : Option Nat := none

namespace Gap

/-- Adds a character. -/
def add (gap : Gap) (c : Char) : Gap :=
  { gap with
    readBack := c :: gap.readBack
    line := if c = '\n' then gap.line + 1 else gap.line }

/-- Adds a line continuation. -/
def continueLine (gap : Gap) (text : List Char) : Gap :=
  { text.foldl add gap with
    continuations := gap.continuations ++ [⟨gap.line, String.ofList text⟩] }

/-- Looks for a line end in front of `rest`, unless one has been found. -/
def measure (gap : Gap) (rest : List Char) : Gap :=
  { gap with lineBreak := gap.lineBreak.or (breakIndent? false false 0 rest) }

/-- The number of characters behind a backslash that belong to a line continuation : the end of a
line, or nothing at the end of the script. -/
def continuationLength? : List Char → Option Nat
  | '\n' :: _ => some 1
  | '\r' :: '\n' :: _ => some 2
  | [] => some 0
  | _ => none

/-- Reads the rest of a gap behind its first `skip` characters, which belong to a continuation
already read; the line end is looked for again behind each comment and each continuation. -/
def scan : Nat → Bool → Gap → List Char → Gap × List Char
  | _, inComment, gap, [] => (if inComment then gap.measure [] else gap, [])
  | skip + 1, inComment, gap, _ :: rest => scan skip inComment gap rest
  | 0, inComment, gap, c :: rest =>
    if inComment && c != '\n' then scan 0 true (gap.add c) rest
    else
      let gap := if inComment then gap.measure (c :: rest) else gap
      if isBlank c then scan 0 false (gap.add c) rest
      else if c = '#' then scan 0 true (gap.add c) rest
      else if c = '\\' then
        match continuationLength? rest with
        | some length =>
          let gap := gap.continueLine (c :: rest.take length)
          scan length false (gap.measure (rest.drop length)) rest
        | none => (gap, c :: rest)
      else (gap, c :: rest)

/-- Reads the gap at the front of a text. -/
def ofText (line : Nat) (cs : List Char) : Gap × List Char :=
  scan 0 false (measure { line } cs) cs

/-- The token behind a gap. -/
def token (gap : Gap) (kind : TokenKind) (text : List Char) : Token :=
  { kind, text := String.ofList text, line := gap.line
    lead := String.ofList gap.readBack.reverse
    continuations := gap.continuations
    lineBreak := gap.lineBreak }

end Gap

end Berrify
