import Berrify.Token
import Berrify.Text.Digits

/-!
# The inside of string literals

`Delimiter.scan?` reads the start of a string literal and `Delimiter.scanText?` the text up to its
end or to an embedded expression. Only where the literal stops is decided here : an escape matters
in so far as it keeps a quote from ending the literal.

A line end breaks a literal in single quotes only when other text precedes it since the start, the
last escape or the last embedded expression.
-/

namespace Berrify

/-- How a string literal is set off. -/
structure Delimiter where
  quote : Char
  triple : Bool
  /-- Braces embed expressions. -/
  format : Bool
  /-- Backslashes are kept. -/
  raw : Bool
  bytes : Bool
deriving DecidableEq, Repr

namespace Delimiter

/-- Whether a character is one of the given letters, in either case. -/
def isLetterOf (letters : List Char) (c : Char) : Bool :=
  letters.contains c.toLower

/-- The letters that may stand before the quotes. -/
def letters : List Char := ['f', 't', 'r', 'b', 'u']

/-- The quotes at the front of a text, and whether they are triple. -/
def quotes? : List Char → Option (Char × Bool)
  | a :: b :: c :: _ =>
    if a = '\x60' then some (a, false)
    else if a = '\x27' ∨ a = '\x22' then some (a, a == b && b == c)
    else none
  | a :: _ => if a = '\x60' ∨ a = '\x27' ∨ a = '\x22' then some (a, false) else none
  | [] => none

/-- The number of quotes at each end. -/
def width (d : Delimiter) : Nat :=
  if d.triple then 3 else 1

/-- The delimiter that starts a text, and the number of characters it takes. -/
def scan? (cs : List Char) : Option (Delimiter × Nat) := do
  let lead := cs.takeWhile (isLetterOf letters)
  let (quote, triple) ← quotes? (cs.drop lead.length)
  let d : Delimiter :=
    { quote, triple
      format := lead.any (isLetterOf ['f', 't'])
      raw := lead.any (isLetterOf ['r'])
      bytes := lead.any (isLetterOf ['b']) }
  return (d, lead.length + d.width)

/-! ## Steps through the text -/

/-- Whether the front of a text holds `count` hexadecimal digits. -/
def hasHexDigits (count : Nat) (cs : List Char) : Bool :=
  (cs.take count).length == count && (cs.take count).all (Text.isDigitOf 16)

/-- The length of an escape whose backslash stands before `rest`; one if the backslash
stands alone. -/
def escapeLength (rest : List Char) : Nat :=
  match rest with
  | [] => 1
  | 'u' :: more => if hasHexDigits 4 more then 6 else 1
  | 'U' :: more => if hasHexDigits 8 more then 10 else 1
  | 'x' :: more => if hasHexDigits 2 more then 4 else 1
  | '\n' :: _ => 2
  | '\r' :: '\n' :: _ => 3
  | 'N' :: '\x7b' :: more =>
    let name := more.takeWhile (· != '\x7d')
    if name.isEmpty || name.length == more.length then 1 else name.length + 4
  | c :: _ =>
    if c.isDigit then 1 + ((rest.take 3).takeWhile Char.isDigit).length
    else if ['\x27', '\x22', 'a', 'b', 'f', 'r', 'n', 't', 'v', '\\'].contains c then 2
    else 1

/-- The length of what a backslash before `rest` protects in a raw literal : a quote or a backslash,
and a line end behind it. -/
def rawLength (quote : Char) (rest : List Char) : Nat :=
  let guarded := match rest with
    | c :: _ => if c = quote ∨ c = '\\' then 1 else 0
    | [] => 0
  match rest.drop guarded with
  | '\r' :: '\n' :: _ => 1 + guarded + 2
  | '\r' :: _ => 1 + guarded + 1
  | '\n' :: _ => 1 + guarded + 1
  | _ => 1 + guarded

/-- The number of quotes at the front of a text, at most three. -/
def quoteRun (quote : Char) (cs : List Char) : Nat :=
  ((cs.take 3).takeWhile (· == quote)).length

/-- What comes next in the text of a literal. -/
inductive Step where
  /-- Some characters of text. They are `settled` if a later line end may stand behind them, and
  otherwise `plain` says whether it would break the literal. -/
  | take (count : Nat) (settled plain : Bool)
  /-- The end of the literal. -/
  | close
  /-- An embedded expression. -/
  | field
  /-- No literal goes on like this. -/
  | broken

/-- The next step at the front of a text; `plain` says whether plain text precedes. -/
def step (d : Delimiter) (plain : Bool) (c : Char) (rest : List Char) : Step :=
  if d.format && c == '\x7b' then
    if rest.head? == some '\x7b' then .take 2 true false else .field
  else if d.format && c == '\x7d' then
    if rest.head? == some '\x7d' then .take 2 true false else .broken
  else if c = '\\' then
    if d.raw then .take (rawLength d.quote rest) false plain
    else if d.bytes && ['N', 'u', 'U'].contains (rest.headD ' ') then .take 3 false true
    else .take (escapeLength rest) true false
  else if c = d.quote then
    if d.triple && quoteRun c (c :: rest) < 3 then .take (quoteRun c (c :: rest)) true false
    else .close
  else if c = '\n' ∧ plain ∧ !d.triple then .broken
  else .take 1 false true

/-- Text read so far, the last character first : up to the last settled place, and behind it. -/
structure Read where
  settled : List Char := []
  pending : List Char := []
  plain : Bool := false

/-- Adds text. -/
def Read.push (r : Read) (text : List Char) (settle plain : Bool) : Read :=
  let pending := text.reverse ++ r.pending
  if settle then { settled := pending ++ r.settled, pending := [], plain }
  else { r with pending, plain }

/-- All text. -/
def Read.all (r : Read) : List Char :=
  (r.pending ++ r.settled).reverse

/-- The text of a literal up to its end or to an embedded expression. -/
structure Passage where
  text : List Char
  /-- What ends the passage : the closing quotes or an opening brace. -/
  stop : List Char
  closed : Bool
  rest : List Char

/-- The passage that ends with the literal. Characters protected in a raw literal belong to its end
if no plain text has been read since the last settled place. -/
def Read.close (r : Read) (width : Nat) (cs : List Char) : Passage :=
  if r.plain then { text := r.all, stop := cs.take width, closed := true, rest := cs.drop width }
  else
    { text := r.settled.reverse, stop := r.pending.reverse ++ cs.take width, closed := true
      rest := cs.drop width }

/-- Reads text after the first `skip` characters, which are already read. -/
def scanTextFrom? (d : Delimiter) : Nat → Read → List Char → Option Passage
  | _, _, [] => none
  | skip + 1, r, _ :: rest => scanTextFrom? d skip r rest
  | 0, r, c :: rest =>
    match d.step r.plain c rest with
    | .take count settled plain =>
      scanTextFrom? d (count - 1) (r.push ((c :: rest).take count) settled plain) rest
    | .close => some (r.close d.width (c :: rest))
    | .field => some { text := r.all, stop := [c], closed := false, rest }
    | .broken => none

/-- Reads text up to the end of the literal or to an embedded expression. -/
def scanText? (d : Delimiter) (cs : List Char) : Option Passage :=
  scanTextFrom? d 0 {} cs

end Delimiter

end Berrify
