import Berrify.Text.Digits
import Berrify.Expr

/-!
# Integer literals

`IntLiteral` is an integer as it is written : a radix, digits with separators between them, and
maybe a suffix letter. `IntLiteral.scan?` reads the longest one at the front of a text,
`IntLiteral.value` is the number it denotes, and `IntLiteral.lower` the constant it becomes. Octal
and binary literals are written in decimal, so they have to fit into 64 bits; the other two keep
their text without the separators.
-/

namespace Berrify

/-- The radix of an integer literal, with its mark as written. -/
inductive Radix where
  | decimal
  | hexadecimal (capital : Bool)
  | octal (capital : Bool)
  | binary (capital : Bool)
deriving DecidableEq, Repr

namespace Radix

/-- The number of digits of a radix. -/
def base : Radix → Nat
  | decimal => 10
  | hexadecimal _ => 16
  | octal _ => 8
  | binary _ => 2

/-- The text in front of the digits. -/
def mark : Radix → List Char
  | decimal => []
  | hexadecimal capital => ['0', if capital then 'X' else 'x']
  | octal capital => ['0', if capital then 'O' else 'o']
  | binary capital => ['0', if capital then 'B' else 'b']

/-- The marked radix that a letter after a zero announces. -/
def ofLetter? : Char → Option Radix
  | 'x' => some (hexadecimal false)
  | 'X' => some (hexadecimal true)
  | 'o' => some (octal false)
  | 'O' => some (octal true)
  | 'b' => some (binary false)
  | 'B' => some (binary true)
  | _ => none

/-- Whether a letter may stand behind the digits. -/
def allowsSuffix : Radix → Char → Bool
  | decimal, c => c = 'l' ∨ c = 'L' ∨ c = 'j' ∨ c = 'J'
  | _, c => c = 'l' ∨ c = 'L'

end Radix

/-- The character that may stand between digits. -/
def digitSeparator : Char := '_'

/-- An integer as it is written. -/
structure IntLiteral where
  /-- The radix. -/
  radix : Radix
  /-- Digits of the radix and separators. -/
  body : List Char
  /-- A letter behind the digits, which makes the literal a long or an imaginary one. -/
  suffix : Option Char
  /-- The digits denote a number. -/
  isNumeral : (Text.readDigits? radix.base (body.filter (· ≠ digitSeparator))).isSome

namespace IntLiteral

/-- The digits without the separators. -/
def digits (n : IntLiteral) : List Char :=
  n.body.filter (· ≠ digitSeparator)

/-- The number that the digits denote. -/
def value (n : IntLiteral) : Nat :=
  (Text.readDigits? n.radix.base n.digits).get n.isNumeral

/-- The literal as it is written. -/
def text (n : IntLiteral) : List Char :=
  n.radix.mark ++ n.body ++ n.suffix.toList

/-- The literal as an expression. Suffixes are refused, as are octal and binary literals from
`2 ^ 63` on. -/
def lower (n : IntLiteral) : Expr :=
  if n.suffix.isSome then .unsupported "integer suffix"
  else match n.radix with
  | .decimal => .constant (.int (String.ofList n.digits))
  | .hexadecimal _ => .constant (.int (String.ofList (n.radix.mark ++ n.digits)))
  | _ =>
    if n.value < 0x8000000000000000 then .constant (.int (Text.writeNat n.value))
    else .unsupported "integer literal out of range"

/-! ## Scanning -/

/-- The longest run of digits in which separators stand alone. A separator may come first if
`mayPart` is set, and last unless `closed` is set. -/
def scanBody (base : Nat) (mayPart closed : Bool) : List Char → List Char
  | [] => []
  | c :: rest =>
    if Text.isDigitOf base c then c :: scanBody base true closed rest
    else if c = digitSeparator ∧ mayPart then
      match rest with
      | d :: _ => if Text.isDigitOf base d then c :: scanBody base false closed rest
        else if closed then [] else [c]
      | [] => if closed then [] else [c]
    else []

/-- The literal with a radix whose digits start at the front of a text, and the text behind it. -/
def scanDigits? (radix : Radix) (cs : List Char) : Option (IntLiteral × List Char) :=
  let marked := radix.mark ≠ []
  let body := scanBody radix.base marked marked cs
  let rest := cs.drop body.length
  let (suffix, rest) := match rest with
    | c :: more => if radix.allowsSuffix c then (some c, more) else (none, rest)
    | [] => (none, rest)
  if h : (Text.readDigits? radix.base (body.filter (· ≠ digitSeparator))).isSome then
    some (⟨radix, body, suffix, h⟩, rest)
  else none

/-- The longest integer literal at the front of a text, and the text behind it. -/
def scan? (cs : List Char) : Option (IntLiteral × List Char) :=
  let marked := match cs with
    | '0' :: letter :: rest => (Radix.ofLetter? letter).bind (scanDigits? · rest)
    | _ => none
  marked.or (scanDigits? .decimal cs)

/-- The literal that is all of a text. -/
def ofText? (text : String) : Option IntLiteral :=
  match scan? text.toList with
  | some (n, []) => some n
  | _ => none

end IntLiteral

end Berrify
