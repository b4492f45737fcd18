import Berrify.Text.Digits

/-!
# Escapes in string literals

A literal is read from left to right into `Unit`s : a character stands for itself, and an escape for
a character, a number, or nothing (`escapeAt`). `units` reads all of a literal. In text a number is
a code point (`decodeText`), in a byte string it is a byte (`decodeBytes`), where the long escapes
`\u` and `\U` do not exist.

A backslash that starts no escape stands for itself, and so does a numeric escape whose digits are
no number.
-/

namespace Berrify.Text.Escape

/-- Whether a literal denotes text or bytes. -/
inductive Reading where
  | text
  | bytes
deriving DecidableEq, Repr

/-- What is read at one place of a literal : a character, or the number of a numeric escape. -/
inductive Unit where
  | char (c : Char)
  | code (value : Nat)
deriving DecidableEq, Repr

/-- The characters that one letter after the backslash stands for. -/
def simple? : Char → Option Char
  | 'n' => some '\n'
  | 't' => some '\t'
  | 'r' => some '\r'
  | 'a' => some '\x07'
  | 'b' => some '\x08'
  | 'f' => some '\x0c'
  | 'v' => some '\x0b'
  | '\\' => some '\\'
  | '\x27' => some '\x27'
  | '\x22' => some '\x22'
  | _ => none

/-- The number of characters that the hexadecimal escape of a letter takes. -/
def hexWidth? : Reading → Char → Option Nat
  | _, 'x' => some 2
  | .text, 'u' => some 4
  | .text, 'U' => some 8
  | _, _ => none

/-- A hexadecimal escape with the given letter and digits; it stands for itself if these are no
number. -/
def hexUnits (letter : Char) (digits : List Char) : List Unit :=
  match readUnsigned? 16 digits with
  | some value => [.code value]
  | none => (('\\' :: letter :: digits).map .char)

/-- The octal digits at the front, at most three. -/
def octalDigits (rest : List Char) : List Char :=
  (rest.take 3).takeWhile (isDigitOf 8)

/-- What a backslash before `rest` stands for, and how many characters of `rest` it takes. -/
def escapeAt (reading : Reading) (rest : List Char) : List Unit × Nat :=
  match rest with
  | [] => ([.char '\\'], 0)
  | letter :: more =>
    if letter = '\n' then ([], 1)
    else match simple? letter with
    | some c => ([.char c], 1)
    | none =>
      match hexWidth? reading letter with
      | some width => (hexUnits letter (more.take width), 1 + (more.take width).length)
      | none =>
        match readDigits? 8 (octalDigits rest) with
        | some value => ([.code value], (octalDigits rest).length)
        | none => ([.char '\\', .char letter], 1)

/-- Reads a literal after the first `skip` characters, which belong to an escape already read. -/
def unitsFrom (reading : Reading) : Nat → List Char → List Unit
  | _, [] => []
  | skip + 1, _ :: rest => unitsFrom reading skip rest
  | 0, c :: rest =>
    if c = '\\' then
      let (units, taken) := escapeAt reading rest
      units ++ unitsFrom reading taken rest
    else
      .char c :: unitsFrom reading 0 rest

/-- What a literal is made of. -/
def units (reading : Reading) (literal : List Char) : List Unit :=
  unitsFrom reading 0 literal

/-- The character with a code, the replacement character if there is none. -/
def scalar (code : Nat) : Char :=
  if h : code.isValidChar then Char.ofNatAux code h else '\uFFFD'

/-- A unit as text. -/
def Unit.toChar : Unit → Char
  | char c => c
  | code value => scalar value

/-- A unit as bytes : a character is encoded in UTF-8, and of a number the low byte counts. -/
def Unit.toBytes : Unit → List UInt8
  | char c => String.utf8EncodeChar c
  | code value => [UInt8.ofNat value]

/-- The text that the inside of a string literal denotes. -/
def decodeText (literal : List Char) : List Char :=
  (units .text literal).map Unit.toChar

/-- The bytes that the inside of a byte string literal denotes. -/
def decodeBytes (literal : List Char) : List UInt8 :=
  (units .bytes literal).flatMap Unit.toBytes

end Berrify.Text.Escape
