import Berrify.Text.Digits

/-!
# Quoted text in the target language

`quote` writes a text as a string literal in single quotes. Backslash, quote, line feed, carriage
return and tab have two-character escapes, every other character below U+0020 is written as
`\xHH`, and all else stands for itself. `writeBytes` writes a byte buffer by its hexadecimal digits.
-/

namespace Berrify.Text

/-- A character inside a quoted literal. -/
def quoteChar (c : Char) : List Char :=
  if c = '\\' then ['\\', '\\']
  else if c = '\x27' then ['\\', '\x27']
  else if c = '\n' then ['\\', 'n']
  else if c = '\r' then ['\\', 'r']
  else if c = '\t' then ['\\', 't']
  else if c.toNat < 0x20 then ['\\', 'x', hexDigit (c.toNat / 16), hexDigit (c.toNat % 16)]
  else [c]

/-- The characters between the quotes. -/
def quoteBody (text : List Char) : List Char :=
  text.flatMap quoteChar

/-- A single-quoted string literal that denotes `text`. -/
def quote (text : String) : String :=
  "'" ++ String.ofList (quoteBody text.toList) ++ "'"

/-- The two upper-case hexadecimal digits of a byte. -/
def hexByte (byte : UInt8) : List Char :=
  [hexDigitUpper (byte.toNat / 16), hexDigitUpper (byte.toNat % 16)]

/-- A byte buffer literal. -/
def writeBytes (bytes : List UInt8) : String :=
  "bytes('" ++ String.ofList (bytes.flatMap hexByte) ++ "')"

end Berrify.Text
