import Berrify.Text.Digits
import Berrify.Toml.Document

/-!
# Reading TOML

`Toml.parse?` reads a TOML text : key-value pairs, tables, arrays of tables, inline tables, arrays
over several lines, the four forms of strings, booleans and numbers. Dates and times are not read.
Arrays and inline tables nest at most `maxDepth` deep.
-/

namespace Berrify.Toml

/-- A reader takes characters from the front of a list, or fails. -/
abbrev Reader := StateT (List Char) Option

namespace Reader

/-- The next character, which stays. -/
def peek? : Reader (Option Char) := do return (← get).head?

/-- Takes the next character. -/
def next : Reader Char := do
  match ← get with
  | c :: rest =>
    set rest
    return c
  | [] => failure

/-- Fails unless a condition holds. -/
def check (condition : Bool) : Reader Unit :=
  if condition then pure () else failure

/-- Whether the text goes on with some characters, which are then taken. -/
def accept (text : String) : Reader Bool := do
  let cs ← get
  if text.toList.isPrefixOf cs then
    set (cs.drop text.length)
    return true
  else return false

/-- Takes characters that are due. -/
def expect (text : String) : Reader Unit := do check (← accept text)

/-- Takes characters for as long as they fit. -/
def takeWhile (p : Char → Bool) : Reader (List Char) := do
  let cs ← get
  let taken := cs.takeWhile p
  set (cs.drop taken.length)
  return taken

end Reader

open Reader

/-! ## Blanks, comments and line ends -/

/-- Whether a character is a blank inside a line. -/
def isBlankChar (c : Char) : Bool := c == ' ' || c == '\t'

/-- Whether a character may stand in a comment or a literal string. -/
def isPlainChar (c : Char) : Bool := c == '\t' || (0x20 ≤ c.toNat && c.toNat != 0x7F)

/-- Blanks inside a line. -/
def skipBlanks : Reader Unit := do
  let _ ← takeWhile isBlankChar

/-- A line end. -/
def acceptNewline : Reader Bool := do
  if ← accept "\n" then return true else accept "\x0d\n"

/-- A comment, if there is one. -/
def skipComment : Reader Unit := do
  if ← accept "#" then
    let _ ← takeWhile isPlainChar

/-- The end of a line behind a pair or a header. -/
def endLine : Reader Unit := do
  skipBlanks
  skipComment
  if (← get).isEmpty then return
  check (← acceptNewline)

/-- Blanks, comments and line ends inside an array, at most `fuel` lines. -/
def skipLinesFuel : Nat → Reader Unit
  | 0 => failure
  | fuel + 1 => do
    skipBlanks
    skipComment
    if ← acceptNewline then skipLinesFuel fuel

/-- Blanks, comments and line ends inside an array. -/
def skipLines : Reader Unit := do skipLinesFuel ((← get).length + 1)

/-! ## Strings -/

/-- The number of an escape of `count` hexadecimal digits, which must be a character. -/
def readUnicode (count : Nat) : Reader Char := do
  let cs ← get
  let digits := cs.take count
  check (digits.length == count)
  match (Text.readDigits? 16 digits) with
  | some code =>
    if h : code.isValidChar then
      set (cs.drop count)
      return Char.ofNatAux code h
    else failure
  | none => failure

/-- The character that an escape denotes, behind the backslash. -/
def readEscape : Reader Char := do
  match ← next with
  | 'b' => return '\x08'
  | 't' => return '\t'
  | 'n' => return '\n'
  | 'f' => return '\x0c'
  | 'r' => return '\r'
  | '\x22' => return '\x22'
  | '\\' => return '\\'
  | 'u' => readUnicode 4
  | 'U' => readUnicode 8
  | _ => failure

/-- A basic string behind its opening quote; `fuel` bounds the number of characters. -/
def readBasicFuel : Nat → Reader (List Char)
  | 0 => failure
  | fuel + 1 => do
    let c ← next
    if c = '\x22' then return []
    else if c = '\\' then return (← readEscape) :: (← readBasicFuel fuel)
    else
      check (isPlainChar c)
      return c :: (← readBasicFuel fuel)

/-- A literal string behind its opening quote. -/
def readLiteral : Reader (List Char) := do
  let text ← takeWhile fun c => isPlainChar c && c != '\x27'
  expect "'"
  return text

/-- The quotes at the front of a text over several lines. -/
def quoteRun (quote : Char) : Reader Nat := do
  return ((← get).takeWhile (· == quote)).length

/-- Blanks and line ends behind a backslash at the end of a line, at most `fuel` of them. -/
def skipBlankLines : Nat → Reader Unit
  | 0 => failure
  | fuel + 1 => do
    skipBlanks
    if ← acceptNewline then skipBlankLines fuel

/-- A string over several lines behind its opening quotes. Up to two quotes may stand in front of
the closing ones. Only a string in double quotes has escapes. -/
def readLinesFuel (quote : Char) (escapes : Bool) : Nat → Reader (List Char)
  | 0 => failure
  | fuel + 1 => do
    let run ← quoteRun quote
    if 3 ≤ run then
      check (run ≤ 5)
      modify (List.drop run)
      return List.replicate (run - 3) quote
    else if ← acceptNewline then return '\n' :: (← readLinesFuel quote escapes fuel)
    else
      let c ← next
      if escapes && c == '\\' then
        let before ← get
        skipBlanks
        if ← acceptNewline then
          skipBlankLines fuel
          readLinesFuel quote escapes fuel
        else
          set before
          return (← readEscape) :: (← readLinesFuel quote escapes fuel)
      else
        check (isPlainChar c)
        return c :: (← readLinesFuel quote escapes fuel)

/-- A string of any form. -/
def readString : Reader String := do
  let fuel := (← get).length + 1
  if ← accept "\x22\x22\x22" then
    let _ ← acceptNewline
    return String.ofList (← readLinesFuel '\x22' true fuel)
  else if ← accept "'''" then
    let _ ← acceptNewline
    return String.ofList (← readLinesFuel '\x27' false fuel)
  else if ← accept "\x22" then return String.ofList (← readBasicFuel fuel)
  else
    expect "'"
    return String.ofList (← readLiteral)

/-! ## Keys -/

/-- Whether a character may stand in a key without quotes. -/
def isKeyChar (c : Char) : Bool := c.isAlphanum || c == '_' || c == '-'

/-- One part of a key. -/
def readKeyPart : Reader String := do
  if ← accept "\x22" then return String.ofList (← readBasicFuel ((← get).length + 1))
  else if ← accept "'" then return String.ofList (← readLiteral)
  else
    let text ← takeWhile isKeyChar
    check (!text.isEmpty)
    return String.ofList text

/-- The parts of a dotted key, at most `fuel`. -/
def readKeyFuel : Nat → Reader (List String)
  | 0 => failure
  | fuel + 1 => do
    skipBlanks
    let part ← readKeyPart
    skipBlanks
    if ← accept "." then return part :: (← readKeyFuel fuel) else return [part]

/-- A dotted key : the parts in front of the last one, and the last one. -/
def readKey : Reader (List String × String) := do
  let parts ← readKeyFuel ((← get).length + 1)
  return (parts.dropLast, parts.getLastD "")

/-! ## Numbers -/

/-- Digits of a base with single underscores between them. -/
def readDigitRun (base : Nat) : Reader (List Char) := do
  let text ← takeWhile fun c => Text.isDigitOf base c || c == '_'
  let digits := text.filter (· != '_')
  let isParted := (text.zip (text.drop 1)).all fun (a, b) => a != '_' || b != '_'
  check (!digits.isEmpty && isParted && text.head? != some '_' && text.getLast? != some '_')
  return digits

/-- The number that digits with a sign denote, provided that it fits into 64 bits. -/
def integerOf (base : Nat) (negative : Bool) (digits : List Char) : Reader Value := do
  match Text.readDigits? base digits with
  | some n =>
    let value : Int := if negative then -(n : Int) else n
    check (Text.fitsInt64 value)
    return .integer value
  | none => failure

/-- An integer or a fractional number. -/
def readNumber : Reader Value := do
  if ← accept "0x" then integerOf 16 false (← readDigitRun 16)
  else if ← accept "0o" then integerOf 8 false (← readDigitRun 8)
  else if ← accept "0b" then integerOf 2 false (← readDigitRun 2)
  else
    let negative ← accept "-"
    if !negative then
      let _ ← accept "+"
    if ← accept "inf" then return .float
    else if ← accept "nan" then return .float
    else
      let digits ← readDigitRun 10
      check (digits.length == 1 || digits.head? != some '0')
      let hasFraction ← accept "."
      if hasFraction then
        let _ ← readDigitRun 10
      let hasExponent ← if ← accept "e" then pure true else accept "E"
      if hasExponent then
        let signed ← accept "-"
        if !signed then
          let _ ← accept "+"
        let _ ← readDigitRun 10
      if hasFraction || hasExponent then return .float else integerOf 10 negative digits

/-! ## Values -/

/-- How deep arrays and inline tables nest at most. -/
def maxDepth : Nat := 79

/-- The items of an array behind the opening bracket, at most `fuel`. -/
def readItemsFuel (item : Reader Value) : Nat → Reader (List Value)
  | 0 => failure
  | fuel + 1 => do
    skipLines
    if ← accept "]" then return []
    let value ← item
    skipLines
    if ← accept "," then return value :: (← readItemsFuel item fuel)
    expect "]"
    return [value]

/-- A key and its value. -/
def readPair (item : Reader Value) : Reader ((List String × String) × Value) := do
  let key ← readKey
  expect "="
  skipBlanks
  return (key, ← item)

/-- The pairs of an inline table, at most `fuel`, added to those read before. -/
def readInlineFuel (item : Reader Value) : Nat → Entries → Reader Entries
  | 0, _ => failure
  | fuel + 1, entries => do
    let ((path, key), value) ← readPair item
    match entries.addPair path key value .header with
    | some entries =>
      skipBlanks
      if ← accept "," then readInlineFuel item fuel entries
      else
        expect "\x7d"
        return entries
    | none => failure

/-- A value. The reader of nested values is absent where none may nest. -/
def readValueOver (inner : Option (Reader Value)) : Reader Value := do
  match ← peek? with
  | some '\x22' => return .string (← readString)
  | some '\x27' => return .string (← readString)
  | some '[' =>
    let _ ← next
    match inner with
    | none => failure
    | some item => return .array (← readItemsFuel item ((← get).length + 1))
  | some '\x7b' =>
    let _ ← next
    match inner with
    | none => failure
    | some item =>
      skipBlanks
      if ← accept "\x7d" then return .table []
      return (← readInlineFuel item ((← get).length + 1) []).toValue
  | some 't' =>
    expect "true"
    return .boolean true
  | some 'f' =>
    expect "false"
    return .boolean false
  | some _ => readNumber
  | none => failure

/-- A value that nests at most as deep as a bound. -/
def readValue : Nat → Reader Value
  | 0 => readValueOver none
  | depth + 1 => readValueOver (some (readValue depth))

/-! ## Documents -/

/-- A document as far as it has been read : its entries and the header of the current table. -/
structure Draft where
  entries : Entries := []
  header : List String := []

/-- Behind an opening bracket at the start of a line : a header. -/
def readHeader (draft : Draft) : Reader Draft := do
  let isElement ← accept "["
  let (path, key) ← readKey
  expect (if isElement then "]]" else "]")
  endLine
  let added := if isElement then draft.entries.addElement path key
    else draft.entries.addHeader path key
  match added with
  | some entries => return { entries, header := path ++ [key] }
  | none => failure

/-- The lines of a document, at most `fuel`. -/
def readLines : Nat → Draft → Reader Draft
  | 0, _ => failure
  | fuel + 1, draft => do
    skipBlanks
    match ← peek? with
    | none => return draft
    | some c =>
      if c = '#' ∨ c = '\n' ∨ c = '\r' then
        endLine
        readLines fuel draft
      else if ← accept "[" then readLines fuel (← readHeader draft)
      else
        let ((path, key), value) ← readPair (readValue maxDepth)
        endLine
        match draft.entries.addPairBelow draft.header path key value with
        | some entries => readLines fuel { draft with entries }
        | none => failure

/-- The table that a TOML text denotes. A byte order mark may stand in front. -/
def parse? (text : String) : Option Value :=
  let cs := match text.toList with
    | '\uFEFF' :: rest => rest
    | cs => cs
  ((readLines (cs.length + 1) {}).run' cs).map fun draft => draft.entries.toValue

end Berrify.Toml
