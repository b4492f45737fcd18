import Berrify.Concrete.Expressions

/-!
# Reading the patterns of `case` clauses

Patterns are read only to find their end, since statements that match are not kept.
-/

namespace Berrify.Concrete

open Reader

/-- A dotted name. -/
def readDottedName (l : Layout) : Reader Unit := do
  let _ ← expectName l
  iterate (fun _ => do
    if ← accept l "." then
      let _ ← expectName l
      return some ()
    else return none) ()

/-- Whether a token is a number. -/
def isNumber (t : Token) : Bool :=
  t.kind == .integer || t.kind == .float

/-- A number, maybe with an imaginary part. -/
def readNumberPattern (l : Layout) : Reader Unit := do
  let _ ← due l isNumber
  let t ← peek
  if (t.isSymbol "+" || t.isSymbol "-") && isNumber (← peekSecond) then
    let _ ← next
    let _ ← next

/-- An entry of a mapping pattern. -/
def readPatternEntry (r : Rules) (l : Layout) : Reader Unit := do
  r.casePattern l
  if ← accept l ":" then r.casePattern l

/-- A pattern without alternatives. -/
def readSimplePattern (r : Rules) (l : Layout) : Reader Unit := do
  let t ← peek
  check (l.mustGoOn t)
  let inside := l.inBrackets
  match t.kind with
  | .word =>
    if ["None", "True", "False"].contains t.text then
      let _ ← next
    else
      readDottedName l
      if ← accept l "(" then
        let _ ← items inside ")" () (r.casePattern inside)
  | .integer => readNumberPattern l
  | .float => readNumberPattern l
  | .stringOpen =>
    let _ ← readStrings r l
  | .symbol =>
    let _ ← next
    match t.text with
    | "-" => readNumberPattern l
    | "*" =>
      let _ ← expectName l
    | "**" =>
      let _ ← expectName l
    | "[" =>
      let _ ← items inside "]" () (r.casePattern inside)
    | "(" =>
      let _ ← items inside ")" () (r.casePattern inside)
    | "\x7b" =>
      let _ ← items inside "\x7d" () (readPatternEntry r inside)
    | _ => failure
  | _ => failure

/-- A pattern. -/
def readCasePattern (r : Rules) (l : Layout) : Reader Unit := do
  if isName (← peek) && (← peekSecond).isSymbol "=" then
    let _ ← next
    let _ ← next
  readSimplePattern r l
  iterate (fun _ => do
    if ← accept l "|" then
      readSimplePattern r l
      return some ()
    else if ← acceptWord l "as" then
      let _ ← expectName l
      return some ()
    else return none) ()

end Berrify.Concrete
