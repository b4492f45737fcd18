import Berrify.Concrete.CasePatterns
import Berrify.Concrete.Hints

/-!
# Reading statements that end with their line

`readSimpleStatement` reads one such statement and `readSimpleLine` those of a line. A few words are
both keywords and names. `print` starts an expression if the statement can be read as one to its
end, and `type` starts an alias if it can.
-/

namespace Berrify.Concrete

open Reader

/-! ## Assignments -/

/-- The operator of an assignment such as `+=`. -/
def updateOp? (t : Token) : Option BinaryOp :=
  if t.kind != .symbol then none
  else match t.text.toList.reverse with
    | '=' :: op => BinaryOp.ofToken? (String.ofList op.reverse)
    | _ => none

/-- The assignment whose left-hand side has been read, if one follows. -/
def readAssignment? (r : Rules) (l : Layout) (left : Expr) : Reader (Option Stmt) := do
  let t ← peek
  if !l.mayGoOn t then return none
  else if t.isSymbol "=" then
    let target ← ofOption left.asTarget?
    let _ ← next
    return some (.assign target (← r.right l))
  else if t.isSymbol ":" then
    let target ← ofOption left.asTarget?
    let _ ← next
    let hint ← r.type l true
    if ← accept l "=" then return some (.declare target hint (some (← r.right l)))
    else return some (.declare target hint none)
  else match updateOp? t with
    | some op =>
      let target ← ofOption left.asTarget?
      let _ ← next
      return some (.update target op (← r.right l))
    | none => return none

/-- The right-hand side of an assignment. -/
def readRight (r : Rules) (l : Layout) : Reader Right := do
  let t ← peek
  if t.isWord "yield" then
    let _ ← readYield r l
    return .yield
  let e ← readExprs r l
  match ← readAssignment? r l e with
  | some (.assign left right) => return .chained left right
  | some (.declare _ _ _) => return .annotated
  | some _ => return .updated
  | none => return .value e

/-- An expression, a list of them, or an assignment. -/
def readExprStatement (r : Rules) (l : Layout) : Reader Stmt := do
  if (← peek).isWord "yield" then return .expr (← readYield r l)
  let e ← readExprs r l
  match ← readAssignment? r l e with
  | some assignment => return assignment
  | none => return .expr e

/-! ## Imports -/

/-- One imported library. -/
def readImportedName (l : Layout) : Reader ImportedName := do
  let (_, name) ← withText (readDottedName l)
  if ← acceptWord l "as" then return ⟨name, some (← expectName l)⟩
  else return ⟨name, none⟩

/-- Imported names with commas between them. -/
def readImportedNames (l : Layout) : Reader (List ImportedName) := do
  let read ← openItems l none isName (some <$> readImportedName l)
  return read.items.filterMap id

/-- The library that names are imported from : dots, a dotted name, or both. -/
def readImportSource (l : Layout) : Reader Unit := do
  let dots ← iterate (fun count => do
    let t ← peek
    if t.isSymbol "." || t.isSymbol "..." then
      let _ ← next
      return some (count + 1)
    else return none) 0
  if dots = 0 || isName (← peek) then readDottedName l

/-- `from … import …`, whose content is not kept. -/
def readFromImport (l : Layout) : Reader Stmt := do
  let isFuture := (← peek).isWord "__future__"
  if isFuture then
    let _ ← next
  else readImportSource l
  expectWord l "import"
  if ← acceptIf (!isFuture) l "*" then return .other "import_from_statement"
  if ← accept l "(" then
    let _ ← readImportedNames l.inBrackets
    expect l.inBrackets ")"
  else
    let _ ← readImportedNames l
  return .other (if isFuture then "future_import_statement" else "import_from_statement")

/-! ## Other statements -/

/-- Names with commas between them, and the line continuations among them. -/
def readGlobalNames (l : Layout) : Reader (List String) := do
  let gapTexts : Reader (List String) := do return (← peek).continuations.map (·.text)
  let gap ← gapTexts
  let first ← expectName l
  iterate (fun names => do
    let behind ← gapTexts
    if ← accept l "," then
      let before ← gapTexts
      return some (names ++ behind ++ before ++ [← expectName l])
    else return none) (gap ++ [first])

/-- Whether a statement ends before a token. -/
def endsStatement (t : Token) : Bool :=
  t.isSymbol ";" || t.lineBreak.isSome

/-- What a reader gives, provided that a statement ends behind it. -/
def wholeStatement {α : Type} (p : Reader α) : Reader α := do
  let a ← p
  check (endsStatement (← peek))
  return a

/-- Expressions with commas between them, none of which is kept. -/
def readOperands (r : Rules) (l : Layout) : Reader Unit := do
  let _ ← openItems l () startsExpr (do let _ ← r.expr l Level.anything.rank)

/-- `print` as a statement. -/
def readPrint (r : Rules) (l : Layout) : Reader Stmt := do
  expectWord l "print"
  let _ ← accept l ">>"
  readOperands r l
  return .other "print_statement"

/-- `exec` as a statement. -/
def readExec (r : Rules) (l : Layout) : Reader Stmt := do
  expectWord l "exec"
  if (← peek).kind == .stringOpen then
    let _ ← readString r l
  else
    let _ ← expectName l
  if ← acceptWord l "in" then readOperands r l
  return .other "exec_statement"

/-- `type` as a statement. -/
def readTypeAlias (r : Rules) (l : Layout) : Reader Stmt := do
  expectWord l "type"
  let _ ← r.type l true
  expect l "="
  let _ ← r.type l true
  return .other "type_alias_statement"

/-- `raise`, behind the word. -/
def readRaise (r : Rules) (l : Layout) : Reader Stmt := do
  let t ← peek
  if startsExpr t && l.mayGoOn t then
    let _ ← readExprs r l
  if ← acceptWord l "from" then
    let _ ← r.expr l Level.anything.rank
  return .other "raise_statement"

/-- `return`, behind the word. -/
def readReturn (r : Rules) (l : Layout) : Reader Stmt := do
  let t ← peek
  if startsExpr t && l.mayGoOn t then
    let gap ← gapNodes
    return .giveBack (gap ++ [← readExprs r l])
  else return .giveBack []

/-- A statement that ends with its line. -/
def readSimpleStatement (r : Rules) (l : Layout) : Reader Stmt := do
  let t ← peek
  let second ← peekSecond
  let behindWord (p : Reader Stmt) : Reader Stmt := do
    let _ ← next
    p
  if t.kind != .word then readExprStatement r l
  else match t.text with
  | "pass" => behindWord (return .pass)
  | "break" => behindWord (return .leaveLoop)
  | "continue" => behindWord (return .nextRound)
  | "return" => behindWord (readReturn r l)
  | "import" => behindWord (do return .importNames (← readImportedNames l))
  | "from" => behindWord (readFromImport l)
  | "global" => behindWord (do return .globalNames (← readGlobalNames l))
  | "nonlocal" =>
    behindWord (do
      let _ ← readGlobalNames l
      return .other "nonlocal_statement")
  | "assert" =>
    behindWord (do
      readOperands r l
      return .other "assert_statement")
  | "del" =>
    behindWord (do
      let _ ← readExprs r l
      return .other "delete_statement")
  | "raise" => behindWord (readRaise r l)
  | "print" =>
    if second.isSymbol ">>" && l.mayGoOn second then readPrint r l
    else wholeStatement (readExprStatement r l) <|> readPrint r l
  | "exec" => wholeStatement (readExec r l) <|> readExprStatement r l
  | "type" => wholeStatement (readTypeAlias r l) <|> readExprStatement r l
  | _ => readExprStatement r l

/-! ## Lines -/

/-- The line continuations in front of the next token, as statements. -/
def gapStatements : Reader Block := do
  return (← peek).continuations.map fun c => ⟨c.line, .other Expr.continuationRule⟩

/-- A statement with the line of its first token. -/
def readLocated (p : Reader Stmt) : Reader (Located Stmt) := do
  let line := (← peek).line
  return ⟨line, ← p⟩

/-- The statements of a line. -/
def readSimpleLine (r : Rules) (indent : Nat) : Reader Block := do
  let l : Layout := ⟨indent, .simple⟩
  let first ← readLocated (readSimpleStatement r l)
  let all ← iterate (fun block => do
    let behind ← gapStatements
    if ← accept l ";" then
      if (← peek).lineBreak.isSome then return some (block ++ behind)
      else
        let before ← gapStatements
        return some (block ++ behind ++ before ++ [← readLocated (readSimpleStatement r l)])
    else return none) [first]
  check (← peek).lineBreak.isSome
  return all

end Berrify.Concrete
