import Berrify.Concrete
import Berrify.Token

/-!
# Readers

A `Reader` takes tokens from the front of a list and may fail, in which case nothing is taken. This
module has the readers of single tokens, repetition (`iterate`, `collect`), and the two rules of
layout. A `Layout` says how deep the current block is indented and what the reader is inside of.
Where the grammar lets a construct end, it ends at a line end (`Layout.mayGoOn`); where more is due,
a line end is passed over (`Layout.mustGoOn`). Outside brackets neither goes on to a line that is
indented less than the block.
-/

namespace Berrify.Concrete

/-! ## Keywords -/

/-- Words that are no names. -/
def keywords : List String :=
  ["and", "as", "assert", "break", "class", "continue", "def", "del", "elif", "else", "except",
   "finally", "for", "from", "global", "if", "import", "in", "is", "lambda", "nonlocal", "not",
   "or", "pass", "raise", "return", "try", "while", "with", "yield", "None", "True", "False"]

/-- Whether a token is a name. -/
def isName (t : Token) : Bool :=
  t.kind == .word && !keywords.contains t.text

/-- Whether a token can be the first of an expression. -/
def startsExpr (t : Token) : Bool :=
  match t.kind with
  | .word => isName t || ["not", "lambda", "None", "True", "False"].contains t.text
  | .integer => true
  | .float => true
  | .stringOpen => true
  | .symbol => ["(", "[", "\x7b", "+", "-", "~", "*", "..."].contains t.text
  | _ => false

/-- Whether a token can be the first operand behind a word that may also be a name. -/
def startsOperand (t : Token) : Bool :=
  match t.kind with
  | .word => isName t || ["None", "True", "False"].contains t.text
  | _ => startsExpr t

/-! ## Layout -/

/-- What a reader is inside of. -/
inductive Region where
  /-- A statement that ends with its line. -/
  | simple
  /-- The head of a statement, or a construct that has to be completed, before its block. -/
  | header
  | bracket
deriving DecidableEq, Repr

/-- The indentation of the current block and what the reader is inside of. -/
structure Layout where
  indent : Nat
  region : Region
deriving DecidableEq, Repr

namespace Layout

/-- The layout inside brackets. -/
def inBrackets (l : Layout) : Layout := { l with region := .bracket }

/-- The layout of a construct whose end is still due. -/
def unfinished (l : Layout) : Layout :=
  if l.region = .simple then { l with region := .header } else l

/-- Whether a construct that may end goes on with a token. -/
def mayGoOn (l : Layout) (t : Token) : Bool :=
  match l.region, t.lineBreak with
  | .bracket, _ => true
  | _, none => true
  | .header, some indent => l.indent ≤ indent
  | .simple, some _ => false

/-- Whether a construct that has to go on does so with a token. A line that starts with a quote may
be indented less. -/
def mustGoOn (l : Layout) (t : Token) : Bool :=
  match l.region, t.lineBreak with
  | .bracket, _ => true
  | _, none => true
  | _, some indent =>
    l.indent ≤ indent ||
      (t.kind == .stringOpen && !(t.text.toList.headD ' ').isAlpha)

end Layout

/-! ## Readers -/

/-- A reader takes tokens from the front of a list, or fails. -/
abbrev Reader := StateT (List Token) Option

namespace Reader

variable {α : Type}

/-- The token behind the last one. -/
def endToken : Token := { kind := .stop, text := "", line := 0, lineBreak := some 0 }

/-- The next token, which stays. -/
def peek : Reader Token := do return (← get).headD endToken

/-- The token after the next. -/
def peekSecond : Reader Token := do return ((← get).drop 1).headD endToken

/-- Takes the next token. -/
def next : Reader Token := do
  let t ← peek
  modify (List.drop 1)
  return t

/-- Fails unless a condition holds. -/
def check (condition : Bool) : Reader Unit :=
  if condition then pure () else failure

/-- A result of a look-up, or a failure. -/
def ofOption : Option α → Reader α
  | some a => pure a
  | none => failure

/-- What a reader takes, or nothing if it fails. -/
def optionally (p : Reader α) : Reader (Option α) :=
  (some <$> p) <|> pure none

/-- What a reader gives, and the source text it took. -/
def withText (p : Reader α) : Reader (α × String) := do
  let before ← get
  let a ← p
  let after ← get
  return (a, Token.spanText (before.take (before.length - after.length)))

/-! ## Repetition -/

/-- Repeats a step up to a number of times, until it gives nothing. -/
def iterateFuel (step : α → Reader (Option α)) : Nat → α → Reader α
  | 0, a => pure a
  | fuel + 1, a => do
    match ← step a with
    | some b => iterateFuel step fuel b
    | none => pure a

/-- Repeats a step until it gives nothing. A step takes a token, so there are at most as many as
tokens. -/
def iterate (step : α → Reader (Option α)) (start : α) : Reader α := do
  iterateFuel step (← get).length start

/-- Collects what a reader gives until it gives nothing. -/
def collect (p : Reader (Option (List α))) : Reader (List α) :=
  iterate (fun acc => do
    match ← p with
    | some more => return some (acc ++ more)
    | none => return none) []

/-! ## Single tokens -/

/-- Whether the next token is a symbol that a construct may go on with. -/
def nextIs (l : Layout) (symbol : String) : Reader Bool := do
  let t ← peek
  return t.isSymbol symbol && l.mayGoOn t

/-- Whether the next token is a word that a construct may go on with. -/
def nextIsWord (l : Layout) (word : String) : Reader Bool := do
  let t ← peek
  return t.isWord word && l.mayGoOn t

/-- Takes a symbol if a construct goes on with it. -/
def accept (l : Layout) (symbol : String) : Reader Bool := do
  if ← nextIs l symbol then
    let _ ← next
    return true
  else return false

/-- Takes a symbol if a construct goes on with it and a condition holds. -/
def acceptIf (condition : Bool) (l : Layout) (symbol : String) : Reader Bool :=
  if condition then accept l symbol else pure false

/-- Takes a word if a construct goes on with it. -/
def acceptWord (l : Layout) (word : String) : Reader Bool := do
  if ← nextIsWord l word then
    let _ ← next
    return true
  else return false

/-- Takes a token that is due. -/
def due (l : Layout) (condition : Token → Bool) : Reader Token := do
  let t ← peek
  check (condition t && l.mustGoOn t)
  next

/-- Takes a symbol that is due. -/
def expect (l : Layout) (symbol : String) : Reader Unit := do
  let _ ← due l (·.isSymbol symbol)

/-- Takes a word that is due. -/
def expectWord (l : Layout) (word : String) : Reader Unit := do
  let _ ← due l (·.isWord word)

/-- Takes a name that is due. -/
def expectName (l : Layout) : Reader String := do
  return (← due l isName).text

/-- A mark for each line continuation in front of the next token. -/
def marks (mark : α) : Reader (List α) := do
  return (← peek).continuations.map fun _ => mark

/-- The line continuations in front of the next token, as nodes. -/
def gapNodes : Reader (List Expr) := marks Expr.lineContinuation

/-! ## Lists -/

/-- The items of a bracketed list from here to the closing bracket, with a mark for each line
continuation between them. -/
def itemsFuel (l : Layout) (close : String) (mark : α) (item : Reader α) : Nat → Reader (List α)
  | 0 => failure
  | fuel + 1 => do
    let before ← marks mark
    if ← accept l close then return before
    let a ← item
    let behind ← marks mark
    if ← accept l "," then
      return before ++ a :: behind ++ (← itemsFuel l close mark item fuel)
    expect l close
    return before ++ a :: behind

/-- The items of a bracketed list from here to the closing bracket. -/
def items (l : Layout) (close : String) (mark : α) (item : Reader α) : Reader (List α) := do
  itemsFuel l close mark item ((← get).length + 1)

/-- The rest of a bracketed list behind one of its items. -/
def itemsAfter (l : Layout) (close : String) (mark : α) (item : Reader α) : Reader (List α) := do
  let behind ← marks mark
  if ← accept l "," then return behind ++ (← items l close mark item)
  expect l close
  return behind

/-- Items with commas between them, as far as they have been read. -/
structure OpenItems (α : Type) where
  items : List α
  /-- There is a comma. -/
  comma : Bool := false
  /-- The last comma has no item behind it. -/
  done : Bool := false

/-- Items with commas between them and no brackets around; `isItem` says whether one follows a
comma. -/
def openItems (l : Layout) (mark : α) (isItem : Token → Bool) (item : Reader α) :
    Reader (OpenItems α) := do
  let first ← item
  iterate (fun acc => do
    let behind ← marks mark
    if !(← acceptIf (!acc.done) l ",") then return none
    let t ← peek
    if isItem t && l.mayGoOn t then
      let before ← marks mark
      return some { items := acc.items ++ behind ++ before ++ [← item], comma := true }
    else return some { items := acc.items ++ behind, comma := true, done := true })
    { items := [first] }

end Reader

end Berrify.Concrete
