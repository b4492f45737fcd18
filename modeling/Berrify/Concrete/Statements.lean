import Berrify.Concrete.SimpleStatements

/-!
# Reading statements and blocks

A block behind a colon either stands on the same line or is indented deeper than the statement it
belongs to; otherwise it is empty. It ends before a line that is indented less (`readBlock`). A
clause such as `else` goes with a statement unless its line is indented less than that statement's
block.
-/

namespace Berrify.Concrete

open Reader

/-! ## Clauses -/

/-- Whether a clause of a statement in a block with the given indentation comes next. -/
def nextIsClause (indent : Nat) (word : String) : Reader Bool := do
  let t ← peek
  return t.isWord word && match t.lineBreak with
    | some depth => indent ≤ depth
    | none => true

/-- The body of a clause without a head, empty if the clause is absent. -/
def readPlainClause (r : Rules) (indent : Nat) (word : String) : Reader Block := do
  if ← nextIsClause indent word then
    let _ ← next
    expect ⟨indent, .header⟩ ":"
    r.suite indent
  else return []

/-- `elif` clauses. -/
def readElifs (r : Rules) (indent : Nat) : Reader (List (ElifClause Block)) :=
  let l : Layout := ⟨indent, .header⟩
  collect (do
    if ← nextIsClause indent "elif" then
      let t ← next
      let test ← r.expr l Level.anything.rank
      expect l ":"
      return some [⟨t.line, test, ← r.suite indent⟩]
    else return none)

/-- What an `except` clause catches. A name behind `as` belongs to the clause. -/
def readCaughtClass (r : Rules) (l : Layout) : Reader Expr := do
  let e ← r.expr l Level.clause.rank
  if ← nextIsWord l "if" then return (← readOperator r l Level.conditional.rank e).getD e
  else return e

/-- The nodes of an `except` clause in front of its block, each with its text. -/
def readCaught (r : Rules) (l : Layout) : Reader (List (Expr × String)) := do
  let gap : Reader (List (Expr × String)) := do
    return (← peek).continuations.map fun c => (Expr.lineContinuation, c.text)
  let before ← gap
  if (← peek).isSymbol ":" then return before
  let first ← withText (readCaughtClass r l)
  let behind ← gap
  if ← acceptWord l "as" then
    let between ← gap
    let bound ← withText (r.expr l Level.anything.rank)
    return before ++ first :: behind ++ between ++ bound :: (← gap)
  else
    let others ← collect (do
      if ← accept l "," then
        let between ← gap
        let e ← withText (r.expr l Level.anything.rank)
        return some (between ++ e :: (← gap))
      else return none)
    return before ++ first :: behind ++ others

/-- `except` clauses. The first node in front of the block is what is caught, and the text of the
second is the name it is bound to. -/
def readExcepts (r : Rules) (indent : Nat) : Reader (List (ExceptClause Block)) :=
  let l : Layout := ⟨indent, .header⟩
  collect (do
    if ← nextIsClause indent "except" then
      let _ ← next
      let _ ← accept l "*"
      let parts ← readCaught r l
      expect l ":"
      let t ← peek
      let hasBody : Bool := match t.lineBreak with
        | some depth => indent < depth
        | none => true
      let gap := if !hasBody then []
        else t.continuations.map fun c => (Expr.lineContinuation, c.text)
      let parts := parts ++ gap
      let body ← r.suite indent
      return some [⟨parts.head?.map Prod.fst, (parts.drop 1).head?.map Prod.snd, body⟩]
    else return none)

/-! ## Statements with blocks -/

/-- `if`, behind the word. -/
def readBranch (r : Rules) (indent : Nat) : Reader Stmt := do
  let l : Layout := ⟨indent, .header⟩
  let test ← r.expr l Level.anything.rank
  expect l ":"
  let body ← r.suite indent
  let elifs ← readElifs r indent
  return .branch test body elifs (← readPlainClause r indent "else")

/-- `while`, behind the word. -/
def readWhile (r : Rules) (indent : Nat) : Reader Stmt := do
  let l : Layout := ⟨indent, .header⟩
  let test ← r.expr l Level.anything.rank
  expect l ":"
  let body ← r.suite indent
  return .whileLoop test body (← readPlainClause r indent "else")

/-- `for`, behind the word. -/
def readFor (r : Rules) (indent : Nat) (isAsync : Bool) : Reader Stmt := do
  let l : Layout := ⟨indent, .header⟩
  let target ← readTargets r l
  expectWord l "in"
  let iter ← readExprs r l
  expect l ":"
  let body ← r.suite indent
  return .forEach isAsync target iter body (← readPlainClause r indent "else")

/-- `try`, behind the word. -/
def readAttempt (r : Rules) (indent : Nat) : Reader Stmt := do
  expect ⟨indent, .header⟩ ":"
  let body ← r.suite indent
  let clauses ← readExcepts r indent
  let orelse ← readPlainClause r indent "else"
  return .attempt body clauses orelse (← readPlainClause r indent "finally")

/-- `with`, behind the word; its content is not kept. -/
def readWith (r : Rules) (indent : Nat) : Reader Stmt := do
  let l : Layout := ⟨indent, .header⟩
  readOperands r l
  expect l ":"
  let _ ← r.suite indent
  return .other "with_statement"

/-- Type parameters behind the name of a definition, which are not kept. -/
def readTypeParameters? (r : Rules) (l : Layout) : Reader Unit := do
  if ← nextIs l "[" then readTypeParameters r l

/-- `def`, behind the word. -/
def readFunction (r : Rules) (indent : Nat) (decorators : List Expr) (isAsync : Bool) :
    Reader Stmt := do
  let l : Layout := ⟨indent, .header⟩
  let name ← expectName l
  readTypeParameters? r l
  expect l "("
  let inside := l.inBrackets
  let params ← items inside ")" (.other Expr.continuationRule) (readParameter r inside true)
  if ← accept l "->" then
    let _ ← r.type l false
  expect l ":"
  return .functionDef decorators isAsync name params (← r.suite indent)

/-- `class`, behind the word. -/
def readClass (r : Rules) (indent : Nat) (decorators : List Expr) : Reader Stmt := do
  let l : Layout := ⟨indent, .header⟩
  let name ← expectName l
  readTypeParameters? r l
  let bases ← if ← accept l "(" then readArguments r l.inBrackets else pure []
  expect l ":"
  return .classDef decorators name bases (← r.suite indent)

/-- Decorators and the definition they belong to. -/
def readDecorated (r : Rules) (indent : Nat) : Reader Stmt := do
  let decorators ← collect (do
    if (← peek).isSymbol "@" then
      let _ ← next
      let gap ← gapNodes
      let e ← r.expr ⟨indent, .simple⟩ Level.anything.rank
      match (← peek).lineBreak with
      | some depth =>
        check (indent ≤ depth)
        return some [gap.headD e]
      | none => failure
    else return none)
  let t ← next
  if t.isWord "class" then readClass r indent decorators
  else if t.isWord "def" then readFunction r indent decorators false
  else
    check (t.isWord "async")
    expectWord ⟨indent, .header⟩ "def"
    readFunction r indent decorators true

/-- `match`, with the word; its content is not kept. -/
def readMatch (r : Rules) (indent : Nat) : Reader Stmt := do
  let l : Layout := ⟨indent, .header⟩
  expectWord l "match"
  readOperands r l
  expect l ":"
  let depth ← ofOption (← peek).lineBreak
  if indent < depth then
    let inside : Layout := ⟨depth, .header⟩
    iterate (fun _ => do
      let t ← peek
      if t.lineBreak.all (· < depth) then return none
      expectWord inside "case"
      let _ ← openItems inside () (fun u => !(u.isSymbol ":") && !(u.isWord "if"))
        (r.casePattern inside)
      if ← acceptWord inside "if" then
        let _ ← r.expr inside Level.anything.rank
      expect inside ":"
      let _ ← r.suite depth
      return some ()) ()
  return .other "match_statement"

/-! ## Blocks -/

/-- The statement, or the statements of the line, at the front of a block. -/
def readStatements (r : Rules) (indent : Nat) : Reader Block := do
  let t ← peek
  let second ← peekSecond
  let behindWord (p : Reader Stmt) : Reader Block := do
    return [← readLocated (do
      let _ ← next
      p)]
  if t.isSymbol "@" then return [← readLocated (readDecorated r indent)]
  else if t.kind != .word then readSimpleLine r indent
  else match t.text with
  | "if" => behindWord (readBranch r indent)
  | "while" => behindWord (readWhile r indent)
  | "for" => behindWord (readFor r indent false)
  | "try" => behindWord (readAttempt r indent)
  | "with" => behindWord (readWith r indent)
  | "def" => behindWord (readFunction r indent [] false)
  | "class" => behindWord (readClass r indent [])
  | "async" =>
    let behindBoth (p : Reader Stmt) : Reader Block := behindWord (do
      let _ ← next
      p)
    match second.text with
    | "def" => behindBoth (readFunction r indent [] true)
    | "for" => behindBoth (readFor r indent true)
    | "with" => behindBoth (readWith r indent)
    | _ => readSimpleLine r indent
  | "match" =>
    (do return [← readLocated (readMatch r indent)]) <|> readSimpleLine r indent
  | _ => readSimpleLine r indent

/-- A block with an indentation. Line continuations between its statements are statements; those in
front of the first one count only if `fromStart` is set. -/
def readBlock (r : Rules) (indent : Nat) (fromStart : Bool) : Reader Block := do
  let first ← if fromStart then pure [] else readStatements r indent
  let others ← collect (do
    let t ← peek
    if t.kind == .stop then return none
    match t.lineBreak with
    | some depth =>
      if depth < indent then return none
      else return some ((← gapStatements) ++ (← readStatements r indent))
    | none => return some ((← gapStatements) ++ (← readStatements r indent)))
  return first ++ others

/-- What stands behind the colon of a statement in a block with an indentation. -/
def readSuite (r : Rules) (indent : Nat) : Reader Block := do
  match (← peek).lineBreak with
  | none => readSimpleLine r indent
  | some depth => if indent < depth then readBlock r depth false else return []

/-! ## Scripts -/

/-- The rules for constructs that nest less deep than a bound. -/
def Rules.upTo : Nat → Rules
  | 0 => .fail
  | depth + 1 =>
    let r := Rules.upTo depth
    { expr := readExpr r
      primary := readPrimary r
      format := readFormat r
      type := readType r
      right := readRight r
      casePattern := readCasePattern r
      suite := readSuite r }

/-- A whole script. -/
def readScript (r : Rules) : Reader Block := do
  let block ← readBlock r 0 true
  let behind ← gapStatements
  check ((← peek).kind == .stop)
  return block ++ behind

/-- The concrete tree of a list of tokens. Each level of nesting has a token of its own, or follows
one that has. -/
def ofTokens? (tokens : List Token) : Option Block :=
  (readScript (Rules.upTo (3 * tokens.length + 8))).run' tokens

end Berrify.Concrete
