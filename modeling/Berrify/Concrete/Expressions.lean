import Berrify.Concrete.Rules

/-!
# Reading expressions

`readExpr` reads an expression by precedence : a first operand (`readFirst`), then operators with
operands for as long as they bind tightly enough (`readOperator`). Operands are atoms with trailers
(`readPrimary`) : attributes, subscripts and calls.
-/

namespace Berrify.Concrete

open Reader

/-! ## Lists of expressions -/

/-- An expression, or several with commas between them. -/
def readExprs (r : Rules) (l : Layout) : Reader Expr := do
  let read ← openItems l Expr.lineContinuation startsExpr (r.expr l Level.anything.rank)
  match read.items, read.comma with
  | [e], false => return e
  | items, _ => return .sequence items

/-- `yield`, whose operand is not kept. -/
def readYield (r : Rules) (l : Layout) : Reader Expr := do
  expectWord l "yield"
  let t ← peek
  if t.isWord "from" && l.mayGoOn t then
    let _ ← next
    let _ ← r.expr l Level.anything.rank
  else if startsExpr t && l.mayGoOn t then
    let _ ← readExprs r l
  return .other "yield"

/-- `*value` as an element. -/
def readSplat (r : Rules) (l : Layout) : Reader Expr := do
  expect l "*"
  let gap ← gapNodes
  return .splat (gap ++ [← r.expr l Level.anything.rank])

/-- An element of a list, a set or a tuple. -/
def readElement (r : Rules) (l : Layout) : Reader Expr := do
  let t ← peek
  if t.isWord "yield" then readYield r l
  else if t.isSymbol "*" then readSplat r l
  else r.expr l Level.anything.rank

/-! ## Parameters -/

/-- The text of `*rest` or `**rest` without the stars. -/
def restName (text : String) : String :=
  String.ofList (text.toList.dropWhile (· == '*'))

/-- Whether an expression may be the target of a star. -/
def isPlainTarget : Expr → Bool
  | .name _ => true
  | .attribute _ _ => true
  | .subscript _ _ => true
  | _ => false

/-- A parameter. Only those of a `def` may have a type hint. -/
def readParameter (r : Rules) (l : Layout) (mayHint : Bool) :
    Reader (Parameter Expr) := do
  let t ← peek
  let hint? : Reader (Option Expr) := do
    if ← acceptIf mayHint l ":" then return some (← r.type l true) else return none
  let fallback? : Reader (Option Expr) := do
    if ← accept l "=" then return some (← r.expr l Level.anything.rank) else return none
  let rest (kind : ParamKind) : Reader (Parameter Expr) := do
    let (e, text) ← withText (do let _ ← next; r.primary l)
    check (isPlainTarget e)
    match ← hint? with
    | some hint => return .typed kind (restName text) hint
    | none => return .rest kind (restName text)
  if t.isSymbol "*" then
    if isName (← peekSecond) then rest .varArgs
    else
      let _ ← next
      return .other "keyword_separator"
  else if t.isSymbol "**" then rest .kwArgs
  else if t.isSymbol "/" then
    let _ ← next
    return .other "positional_separator"
  else if t.isSymbol "(" then
    let (e, text) ← withText (r.primary l)
    match e.asTarget? with
    | some (.tuple _) =>
      match ← fallback? with
      | some fallback => return .optional text fallback
      | none => return .other "tuple_pattern"
    | _ => failure
  else
    let name ← expectName l
    match ← hint?, ← fallback? with
    | some hint, some fallback => return .typedOptional name hint fallback
    | some hint, none => return .typed .positional name hint
    | none, some fallback => return .optional name fallback
    | none, none => return .plain name

/-- The parameters of a lambda, up to its colon. -/
def readLambdaParameters (r : Rules) (l : Layout) :
    Reader (List (Parameter Expr)) := do
  if (← peek).isSymbol ":" then return []
  let isParameter (t : Token) : Bool :=
    isName t || ["*", "**", "/", "("].contains t.text && t.kind == .symbol
  let read ← openItems l (.other Expr.continuationRule) isParameter (readParameter r l false)
  return read.items

/-! ## Targets -/

/-- A target of an assignment or a loop. -/
def readTarget (r : Rules) (l : Layout) : Reader Expr := do
  let t ← peek
  check (l.mustGoOn t)
  if t.isSymbol "*" then
    let _ ← next
    let gap ← gapNodes
    ofOption (Expr.splat (gap ++ [← r.primary l])).asTarget?
  else ofOption (← r.primary l).asTarget?

/-- One or several targets of a loop. -/
def readTargets (r : Rules) (l : Layout) : Reader Expr := do
  let isTarget (t : Token) : Bool :=
    isName t || (["*", "(", "["].contains t.text && t.kind == .symbol)
  let read ← openItems l Expr.lineContinuation isTarget (readTarget r l)
  match read.items, read.comma with
  | [e], false => return e
  | items, _ => return .sequence items

/-! ## Comprehensions -/

/-- Whether a comprehension starts behind an element. -/
def startsComprehension : Reader Bool := do
  let t ← peek
  return t.isWord "for" || (t.isWord "async" && (← peekSecond).isWord "for")

/-- The clauses of a comprehension, which are not kept. -/
def readComprehension (r : Rules) (l : Layout) : Reader Unit := do
  let forClause : Reader Unit := do
    let _ ← acceptWord l "async"
    expectWord l "for"
    let _ ← readTargets r l
    expectWord l "in"
    let _ ← openItems l () startsExpr (do let _ ← r.expr l Level.binding.rank)
  forClause
  iterate (fun _ => do
    if ← startsComprehension then
      forClause
      return some ()
    else if ← acceptWord l "if" then
      let _ ← r.expr l Level.binding.rank
      return some ()
    else return none) ()

/-! ## Brackets -/

/-- Behind an opening parenthesis : a tuple, a generator, or an expression in parentheses. -/
def readParenthesized (r : Rules) (l : Layout) : Reader Expr := do
  let before ← gapNodes
  if ← accept l ")" then return .tuple before
  let first ← readElement r l
  if ← startsComprehension then
    readComprehension r l
    expect l ")"
    return .other "generator_expression"
  let behind ← gapNodes
  if ← accept l ")" then
    let parts := before ++ first :: behind
    match first with
    | .splat _ => return if first.asTarget?.isSome then .parenthesized parts else .tuple parts
    | _ => return .parenthesized parts
  expect l ","
  return .tuple (before ++ first :: behind ++
    (← items l ")" Expr.lineContinuation (readElement r l)))

/-- Behind an opening square bracket : a list or a comprehension. -/
def readList (r : Rules) (l : Layout) : Reader Expr := do
  let before ← gapNodes
  if ← accept l "]" then return .list before
  let first ← readElement r l
  if ← startsComprehension then
    readComprehension r l
    expect l "]"
    return .other "list_comprehension"
  return .list (before ++ first :: (← itemsAfter l "]" Expr.lineContinuation (readElement r l)))

/-- An entry of a dictionary. -/
def readEntry (r : Rules) (l : Layout) : Reader (Entry Expr) := do
  if ← accept l "**" then
    let _ ← r.expr l Level.anything.rank
    return .other "dictionary_splat"
  let key ← r.expr l Level.anything.rank
  expect l ":"
  return .pair key (← r.expr l Level.anything.rank)

/-- Behind an opening brace : a dictionary, a set or a comprehension. -/
def readBraced (r : Rules) (l : Layout) : Reader Expr := do
  let mark : Entry Expr := .other Expr.continuationRule
  let before ← gapNodes
  let beforeEntries := before.map fun _ => mark
  if ← accept l "\x7d" then return .dictionary beforeEntries
  if ← accept l "," then
    let behind ← marks mark
    expect l "\x7d"
    return .dictionary (beforeEntries ++ behind)
  let entriesAfter (first : Entry Expr) : Reader Expr := do
    return .dictionary (beforeEntries ++ first :: (← itemsAfter l "\x7d" mark (readEntry r l)))
  if (← peek).isSymbol "**" then entriesAfter (← readEntry r l)
  else
    let first ← readElement r l
    if ← accept l ":" then
      let entry := .pair first (← r.expr l Level.anything.rank)
      if ← startsComprehension then
        readComprehension r l
        expect l "\x7d"
        return .other "dictionary_comprehension"
      else entriesAfter entry
    else if ← startsComprehension then
      readComprehension r l
      expect l "\x7d"
      return .other "set_comprehension"
    else
      return .set
        (before ++ first :: (← itemsAfter l "\x7d" Expr.lineContinuation (readElement r l)))

/-! ## Strings -/

/-- The form of a literal with the given start. -/
def StringForm.ofStart (start : String) : StringForm :=
  let letters := (start.toList.takeWhile Char.isAlpha).map Char.toLower
  { template := letters.contains 'f', raw := letters.contains 'r', bytes := letters.contains 'b' }

/-- An embedded expression behind its opening brace. How it is formatted is not kept. -/
def readField (r : Rules) (l : Layout) : Reader Expr := do
  let value ← if (← peek).isWord "yield" then readYield r l else readExprs r l
  let _ ← accept l "="
  if (← peek).kind == .conversion then
    let _ ← next
  if ← accept l ":" then r.format l
  let _ ← due l (·.kind == .fieldClose)
  return value

/-- Text and embedded expressions of a format. -/
def readFormat (r : Rules) (l : Layout) : Reader Unit :=
  iterate (fun _ => do
    let t ← peek
    if t.kind == .formatText then
      let _ ← next
      return some ()
    else if t.kind == .fieldOpen then
      let _ ← next
      let _ ← readField r l
      return some ()
    else return none) ()

/-- A string literal. -/
def readString (r : Rules) (l : Layout) : Reader Expr := do
  let inside := l.inBrackets
  let start ← due l (·.kind == .stringOpen)
  let parts ← collect (do
    let t ← peek
    if t.kind == .stringText then
      let _ ← next
      return some [StringPart.text t.text]
    else if t.kind == .fieldOpen then
      let _ ← next
      let value ← readField r inside
      return some [StringPart.field value]
    else return none)
  let _ ← due inside (·.kind == .stringClose)
  return .string (StringForm.ofStart start.text) parts

/-- String literals next to each other. -/
def readStrings (r : Rules) (l : Layout) : Reader Expr := do
  let first ← readString r l
  let others ← collect (do
    let t ← peek
    if t.kind == .stringOpen && l.mayGoOn t then
      let gap ← gapNodes
      return some (gap ++ [← readString r l])
    else return none)
  return if others.isEmpty then first else .strings (first :: others)

/-! ## Arguments and indices -/

/-- An argument of a call or of a class. -/
def readArgument (r : Rules) (l : Layout) : Reader (Argument Expr) := do
  let t ← peek
  if isName t && (← peekSecond).isSymbol "=" then
    let _ ← next
    let _ ← next
    return .named t.text (← r.expr l Level.anything.rank)
  else if t.isSymbol "**" then
    let _ ← next
    let gap ← gapNodes
    let value ← r.expr l Level.anything.rank
    return .mapping (gap.headD value)
  else if t.isSymbol "*" then return .plain (← readSplat r l)
  else return .plain (← r.expr l Level.anything.rank)

/-- A line continuation among arguments. -/
def Argument.mark : Argument Expr := .plain Expr.lineContinuation

/-- Arguments behind an opening parenthesis. -/
def readArguments (r : Rules) (l : Layout) : Reader (List (Argument Expr)) := do
  let before ← marks Argument.mark
  if ← accept l "," then
    let behind ← marks Argument.mark
    expect l ")"
    return before ++ behind
  items l ")" Argument.mark (readArgument r l)

/-- A call of a function, behind the opening parenthesis. -/
def readCall (r : Rules) (l : Layout) (func : Expr) : Reader Expr := do
  let t ← peek
  if t.isSymbol ")" || t.isSymbol "," then return .call func (← readArguments r l)
  let before ← marks Argument.mark
  let first ← readArgument r l
  if ← startsComprehension then
    match first with
    | .plain _ =>
      readComprehension r l
      expect l ")"
      return .callOther func "generator_expression"
    | _ => failure
  return .call func (before ++ first :: (← itemsAfter l ")" Argument.mark (readArgument r l)))

/-- The step of a slice, behind the second colon. -/
def readStep (r : Rules) (l : Layout) : Reader (Option Expr) := do
  if startsExpr (← peek) then return some (← r.expr l Level.anything.rank) else return none

/-- An item or a slice between square brackets. A line continuation behind a bound of a slice takes
the place of the bound. -/
def readIndex (r : Rules) (l : Layout) : Reader (Index Expr) := do
  let lower ← if (← peek).isSymbol ":" then pure none
    else some <$> r.expr l Level.anything.rank
  let behind ← gapNodes
  if !(← accept l ":") then
    match lower with
    | some e => return .item e
    | none => failure
  let lower := lower.map fun e => behind.getLastD e
  let before ← gapNodes
  if startsExpr (← peek) then
    let upper ← r.expr l Level.anything.rank
    let behind ← gapNodes
    if ← accept l ":" then
      return .slice lower (some (behind.getLastD upper)) (← readStep r l)
    else return .slice lower (some upper) none
  else if ← accept l ":" then return .slice lower before.getLast? (← readStep r l)
  else return .slice lower none none

/-- Indices behind an opening square bracket. -/
def readIndices (r : Rules) (l : Layout) : Reader (List (Index Expr)) := do
  check (!(← peek).isSymbol "]")
  return (← items l "]" none (some <$> readIndex r l)).filterMap id

/-! ## Primaries -/

/-- An operand without operators and trailers. -/
def readAtom (r : Rules) (l : Layout) : Reader Expr := do
  let t ← peek
  check (l.mustGoOn t)
  match t.kind with
  | .word =>
    let _ ← next
    match t.text with
    | "None" => return .absent
    | "True" => return .truth true
    | "False" => return .truth false
    | _ =>
      check (isName t)
      return .name t.text
  | .integer =>
    let _ ← next
    return .integer (← ofOption (IntLiteral.ofText? t.text))
  | .float =>
    let _ ← next
    return .float t.text
  | .stringOpen => readStrings r l
  | .symbol =>
    let _ ← next
    match t.text with
    | "(" => readParenthesized r l.inBrackets
    | "[" => readList r l.inBrackets
    | "\x7b" => readBraced r l.inBrackets
    | "..." => return .other "ellipsis"
    | _ => failure
  | _ => failure

/-- The next trailer of an operand : an attribute, a subscript or a call. -/
def readTrailer (r : Rules) (l : Layout) (value : Expr) :
    Reader (Option Expr) := do
  if ← accept l "." then return some (.attribute value (← expectName l))
  else if ← accept l "[" then return some (.subscript value (← readIndices r l.inBrackets))
  else if ← accept l "(" then return some (← readCall r l.inBrackets value)
  else return none

/-- An operand with its trailers. -/
def readPrimary (r : Rules) (l : Layout) : Reader Expr := do
  iterate (readTrailer r l) (← readAtom r l)

/-! ## Operators -/

/-- `lambda`, behind the word. -/
def readLambda (r : Rules) (l : Layout) : Reader Expr := do
  let params ← readLambdaParameters r l.unfinished
  expect l.unfinished ":"
  return .lambda params (← r.expr l Level.anything.rank)

/-- The sign or inversion that a symbol stands for. -/
def sign? (t : Token) : Option UnaryOp :=
  if t.kind != .symbol then none
  else match t.text with
  | "-" => some .neg
  | "+" => some .pos
  | "~" => some .invert
  | _ => none

/-- The first operand of an expression, with what stands in front of it. -/
def readFirst (r : Rules) (l : Layout) (rank : Nat) : Reader Expr := do
  let t ← peek
  let second ← peekSecond
  check (l.mustGoOn t)
  let isFree := rank ≤ Level.negation.rank
  match sign? t with
  | some op =>
    let _ ← next
    return .unary op (← r.expr l signRank)
  | none =>
    if isFree && t.isWord "not" then
      let _ ← next
      return .unary .not (← r.expr l Level.negation.rank)
    else if isFree && t.isWord "lambda" then
      let _ ← next
      readLambda r l
    else if t.isWord "await" && startsOperand second && l.mayGoOn second then
      let _ ← next
      let _ ← r.expr l signRank
      return .other "await"
    else if t.isSymbol "*" then
      let _ ← next
      let gap ← gapNodes
      let value ← readPrimary r l
      check (isPlainTarget value)
      return .splat (gap ++ [value])
    else if isFree && isName t && second.isSymbol ":=" && l.mayGoOn second then
      let _ ← next
      let _ ← next
      let _ ← r.expr l Level.binding.rank
      return .other "named_expression"
    else readPrimary r l

/-- The comparison at the front, if there is one. -/
def readComparison? (l : Layout) : Reader (Option Comparison) := do
  let t ← peek
  let second ← peekSecond
  if !l.mayGoOn t then return none
  else if t.kind == .symbol then
    match Comparison.ofToken? t.text with
    | some op =>
      let _ ← next
      return some op
    | none => return none
  else if t.isWord "in" then
    let _ ← next
    return some .member
  else if t.isWord "not" && second.isWord "in" && l.mustGoOn second then
    let _ ← next
    let _ ← next
    return some .notMember
  else if t.isWord "is" then
    let _ ← next
    if second.isWord "not" && l.mustGoOn second then
      let _ ← next
      return some .notSame
    else return some .same
  else return none

/-- A chain of comparisons behind its first operand; nothing if there is none. -/
def readComparisons (r : Rules) (l : Layout) (left : Expr) : Reader (Option Expr) := do
  let (operands, ops) ← iterate (fun (operands, ops) => do
    let before ← gapNodes
    match ← readComparison? l with
    | none => return none
    | some op =>
      let behind ← gapNodes
      let right ← r.expr l Level.operand.rank
      return some (operands ++ before ++ behind ++ [right], ops ++ [op])) ([left], [])
  return if ops.isEmpty then none else some (.comparison operands ops)

/-- The next operator that binds at least as tightly as a rank, with its operands. -/
def readOperator (r : Rules) (l : Layout) (rank : Nat) (left : Expr) : Reader (Option Expr) := do
  let t ← peek
  if !l.mayGoOn t then return none
  match if t.kind == .symbol then BinaryOp.ofToken? t.text else none with
  | some op =>
    if rank ≤ binaryRank op then
      let _ ← next
      return some (.binary left op (← r.expr l (rightRank op)))
    else return none
  | none =>
    if rank ≤ Level.conjunction.rank && t.isWord "and" then
      let _ ← next
      return some (.boolean left .and (← r.expr l Level.negation.rank))
    else if rank ≤ Level.disjunction.rank && t.isWord "or" then
      let _ ← next
      return some (.boolean left .or (← r.expr l Level.conjunction.rank))
    else if rank ≤ Level.binding.rank && t.isWord "as" then
      let _ ← next
      let _ ← r.expr l Level.clause.rank
      return some (.other "as_pattern")
    else if rank ≤ Level.conditional.rank && t.isWord "if" then
      let gap₁ ← gapNodes
      let _ ← next
      let gap₂ ← gapNodes
      let test ← r.expr l.unfinished Level.conditional.rank
      let gap₃ ← gapNodes
      expectWord l.unfinished "else"
      let gap₄ ← gapNodes
      let orelse ← r.expr l Level.conditional.rank
      return some (.conditional (left :: gap₁ ++ gap₂ ++ [test] ++ gap₃ ++ gap₄ ++ [orelse]))
    else if rank ≤ Level.comparison.rank then readComparisons r l left
    else return none

/-- An expression whose operators bind at least as tightly as a rank. -/
def readExpr (r : Rules) (l : Layout) (rank : Nat) : Reader Expr := do
  iterate (readOperator r l rank) (← readFirst r l rank)

end Berrify.Concrete
