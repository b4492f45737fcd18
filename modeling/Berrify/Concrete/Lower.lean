import Berrify.Concrete
import Berrify.Text.Escape
import Berrify.Text.Search

/-!
# From concrete to abstract syntax

`Concrete.Expr.lower` and `Concrete.Stmt.lower` drop what does not matter. They never fail : what
has no abstract counterpart becomes an unsupported node under the name of its rule. Parentheses
vanish, nested conjunctions become one, chained assignments one statement with several targets, and
a list of `elif` clauses a nest of branches (`Concrete.elifChain`).
-/

namespace Berrify.Concrete

/-! ## String literals -/

namespace StringForm

/-- The text of a piece of a literal after doubled braces have become single ones in a template. -/
def unbraced (form : StringForm) (text : String) : List Char :=
  if form.template then
    (Text.replaceAll "\x7d\x7d" "\x7d" (Text.replaceAll "\x7b\x7b" "\x7b" text)).toList
  else text.toList

/-- The characters that a piece of text denotes. -/
def readText (form : StringForm) (text : String) : List Char :=
  if form.raw then form.unbraced text else Text.Escape.decodeText (form.unbraced text)

/-- The bytes that a piece of a byte string denotes. -/
def readBytes (form : StringForm) (text : String) : List UInt8 :=
  if form.raw then (form.unbraced text).flatMap String.utf8EncodeChar
  else Text.Escape.decodeBytes (form.unbraced text)

/-- The literal of a form whose parts have been read. Only a template keeps its embedded
expressions; elsewhere the text behind the last of them counts. -/
def assemble (form : StringForm) (parts : List (StringPart Berrify.Expr)) : Berrify.Expr :=
  let literal := (parts.reverse.takeWhile fun
    | .text _ => true
    | .field _ => false).reverse
  if form.bytes then
    .constant (.bytes (literal.flatMap fun
      | .text text => form.readBytes text
      | .field _ => []))
  else if form.template then
    .template (parts.filterMap fun
      | .text text =>
        let read := form.readText text
        if read.isEmpty then none else some (.text (String.ofList read))
      | .field value => some (.value value))
  else
    .constant (.str (String.ofList (literal.flatMap fun
      | .text text => form.readText text
      | .field _ => [])))

end StringForm

/-- String literals next to each other as one. The bytes win over text and a template over plain
text; a piece that is no literal counts as empty text. -/
def joinStrings (pieces : List Berrify.Expr) : Berrify.Expr :=
  let parts := pieces.flatMap fun
    | .constant (.bytes _) => []
    | .template parts => parts
    | .constant (.str text) => [.text text]
    | _ => [.text ""]
  let anyBytes := pieces.any fun
    | .constant (.bytes _) => true
    | _ => false
  let anyTemplate := pieces.any fun
    | .template _ => true
    | _ => false
  if anyBytes then
    .constant (.bytes (pieces.flatMap fun
      | .constant (.bytes data) => data
      | _ => []))
  else if anyTemplate then .template parts
  else
    .constant (.str (String.join (parts.map fun
      | .text text => text
      | .value _ => "")))

/-! ## Expressions -/

/-- A conjunction or disjunction, joined with operands of the same kind. -/
def joinBoolean (op : BooleanOp) (left right : Berrify.Expr) : Berrify.Expr :=
  let operands : Berrify.Expr → List Berrify.Expr
    | .boolean inner values => if inner = op then values else [.boolean inner values]
    | other => [other]
  .boolean op (operands left ++ operands right)

/-- A chain of comparisons; it is refused if a line continuation stands among its operands. -/
def joinComparison (ops : List Comparison) : List Berrify.Expr → Berrify.Expr
  | left :: others =>
    if ops.length = others.length ∧ ops ≠ [] then .compare left ops others
    else .unsupported "comparison_operator"
  | [] => .unsupported "comparison_operator"

/-- A conditional expression; it is refused if a line continuation stands in it. -/
def joinConditional : List Berrify.Expr → Berrify.Expr
  | [body, test, orelse] => .conditional test body orelse
  | _ => .unsupported "conditional_expression"

/-- The parameters of a lambda : plain names, or else the rule of the first that is none. -/
def plainNames {α : Type} : List (Parameter α) → Except String (List String)
  | [] => .ok []
  | .plain name :: rest => (plainNames rest).map (name :: ·)
  | other :: _ => .error ("lambda " ++ other.rule)

mutual
/-- The abstract form of an expression. -/
def Expr.lower : Expr → Berrify.Expr
  | .name id => .name id
  | .integer literal => literal.lower
  | .float text => .constant (.float (Text.replaceAll "_" "" text))
  | .truth value => .constant (.bool value)
  | .absent => .constant .none
  | .string form parts => form.assemble (lowerParts parts)
  | .strings pieces => joinStrings (lowerList pieces)
  | .attribute value attr => .attribute value.lower attr
  | .subscript value indices =>
    .subscript value.lower (match lowerIndices indices with
      | [index] => index
      | many => .tuple many)
  | .call func args => .call func.lower (lowerPlain args) (lowerNamed args)
  | .callOther func rule => .call func.lower [.unsupported rule] []
  | .binary left op right => .binary left.lower op right.lower
  | .unary op operand => .unary op operand.lower
  | .boolean left op right => joinBoolean op left.lower right.lower
  | .comparison operands ops => joinComparison ops (lowerList operands)
  | .conditional parts => joinConditional (lowerList parts)
  | .parenthesized parts => (lowerList parts).headD (.tuple [])
  | .list items => .list (lowerList items)
  | .tuple items => .tuple (lowerList items)
  | .sequence items => .tuple (lowerList items)
  | .set items => .set (lowerList items)
  | .dictionary entries =>
    match lowerEntries entries with
    | .ok pairs => .dict pairs
    | .error rule => .unsupported rule
  | .splat parts =>
    match lowerList parts with
    | value :: _ => .starred value
    | [] => .unsupported "list_splat"
  | .lambda params body =>
    match plainNames params with
    | .ok names => .lambda names body.lower
    | .error rule => .unsupported rule
  | .other rule => .unsupported rule
/-- The abstract forms of expressions. -/
def lowerList : List Expr → List Berrify.Expr
  | [] => []
  | e :: rest => e.lower :: lowerList rest
/-- An optional expression. -/
def lowerOption : Option Expr → Option Berrify.Expr
  | none => none
  | some e => some e.lower
/-- Pieces of a string literal. -/
def lowerParts : List (StringPart Expr) → List (StringPart Berrify.Expr)
  | [] => []
  | .text text :: rest => .text text :: lowerParts rest
  | .field value :: rest => .field value.lower :: lowerParts rest
/-- Indices of a subscript. -/
def lowerIndices : List (Index Expr) → List Berrify.Expr
  | [] => []
  | .item value :: rest => value.lower :: lowerIndices rest
  | .slice lower upper step :: rest =>
    .slice (lowerOption lower) (lowerOption upper) (lowerOption step) :: lowerIndices rest
/-- Arguments without a name. -/
def lowerPlain : List (Argument Expr) → List Berrify.Expr
  | [] => []
  | .plain value :: rest => value.lower :: lowerPlain rest
  | .named _ _ :: rest => lowerPlain rest
  | .mapping _ :: rest => lowerPlain rest
/-- Named arguments and unpacked mappings. -/
def lowerNamed : List (Argument Expr) → List (Keyword Berrify.Expr)
  | [] => []
  | .plain _ :: rest => lowerNamed rest
  | .named name value :: rest => ⟨some name, value.lower⟩ :: lowerNamed rest
  | .mapping value :: rest => ⟨none, value.lower⟩ :: lowerNamed rest
/-- Entries of a dictionary, or the first rule among them that is no pair. -/
def lowerEntries : List (Entry Expr) → Except String (List (Berrify.Expr × Berrify.Expr))
  | [] => .ok []
  | .pair key value :: rest => (lowerEntries rest).map ((key.lower, value.lower) :: ·)
  | .other rule :: _ => .error rule
end

/-- A base class; a named argument is refused. -/
def Argument.lowerBase : Argument Expr → Berrify.Expr
  | .plain value => value.lower
  | .named _ _ => .unsupported "keyword_argument"
  | .mapping _ => .unsupported "dictionary_splat"

/-- A parameter of a function. Marks between parameters have no counterpart. -/
def Parameter.lower? : Parameter Expr → Option Param
  | .plain name => some { name }
  | .optional name fallback => some { name, fallback := some fallback.lower }
  | .typed kind name hint => some { name, kind, hint := some hint.lower }
  | .typedOptional name hint fallback =>
    some { name, hint := some hint.lower, fallback := some fallback.lower }
  | .rest kind name => some { name, kind }
  | .other _ => none

/-! ## Assignments -/

/-- The targets of a chain of assignments and the value, or the rule that is refused. -/
def Right.chain : Right → Except String (List Berrify.Expr × Berrify.Expr)
  | .value e => .ok ([], e.lower)
  | .yield => .error "yield"
  | .chained left right => right.chain.map fun (targets, last) => (left.lower :: targets, last)
  | .annotated => .error "annotated chained assignment"
  | .updated => .error "augmented_assignment"

/-- A right-hand side where a single value is due. -/
def Right.single : Right → Berrify.Expr
  | .value e => e.lower
  | .yield => .unsupported "yield"
  | .chained _ _ => .unsupported "assignment"
  | .annotated => .unsupported "assignment"
  | .updated => .unsupported "augmented_assignment"

/-! ## Statements -/

/-- `elif` clauses and what follows them as a nest of branches. -/
def elifChain : List (ElifClause Berrify.Block) → Berrify.Block → Berrify.Block
  | [], orelse => orelse
  | clause :: rest, orelse =>
    [⟨clause.line, .branch clause.test.lower clause.body (elifChain rest orelse)⟩]

mutual
/-- The abstract form of a statement. -/
def Stmt.lower : Stmt → Berrify.Stmt
  | .expr value =>
    match value.refusedStatement? with
    | some rule => .unsupported rule
    | none => .expr value.lower
  | .assign left right =>
    match right.chain with
    | .ok (targets, value) => .assign (left.lower :: targets) value
    | .error rule => .unsupported rule
  | .declare left hint right => .declare left.lower hint.lower (right.map Right.single)
  | .update left op right => .update left.lower op right.single
  | .branch test body elifs orelse =>
    .branch test.lower (lowerBlock body) (elifChain (lowerElifs elifs) (lowerBlock orelse))
  | .forEach isAsync target iter body orelse =>
    if isAsync then .unsupported "async for"
    else .forEach target.lower iter.lower (lowerBlock body) (lowerBlock orelse)
  | .whileLoop test body orelse => .whileLoop test.lower (lowerBlock body) (lowerBlock orelse)
  | .attempt body clauses orelse cleanup =>
    .attempt (lowerBlock body) (lowerClauses clauses) (lowerBlock orelse) (lowerBlock cleanup)
  | .giveBack parts => .giveBack (lowerList parts).head?
  | .pass => .pass
  | .leaveLoop => .leaveLoop
  | .nextRound => .nextRound
  | .functionDef decorators isAsync name params body =>
    if isAsync && decorators.isEmpty then .unsupported "async function_definition"
    else .functionDef name (params.filterMap Parameter.lower?) (lowerList decorators)
      (lowerBlock body)
  | .classDef decorators name bases body =>
    if decorators.isEmpty then .classDef name (bases.map Argument.lowerBase) (lowerBlock body)
    else .unsupported "decorated class_definition"
  | .importNames names => .importNames names
  | .globalNames names => .globalNames names
  | .other rule => .unsupported rule
/-- The abstract form of a block. -/
def lowerBlock : Block → Berrify.Block
  | [] => []
  | ⟨line, stmt⟩ :: rest => ⟨line, stmt.lower⟩ :: lowerBlock rest
/-- The bodies of `elif` clauses. -/
def lowerElifs : List (ElifClause Block) → List (ElifClause Berrify.Block)
  | [] => []
  | ⟨line, test, body⟩ :: rest => ⟨line, test, lowerBlock body⟩ :: lowerElifs rest
/-- `except` clauses. -/
def lowerClauses : List (ExceptClause Block) → List (Handler Berrify.Block)
  | [] => []
  | ⟨caught, name, body⟩ :: rest =>
    ⟨caught.map Expr.lower, name, lowerBlock body⟩ :: lowerClauses rest
end

end Berrify.Concrete
