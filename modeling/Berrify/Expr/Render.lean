import Berrify.Refusal
import Berrify.Scope
import Berrify.Text.Quoted

/-!
# Expressions as text of the target language

`Expr.write` writes an expression for the position in which it stands : alone, as an operand of
something else, or as the index of a subscript. An operand that is itself put together by operators
is put in parentheses, so the reading never depends on precedence. Containment tests become
comparisons with each item or a call of `contains`, chains of comparisons become conjunctions, and
slices become inclusive ranges.

Writing reads the scope and the name tables in a `View` and changes neither. `Expr.render`,
`Expr.renderIndex` and `Expr.renderCondition` are the ways in which statements use it.
-/

namespace Berrify

/-- What the text of an expression depends on besides the expression. -/
structure View where
  naming : Naming
  scope : Scope

namespace View

/-- The kind of container that a method is called on. -/
def receiverKind (view : View) (receiver : Expr) : Container :=
  match receiver.dottedPath? with
  | some path => view.scope.kindOf path
  | none => .ofValue view.naming receiver

/-- The name of a method called on `receiver`. Nothing is renamed if the receiver is of unknown
kind. -/
def methodName (view : View) (receiver : Expr) (method : String) : String :=
  match (view.receiverKind receiver).className? with
  | some targetClass => view.naming.methodName targetClass method
  | none => method

/-- The name under which a bare name is called. -/
def calleeName (view : View) (id : String) : String :=
  if view.naming.isContainer id then view.naming.className id else id

/-- Whether an argument refers to a function that has been defined. -/
def isFunction (view : View) : Expr → Bool
  | .name id => view.scope.knows id
  | .attribute _ attr => view.scope.knows attr
  | _ => false

end View

/-- Where an expression stands. -/
inductive Position where
  | whole
  | operand
  | index
deriving DecidableEq, Repr

/-- Text in parentheses. -/
def parenthesize (text : String) : String :=
  "(" ++ text ++ ")"

/-- The text of something put together by operators : as an operand it needs parentheses. -/
def Position.enclose : Position → String → String
  | .operand, text => parenthesize text
  | _, text => text

/-- Texts with a separator between them. -/
def separated (separator : String) (texts : List String) : String :=
  separator.intercalate texts

/-- Texts with commas between them. -/
def commaSeparated (texts : List String) : String :=
  separated ", " texts

/-- The text of a literal. -/
def Constant.render : Constant → String
  | .none => "nil"
  | .bool true => "true"
  | .bool false => "false"
  | .int text => text
  | .float text => text
  | .str text => Text.quote text
  | .bytes data => Text.writeBytes data

/-- The text that an argument has in a call : a function is handed over as a closure. -/
def View.asArgument (view : View) (arg : Expr) (text : String) : String :=
  if view.isFunction arg then "/-> " ++ text ++ "()" else text

/-- Whether an operator and its operand are together a number with a sign. -/
def isSignedNumber (op : UnaryOp) (operand : Expr) : Bool :=
  op.isSign && operand.isNumber

namespace Expr

/-- Whether an expression needs parentheses as an operand. -/
def isCompound : Expr → Bool
  | .binary .. => true
  | .boolean .. => true
  | .compare .. => true
  | .conditional .. => true
  | .lambda .. => true
  | .unary op operand => !isSignedNumber op operand
  | _ => false

/-- The text of an expression as an operand, given its text where it stands alone. -/
def enclose (e : Expr) (text : String) : String :=
  if e.isCompound then parenthesize text else text

/-! ## Slices -/

/-- The value of a decimal integer literal below any number of minus signs. -/
def integerValue? : Expr → Option Int
  | .constant (.int text) => Text.readInt64? text
  | .unary .neg operand => operand.integerValue?.map (- ·)
  | _ => none

/-- Whether two integer bounds select nothing : both count from the same end and the upper one does
not lie behind the lower one. -/
def boundsCross (lower upper : Expr) : Bool :=
  match lower.integerValue?, upper.integerValue? with
  | some lo, some hi => (decide (lo < 0) == decide (hi < 0)) && decide (hi ≤ lo)
  | _, _ => false

/-- Whether the bounds of a slice evidently select nothing. As an inclusive range they would select
everything or run backwards. -/
def isEmptySlice : Option Expr → Option Expr → Bool
  | _, none => false
  | none, some upper => upper.integerValue? == some 0
  | some lower, some upper =>
    upper.integerValue? == some 0 || lower == upper || boundsCross lower upper

/-! ## Containment -/

/-- A test whether a value is one of some items, or none of them. -/
def memberTest (negated : Bool) (value : String) (items : List String) : String :=
  if negated then separated " && " (items.map (value ++ " != " ++ ·))
  else separated " || " (items.map (value ++ " == " ++ ·))

/-- A test whether a collection contains a value, or does not. -/
def containsTest (negated : Bool) (collection value : String) : String :=
  (if negated then "!" else "") ++ collection ++ ".contains(" ++ value ++ ")"

/-- The text of a containment test in a literal collection without items. -/
def emptyMemberTest (negated : Bool) : String :=
  if negated then "true" else "false"

/-- A chain of comparisons : one stands for itself, several are a conjunction. -/
def conjunction : List String → String
  | [part] => part
  | parts => separated " && " (parts.map parenthesize)

/-! ## Templates -/

/-- Literal text inside a format template, where a percent sign is doubled. -/
def templateText (text : String) : String :=
  String.ofList (text.toList.flatMap fun c => if c = '%' then ['%', '%'] else [c])

/-- The format template of the parts of a template string. -/
def templateFormat : List (TemplatePart Expr) → String
  | [] => ""
  | .text text :: rest => templateText text ++ templateFormat rest
  | .value _ :: rest => "%s" ++ templateFormat rest

/-- The literal text of the parts of a template string. -/
def templateLiteral : List (TemplatePart Expr) → String
  | [] => ""
  | .text text :: rest => text ++ templateLiteral rest
  | .value _ :: rest => templateLiteral rest

/-- Whether a template string embeds an expression. -/
def hasValues : List (TemplatePart Expr) → Bool
  | [] => false
  | .text _ :: rest => hasValues rest
  | .value _ :: _ => true

/-- A template string : a call of the formatter if it embeds expressions, else a plain literal. -/
def templateCall (parts : List (TemplatePart Expr)) (values : List String) : String :=
  if hasValues parts then
    "string.format(" ++ Text.quote (templateFormat parts) ++ ", " ++ commaSeparated values ++ ")"
  else
    Text.quote (templateLiteral parts)

/-! ## Writing -/

/-- The refusal of arguments that are not positional. -/
def refuseKeywords (callee : String) : List (Keyword Expr) → Except Cause Unit
  | [] => pure ()
  | ⟨some _, _⟩ :: _ => throw (.keywordArgument callee)
  | ⟨none, _⟩ :: _ => throw (.mappingArgument callee)

/-- A call, given the text of the callee and of the arguments. -/
def callText (callee : String) (keywords : List (Keyword Expr))
    (args : Except Cause (List String)) : Except Cause String := do
  refuseKeywords callee keywords
  return callee ++ "(" ++ commaSeparated (← args) ++ ")"

mutual
/-- The text of an expression in a position. -/
def write (view : View) : Expr → Position → Except Cause String
  | .name id, _ => pure id
  | .attribute value attr, _ => do
    return (← value.write view .operand) ++ "." ++ attr
  | .constant value, _ => pure value.render
  | .call (.name id) args keywords, _ =>
    callText (view.calleeName id) keywords (writeArguments view args)
  | .call (.attribute value attr) args keywords, _ => do
    let receiver ← value.write view .operand
    callText (receiver ++ "." ++ view.methodName value attr) keywords (writeArguments view args)
  | .call func args keywords, _ => do
    let callee ← func.write view .operand
    callText callee keywords (writeArguments view args)
  | .binary left op right, pos =>
    match op.target? with
    | none => throw (.operator op)
    | some token => do
      let leftText ← left.write view .operand
      let rightText ← right.write view .operand
      return pos.enclose (leftText ++ " " ++ token ++ " " ++ rightText)
  | .unary op operand, pos => do
    let text := op.target ++ (← operand.write view .operand)
    return if isSignedNumber op operand then text else pos.enclose text
  | .boolean op values, pos => do
    return pos.enclose (separated (" " ++ op.target ++ " ") (← writeAll view .operand values))
  | .compare left ops comparators, pos => do
    let parts ← writeChain view left (left.write view .whole) ops comparators
    return pos.enclose (conjunction parts)
  | .conditional test body orelse, pos => do
    let testText ← test.write view .operand
    let bodyText ← body.write view .operand
    let orelseText ← orelse.write view .operand
    return pos.enclose (testText ++ " ? " ++ bodyText ++ " : " ++ orelseText)
  | .dict entries, _ => do
    return "\x7b" ++ commaSeparated (← writeEntries view entries) ++ "\x7d"
  | .list items, _ => do
    return "[" ++ commaSeparated (← writeAll view .whole items) ++ "]"
  | .tuple _, .index => throw .manyIndices
  | .tuple items, _ => do
    return "(" ++ commaSeparated (← writeAll view .whole items) ++ ")"
  | .set _, _ => throw .setLiteral
  | .subscript value index, _ => do
    let valueText ← value.write view .operand
    return valueText ++ "[" ++ (← index.write view .index) ++ "]"
  | .slice lower upper step, .index => do
    if step.isSome then throw .sliceStep
    if isEmptySlice lower upper then throw .emptySlice
    let lowerText ← match lower with
      | some bound => bound.write view .operand
      | none => pure "0"
    let upperText ← match upper with
      | some bound =>
        match bound.integerValue? with
        | some value => pure (Text.writeInt (value - 1))
        | none => do pure ((← bound.write view .operand) ++ " - 1")
      | none => pure "-1"
    return lowerText ++ ".." ++ upperText
  | .slice .., _ => throw .straySlice
  | .lambda params body, pos => do
    let bodyText ← body.write view .whole
    let head := if params.isEmpty then "/-> " else "/" ++ commaSeparated params ++ " -> "
    return pos.enclose (head ++ bodyText)
  | .template parts, _ => do
    return templateCall parts (← writeValues view parts)
  | .starred _, _ => throw .unpacking
  | .unsupported kind, _ => throw (.unknownExpression kind)
/-- The texts of expressions that all stand in the same position. -/
def writeAll (view : View) (pos : Position) : List Expr → Except Cause (List String)
  | [] => pure []
  | e :: rest => do
    let text ← e.write view pos
    return text :: (← writeAll view pos rest)
/-- The texts of the arguments of a call. -/
def writeArguments (view : View) : List Expr → Except Cause (List String)
  | [] => pure []
  | arg :: rest => do
    let text ← arg.write view .whole
    return view.asArgument arg text :: (← writeArguments view rest)
/-- The texts of the entries of a map literal. -/
def writeEntries (view : View) : List (Expr × Expr) → Except Cause (List String)
  | [] => pure []
  | (key, value) :: rest => do
    let keyText ← key.write view .whole
    let valueText ← value.write view .whole
    return (keyText ++ ": " ++ valueText) :: (← writeEntries view rest)
/-- The texts of the expressions embedded in a template string. -/
def writeValues (view : View) : List (TemplatePart Expr) → Except Cause (List String)
  | [] => pure []
  | .text _ :: rest => writeValues view rest
  | .value e :: rest => do
    let text ← e.write view .whole
    return text :: (← writeValues view rest)
/-- The comparisons of a chain. The left operand comes with its text, since the right operand of one
comparison is the left operand of the next. -/
def writeChain (view : View) (left : Expr) (leftText : Except Cause String) :
    List Comparison → List Expr → Except Cause (List String)
  | op :: ops, right :: rest => do
    let rightText := right.write view .whole
    let part ← match op.target? with
      | some token => do
        let lhs := left.enclose (← leftText)
        pure (lhs ++ " " ++ token ++ " " ++ right.enclose (← rightText))
      | none =>
        let negated := op == .notMember
        match right with
        | .list items | .tuple items | .set items =>
          if items.isEmpty then pure (emptyMemberTest negated)
          else do
            let value := left.enclose (← leftText)
            pure (memberTest negated value (← writeAll view .operand items))
        | .name _ | .attribute .. | .subscript .. | .call .. => do
          let collection ← rightText
          pure (containsTest negated collection (← leftText))
        | _ => throw (.containment right.kindName)
    return part :: (← writeChain view right rightText ops rest)
  | _, _ => pure []
end

/-- The text of an expression that stands alone. -/
def render (view : View) (e : Expr) : Except Cause String :=
  e.write view .whole

/-- The text of an expression between the brackets of a subscript. -/
def renderIndex (view : View) (e : Expr) : Except Cause String :=
  e.write view .index

/-- Whether a test asks if a collection that is no literal contains something. -/
def isContainsTest : Expr → Bool
  | .compare _ [op] (collection :: _) =>
    (op == .member || op == .notMember) && !collection.isLiteralCollection
  | _ => false

/-- The text of the test of a branch or loop : a call of `contains` is put in parentheses there. -/
def renderCondition (view : View) (e : Expr) : Except Cause String :=
  (e.render view).map fun text => if e.isContainsTest then parenthesize text else text

end Expr

end Berrify
