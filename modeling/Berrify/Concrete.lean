import Berrify.Literal.Integer
import Berrify.Stmt

/-!
# Concrete syntax

`Concrete.Expr` and `Concrete.Stmt` are the trees that the grammar builds. They keep what the
abstract trees drop : parentheses, the spelling of literals, the clauses of a statement one by one,
and line continuations, which are nodes in every list of nodes that they stand in
(`Concrete.Expr.lineContinuation`). Rules of the grammar without a counterpart are leaves that only
keep the name of the rule (`Concrete.Expr.other`, `Concrete.Stmt.other`).
-/

namespace Berrify.Concrete

/-- The letters of a string literal that decide how it is read. -/
structure StringForm where
  /-- The literal is a template. -/
  template : Bool
  raw : Bool
  bytes : Bool
deriving DecidableEq, Repr

/-- A piece of a string literal : text as it is written, or an embedded expression. -/
inductive StringPart (α : Type) where
  | text (text : String)
  | field (value : α)

/-- What stands between the brackets of a subscript. -/
inductive Index (α : Type) where
  | item (value : α)
  | slice (lower upper step : Option α)

/-- An argument of a call or of a class. -/
inductive Argument (α : Type) where
  | plain (value : α)
  | named (name : String) (value : α)
  /-- `**value`. -/
  | mapping (value : α)

/-- An entry of a dictionary. -/
inductive Entry (α : Type) where
  | pair (key value : α)
  | other (rule : String)

/-- A parameter of a function. -/
inductive Parameter (α : Type) where
  | plain (name : String)
  | optional (name : String) (fallback : α)
  | typed (kind : ParamKind) (name : String) (hint : α)
  | typedOptional (name : String) (hint fallback : α)
  /-- `*rest` or `**rest`. -/
  | rest (kind : ParamKind) (name : String)
  | other (rule : String)

/-- The name of a parameter's grammar rule. -/
def Parameter.rule {α : Type} : Parameter α → String
  | plain _ => "identifier"
  | optional .. => "default_parameter"
  | typed .. => "typed_parameter"
  | typedOptional .. => "typed_default_parameter"
  | rest .kwArgs _ => "dictionary_splat_pattern"
  | rest _ _ => "list_splat_pattern"
  | other rule => rule

/-- Expressions, targets of assignments and type hints as they are written. -/
inductive Expr where
  | name (id : String)
  | integer (literal : IntLiteral)
  | float (text : String)
  | truth (value : Bool)
  | absent
  | string (form : StringForm) (parts : List (StringPart Expr))
  /-- String literals next to each other. -/
  | strings (pieces : List Expr)
  | attribute (value : Expr) (attr : String)
  | subscript (value : Expr) (indices : List (Index Expr))
  | call (func : Expr) (args : List (Argument Expr))
  /-- A call whose arguments are one other rule, such as a generator. -/
  | callOther (func : Expr) (rule : String)
  | binary (left : Expr) (op : BinaryOp) (right : Expr)
  | unary (op : UnaryOp) (operand : Expr)
  | boolean (left : Expr) (op : BooleanOp) (right : Expr)
  | comparison (operands : List Expr) (ops : List Comparison)
  /-- `body if test else orelse`, in this order. -/
  | conditional (parts : List Expr)
  | parenthesized (parts : List Expr)
  | list (items : List Expr)
  | tuple (items : List Expr)
  /-- Items with commas between them and no brackets around. -/
  | sequence (items : List Expr)
  | set (items : List Expr)
  | dictionary (entries : List (Entry Expr))
  /-- `*value`. -/
  | splat (parts : List Expr)
  | lambda (params : List (Parameter Expr)) (body : Expr)
  /-- Any other rule of the grammar. -/
  | other (rule : String)

namespace Expr

instance : Inhabited Expr := ⟨.absent⟩

/-- The name of the rule of line continuations. -/
def continuationRule : String := "line_continuation"

/-- A backslash at the end of a line, among the nodes of a list. -/
def lineContinuation : Expr := .other continuationRule

/-- The rule that is refused when it stands alone as a statement; none for an expression
that may. -/
def refusedStatement? : Expr → Option String
  | splat _ => some "list_splat"
  | sequence _ => some "tuple_expression"
  | other rule => if rule = "await" then none else some rule
  | _ => none

mutual
/-- An expression read as the target of an assignment. Parentheses then hold a tuple. -/
def asTarget? : Expr → Option Expr
  | .name id => some (.name id)
  | .attribute value attr => some (.attribute value attr)
  | .subscript value indices => some (.subscript value indices)
  | .splat parts =>
    match parts.getLast? with
    | some (.name _) => some (.splat parts)
    | some (.attribute _ _) => some (.splat parts)
    | some (.subscript _ _) => some (.splat parts)
    | _ => none
  | .parenthesized parts => (asTargets? parts).map .tuple
  | .tuple items => (asTargets? items).map .tuple
  | .list items => (asTargets? items).map .list
  | .sequence items => (asTargets? items).map .sequence
  | .other rule => if rule = continuationRule then some (.other rule) else none
  | _ => none
/-- Expressions read as targets. -/
def asTargets? : List Expr → Option (List Expr)
  | [] => some []
  | e :: rest => do
    let target ← asTarget? e
    let others ← asTargets? rest
    return target :: others
end

end Expr

/-! ## Statements -/

/-- The right-hand side of an assignment. -/
inductive Right where
  | value (value : Expr)
  | yield
  /-- Another assignment, as in `a = b = c`. -/
  | chained (left : Expr) (right : Right)
  /-- Another assignment with a type hint. -/
  | annotated
  /-- An assignment with an operator. -/
  | updated

/-- An `elif` clause. -/
structure ElifClause (β : Type) where
  line : Nat
  test : Expr
  body : β

/-- An `except` clause : the class it catches and the name that the exception is bound to. -/
structure ExceptClause (β : Type) where
  caught : Option Expr
  name : Option String
  body : β

/-- Statements as they are written. An absent `else` or `finally` clause is an empty block. -/
inductive Stmt where
  | expr (value : Expr)
  | assign (left : Expr) (right : Right)
  | declare (left hint : Expr) (right : Option Right)
  | update (left : Expr) (op : BinaryOp) (right : Right)
  | branch (test : Expr) (body : List (Located Stmt))
      (elifs : List (ElifClause (List (Located Stmt)))) (orelse : List (Located Stmt))
  | forEach (isAsync : Bool) (target iter : Expr) (body orelse : List (Located Stmt))
  | whileLoop (test : Expr) (body orelse : List (Located Stmt))
  | attempt (body : List (Located Stmt)) (clauses : List (ExceptClause (List (Located Stmt))))
      (orelse cleanup : List (Located Stmt))
  | giveBack (parts : List Expr)
  | pass
  | leaveLoop
  | nextRound
  | functionDef (decorators : List Expr) (isAsync : Bool) (name : String)
      (params : List (Parameter Expr)) (body : List (Located Stmt))
  | classDef (decorators : List Expr) (name : String) (bases : List (Argument Expr))
      (body : List (Located Stmt))
  | importNames (names : List ImportedName)
  | globalNames (names : List String)
  /-- Any other rule of the grammar. -/
  | other (rule : String)

/-- Statements in order. -/
abbrev Block := List (Located Stmt)

end Berrify.Concrete
