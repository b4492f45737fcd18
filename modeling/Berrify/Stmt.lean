import Berrify.Expr

/-!
# Statements

`Stmt` is the syntax of statements and `Block` a list of them, each with the line of the source on
which it starts. A chain of `elif` clauses is a nest of `Stmt.branch`es, each the only statement of
the block that its predecessor runs otherwise.
-/

namespace Berrify

/-- A thing and the source line on which it starts, counted from one. -/
structure Located (α : Type) where
  line : Nat
  node : α

/-- How a parameter takes arguments. -/
inductive ParamKind where
  | positional
  /-- `*rest`. -/
  | varArgs
  /-- `**rest`. -/
  | kwArgs
deriving DecidableEq, Repr

/-- A parameter of a function. -/
structure Param where
  name : String
  kind : ParamKind := .positional
  hint : Option Expr := none
  fallback : Option Expr := none

/-- One imported library : its dotted name and the name it is bound to. -/
structure ImportedName where
  name : String
  boundAs : Option String
deriving DecidableEq, Repr

/-- A clause that catches an exception. The class it catches has no meaning in the target. -/
structure Handler (β : Type) where
  caught : Option Expr
  name : Option String
  body : β

/-- Statements of the source language. -/
inductive Stmt where
  | classDef (name : String) (bases : List Expr) (body : List (Located Stmt))
  /-- Decorators stand outermost first. -/
  | functionDef (name : String) (params : List Param) (decorators : List Expr)
      (body : List (Located Stmt))
  /-- `a = b = value`, with the targets from left to right. -/
  | assign (targets : List Expr) (value : Expr)
  /-- `target: hint` or `target: hint = value`. -/
  | declare (target hint : Expr) (value : Option Expr)
  /-- `target op= value`. -/
  | update (target : Expr) (op : BinaryOp) (value : Expr)
  | branch (test : Expr) (body orelse : List (Located Stmt))
  | forEach (target iter : Expr) (body orelse : List (Located Stmt))
  | whileLoop (test : Expr) (body orelse : List (Located Stmt))
  | attempt (body : List (Located Stmt)) (handlers : List (Handler (List (Located Stmt))))
      (orelse cleanup : List (Located Stmt))
  | giveBack (value : Option Expr)
  | expr (value : Expr)
  | pass
  | leaveLoop
  | nextRound
  | importNames (names : List ImportedName)
  | globalNames (names : List String)
  /-- Anything else, by the name of its grammar rule. -/
  | unsupported (kind : String)

instance : Inhabited Stmt := ⟨.pass⟩

/-- Statements in the order in which they run. -/
abbrev Block := List (Located Stmt)

end Berrify
