import Berrify.Concrete.Reader

/-!
# The recursive rules of the grammar

Readers of larger constructs are written over a record of readers for the parts, `Rules`, so that
each is an ordinary function. `Rules.fail` refuses everything, and the readers for constructs of any
depth arise by putting the rules for smaller constructs in place as often as there are tokens.
-/

namespace Berrify.Concrete

/-- The readers that constructs are built from. -/
structure Rules where
  /-- Expressions whose operators bind at least as tightly as a level. -/
  expr : Layout → Nat → Reader Expr
  /-- Operands with their trailers, without operators. -/
  primary : Layout → Reader Expr
  /-- The format of an embedded expression, which is not kept. -/
  format : Layout → Reader Unit
  /-- Type hints; the flag says whether a colon may constrain the type. -/
  type : Layout → Bool → Reader Expr
  /-- The right-hand side of an assignment. -/
  right : Layout → Reader Right
  /-- Patterns of a `case` clause, whose content is not kept. -/
  casePattern : Layout → Reader Unit
  /-- What stands behind the colon of a statement in a block with an indentation. -/
  suite : Nat → Reader Block

/-- Rules that refuse everything. -/
def Rules.fail : Rules where
  expr _ _ := failure
  primary _ := failure
  format _ := failure
  type _ _ := failure
  right _ := failure
  casePattern _ := failure
  suite _ := failure

/-! ## Levels of precedence -/

/-- How tightly operators bind. -/
inductive Level where
  | anything
  | conditional
  | binding
  | clause
  | disjunction
  | conjunction
  | negation
  | comparison
  | operand
deriving DecidableEq, Repr

/-- Levels as numbers; those of binary operators go on from here (`BinaryOp.level`). -/
def Level.rank : Level → Nat
  | anything => 0
  | conditional => 1
  | binding => 2
  | clause => 3
  | disjunction => 4
  | conjunction => 5
  | negation => 6
  | comparison => 7
  | operand => 8

/-- The rank of a binary operator. -/
def binaryRank : BinaryOp → Nat
  | .bitOr => 8
  | .bitAnd => 9
  | .bitXor => 10
  | .shiftLeft => 11
  | .shiftRight => 11
  | .add => 12
  | .sub => 12
  | .mul => 13
  | .matMul => 13
  | .div => 13
  | .floorDiv => 13
  | .mod => 13
  | .pow => 15

/-- The rank that the right operand of a binary operator needs at least : powers group to the right,
all others to the left. -/
def rightRank : BinaryOp → Nat
  | .pow => 15
  | op => binaryRank op + 1

/-- The rank that the operand of a sign needs : only powers bind more tightly. -/
def signRank : Nat := 14

end Berrify.Concrete
