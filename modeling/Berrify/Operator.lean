/-!
# Operators

The operators of the source language, their tokens there (`BinaryOp.token`, `BinaryOp.ofToken?`,
`Comparison.ofToken?`), and what the target language has for them : `BinaryOp.target?`,
`UnaryOp.target`, `BooleanOp.target` and `Comparison.target?`.
-/

namespace Berrify

/-- Arithmetic and bitwise operators with two operands. -/
inductive BinaryOp where
  | add
  | sub
  | mul
  | matMul
  | div
  | floorDiv
  | mod
  | pow
  | shiftLeft
  | shiftRight
  | bitOr
  | bitXor
  | bitAnd
deriving DecidableEq, Repr

namespace BinaryOp

/-- All operators, in the order of declaration. -/
def all : List BinaryOp :=
  [add, sub, mul, matMul, div, floorDiv, mod, pow, shiftLeft, shiftRight, bitOr, bitXor, bitAnd]

/-- The operator as it is written in the source. -/
def token : BinaryOp → String
  | add => "+"
  | sub => "-"
  | mul => "*"
  | matMul => "@"
  | div => "/"
  | floorDiv => "//"
  | mod => "%"
  | pow => "**"
  | shiftLeft => "<<"
  | shiftRight => ">>"
  | bitOr => "|"
  | bitXor => "^"
  | bitAnd => "&"

/-- The operator that a source token names. -/
def ofToken? (text : String) : Option BinaryOp :=
  all.find? (fun op => op.token == text)

/-- The operator as the target language writes it. Division of integers is whole there, so floor
division needs no operator of its own; powers and matrix products have none. -/
def target? : BinaryOp → Option String
  | floorDiv => some "/"
  | pow => none
  | matMul => none
  | op => some op.token

end BinaryOp

/-- Operators with one operand. -/
inductive UnaryOp where
  | not
  | neg
  | pos
  | invert
deriving DecidableEq, Repr

/-- The operator as the target language writes it. -/
def UnaryOp.target : UnaryOp → String
  | .not => "!"
  | .neg => "-"
  | .pos => "+"
  | .invert => "~"

/-- Whether the operator is a sign. -/
def UnaryOp.isSign : UnaryOp → Bool
  | .neg => true
  | .pos => true
  | _ => false

/-- Conjunction and disjunction. -/
inductive BooleanOp where
  | and
  | or
deriving DecidableEq, Repr

/-- The operator as the target language writes it. -/
def BooleanOp.target : BooleanOp → String
  | .and => "&&"
  | .or => "||"

/-- Comparison operators. -/
inductive Comparison where
  | eq
  | ne
  | lt
  | le
  | gt
  | ge
  | same
  | notSame
  | member
  | notMember
deriving DecidableEq, Repr

namespace Comparison

/-- The operator that a source token names; inequality has two spellings. -/
def ofToken? : String → Option Comparison
  | "==" => some eq
  | "!=" => some ne
  | "<>" => some ne
  | "<" => some lt
  | "<=" => some le
  | ">" => some gt
  | ">=" => some ge
  | "is" => some same
  | "is not" => some notSame
  | "in" => some member
  | "not in" => some notMember
  | _ => none

/-- The operator as it is written in the source. -/
def token : Comparison → String
  | eq => "=="
  | ne => "!="
  | lt => "<"
  | le => "<="
  | gt => ">"
  | ge => ">="
  | same => "is"
  | notSame => "is not"
  | member => "in"
  | notMember => "not in"

/-- The relation that the target language has for a comparison. Identity is equality there, and a
containment test is no operator. -/
def target? : Comparison → Option String
  | eq => some "=="
  | same => some "=="
  | ne => some "!="
  | notSame => some "!="
  | lt => some "<"
  | le => some "<="
  | gt => some ">"
  | ge => some ">="
  | member => none
  | notMember => none

end Comparison

end Berrify
