import Berrify.Operator
import Berrify.Text.Digits
import Berrify.Text.Search

/-!
# Refusals

What has no counterpart in the target is refused. `Cause` lists the reasons; `Cause.construct?` is
the grammar rule that is refused, absent when an assignment target is to blame, and `Cause.detail`
the explanation. A `Refusal` adds the source line. `Refusal.atLine` gives a refusal its line on the
way out of the statements that contain it : the innermost statement comes first and later ones find
the line already mentioned.
-/

namespace Berrify

/-- The reasons to refuse a script. -/
inductive Cause where
  | operator (op : BinaryOp)
  | updateOperator (op : BinaryOp)
  | setLiteral
  | straySlice
  | sliceStep
  | emptySlice
  | manyIndices
  | keywordArgument (callee : String)
  | mappingArgument (callee : String)
  | containment (kind : String)
  | unpacking
  | unknownExpression (kind : String)
  | unknownStatement (kind : String)
  | manyBases (className : String)
  | decorator (shown function : String)
  | varArgs (name : String)
  | kwArgs (name : String)
  | loopElse
  | iteration (kind : String)
  | attemptElse
  | dottedImport (name : String)
  | targetIndex (inner : Cause)
  | targetUnpacking
  | starredTarget
  | target (kind : String)
  | loopUnpacking
  | loopTarget (kind : String)
deriving DecidableEq, Repr

namespace Cause

/-- The grammar rule that is refused; none if the fault is in an assignment target. -/
def construct? : Cause → Option String
  | operator _ => some "binary_operator"
  | updateOperator _ => some "augmented_assignment"
  | setLiteral => some "set"
  | straySlice => some "slice"
  | sliceStep => some "slice"
  | emptySlice => some "slice"
  | manyIndices => some "subscript"
  | keywordArgument _ => some "keyword_argument"
  | mappingArgument _ => some "dictionary_splat"
  | containment _ => some "comparison_operator"
  | unpacking => some "list_splat"
  | unknownExpression kind => some kind
  | unknownStatement kind => some kind
  | manyBases _ => some "class_definition"
  | decorator _ _ => some "decorator"
  | varArgs _ => some "list_splat_pattern"
  | kwArgs _ => some "dictionary_splat_pattern"
  | loopElse => some "for_statement"
  | iteration _ => some "for_statement"
  | attemptElse => some "try_statement"
  | dottedImport _ => some "import_statement"
  | targetIndex _ => none
  | targetUnpacking => none
  | starredTarget => none
  | target _ => none
  | loopUnpacking => none
  | loopTarget _ => none

/-- The text that introduces an explanation. -/
def headline : Option String → String
  | some construct => "unsupported construct `" ++ construct ++ "`: "
  | none => "malformed assignment target: "

/-- The explanation. -/
def detail : Cause → String
  | operator op => "operator `" ++ op.token ++ "` has no Berry equivalent"
  | updateOperator op => "operator `" ++ op.token ++ "=` has no Berry equivalent"
  | setLiteral => "set literal outside a containment test"
  | straySlice => "slice outside a subscript"
  | sliceStep => "slice step has no Berry equivalent"
  | emptySlice => "empty slice has no Berry range equivalent"
  | manyIndices => "multi-dimensional index"
  | keywordArgument callee => "keyword arguments in call to `" ++ callee ++ "`"
  | mappingArgument callee => "keyword arguments in call to `" ++ callee ++ "`"
  | containment kind => "containment test against " ++ kind
  | unpacking => "unpacking with `*`"
  | unknownExpression _ => "expression"
  | unknownStatement _ => "statement"
  | manyBases className => "multiple base classes on `" ++ className ++ "`"
  | decorator shown function => "@" ++ shown ++ " on `" ++ function ++ "`"
  | varArgs name => "`*" ++ name ++ "` parameter"
  | kwArgs name => "`**" ++ name ++ "` parameter"
  | loopElse => "`for ... else` has no Berry equivalent"
  | iteration kind => "iteration over " ++ kind ++ "; only `for k in m.keys()` is supported"
  | attemptElse => "`try ... else` has no Berry equivalent"
  | dottedImport name => "dotted import `" ++ name ++ "`"
  | targetIndex inner =>
    "subscript target index: " ++ headline inner.construct? ++ inner.detail
  | targetUnpacking => "tuple unpacking is not supported"
  | starredTarget => "starred assignment target"
  | target kind => "cannot assign to " ++ kind
  | loopUnpacking => "loop target unpacking is not supported"
  | loopTarget kind => "cannot loop into " ++ kind

end Cause

/-- A cause and the line of the statement that it was found in. -/
structure Refusal where
  cause : Cause
  line : Option Nat := none
deriving DecidableEq, Repr

namespace Refusal

/-- The mark of a line in a message. -/
def lineMark : String := " (line "

/-- The line as it is appended to a message. -/
def lineText : Option Nat → String
  | none => ""
  | some line => lineMark ++ Text.writeNat line ++ ")"

/-- Whether the explanation already speaks of a line. -/
def mentionsLine (r : Refusal) : Bool :=
  r.line.isSome || Text.occursIn lineMark r.cause.detail

/-- Names the line of a statement, unless the explanation already speaks of one. -/
def atLine (r : Refusal) (line : Nat) : Refusal :=
  if r.mentionsLine then r else { r with line := some line }

/-- The whole message. -/
def message (r : Refusal) : String :=
  Cause.headline r.cause.construct? ++ r.cause.detail ++ lineText r.line

end Refusal

end Berrify
