import Berrify.Concrete.Expressions

/-!
# Reading type hints

A type hint is mostly an expression. A name with parameters in square brackets is a rule of its own
(`startsGeneric`), and so are unions, members and constraints of such types; what they hold is not
kept.
-/

namespace Berrify.Concrete

open Reader

/-- Type parameters in square brackets. -/
def readTypeParameters (r : Rules) (l : Layout) : Reader Unit := do
  expect l "["
  let inside := l.inBrackets
  check (!(← peek).isSymbol "]")
  let _ ← items inside "]" () (do let _ ← r.type inside true)

/-- Words that are keywords at the start of some statements and names elsewhere. As a name with
parameters only `type` is among them. -/
def softKeywords : List String := ["print", "exec", "async", "await", "match"]

/-- Whether a name with type parameters comes next. -/
def startsGeneric (l : Layout) : Reader Bool := do
  let t ← peek
  let second ← peekSecond
  return isName t && !softKeywords.contains t.text && second.isSymbol "[" && l.mayGoOn second

/-- Whether an unpacked name comes next. With a subscript it would be an expression. -/
def startsUnpacked (l : Layout) : Reader Bool := do
  match ← get with
  | star :: name :: behind :: _ =>
    return (star.isSymbol "*" || star.isSymbol "**") && isName name &&
      !((behind.isSymbol "[" || behind.isSymbol "(") && l.mayGoOn behind)
  | _ => return false

/-- A type hint without what may follow it. -/
def readPlainType (r : Rules) (l : Layout) : Reader Expr := do
  check (l.mustGoOn (← peek))
  if ← startsGeneric l then
    let _ ← next
    readTypeParameters r l
    return .other "generic_type"
  else if ← startsUnpacked l then
    let _ ← next
    let _ ← expectName l
    return .other "splat_type"
  else r.expr l Level.anything.rank

/-- What may follow a type hint : an alternative, a member or a constraint. -/
def readTypeSuffix (r : Rules) (l : Layout) (mayConstrain : Bool) : Reader (Option Expr) := do
  if ← accept l "|" then
    let _ ← readPlainType r l
    return some (.other "union_type")
  else if ← accept l "." then
    let _ ← expectName l
    return some (.other "member_type")
  else if ← acceptIf mayConstrain l ":" then
    let _ ← r.type l true
    return some (.other "constrained_type")
  else return none

/-- A type hint. -/
def readType (r : Rules) (l : Layout) (mayConstrain : Bool) : Reader Expr := do
  iterate (fun _ => readTypeSuffix r l mayConstrain) (← readPlainType r l)

end Berrify.Concrete
