import Berrify.Expr
import Berrify.Naming

/-!
# Kinds of containers

Which methods a value has in the target depends on whether it is a list, a map or a byte buffer.
`Container` is what is known of that. `Container.ofValue` reads it off the expression that makes
the value and `Container.ofHint` off a type hint; where neither tells, the kind is unknown.
-/

namespace Berrify

/-- The kind of a container, as far as it is evident. -/
inductive Container where
  | sequence
  | mapping
  | bytes
  | unknown
deriving DecidableEq, Repr

namespace Container

instance : Inhabited Container := ⟨.unknown⟩

/-- The kind that a class of the target, or a name of the typing library, stands for. -/
def ofClass (name : String) : Container :=
  if name = "list" ∨ name = "List" then .sequence
  else if name = "map" ∨ name = "Dict" then .mapping
  else if name = "bytes" then .bytes
  else .unknown

/-- The class of the target whose methods a container has. -/
def className? : Container → Option String
  | .sequence => some "list"
  | .mapping => some "map"
  | .bytes => some "bytes"
  | .unknown => none

/-- The kind of the container that an expression makes. -/
def ofValue (naming : Naming) : Expr → Container
  | .list _ => .sequence
  | .dict _ => .mapping
  | .constant (.bytes _) => .bytes
  | .call (.name id) _ _ =>
    if naming.isContainer id then ofClass (naming.className id) else .unknown
  | _ => .unknown

/-- The kind of container that a type hint names, such as `list` or `dict[str, int]`. -/
def ofHint (naming : Naming) : Expr → Container
  | .name id => ofClass (naming.className id)
  | .subscript value _ => ofHint naming value
  | .attribute _ attr => ofClass attr
  | _ => .unknown

end Container

end Berrify
