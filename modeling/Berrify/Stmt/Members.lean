import Berrify.Stmt

/-!
# Fields of a class

`memberFields` lists the fields of `self` that the methods of a class assign to, in the order in
which they first occur in the source. `Stmt.assignedFields` finds them in one statement : it goes
through branches, loops, handlers and nested functions, and not into nested classes.
-/

namespace Berrify

/-- The name of the field if an assignment target is a field of `self`. -/
def fieldOf : Expr → List String
  | .attribute (.name "self") attr => [attr]
  | _ => []

mutual
/-- The fields that a statement assigns to, in source order and with repetitions. -/
def Stmt.assignedFields : Stmt → List String
  | .assign targets _ => targets.flatMap fieldOf
  | .declare target _ _ => fieldOf target
  | .update target _ _ => fieldOf target
  | .branch _ body orelse => assignedFieldsIn body ++ assignedFieldsIn orelse
  | .forEach _ _ body orelse => assignedFieldsIn body ++ assignedFieldsIn orelse
  | .whileLoop _ body orelse => assignedFieldsIn body ++ assignedFieldsIn orelse
  | .attempt body handlers orelse cleanup =>
    assignedFieldsIn body ++ assignedFieldsInHandlers handlers ++ assignedFieldsIn orelse ++
      assignedFieldsIn cleanup
  | .functionDef _ _ _ body => assignedFieldsIn body
  | _ => []
/-- The fields that the statements of a block assign to. -/
def assignedFieldsIn : List (Located Stmt) → List String
  | [] => []
  | ⟨_, stmt⟩ :: rest => stmt.assignedFields ++ assignedFieldsIn rest
/-- The fields that handlers assign to. -/
def assignedFieldsInHandlers : List (Handler (List (Located Stmt))) → List String
  | [] => []
  | ⟨_, _, body⟩ :: rest => assignedFieldsIn body ++ assignedFieldsInHandlers rest
end

/-- The first occurrence of each name. -/
def firstOccurrences : List String → List String
  | [] => []
  | name :: rest => name :: (firstOccurrences rest).filter (· != name)

/-- The fields that the functions directly in a class body assign to. -/
def methodFields : Block → List String
  | [] => []
  | ⟨_, .functionDef _ _ _ body⟩ :: rest => assignedFieldsIn body ++ methodFields rest
  | _ :: rest => methodFields rest

/-- The fields of a class, each once, in the order of their first assignment. -/
def memberFields (body : Block) : List String :=
  firstOccurrences (methodFields body)

end Berrify
