import Berrify.Operator

/-!
# Expressions

`Expr` is the syntax of the expressions that a script may hold. What has no shape of its own here
is kept as `Expr.unsupported` under the name of its grammar rule, so that a later stage can refuse
it by name. `Expr.dottedPath?` is the path of a chain of attributes, `Expr.kindName` the word that
diagnostics use for an expression, and `Expr.beq` structural equality (`Expr.beq_iff_eq`).
-/

namespace Berrify

/-- Literal values. Numbers keep the text of the literal. -/
inductive Constant where
  | none
  | bool (value : Bool)
  | int (text : String)
  | float (text : String)
  | str (text : String)
  | bytes (data : List UInt8)
deriving DecidableEq, Repr

/-- A named argument of a call, or an unpacked mapping when there is no name. -/
structure Keyword (α : Type) where
  name : Option String
  value : α

/-- A piece of a template string : literal text or an embedded expression. -/
inductive TemplatePart (α : Type) where
  | text (text : String)
  | value (value : α)

/-- Expressions of the source language. -/
inductive Expr where
  | name (id : String)
  | attribute (value : Expr) (attr : String)
  | constant (value : Constant)
  | call (func : Expr) (args : List Expr) (keywords : List (Keyword Expr))
  | binary (left : Expr) (op : BinaryOp) (right : Expr)
  | unary (op : UnaryOp) (operand : Expr)
  /-- `a and b and c` as one node. -/
  | boolean (op : BooleanOp) (values : List Expr)
  /-- `a < b <= c` as one node : the operators stand between the operands in order. -/
  | compare (left : Expr) (ops : List Comparison) (comparators : List Expr)
  /-- `body if test else orelse`. -/
  | conditional (test body orelse : Expr)
  | dict (entries : List (Expr × Expr))
  | list (items : List Expr)
  | tuple (items : List Expr)
  | set (items : List Expr)
  | subscript (value index : Expr)
  | slice (lower upper step : Option Expr)
  | lambda (params : List String) (body : Expr)
  | template (parts : List (TemplatePart Expr))
  /-- `*value`. -/
  | starred (value : Expr)
  /-- Anything else, by the name of its grammar rule. -/
  | unsupported (kind : String)

namespace Expr

instance : Inhabited Expr := ⟨.constant .none⟩

/-- The dotted path of a chain of attributes that starts at a name, such as `self.queue`. -/
def dottedPath? : Expr → Option String
  | .name id => some id
  | .attribute value attr => value.dottedPath?.map (· ++ "." ++ attr)
  | _ => none

/-- The word for an expression in diagnostics. -/
def kindName : Expr → String
  | .name _ => "identifier"
  | .attribute .. => "attribute"
  | .constant _ => "constant"
  | .call .. => "call"
  | .binary .. => "binary_operator"
  | .unary .. => "unary_operator"
  | .boolean .. => "boolean_operator"
  | .compare .. => "comparison_operator"
  | .conditional .. => "conditional_expression"
  | .dict _ => "dictionary"
  | .list _ => "list"
  | .tuple _ => "tuple"
  | .set _ => "set"
  | .subscript .. => "subscript"
  | .slice .. => "slice"
  | .lambda .. => "lambda"
  | .template _ => "f-string"
  | .starred _ => "list_splat"
  | .unsupported kind => kind

/-- Whether an expression is a list, tuple or set written out. -/
def isLiteralCollection : Expr → Bool
  | .list _ => true
  | .tuple _ => true
  | .set _ => true
  | _ => false

/-- Whether an expression is the bare name `id`. -/
def isName (id : String) : Expr → Bool
  | .name other => other == id
  | _ => false

/-- Whether an expression is a number written out. -/
def isNumber : Expr → Bool
  | .constant (.int _) => true
  | .constant (.float _) => true
  | _ => false

/-! ## Equality -/

mutual
/-- Structural equality. -/
def beq : Expr → Expr → Bool
  | .name a, .name b => a == b
  | .attribute v a, .attribute w b => beq v w && a == b
  | .constant a, .constant b => a == b
  | .call f as ks, .call g bs ls => beq f g && beqList as bs && beqKeywords ks ls
  | .binary l o r, .binary l' o' r' => beq l l' && o == o' && beq r r'
  | .unary o e, .unary o' e' => o == o' && beq e e'
  | .boolean o es, .boolean o' es' => o == o' && beqList es es'
  | .compare l os es, .compare l' os' es' => beq l l' && os == os' && beqList es es'
  | .conditional t b e, .conditional t' b' e' => beq t t' && beq b b' && beq e e'
  | .dict es, .dict es' => beqPairs es es'
  | .list es, .list es' => beqList es es'
  | .tuple es, .tuple es' => beqList es es'
  | .set es, .set es' => beqList es es'
  | .subscript v i, .subscript v' i' => beq v v' && beq i i'
  | .slice l u s, .slice l' u' s' => beqOption l l' && beqOption u u' && beqOption s s'
  | .lambda ps e, .lambda ps' e' => ps == ps' && beq e e'
  | .template ps, .template ps' => beqParts ps ps'
  | .starred e, .starred e' => beq e e'
  | .unsupported k, .unsupported k' => k == k'
  | _, _ => false
/-- Structural equality of lists. -/
def beqList : List Expr → List Expr → Bool
  | [], [] => true
  | e :: es, f :: fs => beq e f && beqList es fs
  | _, _ => false
/-- Structural equality of optional expressions. -/
def beqOption : Option Expr → Option Expr → Bool
  | none, none => true
  | some e, some f => beq e f
  | _, _ => false
/-- Structural equality of entries. -/
def beqPairs : List (Expr × Expr) → List (Expr × Expr) → Bool
  | [], [] => true
  | (k, v) :: es, (k', v') :: fs => beq k k' && beq v v' && beqPairs es fs
  | _, _ => false
/-- Structural equality of named arguments. -/
def beqKeywords : List (Keyword Expr) → List (Keyword Expr) → Bool
  | [], [] => true
  | ⟨n, e⟩ :: ks, ⟨n', e'⟩ :: ls => n == n' && beq e e' && beqKeywords ks ls
  | _, _ => false
/-- Structural equality of template parts. -/
def beqParts : List (TemplatePart Expr) → List (TemplatePart Expr) → Bool
  | [], [] => true
  | .text t :: ps, .text t' :: qs => t == t' && beqParts ps qs
  | .value e :: ps, .value e' :: qs => beq e e' && beqParts ps qs
  | _, _ => false
end

mutual
theorem beq_self : (e : Expr) → beq e e = true
  | .name _ => by simp [beq]
  | .attribute v _ => by simp [beq, beq_self v]
  | .constant _ => by simp [beq]
  | .call f as ks => by simp [beq, beq_self f, beqList_self as, beqKeywords_self ks]
  | .binary l _ r => by simp [beq, beq_self l, beq_self r]
  | .unary _ e => by simp [beq, beq_self e]
  | .boolean _ es => by simp [beq, beqList_self es]
  | .compare l _ es => by simp [beq, beq_self l, beqList_self es]
  | .conditional t e f => by simp [beq, beq_self t, beq_self e, beq_self f]
  | .dict es => by simp [beq, beqPairs_self es]
  | .list es => by simp [beq, beqList_self es]
  | .tuple es => by simp [beq, beqList_self es]
  | .set es => by simp [beq, beqList_self es]
  | .subscript v i => by simp [beq, beq_self v, beq_self i]
  | .slice l u s => by simp [beq, beqOption_self l, beqOption_self u, beqOption_self s]
  | .lambda _ e => by simp [beq, beq_self e]
  | .template ps => by simp [beq, beqParts_self ps]
  | .starred e => by simp [beq, beq_self e]
  | .unsupported _ => by simp [beq]
theorem beqList_self : (es : List Expr) → beqList es es = true
  | [] => by simp [beqList]
  | e :: es => by simp [beqList, beq_self e, beqList_self es]
theorem beqOption_self : (e : Option Expr) → beqOption e e = true
  | none => by simp [beqOption]
  | some e => by simp [beqOption, beq_self e]
theorem beqPairs_self : (es : List (Expr × Expr)) → beqPairs es es = true
  | [] => by simp [beqPairs]
  | (k, v) :: es => by simp [beqPairs, beq_self k, beq_self v, beqPairs_self es]
theorem beqKeywords_self : (ks : List (Keyword Expr)) → beqKeywords ks ks = true
  | [] => by simp [beqKeywords]
  | ⟨_, e⟩ :: ks => by simp [beqKeywords, beq_self e, beqKeywords_self ks]
theorem beqParts_self : (ps : List (TemplatePart Expr)) → beqParts ps ps = true
  | [] => by simp [beqParts]
  | .text _ :: ps => by simp [beqParts, beqParts_self ps]
  | .value e :: ps => by simp [beqParts, beq_self e, beqParts_self ps]
end

theorem eq_of_beq : (a b : Expr) → beq a b = true → a = b := by
  apply beq.induct
    (fun a b => beq a b = true → a = b)
    (fun as bs => beqParts as bs = true → as = bs)
    (fun a b => beqOption a b = true → a = b)
    (fun as bs => beqPairs as bs = true → as = bs)
    (fun as bs => beqKeywords as bs = true → as = bs)
    (fun as bs => beqList as bs = true → as = bs)
  all_goals
    intros
    rename_i h
    simp only [beq, beqList, beqOption, beqPairs, beqKeywords, beqParts, Bool.and_eq_true,
      beq_iff_eq, Bool.false_eq_true, *] at h
  all_goals simp_all only [forall_const]

theorem beq_iff_eq (a b : Expr) : beq a b = true ↔ a = b :=
  ⟨eq_of_beq a b, fun h => h ▸ beq_self a⟩

instance : DecidableEq Expr := fun a b =>
  decidable_of_iff _ (beq_iff_eq a b)

end Expr

end Berrify
