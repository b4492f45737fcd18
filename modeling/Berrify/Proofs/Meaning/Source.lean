import Berrify.Proofs.Expr.Writing
import Berrify.Proofs.Text.Digits
import Berrify.Proofs.Text.Words

/-!
# The meaning of arithmetic and tests

`Expr.Plain` is the part of the source language that computes with integers and truth values :
names, numerals, sums and products, signs, `not`, `and`, `or`, chains of comparisons, containment in
a collection written out, and conditional expressions. `Expr.value?` is its meaning there, with
`none` for an operand of the wrong kind. A connective stops at the operand that decides it, and a
chain at the first comparison that fails.

`Expr.HasKind` assigns to an expression the kind of its value, and an expression that has a kind has
a value of it (`value_of_hasKind`).
-/

namespace Berrify

/-- What arithmetic and tests compute. -/
inductive Datum where
  | int (n : Int)
  | bool (b : Bool)
deriving DecidableEq, Repr

/-- The two kinds of values. -/
inductive DatumKind where
  | int
  | bool
deriving DecidableEq, Repr

/-- The kind of a value. -/
def Datum.kind : Datum → DatumKind
  | .int _ => .int
  | .bool _ => .bool

namespace Comparison

/-- Whether two values compare as an operator says. Only integers are ordered, and only values of
one kind are compared at all. -/
def holds? : Comparison → Datum → Datum → Option Bool
  | eq, .int a, .int b => some (decide (a = b))
  | ne, .int a, .int b => some (decide (a ≠ b))
  | lt, .int a, .int b => some (decide (a < b))
  | le, .int a, .int b => some (decide (a ≤ b))
  | gt, .int a, .int b => some (decide (a > b))
  | ge, .int a, .int b => some (decide (a ≥ b))
  | eq, .bool a, .bool b => some (decide (a = b))
  | ne, .bool a, .bool b => some (decide (a ≠ b))
  | _, _, _ => none

/-- Whether an operator compares two values, by equality or by order. -/
def isRelation : Comparison → Bool
  | eq | ne | lt | le | gt | ge => true
  | _ => false

/-- Whether an operator tests for containment. -/
def isContainment : Comparison → Bool
  | member | notMember => true
  | _ => false

/-- Whether an operator compares values of a kind. -/
def relates : Comparison → DatumKind → Bool
  | eq, _ | ne, _ => true
  | lt, .int | le, .int | gt, .int | ge, .int => true
  | _, _ => false

theorem isRelation_of_relates {op : Comparison} {κ : DatumKind} (h : op.relates κ = true) :
    op.isRelation = true := by
  cases op <;> cases κ <;> first | rfl | cases h

theorem not_isContainment_of_isRelation {op : Comparison} (h : op.isRelation = true) :
    op.isContainment = false := by
  cases op <;> first | rfl | cases h

/-- Values of a kind that an operator compares do compare. -/
theorem holds?_of_relates {op : Comparison} {a b : Datum} (hb : b.kind = a.kind)
    (h : op.relates a.kind = true) : ∃ truth, op.holds? a b = some truth := by
  cases a <;> cases b <;> cases hb <;> cases op <;> first | exact ⟨_, rfl⟩ | cases h

end Comparison

/-- The operand that decides a connective. -/
def BooleanOp.decisive : BooleanOp → Bool
  | .and => false
  | .or => true

/-- A sum, difference or product of integers. -/
def BinaryOp.value? : BinaryOp → Datum → Datum → Option Datum
  | .add, .int a, .int b => some (.int (a + b))
  | .sub, .int a, .int b => some (.int (a - b))
  | .mul, .int a, .int b => some (.int (a * b))
  | _, _, _ => none

/-- A signed integer or a negated truth value. -/
def UnaryOp.value? : UnaryOp → Datum → Option Datum
  | .neg, .int a => some (.int (-a))
  | .pos, .int a => some (.int a)
  | .not, .bool a => some (.bool (!a))
  | _, _ => none

/-- Whether a value is one of some others. -/
def Datum.isOneOf? (a : Datum) : List Datum → Option Bool
  | [] => some false
  | b :: rest => do if ← Comparison.eq.holds? a b then some true else a.isOneOf? rest

theorem Datum.isOneOf?_of_kind {a : Datum} : ∀ {items : List Datum},
    (∀ b ∈ items, b.kind = a.kind) → ∃ truth, a.isOneOf? items = some truth
  | [], _ => ⟨false, rfl⟩
  | b :: items, h => by
    obtain ⟨truth, ht⟩ := Comparison.holds?_of_relates (h b List.mem_cons_self)
      (by cases a <;> rfl : Comparison.eq.relates a.kind = true)
    obtain ⟨others, ho⟩ := isOneOf?_of_kind fun c hc => h c (List.mem_cons_of_mem b hc)
    cases truth with
    | true => exact ⟨true, by simp [isOneOf?, ht]⟩
    | false => exact ⟨others, by simp [isOneOf?, ht, ho]⟩

namespace Expr

mutual
/-- The value of an expression, given those of its names. -/
def value? (env : String → Int) : Expr → Option Datum
  | .name id => some (.int (env id))
  | .constant (.int text) => (Text.readDigits? 10 text.toList).map fun n => .int n
  | .binary left op right => do op.value? (← left.value? env) (← right.value? env)
  | .unary op operand => do op.value? (← operand.value? env)
  | .boolean op values => (connective? env op values).map .bool
  | .compare left ops comparators => do
    (chain? env (← left.value? env) ops comparators).map .bool
  | .conditional test body orelse => do
    match ← test.value? env with
    | .bool true => body.value? env
    | .bool false => orelse.value? env
    | .int _ => none
  | _ => none
/-- The truth value of operands with a connective between them. -/
def connective? (env : String → Int) (op : BooleanOp) : List Expr → Option Bool
  | [] => some (!op.decisive)
  | e :: rest => do
    match ← e.value? env with
    | .bool b => if b = op.decisive then some b else connective? env op rest
    | .int _ => none
/-- The truth value of a chain of comparisons that starts at a value. A collection has no value of
its own, so a containment test ends its chain. -/
def chain? (env : String → Int) (a : Datum) : List Comparison → List Expr → Option Bool
  | op :: ops, right :: rest =>
    if op.isContainment then
      if ops.isEmpty && rest.isEmpty then do
        let found ← a.isOneOf? (← items? env right)
        return found != (op == .notMember)
      else none
    else do
      let b ← right.value? env
      if ← op.holds? a b then chain? env b ops rest else some false
  | _, _ => some true
/-- The values of the items of a collection written out. -/
def items? (env : String → Int) : Expr → Option (List Datum)
  | .list items => values? env items
  | .tuple items => values? env items
  | .set items => values? env items
  | _ => none
/-- The values of several expressions. -/
def values? (env : String → Int) : List Expr → Option (List Datum)
  | [] => some []
  | e :: rest => do return (← e.value? env) :: (← values? env rest)
end

theorem items?_of_literalItems? {env : String → Int} {e : Expr} {items : List Expr}
    (h : e.literalItems? = some items) : e.items? env = values? env items := by
  cases e <;> simp_all [literalItems?, items?]

/-- A name that both languages read as a variable : not one of the target's truth values. -/
def isVariable (id : String) : Bool :=
  Text.isWord id && id != "true" && id != "false"

/-- The text of an unsigned decimal numeral. -/
def isNumeral (text : String) : Bool :=
  !text.toList.isEmpty && text.toList.all Char.isDigit

/-- Expressions that compute with integers and truth values. -/
inductive Plain : Expr → Prop where
  | name {id : String} : isVariable id = true → Plain (.name id)
  | numeral {text : String} : isNumeral text = true → Plain (.constant (.int text))
  | arithmetic {left right : Expr} {op : BinaryOp} : op ∈ [.add, .sub, .mul] →
      Plain left → Plain right → Plain (.binary left op right)
  | prefixed {operand : Expr} {op : UnaryOp} : op ∈ [.neg, .pos, .not] →
      Plain operand → Plain (.unary op operand)
  | connective {op : BooleanOp} {values : List Expr} : values ≠ [] →
      (∀ e ∈ values, Plain e) → Plain (.boolean op values)
  | chain {left : Expr} {ops : List Comparison} {comparators : List Expr} : ops ≠ [] →
      ops.length = comparators.length → (∀ op ∈ ops, op.isRelation = true) →
      Plain left → (∀ e ∈ comparators, Plain e) → Plain (.compare left ops comparators)
  | containment {left right : Expr} {op : Comparison} {items : List Expr} :
      op.isContainment = true → right.literalItems? = some items →
      Plain left → (∀ e ∈ items, Plain e) → Plain (.compare left [op] [right])
  | conditional {test body orelse : Expr} : Plain test → Plain body → Plain orelse →
      Plain (.conditional test body orelse)

/-- The kind of the value of an expression : integers where arithmetic and order need them, truth
values where connectives and conditions do, and one kind on both sides of an equality. -/
inductive HasKind : Expr → DatumKind → Prop where
  | name {id : String} : HasKind (.name id) .int
  | numeral {text : String} : isNumeral text = true → HasKind (.constant (.int text)) .int
  | arithmetic {left right : Expr} {op : BinaryOp} : op ∈ [.add, .sub, .mul] →
      HasKind left .int → HasKind right .int → HasKind (.binary left op right) .int
  | sign {operand : Expr} {op : UnaryOp} : op ∈ [.neg, .pos] →
      HasKind operand .int → HasKind (.unary op operand) .int
  | negation {operand : Expr} : HasKind operand .bool → HasKind (.unary .not operand) .bool
  | connective {op : BooleanOp} {values : List Expr} :
      (∀ e ∈ values, HasKind e .bool) → HasKind (.boolean op values) .bool
  | chain {left : Expr} {ops : List Comparison} {comparators : List Expr} {κ : DatumKind} :
      (∀ op ∈ ops, op.relates κ = true) → HasKind left κ →
      (∀ e ∈ comparators, HasKind e κ) → HasKind (.compare left ops comparators) .bool
  | containment {left right : Expr} {op : Comparison} {items : List Expr} {κ : DatumKind} :
      op.isContainment = true → right.literalItems? = some items →
      HasKind left κ → (∀ e ∈ items, HasKind e κ) → HasKind (.compare left [op] [right]) .bool
  | conditional {test body orelse : Expr} {κ : DatumKind} : HasKind test .bool →
      HasKind body κ → HasKind orelse κ → HasKind (.conditional test body orelse) κ

attribute [local simp] value?

/-! ## Values of a kind -/

/-- A numeral denotes a number. -/
theorem readDigits?_of_isNumeral {text : String} (h : isNumeral text = true) :
    ∃ n, Text.readDigits? 10 text.toList = some n := by
  simp only [isNumeral, Bool.and_eq_true, Bool.not_eq_true', List.all_eq_true] at h
  exact ⟨_, Text.readDigits?_of_digits (by simpa using h.1) h.2⟩

theorem values?_of_forall {env : String → Int} {κ : DatumKind} : ∀ {es : List Expr},
    (∀ e ∈ es, ∃ v, e.value? env = some v ∧ v.kind = κ) →
      ∃ vs, values? env es = some vs ∧ ∀ v ∈ vs, v.kind = κ
  | [], _ => ⟨[], by simp [values?]⟩
  | e :: es, h => by
    obtain ⟨v, hv, hk⟩ := h e List.mem_cons_self
    obtain ⟨vs, hvs, hks⟩ := values?_of_forall fun e' he => h e' (List.mem_cons_of_mem e he)
    refine ⟨v :: vs, by simp [values?, hv, hvs], ?_⟩
    rintro w (_ | ⟨_, hw⟩)
    · exact hk
    · exact hks w hw

theorem connective?_of_forall {env : String → Int} (op : BooleanOp) : ∀ {es : List Expr},
    (∀ e ∈ es, ∃ v, e.value? env = some v ∧ v.kind = .bool) →
      ∃ truth, connective? env op es = some truth
  | [], _ => ⟨!op.decisive, by simp [connective?]⟩
  | e :: es, h => by
    obtain ⟨v, hv, hk⟩ := h e List.mem_cons_self
    obtain ⟨truth, ht⟩ := connective?_of_forall op
      fun e' he => h e' (List.mem_cons_of_mem e he)
    cases v with
    | int n => cases hk
    | bool b =>
      by_cases hb : b = op.decisive
      · exact ⟨b, by simp [connective?, hv, hb]⟩
      · exact ⟨truth, by simp [connective?, hv, hb, ht]⟩

theorem chain?_of_forall {env : String → Int} : ∀ {comparators : List Expr}
    {ops : List Comparison} {a : Datum}, (∀ op ∈ ops, op.relates a.kind = true) →
      (∀ e ∈ comparators, ∃ v, e.value? env = some v ∧ v.kind = a.kind) →
      ∃ truth, chain? env a ops comparators = some truth
  | [], ops, a, _, _ => ⟨true, by cases ops <;> simp [chain?]⟩
  | right :: rest, [], a, _, _ => ⟨true, by simp [chain?]⟩
  | right :: rest, op :: ops, a, hops, hes => by
    obtain ⟨b, hb, hk⟩ := hes right List.mem_cons_self
    have hop := hops op List.mem_cons_self
    obtain ⟨truth, ht⟩ := Comparison.holds?_of_relates hk hop
    obtain ⟨others, ho⟩ := chain?_of_forall (a := b)
      (fun o (h : o ∈ ops) => hk ▸ hops o (List.mem_cons_of_mem op h))
      (fun e (h : e ∈ rest) => hk ▸ hes e (List.mem_cons_of_mem right h))
    have hc := Comparison.not_isContainment_of_isRelation (Comparison.isRelation_of_relates hop)
    cases truth with
    | true => exact ⟨others, by simp [chain?, hc, hb, ht, ho]⟩
    | false => exact ⟨false, by simp [chain?, hc, hb, ht]⟩

/-- An expression that has a kind has a value of that kind, whatever its names stand for. -/
theorem value_of_hasKind {e : Expr} {κ : DatumKind} (h : HasKind e κ) (env : String → Int) :
    ∃ v, e.value? env = some v ∧ v.kind = κ := by
  induction h with
  | name => exact ⟨_, by rw [value?], rfl⟩
  | numeral h =>
    obtain ⟨n, hn⟩ := readDigits?_of_isNumeral h
    exact ⟨.int n, by simp [hn], rfl⟩
  | arithmetic hop _ _ ihl ihr =>
    obtain ⟨a | a, ha, hka⟩ := ihl
    · obtain ⟨b | b, hb, hkb⟩ := ihr
      · simp only [List.mem_cons, List.not_mem_nil, or_false] at hop
        rcases hop with rfl | rfl | rfl
        · exact ⟨.int (a + b), by simp [ha, hb, BinaryOp.value?], rfl⟩
        · exact ⟨.int (a - b), by simp [ha, hb, BinaryOp.value?], rfl⟩
        · exact ⟨.int (a * b), by simp [ha, hb, BinaryOp.value?], rfl⟩
      · cases hkb
    · cases hka
  | sign hop _ ih =>
    obtain ⟨a | a, ha, hka⟩ := ih
    · simp only [List.mem_cons, List.not_mem_nil, or_false] at hop
      rcases hop with rfl | rfl
      · exact ⟨.int (-a), by simp [ha, UnaryOp.value?], rfl⟩
      · exact ⟨.int a, by simp [ha, UnaryOp.value?], rfl⟩
    · cases hka
  | negation _ ih =>
    obtain ⟨a | a, ha, hka⟩ := ih
    · cases hka
    · exact ⟨.bool (!a), by simp [ha, UnaryOp.value?], rfl⟩
  | @connective op values _ ih =>
    obtain ⟨truth, ht⟩ := connective?_of_forall op ih
    exact ⟨.bool truth, by simp [ht], rfl⟩
  | chain hops _ _ ihl ihs =>
    obtain ⟨a, ha, rfl⟩ := ihl
    obtain ⟨truth, ht⟩ := chain?_of_forall hops ihs
    exact ⟨.bool truth, by simp [ha, ht], rfl⟩
  | containment hop hr _ _ ihl ihs =>
    obtain ⟨a, ha, rfl⟩ := ihl
    obtain ⟨items, hi, hk⟩ := values?_of_forall ihs
    obtain ⟨found, hf⟩ := Datum.isOneOf?_of_kind hk
    exact ⟨_, by simp [ha, chain?, hop, items?_of_literalItems? hr, hi, hf]; rfl, rfl⟩
  | conditional _ _ _ iht ihb iho =>
    obtain ⟨a | a, ha, hka⟩ := iht
    · cases hka
    · cases a with
      | true =>
        obtain ⟨v, hv, hk⟩ := ihb
        exact ⟨v, by simp [ha, hv], hk⟩
      | false =>
        obtain ⟨v, hv, hk⟩ := iho
        exact ⟨v, by simp [ha, hv], hk⟩

end Expr

end Berrify
