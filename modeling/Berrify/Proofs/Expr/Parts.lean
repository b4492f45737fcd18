import Berrify.Proofs.Expr.Writing

/-!
# Parts of an expression

`Expr.parts` lists the expressions that stand directly inside of another one. Parts are smaller
(`sizeOf_lt_of_mem_parts`), so what follows for an expression from its parts holds for all
expressions (`induction_on_parts`) : the lists of items, arguments, entries and template parts need
no recursion of their own in a proof. Where the parts of the parts are needed as well there is
`induction_on_inner_parts`.

`Expr.Everywhere p` says that `p` holds of an expression and of all that it is made of.
-/

namespace Berrify.Expr

/-- The expressions directly inside of an expression. -/
def parts : Expr → List Expr
  | .name _ => []
  | .attribute value _ => [value]
  | .constant _ => []
  | .call func args keywords => func :: args ++ keywords.map (·.value)
  | .binary left _ right => [left, right]
  | .unary _ operand => [operand]
  | .boolean _ values => values
  | .compare left _ comparators => left :: comparators
  | .conditional test body orelse => [test, body, orelse]
  | .dict entries => entries.flatMap fun entry => [entry.1, entry.2]
  | .list items => items
  | .tuple items => items
  | .set items => items
  | .subscript value index => [value, index]
  | .slice lower upper step => lower.toList ++ upper.toList ++ step.toList
  | .lambda _ body => [body]
  | .template pieces => embedded pieces
  | .starred value => [value]
  | .unsupported _ => []

theorem parts_of_literalItems? {e : Expr} {items : List Expr} (h : e.literalItems? = some items) :
    e.parts = items := by
  cases e <;> simp_all [literalItems?, parts]

theorem sizeOf_lt_of_mem_keywords {keywords : List (Keyword Expr)} {k : Keyword Expr}
    (h : k ∈ keywords) : sizeOf k.value < sizeOf keywords := by
  have := List.sizeOf_lt_of_mem h
  obtain ⟨name, value⟩ := k
  simp only [Keyword.mk.sizeOf_spec] at this
  simp only
  omega

theorem sizeOf_lt_of_mem_entries {entries : List (Expr × Expr)} {entry : Expr × Expr}
    (h : entry ∈ entries) :
    sizeOf entry.1 < sizeOf entries ∧ sizeOf entry.2 < sizeOf entries := by
  have := List.sizeOf_lt_of_mem h
  obtain ⟨key, value⟩ := entry
  simp only [Prod.mk.sizeOf_spec] at this
  simp only
  omega

theorem sizeOf_lt_of_mem_embedded {e : Expr} : ∀ {pieces : List (TemplatePart Expr)},
    e ∈ embedded pieces → sizeOf e < sizeOf pieces
  | [], h => by simp [embedded] at h
  | .text t :: pieces, h => by
    have := sizeOf_lt_of_mem_embedded (by simpa [embedded] using h : e ∈ embedded pieces)
    simp only [List.cons.sizeOf_spec]
    omega
  | .value v :: pieces, h => by
    simp only [embedded, List.mem_cons] at h
    simp only [List.cons.sizeOf_spec, TemplatePart.value.sizeOf_spec]
    rcases h with rfl | h
    · omega
    · have := sizeOf_lt_of_mem_embedded h
      omega

/-- A part is smaller than the whole. -/
theorem sizeOf_lt_of_mem_parts {e part : Expr} (h : part ∈ e.parts) : sizeOf part < sizeOf e := by
  cases e with
  | call func args keywords =>
    simp only [parts, List.cons_append, List.mem_cons, List.mem_append, List.mem_map] at h
    simp only [call.sizeOf_spec]
    rcases h with rfl | h | ⟨k, hk, rfl⟩
    · omega
    · have := List.sizeOf_lt_of_mem h
      omega
    · have := sizeOf_lt_of_mem_keywords hk
      omega
  | compare left ops comparators =>
    simp only [parts, List.mem_cons] at h
    simp only [compare.sizeOf_spec]
    rcases h with rfl | h
    · omega
    · have := List.sizeOf_lt_of_mem h
      omega
  | dict entries =>
    simp only [parts, List.mem_flatMap, List.mem_cons, List.not_mem_nil, or_false] at h
    obtain ⟨entry, hm, h⟩ := h
    have := sizeOf_lt_of_mem_entries hm
    simp only [dict.sizeOf_spec]
    rcases h with rfl | rfl <;> omega
  | slice lower upper step =>
    simp only [parts, List.mem_append, Option.mem_toList] at h
    simp only [slice.sizeOf_spec]
    rcases h with (h | h) | h <;> cases h <;> simp only [Option.some.sizeOf_spec] <;> omega
  | template pieces =>
    have := sizeOf_lt_of_mem_embedded (by simpa [parts] using h : part ∈ embedded pieces)
    simp only [template.sizeOf_spec]
    omega
  | boolean op items =>
    have := List.sizeOf_lt_of_mem (by simpa [parts] using h : part ∈ items)
    simp only [boolean.sizeOf_spec]
    omega
  | list items =>
    have := List.sizeOf_lt_of_mem (by simpa [parts] using h : part ∈ items)
    simp only [list.sizeOf_spec]
    omega
  | tuple items =>
    have := List.sizeOf_lt_of_mem (by simpa [parts] using h : part ∈ items)
    simp only [tuple.sizeOf_spec]
    omega
  | set items =>
    have := List.sizeOf_lt_of_mem (by simpa [parts] using h : part ∈ items)
    simp only [set.sizeOf_spec]
    omega
  | _ =>
    simp only [parts, List.mem_cons, List.not_mem_nil, or_false] at h <;>
      rcases h with rfl | rfl | rfl <;> simp <;> omega

/-- What follows for an expression from its parts holds for every expression. -/
theorem induction_on_parts {P : Expr → Prop}
    (step : ∀ e : Expr, (∀ part ∈ e.parts, P part) → P e) (e : Expr) : P e :=
  step e fun part _ => induction_on_parts step part
termination_by sizeOf e
decreasing_by exact sizeOf_lt_of_mem_parts ‹_›

/-- What follows for an expression from its parts and their parts holds for every expression. The
items of a set that a value is compared with are reached in this way, for the set is not written. -/
theorem induction_on_inner_parts {P : Expr → Prop}
    (step : ∀ e : Expr, (∀ part ∈ e.parts, P part ∧ ∀ inner ∈ part.parts, P inner) → P e)
    (e : Expr) : P e := by
  have both (e : Expr) : P e ∧ ∀ part ∈ e.parts, P part := by
    induction e using induction_on_parts with
    | step e ih => exact ⟨step e ih, fun part hm => (ih part hm).1⟩
  exact (both e).1

/-- A property of an expression and of all that it is made of. -/
inductive Everywhere (p : Expr → Prop) : Expr → Prop where
  | node {e : Expr} : p e → (∀ part ∈ e.parts, Everywhere p part) → Everywhere p e

theorem Everywhere.here {p : Expr → Prop} {e : Expr} (h : Everywhere p e) : p e := by
  cases h with
  | node h _ => exact h

theorem Everywhere.inside {p : Expr → Prop} {e part : Expr} (h : Everywhere p e)
    (hm : part ∈ e.parts) : Everywhere p part := by
  cases h with
  | node _ h => exact h part hm

theorem Everywhere.leaf {p : Expr → Prop} {e : Expr} (h : p e) (hparts : e.parts = []) :
    Everywhere p e :=
  .node h (by simp [hparts])

theorem Everywhere.mono {p q : Expr → Prop} {e : Expr} (h : Everywhere p e)
    (hpq : ∀ e, p e → q e) : Everywhere q e := by
  induction h with
  | node h _ ih => exact .node (hpq _ h) ih

/-- What holds of every expression holds of all that one is made of. -/
theorem everywhere_of_forall {p : Expr → Prop} (h : ∀ e, p e) {e : Expr} : Everywhere p e := by
  induction e using induction_on_parts with
  | step e ih => exact .node (h e) ih

end Berrify.Expr
