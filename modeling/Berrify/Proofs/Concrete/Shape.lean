import Berrify.Proofs.Expr.Shape
import Berrify.Proofs.Text.Digits
import Berrify.Script

/-!
# The shape of trees that are read

Reading gives trees of the shape that the emitter relies on, for every source text
(`reading_gives_shape`). The proof goes along `Concrete.Expr.lower` and `Concrete.Stmt.lower` : each
way to put expressions together keeps the shape, given that of the parts
(`Concrete.Expr.wellShaped_lower`), and each statement has at any depth statements of the right
shape only (`Concrete.Stmt.shaped_lower`).

`Nested` says that a statement stands in a block at any depth, for both kinds of trees. A branch
that stands in a concrete tree has its counterpart in the abstract one (`Concrete.nested_lower`),
where its `elif` clauses have become a nest : each clause is the only statement of the block that
its predecessor runs otherwise (`Concrete.ElifNest`).
-/

namespace Berrify

open Text

/-! ## Integers -/

namespace Text

/-- Neither a separator nor a sign is a digit. -/
theorem ne_of_isDigitOf {base : Nat} {c : Char} (h : isDigitOf base c = true) :
    c ≠ '_' ∧ c ≠ '-' ∧ c ≠ '+' := by
  refine ⟨?_, ?_, ?_⟩ <;> rintro rfl <;> cases h

end Text

namespace IntLiteral

variable (n : IntLiteral)

theorem digits_spec : n.digits ≠ [] ∧ ∀ c ∈ n.digits, isDigitOf n.radix.base c = true :=
  isDigitOf_of_readDigits? n.isNumeral

/-- The constant that a literal becomes, if any, is the text of an integer. -/
theorem lower_cases : (∃ text, n.lower = .constant (.int text) ∧ IsIntText text) ∨
    ∃ kind, n.lower = .unsupported kind := by
  obtain ⟨hne, hdigits⟩ := n.digits_spec
  unfold lower
  split
  · exact .inr ⟨_, rfl⟩
  · split
    · rename_i hradix
      rw [hradix] at hdigits
      exact .inl ⟨_, rfl, isIntText_of_isDigit hne fun c hc => isDigit_of_isDigitOf (hdigits c hc)⟩
    · rename_i capital hradix
      refine .inl ⟨_, rfl, isIntText_ofList (by simp [hne]) (fun c hc => ?_) ?_⟩
      · rcases List.mem_append.1 hc with hc | hc
        · rw [hradix] at hc
          cases capital <;> simp [Radix.mark] at hc <;> rcases hc with rfl | rfl <;> decide
        · exact ne_of_isDigitOf (hdigits c hc)
      · rw [hradix]
        cases capital
        · exact .inr (.inl (List.prefix_append _ _))
        · exact .inr (.inr (List.prefix_append _ _))
    · split
      · exact .inl ⟨_, rfl, isIntText_of_isDigit Nat.toDigits_ne_nil fun c hc =>
          isDigit_of_mem_writeNat (by rwa [toList_writeNat])⟩
      · exact .inr ⟨_, rfl⟩

end IntLiteral

namespace Concrete

open Berrify.Expr (WellShaped embedded)

/-! ## Ways to put expressions together -/

/-- The operands that an expression adds to a connective. -/
def operandsFor (op : BooleanOp) : Berrify.Expr → List Berrify.Expr
  | .boolean inner values => if inner = op then values else [.boolean inner values]
  | other => [other]

theorem joinBoolean_eq (op : BooleanOp) (left right : Berrify.Expr) :
    joinBoolean op left right = .boolean op (operandsFor op left ++ operandsFor op right) :=
  rfl

/-- An operand that is a connective of the same kind is taken apart. -/
theorem operandsFor_spec {e : Berrify.Expr} (h : WellShaped .plain e) (op : BooleanOp) :
    operandsFor op e ≠ [] ∧ ∀ operand ∈ operandsFor op e,
      WellShaped .plain operand ∧ ∀ inner, operand ≠ .boolean op inner := by
  have single (hne : ∀ inner, e ≠ .boolean op inner) : [e] ≠ [] ∧ ∀ operand ∈ [e],
      WellShaped .plain operand ∧ ∀ inner, operand ≠ .boolean op inner :=
    ⟨by simp, by simpa using ⟨h, hne⟩⟩
  cases e with
  | boolean inner values =>
    rw [operandsFor]
    split
    · rename_i same
      subst same
      obtain ⟨two, flat⟩ := h.here
      refine ⟨?_, fun operand hm => ⟨h.inside (List.mem_map_of_mem hm), flat operand hm⟩⟩
      rintro rfl
      simp at two
    · rename_i differs
      refine single fun other he => differs ?_
      cases he
      rfl
  | _ => exact single fun other he => by cases he

theorem wellShaped_joinBoolean {left right : Berrify.Expr} (hl : WellShaped .plain left)
    (hr : WellShaped .plain right) (op : BooleanOp) :
    WellShaped .plain (joinBoolean op left right) := by
  obtain ⟨hl₁, hl₂⟩ := operandsFor_spec hl op
  obtain ⟨hr₁, hr₂⟩ := operandsFor_spec hr op
  have both : ∀ operand ∈ operandsFor op left ++ operandsFor op right,
      WellShaped .plain operand ∧ ∀ inner, operand ≠ .boolean op inner := fun operand hm =>
    (List.mem_append.1 hm).elim (hl₂ operand) (hr₂ operand)
  rw [joinBoolean_eq]
  refine .of_parts ⟨?_, fun operand hm => (both operand hm).2⟩ fun operand hm => (both operand hm).1
  rw [List.length_append]
  have := List.length_pos_of_ne_nil hl₁
  have := List.length_pos_of_ne_nil hr₁
  omega

theorem wellShaped_unsupported (kind : String) (place : Place) :
    WellShaped place (.unsupported kind) :=
  .leaf trivial rfl

theorem wellShaped_joinComparison {operands : List Berrify.Expr}
    (h : ∀ e ∈ operands, WellShaped .plain e) (ops : List Comparison) :
    WellShaped .plain (joinComparison ops operands) := by
  unfold joinComparison
  split
  · split
    · rename_i lengths
      exact .of_parts lengths h
    · exact wellShaped_unsupported _ _
  · exact wellShaped_unsupported _ _

theorem wellShaped_joinConditional {operands : List Berrify.Expr}
    (h : ∀ e ∈ operands, WellShaped .plain e) : WellShaped .plain (joinConditional operands) := by
  unfold joinConditional
  split
  · refine .of_parts trivial fun part hm => h part ?_
    simp only [Berrify.Expr.parts, List.mem_cons, List.not_mem_nil, or_false] at hm ⊢
    tauto
  · exact wellShaped_unsupported _ _

theorem mem_embedded {e : Berrify.Expr} {pieces : List (TemplatePart Berrify.Expr)} :
    e ∈ embedded pieces ↔ .value e ∈ pieces := by
  induction pieces with
  | nil => simp [embedded]
  | cons piece pieces ih => cases piece <;> simp [embedded, ih]

theorem wellShaped_template {pieces : List (TemplatePart Berrify.Expr)}
    (h : ∀ e, .value e ∈ pieces → WellShaped .plain e) : WellShaped .plain (.template pieces) :=
  .of_parts trivial fun e hm => h e (mem_embedded.1 hm)

theorem wellShaped_assemble {parts : List (StringPart Berrify.Expr)}
    (h : ∀ e, .field e ∈ parts → WellShaped .plain e) (form : StringForm) :
    WellShaped .plain (form.assemble parts) := by
  unfold StringForm.assemble
  dsimp only
  split
  · exact .leaf trivial rfl
  · split
    · refine wellShaped_template fun e hm => ?_
      obtain ⟨part, hp, he⟩ := List.mem_filterMap.1 hm
      cases part with
      | text text =>
        dsimp only at he
        split at he <;> cases he
      | field value =>
        cases he
        exact h e hp
    · exact .leaf trivial rfl

theorem wellShaped_joinStrings {pieces : List Berrify.Expr}
    (h : ∀ e ∈ pieces, WellShaped .plain e) : WellShaped .plain (joinStrings pieces) := by
  unfold joinStrings
  dsimp only
  split
  · exact .leaf trivial rfl
  · split
    · refine wellShaped_template fun e hm => ?_
      obtain ⟨piece, hp, he⟩ := List.mem_flatMap.1 hm
      split at he
      · simp at he
      · exact (h _ hp).inside (List.mem_map_of_mem (mem_embedded.2 he))
      · simp at he
      · simp at he
    · exact .leaf trivial rfl

/-! ## Expressions that are read -/

mutual
/-- Every expression becomes one of the right shape. -/
theorem Expr.wellShaped_lower : (e : Expr) → WellShaped .plain e.lower
  | .name _ | .float _ | .truth _ | .absent => .leaf trivial rfl
  | .integer literal => by
    rw [Expr.lower]
    rcases literal.lower_cases with ⟨text, hl, ht⟩ | ⟨kind, hl⟩
    · rw [hl]
      exact .leaf ht rfl
    · rw [hl]
      exact wellShaped_unsupported kind _
  | .string form parts => by
    rw [Expr.lower]
    exact wellShaped_assemble (wellShaped_lowerParts parts) form
  | .strings pieces => by
    rw [Expr.lower]
    exact wellShaped_joinStrings (wellShaped_lowerList pieces)
  | .attribute value attr => by
    rw [Expr.lower]
    exact .only trivial rfl value.wellShaped_lower
  | .subscript value indices => by
    rw [Expr.lower]
    have items := wellShaped_lowerIndices indices
    refine .node trivial fun part hm => ?_
    rcases List.mem_pair.1 hm with rfl | rfl
    · exact value.wellShaped_lower
    · dsimp only
      split
      · rename_i hi
        rw [hi] at items
        exact items .index (by simp) _ List.mem_cons_self
      · refine .node trivial fun part hm => ?_
        obtain ⟨item, hi, rfl⟩ := List.mem_map.1 hm
        exact items .item (by simp) item hi
  | .call func args => by
    rw [Expr.lower]
    refine .of_parts trivial ?_
    simp only [Berrify.Expr.parts, List.cons_append, List.forall_mem_cons, List.forall_mem_append,
      List.forall_mem_map]
    exact ⟨func.wellShaped_lower, wellShaped_lowerPlain args, wellShaped_lowerNamed args⟩
  | .callOther func rule => by
    rw [Expr.lower]
    refine .of_parts trivial ?_
    simpa [Berrify.Expr.parts] using ⟨func.wellShaped_lower, wellShaped_unsupported rule .plain⟩
  | .binary left op right => by
    rw [Expr.lower]
    refine .of_parts trivial ?_
    simpa [Berrify.Expr.parts] using ⟨left.wellShaped_lower, right.wellShaped_lower⟩
  | .unary op operand => by
    rw [Expr.lower]
    exact .only trivial rfl operand.wellShaped_lower
  | .boolean left op right => by
    rw [Expr.lower]
    exact wellShaped_joinBoolean left.wellShaped_lower right.wellShaped_lower op
  | .comparison operands ops => by
    rw [Expr.lower]
    exact wellShaped_joinComparison (wellShaped_lowerList operands) ops
  | .conditional parts => by
    rw [Expr.lower]
    exact wellShaped_joinConditional (wellShaped_lowerList parts)
  | .parenthesized parts => by
    rw [Expr.lower]
    have inner := wellShaped_lowerList parts
    cases hl : lowerList parts with
    | nil => exact .leaf trivial rfl
    | cons first rest =>
      rw [hl] at inner
      exact inner first List.mem_cons_self
  | .list items | .tuple items | .sequence items | .set items => by
    rw [Expr.lower]
    exact .of_parts trivial (wellShaped_lowerList items)
  | .dictionary entries => by
    rw [Expr.lower]
    split
    · rename_i pairs hp
      refine .of_parts trivial fun part hm => ?_
      obtain ⟨entry, he, hm⟩ := List.mem_flatMap.1 hm
      have both := wellShaped_lowerEntries entries hp entry he
      rcases List.mem_pair.1 hm with rfl | rfl
      · exact both.1
      · exact both.2
    · exact wellShaped_unsupported _ _
  | .splat parts => by
    rw [Expr.lower]
    have inner := wellShaped_lowerList parts
    split
    · rename_i hl
      rw [hl] at inner
      exact .only trivial rfl (inner _ List.mem_cons_self)
    · exact wellShaped_unsupported _ _
  | .lambda params body => by
    rw [Expr.lower]
    split
    · exact .only trivial rfl body.wellShaped_lower
    · exact wellShaped_unsupported _ _
  | .other rule => wellShaped_unsupported rule _
theorem wellShaped_lowerList : (es : List Expr) → ∀ e ∈ lowerList es, WellShaped .plain e
  | [] => by simp [lowerList]
  | e :: es => List.forall_mem_cons.2 ⟨e.wellShaped_lower, wellShaped_lowerList es⟩
theorem wellShaped_lowerOption : (e? : Option Expr) → ∀ e ∈ lowerOption e?, WellShaped .plain e
  | none => by simp [lowerOption]
  | some e => by simpa [lowerOption] using e.wellShaped_lower
theorem wellShaped_lowerParts : (parts : List (StringPart Expr)) →
    ∀ e, .field e ∈ lowerParts parts → WellShaped .plain e
  | [] => by simp [lowerParts]
  | .text text :: parts => by simpa [lowerParts] using wellShaped_lowerParts parts
  | .field value :: parts => by
    simpa [lowerParts] using ⟨value.wellShaped_lower, wellShaped_lowerParts parts⟩
/-- Indices may be slices. -/
theorem wellShaped_lowerIndices : (indices : List (Index Expr)) → ∀ place : Place, place ≠ .plain →
    ∀ e ∈ lowerIndices indices, WellShaped place e
  | [], _, _ => by simp [lowerIndices]
  | .item value :: indices, place, hp => List.forall_mem_cons.2
      ⟨value.wellShaped_lower.anywhere place, wellShaped_lowerIndices indices place hp⟩
  | .slice lower upper step :: indices, place, hp => by
    refine List.forall_mem_cons.2 ⟨.of_parts hp ?_, wellShaped_lowerIndices indices place hp⟩
    simp only [Berrify.Expr.parts, List.forall_mem_append, Option.mem_toList]
    exact ⟨⟨wellShaped_lowerOption lower, wellShaped_lowerOption upper⟩,
      wellShaped_lowerOption step⟩
theorem wellShaped_lowerPlain : (args : List (Argument Expr)) →
    ∀ e ∈ lowerPlain args, WellShaped .plain e
  | [] => by simp [lowerPlain]
  | .plain value :: args => List.forall_mem_cons.2
      ⟨value.wellShaped_lower, wellShaped_lowerPlain args⟩
  | .named _ _ :: args => wellShaped_lowerPlain args
  | .mapping _ :: args => wellShaped_lowerPlain args
theorem wellShaped_lowerNamed : (args : List (Argument Expr)) →
    ∀ keyword ∈ lowerNamed args, WellShaped .plain keyword.value
  | [] => by simp [lowerNamed]
  | .plain _ :: args => wellShaped_lowerNamed args
  | .named _ value :: args => List.forall_mem_cons.2
      ⟨value.wellShaped_lower, wellShaped_lowerNamed args⟩
  | .mapping value :: args => List.forall_mem_cons.2
      ⟨value.wellShaped_lower, wellShaped_lowerNamed args⟩
theorem wellShaped_lowerEntries : (entries : List (Entry Expr)) →
    ∀ {pairs : List (Berrify.Expr × Berrify.Expr)}, lowerEntries entries = .ok pairs →
    ∀ pair ∈ pairs, WellShaped .plain pair.1 ∧ WellShaped .plain pair.2
  | [], _, h => by
    cases h
    simp
  | .pair key value :: entries, pairs, h => by
    cases hr : lowerEntries entries with
    | error rule => simp [lowerEntries, hr, Except.map] at h
    | ok rest =>
      simp only [lowerEntries, hr, Except.map, Except.ok.injEq] at h
      subst h
      exact List.forall_mem_cons.2 ⟨⟨key.wellShaped_lower, value.wellShaped_lower⟩,
        wellShaped_lowerEntries entries hr⟩
  | .other rule :: entries, _, h => by cases h
end

end Concrete

/-! ## Statements -/

/-- A statement stands in a block, at any depth. -/
inductive Nested {σ : Type} (blocks : σ → List (List (Located σ))) :
    Located σ → List (Located σ) → Prop where
  | here {stmt : Located σ} {block : List (Located σ)} : stmt ∈ block → Nested blocks stmt block
  | inside {stmt outer : Located σ} {block inner : List (Located σ)} : outer ∈ block →
      inner ∈ blocks outer.node → Nested blocks stmt inner → Nested blocks stmt block

section Nested

variable {σ : Type} {blocks : σ → List (List (Located σ))}

/-- Nothing stands in an empty block. -/
theorem not_nested_nil (stmt : Located σ) : ¬Nested blocks stmt [] := by
  intro h
  cases h with
  | here hm => cases hm
  | inside hm _ _ => cases hm

/-- What holds of all that stands in a block holds of the first statement, of all in its blocks and
of all in the rest of the block. -/
theorem forall_nested_cons {p : Located σ → Prop} {first : Located σ} {rest : List (Located σ)} :
    (∀ stmt, Nested blocks stmt (first :: rest) → p stmt) ↔
      (p first ∧ ∀ block ∈ blocks first.node, ∀ stmt, Nested blocks stmt block → p stmt) ∧
        ∀ stmt, Nested blocks stmt rest → p stmt := by
  constructor
  · intro h
    refine ⟨⟨h first (.here List.mem_cons_self), fun block hb inner hi => ?_⟩, fun inner hi => ?_⟩
    · exact h inner (.inside List.mem_cons_self hb hi)
    · cases hi with
      | here hm => exact h inner (.here (List.mem_cons_of_mem _ hm))
      | inside hm hb hi => exact h inner (.inside (List.mem_cons_of_mem _ hm) hb hi)
  · rintro ⟨⟨here, inside⟩, later⟩ inner hi
    cases hi with
    | here hm =>
      rcases List.mem_cons.1 hm with rfl | hm
      · exact here
      · exact later inner (.here hm)
    | inside hm hb hi =>
      rcases List.mem_cons.1 hm with rfl | hm
      · exact inside _ hb inner hi
      · exact later inner (.inside hm hb hi)

end Nested

namespace Stmt

/-- The blocks of a statement. -/
def blocks : Stmt → List Block
  | .classDef _ _ body => [body]
  | .functionDef _ _ _ body => [body]
  | .branch _ body orelse => [body, orelse]
  | .forEach _ _ body orelse => [body, orelse]
  | .whileLoop _ body orelse => [body, orelse]
  | .attempt body handlers orelse cleanup =>
    body :: handlers.map (·.body) ++ [orelse, cleanup]
  | _ => []

/-- The expressions of a statement, without those of the statements in it. -/
def exprs : Stmt → List Expr
  | .classDef _ bases _ => bases
  | .functionDef _ params decorators _ =>
    params.flatMap (fun param => param.hint.toList ++ param.fallback.toList) ++ decorators
  | .assign targets value => targets ++ [value]
  | .declare target hint value => target :: hint :: value.toList
  | .update target _ value => [target, value]
  | .branch test _ _ => [test]
  | .forEach target iter _ _ => [target, iter]
  | .whileLoop test _ _ => [test]
  | .attempt _ handlers _ _ => handlers.flatMap (·.caught.toList)
  | .giveBack value => value.toList
  | .expr value => [value]
  | .pass | .leaveLoop | .nextRound | .importNames _ | .globalNames _ | .unsupported _ => []

/-- An assignment has a target, and all expressions of a statement have their shape. -/
structure WellShaped (stmt : Stmt) : Prop where
  targets : ∀ targets value, stmt = .assign targets value → targets ≠ []
  exprs : ∀ e ∈ stmt.exprs, Expr.WellShaped .plain e

theorem WellShaped.of_exprs {stmt : Stmt} (h : ∀ e ∈ stmt.exprs, Expr.WellShaped .plain e)
    (hassign : ∀ value, stmt ≠ .assign [] value) : stmt.WellShaped := by
  refine ⟨fun targets value hs ht => ?_, h⟩
  rw [ht] at hs
  exact hassign value hs

end Stmt

/-- All statements in a block have their shape. -/
def BlockShaped (block : Block) : Prop :=
  ∀ stmt, Nested Stmt.blocks stmt block → stmt.node.WellShaped

theorem blockShaped_nil : BlockShaped [] :=
  fun stmt h => absurd h (not_nested_nil stmt)

theorem blockShaped_cons {line : Nat} {stmt : Stmt} {rest : Block} (hs : stmt.WellShaped)
    (hblocks : ∀ inner ∈ stmt.blocks, BlockShaped inner) (hrest : BlockShaped rest) :
    BlockShaped (⟨line, stmt⟩ :: rest) :=
  forall_nested_cons.2 ⟨⟨hs, hblocks⟩, hrest⟩

namespace Concrete

theorem chain_spec {right : Right} {targets : List Berrify.Expr} {value : Berrify.Expr}
    (h : right.chain = .ok (targets, value)) :
    ∀ e ∈ targets ++ [value], Berrify.Expr.WellShaped .plain e := by
  induction right generalizing targets with
  | value e =>
    cases h
    simpa using e.wellShaped_lower
  | chained left right ih =>
    cases hr : right.chain with
    | error rule => simp [Right.chain, hr, Except.map] at h
    | ok rest =>
      simp only [Right.chain, hr, Except.map, Except.ok.injEq, Prod.mk.injEq] at h
      obtain ⟨rfl, rfl⟩ := h
      exact List.forall_mem_cons.2 ⟨left.wellShaped_lower, ih hr⟩
  | yield | annotated | updated => cases h

theorem wellShaped_single (right : Right) : Berrify.Expr.WellShaped .plain right.single := by
  cases right with
  | value e => exact e.wellShaped_lower
  | _ => exact wellShaped_unsupported _ _

theorem wellShaped_lowerBase (base : Argument Expr) :
    Berrify.Expr.WellShaped .plain base.lowerBase := by
  cases base with
  | plain value => exact value.wellShaped_lower
  | _ => exact wellShaped_unsupported _ _

theorem wellShaped_lowerParam {param : Parameter Expr} {lowered : Param}
    (h : param.lower? = some lowered) :
    ∀ e ∈ lowered.hint.toList ++ lowered.fallback.toList, Berrify.Expr.WellShaped .plain e := by
  cases param <;> cases h <;> simp [Expr.wellShaped_lower]

theorem blockShaped_elifChain {clauses : List (ElifClause Berrify.Block)} {orelse : Berrify.Block}
    (hclauses : ∀ clause ∈ clauses, BlockShaped clause.body) (horelse : BlockShaped orelse) :
    BlockShaped (elifChain clauses orelse) := by
  induction clauses with
  | nil => exact horelse
  | cons clause clauses ih =>
    obtain ⟨hclause, hrest⟩ := List.forall_mem_cons.1 hclauses
    refine blockShaped_cons (.of_exprs ?_ (by simp)) ?_ blockShaped_nil
    · simpa [Berrify.Stmt.exprs] using clause.test.wellShaped_lower
    · simpa [Berrify.Stmt.blocks] using ⟨hclause, ih hrest⟩

/-- A statement without expressions and blocks. -/
theorem shaped_leaf {stmt : Berrify.Stmt} (hexprs : stmt.exprs = []) (hblocks : stmt.blocks = [])
    (hassign : ∀ value, stmt ≠ .assign [] value) :
    stmt.WellShaped ∧ ∀ inner ∈ stmt.blocks, BlockShaped inner :=
  ⟨.of_exprs (by simp [hexprs]) hassign, by simp [hblocks]⟩

mutual
/-- Every statement becomes one of the right shape, and so do those in it. -/
theorem Stmt.shaped_lower : (stmt : Stmt) →
    stmt.lower.WellShaped ∧ ∀ inner ∈ stmt.lower.blocks, BlockShaped inner
  | .expr value => by
    rw [Stmt.lower]
    split
    · exact shaped_leaf rfl rfl (by simp)
    · refine ⟨.of_exprs ?_ (by simp), by simp [Berrify.Stmt.blocks]⟩
      simpa [Berrify.Stmt.exprs] using value.wellShaped_lower
  | .assign left right => by
    rw [Stmt.lower]
    split
    · rename_i targets value hr
      refine ⟨.of_exprs ?_ (by simp), by simp [Berrify.Stmt.blocks]⟩
      exact List.forall_mem_cons.2 ⟨left.wellShaped_lower, chain_spec hr⟩
    · exact shaped_leaf rfl rfl (by simp)
  | .declare left hint right => by
    rw [Stmt.lower]
    refine ⟨.of_exprs ?_ (by simp), by simp [Berrify.Stmt.blocks]⟩
    cases right with
    | none => simpa [Berrify.Stmt.exprs] using ⟨left.wellShaped_lower, hint.wellShaped_lower⟩
    | some right =>
      simpa [Berrify.Stmt.exprs] using
        ⟨left.wellShaped_lower, hint.wellShaped_lower, wellShaped_single right⟩
  | .update left op right => by
    rw [Stmt.lower]
    refine ⟨.of_exprs ?_ (by simp), by simp [Berrify.Stmt.blocks]⟩
    simpa [Berrify.Stmt.exprs] using ⟨left.wellShaped_lower, wellShaped_single right⟩
  | .branch test body elifs orelse => by
    rw [Stmt.lower]
    refine ⟨.of_exprs ?_ (by simp), ?_⟩
    · simpa [Berrify.Stmt.exprs] using test.wellShaped_lower
    · have rest := blockShaped_elifChain (shaped_lowerElifs elifs) (shaped_lowerBlock orelse)
      simpa [Berrify.Stmt.blocks] using ⟨shaped_lowerBlock body, rest⟩
  | .forEach isAsync target iter body orelse => by
    rw [Stmt.lower]
    split
    · exact shaped_leaf rfl rfl (by simp)
    · refine ⟨.of_exprs ?_ (by simp), ?_⟩
      · simpa [Berrify.Stmt.exprs] using ⟨target.wellShaped_lower, iter.wellShaped_lower⟩
      · simpa [Berrify.Stmt.blocks] using ⟨shaped_lowerBlock body, shaped_lowerBlock orelse⟩
  | .whileLoop test body orelse => by
    rw [Stmt.lower]
    refine ⟨.of_exprs ?_ (by simp), ?_⟩
    · simpa [Berrify.Stmt.exprs] using test.wellShaped_lower
    · simpa [Berrify.Stmt.blocks] using ⟨shaped_lowerBlock body, shaped_lowerBlock orelse⟩
  | .attempt body clauses orelse cleanup => by
    rw [Stmt.lower]
    have handlers := shaped_lowerClauses clauses
    refine ⟨.of_exprs (fun e hm => ?_) (by simp), ?_⟩
    · obtain ⟨handler, hh, he⟩ := List.mem_flatMap.1 hm
      exact (handlers handler hh).1 e (Option.mem_toList.1 he)
    · simp only [Berrify.Stmt.blocks, List.cons_append, List.forall_mem_cons,
        List.forall_mem_append, List.forall_mem_map]
      exact ⟨shaped_lowerBlock body, fun handler hh => (handlers handler hh).2,
        shaped_lowerBlock orelse, shaped_lowerBlock cleanup, by simp⟩
  | .giveBack parts => by
    rw [Stmt.lower]
    refine ⟨.of_exprs (fun e hm => ?_) (by simp), by simp [Berrify.Stmt.blocks]⟩
    exact wellShaped_lowerList parts e (List.mem_of_mem_head? (Option.mem_toList.1 hm))
  | .functionDef decorators isAsync name params body => by
    rw [Stmt.lower]
    split
    · exact shaped_leaf rfl rfl (by simp)
    · refine ⟨.of_exprs (fun e hm => ?_) (by simp), ?_⟩
      · rcases List.mem_append.1 hm with hm | hm
        · obtain ⟨lowered, hl, he⟩ := List.mem_flatMap.1 hm
          obtain ⟨param, -, hp⟩ := List.mem_filterMap.1 hl
          exact wellShaped_lowerParam hp e he
        · exact wellShaped_lowerList decorators e hm
      · simpa [Berrify.Stmt.blocks] using shaped_lowerBlock body
  | .classDef decorators name bases body => by
    rw [Stmt.lower]
    split
    · refine ⟨.of_exprs (fun e hm => ?_) (by simp), ?_⟩
      · obtain ⟨base, -, rfl⟩ := List.mem_map.1 hm
        exact wellShaped_lowerBase base
      · simpa [Berrify.Stmt.blocks] using shaped_lowerBlock body
    · exact shaped_leaf rfl rfl (by simp)
  | .pass | .leaveLoop | .nextRound | .importNames _ | .globalNames _ | .other _ => by
    rw [Stmt.lower]
    exact shaped_leaf rfl rfl (by simp)
theorem shaped_lowerBlock : (block : Block) → BlockShaped (lowerBlock block)
  | [] => blockShaped_nil
  | ⟨_, stmt⟩ :: rest =>
    blockShaped_cons stmt.shaped_lower.1 stmt.shaped_lower.2 (shaped_lowerBlock rest)
theorem shaped_lowerElifs : (elifs : List (ElifClause Block)) →
    ∀ clause ∈ lowerElifs elifs, BlockShaped clause.body
  | [] => by simp [lowerElifs]
  | ⟨_, _, body⟩ :: rest => List.forall_mem_cons.2 ⟨shaped_lowerBlock body, shaped_lowerElifs rest⟩
theorem shaped_lowerClauses : (clauses : List (ExceptClause Block)) →
    ∀ handler ∈ lowerClauses clauses,
      (∀ e ∈ handler.caught, Berrify.Expr.WellShaped .plain e) ∧ BlockShaped handler.body
  | [] => by simp [lowerClauses]
  | ⟨caught, _, body⟩ :: rest => by
    refine List.forall_mem_cons.2 ⟨⟨fun e hm => ?_, shaped_lowerBlock body⟩,
      shaped_lowerClauses rest⟩
    obtain ⟨class_, -, rfl⟩ := Option.map_eq_some_iff.1 hm
    exact class_.wellShaped_lower
end

/-! ## Clauses -/

/-- The blocks of a statement, except for one that is refused as a whole. -/
def Stmt.blocks : Stmt → List Block
  | .branch _ body elifs orelse => body :: elifs.map (·.body) ++ [orelse]
  | .forEach isAsync _ _ body orelse => if isAsync then [] else [body, orelse]
  | .whileLoop _ body orelse => [body, orelse]
  | .attempt body clauses orelse cleanup => body :: clauses.map (·.body) ++ [orelse, cleanup]
  | .functionDef decorators isAsync _ _ body =>
    if isAsync && decorators.isEmpty then [] else [body]
  | .classDef decorators _ _ body => if decorators.isEmpty then [body] else []
  | _ => []

/-- What a branch runs otherwise, given its `elif` clauses and the block behind them : the first
clause is the only statement, and the other clauses are what that one runs otherwise. -/
inductive ElifNest : List (ElifClause Block) → Block → Berrify.Block → Prop where
  | last {orelse : Block} : ElifNest [] orelse (lowerBlock orelse)
  | clause {line : Nat} {test : Expr} {body : Block} {clauses : List (ElifClause Block)}
      {orelse : Block} {rest : Berrify.Block} : ElifNest clauses orelse rest →
      ElifNest (⟨line, test, body⟩ :: clauses) orelse
        [⟨line, .branch test.lower (lowerBlock body) rest⟩]

theorem elifNest_elifChain (clauses : List (ElifClause Block)) (orelse : Block) :
    ElifNest clauses orelse (elifChain (lowerElifs clauses) (lowerBlock orelse)) := by
  induction clauses with
  | nil => exact .last
  | cons clause clauses ih => exact .clause ih

/-- The bodies of the clauses and the block behind them stand in what the branch runs otherwise. -/
theorem ElifNest.nested {clauses : List (ElifClause Block)} {orelse : Block}
    {rest : Berrify.Block} (h : ElifNest clauses orelse rest) {inner : Block}
    (hm : inner ∈ clauses.map (·.body) ++ [orelse]) {stmt : Located Berrify.Stmt}
    (hs : Nested Berrify.Stmt.blocks stmt (lowerBlock inner)) :
    Nested Berrify.Stmt.blocks stmt rest := by
  induction h with
  | last =>
    obtain rfl : inner = _ := by simpa using hm
    exact hs
  | clause _ ih =>
    rw [List.map_cons, List.cons_append] at hm
    rcases List.mem_cons.1 hm with rfl | hm
    · exact .inside List.mem_cons_self (by simp [Berrify.Stmt.blocks]) hs
    · exact .inside List.mem_cons_self (by simp [Berrify.Stmt.blocks]) (ih hm)

theorem mem_lowerBlock {stmt : Located Stmt} {block : Block} (h : stmt ∈ block) :
    ⟨stmt.line, stmt.node.lower⟩ ∈ lowerBlock block := by
  induction block with
  | nil => cases h
  | cons first rest ih =>
    rcases List.mem_cons.1 h with rfl | h
    · exact List.mem_cons_self
    · exact List.mem_cons_of_mem _ (ih h)

theorem mem_lowerClauses {clause : ExceptClause Block} {clauses : List (ExceptClause Block)}
    (h : clause ∈ clauses) :
    ⟨clause.caught.map Expr.lower, clause.name, lowerBlock clause.body⟩ ∈ lowerClauses clauses := by
  induction clauses with
  | nil => cases h
  | cons first rest ih =>
    rcases List.mem_cons.1 h with rfl | h
    · exact List.mem_cons_self
    · exact List.mem_cons_of_mem _ (ih h)

theorem mem_lowerPair {inner body orelse : Block} (h : inner ∈ [body, orelse]) :
    lowerBlock inner ∈ [lowerBlock body, lowerBlock orelse] := by
  rcases List.mem_pair.1 h with rfl | rfl <;> simp

/-- What stands in a block of a statement stands in one of the statement it becomes. -/
theorem Stmt.exists_block {outer : Stmt} {inner : Block} (hm : inner ∈ outer.blocks)
    {stmt : Located Berrify.Stmt} (hs : Nested Berrify.Stmt.blocks stmt (lowerBlock inner)) :
    ∃ lowered ∈ outer.lower.blocks, Nested Berrify.Stmt.blocks stmt lowered := by
  cases outer with
  | branch test body elifs orelse =>
    rw [Stmt.blocks, List.cons_append] at hm
    rw [Stmt.lower]
    rcases List.mem_cons.1 hm with rfl | hm
    · exact ⟨_, List.mem_cons_self, hs⟩
    · exact ⟨_, List.mem_cons_of_mem _ List.mem_cons_self,
        (elifNest_elifChain elifs orelse).nested hm hs⟩
  | attempt body clauses orelse cleanup =>
    refine ⟨lowerBlock inner, ?_, hs⟩
    simp only [Stmt.blocks, Stmt.lower, Berrify.Stmt.blocks, List.cons_append, List.mem_cons,
      List.mem_append, List.mem_map, List.not_mem_nil, or_false] at hm ⊢
    rcases hm with rfl | ⟨clause, hc, rfl⟩ | rfl | rfl
    · exact .inl rfl
    · exact .inr (.inl ⟨_, mem_lowerClauses hc, rfl⟩)
    · exact .inr (.inr (.inl rfl))
    · exact .inr (.inr (.inr rfl))
  | forEach isAsync target iter body orelse =>
    cases isAsync with
    | true => cases hm
    | false => exact ⟨lowerBlock inner, mem_lowerPair hm, hs⟩
  | whileLoop test body orelse => exact ⟨lowerBlock inner, mem_lowerPair hm, hs⟩
  | functionDef decorators isAsync name params body =>
    rw [Stmt.blocks] at hm
    split at hm
    · cases hm
    · rename_i kept
      obtain rfl := List.mem_singleton.1 hm
      rw [Stmt.lower, if_neg kept]
      exact ⟨_, List.mem_singleton_self _, hs⟩
  | classDef decorators name bases body =>
    rw [Stmt.blocks] at hm
    split at hm
    · rename_i kept
      obtain rfl := List.mem_singleton.1 hm
      rw [Stmt.lower, if_pos kept]
      exact ⟨_, List.mem_singleton_self _, hs⟩
    · cases hm
  | _ => cases hm

theorem nested_lower {stmt : Located Stmt} {block : Block} (h : Nested Stmt.blocks stmt block) :
    Nested Berrify.Stmt.blocks ⟨stmt.line, stmt.node.lower⟩ (lowerBlock block) := by
  induction h with
  | here hm => exact .here (mem_lowerBlock hm)
  | inside hm hi _ ih =>
    obtain ⟨lowered, hl, hn⟩ := Stmt.exists_block hi ih
    exact .inside (mem_lowerBlock hm) hl hn

end Concrete

/-! ## Scripts -/

/-- Every script that is read has its shape : all statements at any depth and their expressions do,
and a branch with `elif` clauses runs otherwise a nest of branches, each the only statement of the
block around it. -/
theorem reading_gives_shape {source : String} {script : Block}
    (h : Script.read? source = some script) :
    (∀ stmt, Nested Stmt.blocks stmt script → stmt.node.WellShaped) ∧
      ∃ tree, Concrete.ofTokens? (Token.lex source) = some tree ∧
        ∀ line test body clauses orelse,
          Nested Concrete.Stmt.blocks ⟨line, .branch test body clauses orelse⟩ tree →
          ∃ rest, Concrete.ElifNest clauses orelse rest ∧ Nested Stmt.blocks
            ⟨line, .branch test.lower (Concrete.lowerBlock body) rest⟩ script := by
  obtain ⟨tree, ht, rfl⟩ := Option.map_eq_some_iff.1 h
  refine ⟨Concrete.shaped_lowerBlock tree, tree, ht, fun line test body clauses orelse hn => ?_⟩
  exact ⟨_, Concrete.elifNest_elifChain clauses orelse, Concrete.nested_lower hn⟩

/-- A script with an `elif` clause, a slice, a connective of three operands, a chain of comparisons
and an octal integer. -/
theorem reading_gives_shape_of_clauses :
    let source := "if a:\n    x = b[1:2]\nelif 0 < c <= 0o17 and d and e:\n    f()\n"
    ∃ script, Script.read? source = some script ∧
      ∀ stmt, Nested Stmt.blocks stmt script → stmt.node.WellShaped := by
  intro source
  obtain ⟨script, read⟩ : ∃ script, Script.read? source = some script :=
    Option.isSome_iff_exists.1 (by decide +kernel)
  exact ⟨script, read, (reading_gives_shape read).1⟩

end Berrify
