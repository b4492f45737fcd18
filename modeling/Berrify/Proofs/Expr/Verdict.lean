import Berrify.Proofs.Expr.Parts
import Berrify.Proofs.Verdict

/-!
# Whether an expression is refused

The text of an expression depends on the name tables and on the scope, but whether it can be written
does not : from any two views the verdict is the same (`verdict_write`). Only the explanations
differ, for the refusal of named arguments shows the name that is called.
-/

namespace Berrify.Expr

/-- Whether an expression is refused, and for which construct, is the same from two views. -/
def Concurs (v w : View) (e : Expr) : Prop :=
  ∀ pos : Position,
    verdict Cause.construct? (e.write v pos) = verdict Cause.construct? (e.write w pos)

variable {v w : View}

/-! ## Lists of expressions -/

theorem verdict_writeAll (pos : Position) {es : List Expr} (h : ∀ e ∈ es, Concurs v w e) :
    verdict Cause.construct? (writeAll v pos es) =
      verdict Cause.construct? (writeAll w pos es) := by
  induction es with
  | nil => simp only [writeAll, verdict_pure]
  | cons e es ih =>
    obtain ⟨he, hes⟩ := List.forall_mem_cons.1 h
    rw [writeAll, writeAll]
    refine verdict_bind (he pos) fun _ _ _ _ => ?_
    exact verdict_bind_pure (ih hes)

theorem verdict_writeArguments {es : List Expr} (h : ∀ e ∈ es, Concurs v w e) :
    verdict Cause.construct? (writeArguments v es) =
      verdict Cause.construct? (writeArguments w es) := by
  induction es with
  | nil => simp only [writeArguments, verdict_pure]
  | cons e es ih =>
    obtain ⟨he, hes⟩ := List.forall_mem_cons.1 h
    rw [writeArguments, writeArguments]
    refine verdict_bind (he .whole) fun _ _ _ _ => ?_
    exact verdict_bind_pure (ih hes)

theorem verdict_writeEntries {entries : List (Expr × Expr)}
    (h : ∀ entry ∈ entries, Concurs v w entry.1 ∧ Concurs v w entry.2) :
    verdict Cause.construct? (writeEntries v entries) =
      verdict Cause.construct? (writeEntries w entries) := by
  induction entries with
  | nil => simp only [writeEntries, verdict_pure]
  | cons entry entries ih =>
    obtain ⟨he, hes⟩ := List.forall_mem_cons.1 h
    rw [writeEntries, writeEntries]
    refine verdict_bind (he.1 .whole) fun _ _ _ _ => ?_
    refine verdict_bind (he.2 .whole) fun _ _ _ _ => ?_
    exact verdict_bind_pure (ih hes)

/-! ## Calls -/

theorem verdict_callee {func : Expr} (hf : Concurs v w func)
    (hparts : ∀ part ∈ func.parts, Concurs v w part) :
    verdict Cause.construct? (callee v func) = verdict Cause.construct? (callee w func) := by
  match func with
  | .name id => rfl
  | .attribute value attr =>
    rw [callee, callee]
    exact verdict_bind_pure (hparts value (by simp [parts]) .operand)
  | .constant _ | .call .. | .binary .. | .unary .. | .boolean .. | .compare .. | .conditional ..
  | .dict _ | .list _ | .tuple _ | .set _ | .subscript .. | .slice .. | .lambda .. | .template _
  | .starred _ | .unsupported _ => exact hf .operand

/-- Named arguments are refused under any name. -/
theorem verdict_callText (called called' : String) (keywords : List (Keyword Expr))
    {args args' : Except Cause (List String)}
    (h : verdict Cause.construct? args = verdict Cause.construct? args') :
    verdict Cause.construct? (callText called keywords args) =
      verdict Cause.construct? (callText called' keywords args') := by
  match keywords with
  | [] =>
    simp only [callText, refuseKeywords, pure_bind]
    exact verdict_bind_pure h
  | ⟨some _, _⟩ :: _ => rfl
  | ⟨none, _⟩ :: _ => rfl

/-! ## Comparisons -/

theorem verdict_comparison {left right : Expr} (op : Comparison) (hl : Concurs v w left)
    (hr : Concurs v w right) (hitems : ∀ item ∈ right.parts, Concurs v w item) :
    verdict Cause.construct? (comparison v left op right) =
      verdict Cause.construct? (comparison w left op right) := by
  cases ht : op.target? with
  | some token =>
    rw [comparison_relation ht, comparison_relation ht]
    refine verdict_bind (hl .operand) fun _ _ _ _ => ?_
    exact verdict_bind_pure (hr .operand)
  | none =>
    -- A test in a literal collection reads its items and not the collection itself.
    have member (items : List Expr) (hm : ∀ item ∈ items, Concurs v w item) :
        verdict Cause.construct? (if items.isEmpty then pure (emptyMemberTest (op == .notMember))
          else do
            let value ← left.write v .operand
            return memberTest (op == .notMember) value (← writeAll v .operand items)) =
        verdict Cause.construct? (if items.isEmpty then pure (emptyMemberTest (op == .notMember))
          else do
            let value ← left.write w .operand
            return memberTest (op == .notMember) value (← writeAll w .operand items)) := by
      split
      · rfl
      · refine verdict_bind (hl .operand) fun _ _ _ _ => ?_
        exact verdict_bind_pure (verdict_writeAll .operand hm)
    have contained : verdict Cause.construct? (do
          let collection ← right.write v .whole
          return containsTest (op == .notMember) collection (← left.write v .whole)) =
        verdict Cause.construct? (do
          let collection ← right.write w .whole
          return containsTest (op == .notMember) collection (← left.write w .whole)) := by
      refine verdict_bind (hr .whole) fun _ _ _ _ => ?_
      exact verdict_bind_pure (hl .whole)
    unfold comparison
    rw [ht]
    match right with
    | .list items | .tuple items | .set items => exact member items (by simpa [parts] using hitems)
    | .name _ | .attribute .. | .subscript .. | .call .. => exact contained
    | .constant _ | .binary .. | .unary .. | .boolean .. | .compare .. | .conditional .. | .dict _
    | .slice .. | .lambda .. | .template _ | .starred _ | .unsupported _ => rfl

theorem verdict_writeChain {left : Expr} (hl : Concurs v w left) {comparators : List Expr}
    (h : ∀ e ∈ comparators, Concurs v w e ∧ ∀ inner ∈ e.parts, Concurs v w inner)
    (ops : List Comparison) :
    verdict Cause.construct? (writeChain v left (left.write v .whole) ops comparators) =
      verdict Cause.construct? (writeChain w left (left.write w .whole) ops comparators) := by
  induction comparators generalizing left ops with
  | nil => cases ops <;> simp only [writeChain, verdict_pure]
  | cons right rest ih =>
    obtain ⟨⟨hr, hitems⟩, hrest⟩ := List.forall_mem_cons.1 h
    cases ops with
    | nil => simp only [writeChain, verdict_pure]
    | cons op ops =>
      rw [writeChain_cons, writeChain_cons]
      refine verdict_bind (verdict_comparison op hl hr hitems) fun _ _ _ _ => ?_
      exact verdict_bind_pure (ih hr hrest ops)

/-! ## Slices -/

theorem verdict_lowerBound {lower : Option Expr} (h : ∀ bound ∈ lower, Concurs v w bound) :
    verdict Cause.construct? (lowerBound v lower) =
      verdict Cause.construct? (lowerBound w lower) := by
  cases lower with
  | none => rfl
  | some bound => exact h bound rfl .operand

theorem verdict_upperBound {upper : Option Expr} (h : ∀ bound ∈ upper, Concurs v w bound) :
    verdict Cause.construct? (upperBound v upper) =
      verdict Cause.construct? (upperBound w upper) := by
  cases upper with
  | none => rfl
  | some bound =>
    cases hv : bound.integerValue? with
    | some value => simp only [upperBound, hv, verdict_pure]
    | none =>
      simp only [upperBound, hv]
      exact verdict_bind_pure (h bound rfl .operand)

/-- Whether a slice is refused depends on where it stands, on its step, on its bounds as they are
given, and only then on their texts. -/
theorem verdict_write_slice {lower upper : Option Expr} (step : Option Expr)
    (hl : ∀ bound ∈ lower, Concurs v w bound) (hu : ∀ bound ∈ upper, Concurs v w bound) :
    Concurs v w (.slice lower upper step) := by
  intro pos
  cases pos with
  | whole => simp only [write, verdict_throw]
  | operand => simp only [write, verdict_throw]
  | index =>
    cases step with
    | some _ =>
      simp only [write, Option.isSome_some, if_true]
      rfl
    | none =>
      cases he : isEmptySlice lower upper with
      | true =>
        simp only [write, Option.isSome_none, Bool.false_eq_true, if_false, he, if_true]
        rfl
      | false =>
        rw [write_slice he, write_slice he]
        refine verdict_bind (verdict_lowerBound hl) fun _ _ _ _ => ?_
        exact verdict_bind_pure (verdict_upperBound hu)

/-! ## The shapes of expressions -/

/-- The verdict on an expression follows from those on its parts and the parts of these. -/
theorem concurs_of_parts {e : Expr}
    (he : ∀ part ∈ e.parts, Concurs v w part ∧ ∀ inner ∈ part.parts, Concurs v w inner) :
    Concurs v w e := by
  have hp : ∀ part ∈ e.parts, Concurs v w part := fun part hm => (he part hm).1
  match e with
  | .name _ | .constant _ | .set _ | .starred _ | .unsupported _ =>
    intro pos
    simp only [write, verdict_pure, verdict_throw]
  | .attribute value attr =>
    intro pos
    rw [write, write]
    exact verdict_bind_pure (hp value (by simp [parts]) .operand)
  | .call func args keywords =>
    intro pos
    obtain ⟨hf, hinner⟩ := he func (by simp [parts])
    rw [write_call, write_call]
    refine verdict_bind (verdict_callee hf hinner) fun _ _ _ _ => ?_
    exact verdict_callText _ _ keywords
      (verdict_writeArguments fun arg hm => hp arg (by simp [parts, hm]))
  | .binary left op right =>
    intro pos
    cases ht : op.target? with
    | none => simp only [write, ht, verdict_throw]
    | some token =>
      simp only [write, ht]
      refine verdict_bind (hp left (by simp [parts]) .operand) fun _ _ _ _ => ?_
      exact verdict_bind_pure (hp right (by simp [parts]) .operand)
  | .unary op operand =>
    intro pos
    rw [write, write]
    exact verdict_bind_pure (hp operand (by simp [parts]) .operand)
  | .boolean op values =>
    intro pos
    rw [write, write]
    exact verdict_bind_pure (verdict_writeAll .operand hp)
  | .compare left ops comparators =>
    intro pos
    rw [write, write]
    refine verdict_bind_pure (verdict_writeChain (hp left (by simp [parts])) ?_ ops)
    exact fun e hm => he e (by simp [parts, hm])
  | .conditional test body orelse =>
    intro pos
    rw [write, write]
    refine verdict_bind (hp test (by simp [parts]) .operand) fun _ _ _ _ => ?_
    refine verdict_bind (hp body (by simp [parts]) .operand) fun _ _ _ _ => ?_
    exact verdict_bind_pure (hp orelse (by simp [parts]) .operand)
  | .dict entries =>
    intro pos
    rw [write, write]
    refine verdict_bind_pure (verdict_writeEntries fun entry hm => ⟨?_, ?_⟩)
    · exact hp entry.1 (List.mem_flatMap.2 ⟨entry, hm, by simp⟩)
    · exact hp entry.2 (List.mem_flatMap.2 ⟨entry, hm, by simp⟩)
  | .list items =>
    intro pos
    rw [write, write]
    exact verdict_bind_pure (verdict_writeAll .whole hp)
  | .tuple items =>
    intro pos
    cases pos with
    | index => simp only [write, verdict_throw]
    | whole | operand =>
      simp only [write]
      exact verdict_bind_pure (verdict_writeAll .whole hp)
  | .subscript value index =>
    intro pos
    rw [write, write]
    refine verdict_bind (hp value (by simp [parts]) .operand) fun _ _ _ _ => ?_
    exact verdict_bind_pure (hp index (by simp [parts]) .index)
  | .slice lower upper step =>
    exact verdict_write_slice step (fun bound hb => hp bound (by simp [parts, Option.mem_def.1 hb]))
      (fun bound hb => hp bound (by simp [parts, Option.mem_def.1 hb]))
  | .lambda params body =>
    intro pos
    rw [write, write]
    exact verdict_bind_pure (hp body (by simp [parts]) .whole)
  | .template pieces =>
    intro pos
    rw [write, write, writeValues_eq, writeValues_eq]
    exact verdict_bind_pure (verdict_writeAll .whole hp)

/-- Whether an expression can be written, and what is refused in it, is the same from every view. -/
theorem concurs (v w : View) (e : Expr) : Concurs v w e := by
  induction e using induction_on_inner_parts with
  | step e ih => exact concurs_of_parts ih

theorem verdict_render (v w : View) (e : Expr) :
    verdict Cause.construct? (e.render v) = verdict Cause.construct? (e.render w) :=
  concurs v w e .whole

theorem verdict_renderCondition (v w : View) (e : Expr) :
    verdict Cause.construct? (e.renderCondition v) =
      verdict Cause.construct? (e.renderCondition w) := by
  rw [renderCondition, renderCondition, verdict_map, verdict_map]
  exact verdict_render v w e

end Berrify.Expr
