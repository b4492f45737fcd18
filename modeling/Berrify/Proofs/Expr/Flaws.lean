import Berrify.Proofs.Expr.Parts

/-!
# Flaws of an expression

A `Flaw` is something that the target has no counterpart for. `Expr.findings` lists the flaws of an
expression, each with the mark whether it is `seen` : whether it stands where writing the expression
looks. Two places are not looked at, both in a comparison. A test in a literal collection without
items has its answer without the left operand (`readsLeft`), and operands behind the last operator
have no part in it.

An expression that could be written holds no flaw that is seen (`overlooked_of_write`). Conversely
what is not looked at has no influence on the text (`write_compare_left`, `write_compare_take`).
-/

namespace Berrify

/-- What has no counterpart in the target. -/
inductive Flaw where
  | unknownStatement (kind : String)
  | unknownExpression (kind : String)
  /-- `*value`. -/
  | unpacking
  /-- An argument with a name, or an unpacked mapping. -/
  | keyword (name : Option String)
  /-- A set that is not the right side of a containment test. -/
  | setLiteral
  | sliceStep
  | operator (op : BinaryOp)
  /-- A parameter that collects arguments. -/
  | collecting (name : String)
  | loopElse
  | attemptElse
deriving DecidableEq, Repr

/-- A flaw, and whether it stands where the emitter looks. -/
structure Finding where
  flaw : Flaw
  seen : Bool
deriving DecidableEq, Repr

/-- No flaw of a list stands where the emitter looks. -/
def Overlooked (findings : List Finding) : Prop :=
  ∀ finding ∈ findings, finding.seen = false

section

variable {findings others : List Finding} {finding : Finding}

@[simp] theorem overlooked_nil : Overlooked [] :=
  List.forall_mem_nil _

@[simp] theorem overlooked_cons :
    Overlooked (finding :: findings) ↔ finding.seen = false ∧ Overlooked findings :=
  List.forall_mem_cons

@[simp] theorem overlooked_append :
    Overlooked (findings ++ others) ↔ Overlooked findings ∧ Overlooked others :=
  List.forall_mem_append

theorem overlooked_flatMap {α : Type} {f : α → List Finding} {xs : List α} :
    Overlooked (xs.flatMap f) ↔ ∀ x ∈ xs, Overlooked (f x) :=
  List.forall_mem_flatMap

end

/-- The flaw of an operator. -/
def BinaryOp.findings (seen : Bool) : BinaryOp → List Finding
  | .pow => [⟨.operator .pow, seen⟩]
  | .matMul => [⟨.operator .matMul, seen⟩]
  | _ => []

theorem BinaryOp.findings_of_target? {op : BinaryOp} {token : String} {seen : Bool}
    (h : op.target? = some token) : op.findings seen = [] := by
  cases op <;> first | rfl | cases h

namespace Expr

/-- Whether the left operand of a chain is written. It is left out if there is no comparison, or if
the first one is a test in a literal collection without items. -/
def readsLeft : List Comparison → List Expr → Bool
  | op :: _, right :: _ =>
    match op.target?, right.literalItems? with
    | none, some [] => false
    | _, _ => true
  | _, _ => false

mutual
/-- The flaws of an expression that is seen or not, and that is `tested` if it stands on the right
of a containment test. -/
def findings (seen : Bool) (tested : Bool := false) : Expr → List Finding
  | .name _ => []
  | .attribute value _ => value.findings seen
  | .constant _ => []
  | .call func args keywords =>
    func.findings seen ++ findingsIn seen args ++ keywordFindings seen keywords
  | .binary left op right => left.findings seen ++ op.findings seen ++ right.findings seen
  | .unary _ operand => operand.findings seen
  | .boolean _ values => findingsIn seen values
  | .compare left ops comparators =>
    left.findings (seen && readsLeft ops comparators) ++ chainFindings seen ops comparators
  | .conditional test body orelse =>
    test.findings seen ++ body.findings seen ++ orelse.findings seen
  | .dict entries => entryFindings seen entries
  | .list items => findingsIn seen items
  | .tuple items => findingsIn seen items
  | .set items => (if tested then [] else [⟨.setLiteral, seen⟩]) ++ findingsIn seen items
  | .subscript value index => value.findings seen ++ index.findings seen
  | .slice lower upper step =>
    optionFindings seen lower ++ optionFindings seen upper ++
      (if step.isSome then [⟨.sliceStep, seen⟩] else []) ++ optionFindings seen step
  | .lambda _ body => body.findings seen
  | .template pieces => pieceFindings seen pieces
  | .starred value => ⟨.unpacking, seen⟩ :: value.findings seen
  | .unsupported kind => [⟨.unknownExpression kind, seen⟩]
/-- The flaws of expressions in a list. -/
def findingsIn (seen : Bool) : List Expr → List Finding
  | [] => []
  | e :: rest => e.findings seen ++ findingsIn seen rest
/-- The flaws of an expression that may be absent. -/
def optionFindings (seen : Bool) : Option Expr → List Finding
  | none => []
  | some e => e.findings seen
/-- Named arguments and the flaws of their values. -/
def keywordFindings (seen : Bool) : List (Keyword Expr) → List Finding
  | [] => []
  | ⟨word, value⟩ :: rest =>
    ⟨.keyword word, seen⟩ :: value.findings seen ++ keywordFindings seen rest
/-- The flaws of the entries of a map literal. -/
def entryFindings (seen : Bool) : List (Expr × Expr) → List Finding
  | [] => []
  | (key, value) :: rest => key.findings seen ++ value.findings seen ++ entryFindings seen rest
/-- The flaws of the expressions embedded in a template string. -/
def pieceFindings (seen : Bool) : List (TemplatePart Expr) → List Finding
  | [] => []
  | .text _ :: rest => pieceFindings seen rest
  | .value e :: rest => e.findings seen ++ pieceFindings seen rest
/-- The flaws of the right operands of a chain. -/
def chainFindings (seen : Bool) : List Comparison → List Expr → List Finding
  | op :: ops, right :: rest =>
    right.findings seen op.target?.isNone ++ chainFindings seen ops rest
  | [], right :: rest => right.findings false ++ chainFindings false [] rest
  | _, [] => []
end

attribute [local simp] findings

/-! ## Lists of expressions -/

section

variable {seen : Bool}

theorem overlooked_findingsIn {es : List Expr} :
    Overlooked (findingsIn seen es) ↔ ∀ e ∈ es, Overlooked (e.findings seen) := by
  induction es with
  | nil => simp [findingsIn]
  | cons e es ih => simp [findingsIn, ih]

theorem overlooked_optionFindings {e? : Option Expr} :
    Overlooked (optionFindings seen e?) ↔ ∀ e ∈ e?, Overlooked (e.findings seen) := by
  cases e? <;> simp [optionFindings]

theorem overlooked_entryFindings {entries : List (Expr × Expr)} :
    Overlooked (entryFindings seen entries) ↔ ∀ entry ∈ entries,
      Overlooked (entry.1.findings seen) ∧ Overlooked (entry.2.findings seen) := by
  induction entries with
  | nil => simp [entryFindings]
  | cons entry entries ih => simp [entryFindings, ih, and_assoc]

theorem overlooked_pieceFindings {pieces : List (TemplatePart Expr)} :
    Overlooked (pieceFindings seen pieces) ↔
      ∀ e ∈ embedded pieces, Overlooked (e.findings seen) := by
  induction pieces with
  | nil => simp [pieceFindings, embedded]
  | cons piece pieces ih => cases piece <;> simp [pieceFindings, embedded, ih]

end

/-! ## Expressions that are not looked at -/

theorem overlooked_keywordFindings_false {keywords : List (Keyword Expr)}
    (h : ∀ k ∈ keywords, Overlooked (k.value.findings false)) :
    Overlooked (keywordFindings false keywords) := by
  induction keywords with
  | nil => simp [keywordFindings]
  | cons k keywords ih =>
    rw [List.forall_mem_cons] at h
    simp [keywordFindings, h.1, ih h.2]

theorem overlooked_chainFindings_false {comparators : List Expr}
    (h : ∀ e ∈ comparators, ∀ tested, Overlooked (e.findings false tested))
    (ops : List Comparison) : Overlooked (chainFindings false ops comparators) := by
  induction comparators generalizing ops with
  | nil => simp [chainFindings]
  | cons right rest ih =>
    rw [List.forall_mem_cons] at h
    cases ops with
    | nil => simp [chainFindings, h.1, ih h.2]
    | cons op ops => simp [chainFindings, h.1, ih h.2]

/-- Inside of an expression that is not looked at nothing is. -/
theorem overlooked_findings_false (e : Expr) (tested : Bool) :
    Overlooked (e.findings false tested) := by
  induction e using induction_on_parts generalizing tested with
  | step e ih =>
    match e with
    | .name _ | .constant _ | .unsupported _ => simp
    | .attribute .. | .unary .. | .lambda .. | .starred _ | .conditional .. | .subscript .. =>
      simp_all [parts]
    | .binary left op right =>
      have hop : Overlooked (op.findings false) := by cases op <;> simp [BinaryOp.findings]
      simp_all [parts]
    | .boolean .. | .list _ | .tuple _ => simp_all [parts, overlooked_findingsIn]
    | .set items =>
      have hitems : Overlooked (findingsIn false items) :=
        overlooked_findingsIn.2 fun e hm => ih e hm false
      cases tested <;> simp [hitems]
    | .call func args keywords =>
      have hargs : Overlooked (findingsIn false args) :=
        overlooked_findingsIn.2 fun e hm => ih e (by simp [parts, hm]) false
      have hkeywords : Overlooked (keywordFindings false keywords) :=
        overlooked_keywordFindings_false fun k hm =>
          ih k.value (by simpa [parts] using .inr (.inr ⟨k, hm, rfl⟩)) false
      simp [ih func (by simp [parts]), hargs, hkeywords]
    | .compare left ops comparators =>
      have hchain : Overlooked (chainFindings false ops comparators) :=
        overlooked_chainFindings_false (fun e hm => ih e (by simp [parts, hm])) ops
      simp [ih left (by simp [parts]), hchain]
    | .dict entries =>
      refine overlooked_entryFindings.2 fun entry hm => ⟨?_, ?_⟩
      · exact ih entry.1 (List.mem_flatMap.2 ⟨entry, hm, by simp⟩) false
      · exact ih entry.2 (List.mem_flatMap.2 ⟨entry, hm, by simp⟩) false
    | .slice lower upper step =>
      cases lower <;> cases upper <;> cases step <;> simp_all [parts, optionFindings]
    | .template pieces =>
      exact overlooked_pieceFindings.2 fun e hm => ih e hm false

/-! ## Expressions that could be written -/

variable {view : View}

/-- Where an expression could be written, none of its flaws is seen. -/
def Sound (view : View) (e : Expr) : Prop :=
  ∀ {pos : Position} {text : String}, e.write view pos = .ok text → Overlooked (e.findings true)

theorem exists_of_forall₂ {α β : Type} {p : α → β → Prop} {xs : List α} {ys : List β}
    (h : List.Forall₂ p xs ys) : ∀ x ∈ xs, ∃ y, p x y := by
  induction h with
  | nil => simp
  | cons hp _ ih => exact List.forall_mem_cons.2 ⟨⟨_, hp⟩, ih⟩

theorem overlooked_of_writeAll {es : List Expr} (he : ∀ e ∈ es, Sound view e) {pos : Position}
    {texts : List String} (h : writeAll view pos es = .ok texts) :
    Overlooked (findingsIn true es) := by
  refine overlooked_findingsIn.2 fun e hm => ?_
  obtain ⟨text, ht⟩ := exists_of_forall₂ (writeAll_eq_ok.1 h) e hm
  exact he e hm ht

theorem overlooked_of_writeArguments {es : List Expr} (he : ∀ e ∈ es, Sound view e)
    {texts : List String} (h : writeArguments view es = .ok texts) :
    Overlooked (findingsIn true es) := by
  refine overlooked_findingsIn.2 fun e hm => ?_
  obtain ⟨_, alone, ha, -⟩ := exists_of_forall₂ (writeArguments_eq_ok.1 h) e hm
  exact he e hm ha

theorem overlooked_of_writeEntries {entries : List (Expr × Expr)}
    (he : ∀ entry ∈ entries, Sound view entry.1 ∧ Sound view entry.2) {texts : List String}
    (h : writeEntries view entries = .ok texts) : Overlooked (entryFindings true entries) := by
  refine overlooked_entryFindings.2 fun entry hm => ?_
  obtain ⟨_, key, hk, value, hv, -⟩ := exists_of_forall₂ (writeEntries_eq_ok.1 h) entry hm
  obtain ⟨h₁, h₂⟩ := he entry hm
  exact ⟨h₁ hk, h₂ hv⟩

/-- What is called was written, though under another name. -/
theorem overlooked_of_callee {func : Expr} (hf : Sound view func) {called : String}
    (h : callee view func = .ok called) : Overlooked (func.findings true) := by
  match func with
  | .name _ => simp
  | .attribute value attr =>
    simp only [callee, bind_eq_ok, pure_eq_ok] at h
    obtain ⟨receiver, hr, -⟩ := h
    have written : (Expr.attribute value attr).write view .operand =
        .ok (receiver ++ "." ++ attr) :=
      write_attribute_eq_ok.2 ⟨receiver, hr, rfl⟩
    exact hf written
  | .constant _ | .call .. | .binary .. | .unary .. | .boolean .. | .compare .. | .conditional ..
  | .dict _ | .list _ | .tuple _ | .set _ | .subscript .. | .slice .. | .lambda .. | .template _
  | .starred _ | .unsupported _ =>
    exact hf (show Expr.write view _ .operand = .ok called from h)

/-- An integer with signs, which an upper bound is computed from, has no flaws. -/
theorem findings_of_integerValue? {seen : Bool} : ∀ {e : Expr} {value : Int},
    e.integerValue? = some value → e.findings seen = []
  | .constant _, _, _ => rfl
  | .unary .neg operand, value, h => by
    obtain ⟨inner, hi, -⟩ := Option.map_eq_some_iff.1 (by simpa only [integerValue?] using h)
    rw [findings, findings_of_integerValue? hi]

/-! ## Chains of comparisons -/

theorem findings_of_literalItems? {e : Expr} {items : List Expr} {seen : Bool}
    (h : e.literalItems? = some items) : e.findings seen true = findingsIn seen items := by
  cases e <;> simp_all [literalItems?, findings]

theorem findings_of_not_literal {e : Expr} {seen tested : Bool} (h : e.literalItems? = none) :
    e.findings seen tested = e.findings seen := by
  cases e <;> simp_all [literalItems?]

theorem overlooked_right {left right : Expr} {op : Comparison} (hr : Sound view right)
    (hi : ∀ inner ∈ right.parts, Sound view inner) {text : String}
    (h : comparison view left op right = .ok text) :
    Overlooked (right.findings true op.target?.isNone) := by
  rcases comparison_cases h with ⟨token, ht, _, -, b, hb, -⟩ | ⟨ht, hitems, -⟩ |
    ⟨ht, items, hitems, -, _, -, texts, hts, -⟩ | ⟨ht, hitems, -, collection, hc, -⟩
  · rw [ht]
    exact hr hb
  · rw [ht, Option.isNone_none, findings_of_literalItems? hitems]
    exact overlooked_nil
  · rw [ht, Option.isNone_none, findings_of_literalItems? hitems]
    exact overlooked_of_writeAll (fun e hm => hi e (parts_of_literalItems? hitems ▸ hm)) hts
  · rw [findings_of_not_literal hitems]
    exact hr hc

theorem overlooked_left {left : Expr} (hl : Sound view left) {ops : List Comparison}
    {comparators : List Expr} {texts : List String}
    (h : List.Forall₂ (fun link text => comparison view link.1 link.2.1 link.2.2 = .ok text)
      (links left ops comparators) texts) :
    Overlooked (left.findings (readsLeft ops comparators)) := by
  cases hread : readsLeft ops comparators with
  | false => exact overlooked_findings_false left false
  | true =>
    match ops, comparators with
    | op :: ops, right :: rest =>
      obtain _ | ⟨hc, -⟩ := h
      rcases comparison_cases hc with ⟨_, -, a, ha, -⟩ | ⟨ht, hitems, -⟩ |
        ⟨-, _, -, -, a, ha, -⟩ | ⟨-, -, -, _, -, a, ha, -⟩
      · exact hl ha
      · simp_all [readsLeft]
      · exact hl ha
      · exact hl ha
    | [], _ => cases hread
    | _ :: _, [] => cases hread

theorem overlooked_chain {left : Expr} {ops : List Comparison} {comparators : List Expr}
    (he : ∀ e ∈ comparators, Sound view e ∧ ∀ inner ∈ e.parts, Sound view inner)
    {texts : List String}
    (h : List.Forall₂ (fun link text => comparison view link.1 link.2.1 link.2.2 = .ok text)
      (links left ops comparators) texts) :
    Overlooked (chainFindings true ops comparators) := by
  induction comparators generalizing left ops texts with
  | nil => simp [chainFindings]
  | cons right rest ih =>
    cases ops with
    | nil =>
      have behind : Overlooked (chainFindings false [] rest) :=
        overlooked_chainFindings_false (fun e _ => overlooked_findings_false e) []
      simp [chainFindings, overlooked_findings_false, behind]
    | cons op ops =>
      obtain _ | ⟨hc, hrest⟩ := h
      obtain ⟨⟨hr, hi⟩, hothers⟩ := List.forall_mem_cons.1 he
      rw [chainFindings, overlooked_append]
      exact ⟨overlooked_right hr hi hc, ih hothers hrest⟩

/-! ## The shapes of expressions -/

/-- Where an expression could be written its flaws are not seen, if this holds of its parts and of
the parts of these. -/
theorem sound_of_parts {e : Expr}
    (he : ∀ part ∈ e.parts, Sound view part ∧ ∀ inner ∈ part.parts, Sound view inner) :
    Sound view e := by
  have hp : ∀ part ∈ e.parts, Sound view part := fun part hm => (he part hm).1
  intro pos text h
  match e with
  | .name _ => simp
  | .attribute value attr =>
    obtain ⟨receiver, hr, -⟩ := write_attribute_eq_ok.1 h
    exact hp value (by simp [parts]) hr
  | .constant _ => simp
  | .call func args keywords =>
    obtain ⟨called, hc, rfl, texts, ht, -⟩ := write_call_eq_ok.1 h
    have hfunc := overlooked_of_callee (hp func (by simp [parts])) hc
    have hargs := overlooked_of_writeArguments (fun e hm => hp e (by simp [parts, hm])) ht
    simp [keywordFindings, hfunc, hargs]
  | .binary left op right =>
    obtain ⟨token, ht, a, ha, b, hb, -⟩ := write_binary_eq_ok.1 h
    have hleft := hp left (by simp [parts]) ha
    have hright := hp right (by simp [parts]) hb
    simp [BinaryOp.findings_of_target? ht, hleft, hright]
  | .unary op operand =>
    obtain ⟨a, ha, -⟩ := write_unary_eq_ok.1 h
    exact hp operand (by simp [parts]) ha
  | .boolean op values =>
    obtain ⟨texts, ht, -⟩ := write_boolean_eq_ok.1 h
    exact overlooked_of_writeAll hp ht
  | .compare left ops comparators =>
    obtain ⟨texts, ht, -⟩ := write_compare_eq_ok.1 h
    have hleft := overlooked_left (hp left (by simp [parts])) ht
    have hchain := overlooked_chain (fun e hm => he e (by simp [parts, hm])) ht
    simp [hleft, hchain]
  | .conditional test body orelse =>
    obtain ⟨a, ha, b, hb, c, hc, -⟩ := write_conditional_eq_ok.1 h
    have htest := hp test (by simp [parts]) ha
    have hbody := hp body (by simp [parts]) hb
    have horelse := hp orelse (by simp [parts]) hc
    simp [htest, hbody, horelse]
  | .dict entries =>
    obtain ⟨texts, ht, -⟩ := write_dict_eq_ok.1 h
    refine overlooked_of_writeEntries (fun entry hm => ⟨?_, ?_⟩) ht
    · exact hp entry.1 (List.mem_flatMap.2 ⟨entry, hm, by simp⟩)
    · exact hp entry.2 (List.mem_flatMap.2 ⟨entry, hm, by simp⟩)
  | .list items =>
    obtain ⟨texts, ht, -⟩ := write_list_eq_ok.1 h
    exact overlooked_of_writeAll hp ht
  | .tuple items =>
    obtain ⟨-, texts, ht, -⟩ := write_tuple_eq_ok.1 h
    exact overlooked_of_writeAll hp ht
  | .set _ => simp [write, throw_eq_ok] at h
  | .subscript value index =>
    obtain ⟨a, ha, b, hb, -⟩ := write_subscript_eq_ok.1 h
    have hvalue := hp value (by simp [parts]) ha
    have hindex := hp index (by simp [parts]) hb
    simp [hvalue, hindex]
  | .slice lower upper step =>
    obtain ⟨-, rfl, -, a, ha, b, hb, -⟩ := write_slice_eq_ok.1 h
    have hlower : Overlooked (optionFindings true lower) := by
      cases lower with
      | none => exact overlooked_nil
      | some bound => exact hp bound (by simp [parts]) ha
    have hupper : Overlooked (optionFindings true upper) := by
      cases upper with
      | none => exact overlooked_nil
      | some bound =>
        unfold upperBound at hb
        cases hv : bound.integerValue? with
        | some value => simp [optionFindings, findings_of_integerValue? hv]
        | none =>
          simp only [hv, bind_eq_ok, pure_eq_ok] at hb
          obtain ⟨c, hc, -⟩ := hb
          exact hp bound (by simp [parts]) hc
    simp [hlower, hupper, optionFindings]
  | .lambda params body =>
    obtain ⟨a, ha, -⟩ := write_lambda_eq_ok.1 h
    exact hp body (by simp [parts]) ha
  | .template pieces =>
    obtain ⟨texts, ht, -⟩ := write_template_eq_ok.1 h
    exact overlooked_pieceFindings.2 (overlooked_findingsIn.1 (overlooked_of_writeAll hp ht))
  | .starred _ => simp [write, throw_eq_ok] at h
  | .unsupported _ => simp [write, throw_eq_ok] at h

/-- An expression that could be written holds no flaw that is seen. -/
theorem overlooked_of_write {e : Expr} {pos : Position} {text : String}
    (h : e.write view pos = .ok text) : Overlooked (e.findings true) := by
  have sound (e : Expr) : Sound view e := by
    induction e using induction_on_inner_parts with
    | step e ih => exact sound_of_parts ih
  exact sound e h

/-! ## Where the writer does not look -/

theorem comparison_empty {left right : Expr} {op : Comparison} (ht : op.target? = none)
    (hi : right.literalItems? = some []) :
    comparison view left op right = pure (emptyMemberTest (op == .notMember)) := by
  cases right <;> cases hi <;> simp [comparison, ht]

/-- A left operand that is not read has no influence. -/
theorem write_compare_left {ops : List Comparison} {comparators : List Expr}
    (h : readsLeft ops comparators = false) (left other : Expr) (pos : Position) :
    (Expr.compare left ops comparators).write view pos =
      (Expr.compare other ops comparators).write view pos := by
  match ops, comparators with
  | [], _ => simp only [write, writeChain]
  | _ :: _, [] => simp only [write, writeChain]
  | op :: ops, right :: rest =>
    have unread : op.target? = none ∧ right.literalItems? = some [] := by
      rw [readsLeft] at h
      split at h
      · exact ⟨‹_›, ‹_›⟩
      · cases h
    simp only [write, writeChain_cons, comparison_empty unread.1 unread.2]

theorem writeChain_take {left : Expr} {ops : List Comparison} {comparators : List Expr} :
    writeChain view left (left.write view .whole) ops comparators =
      writeChain view left (left.write view .whole) ops (comparators.take ops.length) := by
  induction ops generalizing left comparators with
  | nil => simp only [writeChain]
  | cons op ops ih =>
    cases comparators with
    | nil => rfl
    | cons right rest =>
      rw [writeChain_cons, ih, List.length_cons, List.take_succ_cons, writeChain_cons]

/-- Operands behind the last operator have no influence. -/
theorem write_compare_take (left : Expr) (ops : List Comparison) (comparators : List Expr)
    (pos : Position) :
    (Expr.compare left ops comparators).write view pos =
      (Expr.compare left ops (comparators.take ops.length)).write view pos := by
  rw [write, write, writeChain_take]

end Expr

end Berrify
