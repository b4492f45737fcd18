import Berrify.Proofs.Expr.Tidy
import Berrify.Proofs.Refusal
import Berrify.Proofs.Verdict

/-!
# Expressions that make no mark of a line

The text of an expression is quiet if the names, numbers and kinds in it are quiet and its strings
do not hold the mark (`Expr.QuietTexts`), and if it is refused, then so is all that the refusal
quotes (`Expr.hushed`). Strings need not be quiet themselves, for they stand in quotes.

The argument follows the definition of the writer, step by step (`Results.bind`).
-/

namespace Berrify

open Text

/-! ## Names -/

/-- A cause that quotes only quiet texts. -/
def Cause.Calm (c : Cause) : Prop :=
  ∀ text ∈ c.texts, Quiet text

instance (c : Cause) : Decidable c.Calm :=
  inferInstanceAs (Decidable (∀ text ∈ c.texts, Quiet text))

/-- The names that the tables put for others are quiet. -/
structure Naming.QuietNames (n : Naming) : Prop where
  classes : ∀ entry ∈ n.classes.entries, Quiet entry.2
  methods : ∀ entry ∈ n.methods.entries, ∀ method ∈ entry.2.entries, Quiet method.2

theorem quiet_getD {m : NameMap String} (hm : ∀ entry ∈ m.entries, Quiet entry.2)
    {name : String} (h : Quiet name) : Quiet ((m.get? name).getD name) := by
  cases hg : m.get? name with
  | none => exact h
  | some value => exact hm _ (NameMap.mem_of_get? hg)

theorem View.quiet_calleeName {view : View} (hn : view.naming.QuietNames) {id : String}
    (h : Quiet id) : Quiet (view.calleeName id) := by
  unfold View.calleeName
  split
  · exact quiet_getD hn.classes h
  · exact h

theorem View.quiet_methodName {view : View} (hn : view.naming.QuietNames) (receiver : Expr)
    {method : String} (h : Quiet method) : Quiet (view.methodName receiver method) := by
  unfold View.methodName
  split
  · unfold Naming.methodName
    cases hg : view.naming.methods.get? _ with
    | none => exact h
    | some methods => exact quiet_getD (hn.methods _ (NameMap.mem_of_get? hg)) h
  · exact h

namespace Expr

/-- The texts at the top of an expression make no mark. -/
def QuietHere : Expr → Prop
  | .name id => Quiet id
  | .attribute _ attr => Quiet attr
  | .constant (.int text) => Quiet text
  | .constant (.float text) => Quiet text
  | .constant (.str text) => Unmarked text
  | .lambda params _ => ∀ param ∈ params, Quiet param
  | .template pieces => Unmarked (templateFormat pieces) ∧ Unmarked (templateLiteral pieces)
  | .unsupported kind => Quiet kind
  | _ => True

/-- The texts in an expression make no mark. -/
def QuietTexts (e : Expr) : Prop :=
  Everywhere QuietHere e

theorem quiet_kindName {e : Expr} (h : e.QuietHere) : Quiet e.kindName := by
  cases e with
  | unsupported kind => exact h
  | _ => exact quiet_ofList (by decide)

/-! ## Written expressions -/

/-- Whatever is written of an expression is quiet, and so is what its refusal quotes. -/
def Hushed (view : View) (e : Expr) : Prop :=
  ∀ pos : Position, Results Quiet Cause.Calm (e.write view pos)

variable {view : View}

theorem quiet_enclose {text : String} (pos : Position) (h : Quiet text) :
    Quiet (pos.enclose text) := by
  cases pos with
  | operand => exact h.parenthesize
  | whole => exact h
  | index => exact h

theorem isGap_binary {op : BinaryOp} {token : String} (h : op.target? = some token) :
    isGap (" " ++ token ++ " ") = true := by
  cases op <;> cases h <;> decide

theorem isGap_comparison {op : Comparison} {token : String} (h : op.target? = some token) :
    isGap (" " ++ token ++ " ") = true := by
  cases op <;> cases h <;> decide

theorem isGap_connective (op : BooleanOp) : isGap (" " ++ op.target ++ " ") = true := by
  cases op <;> decide

theorem isGap_unary (op : UnaryOp) : isGap op.target = true := by
  cases op <;> decide

/-- Two operands with an operator between them. -/
theorem quiet_operation {a token b : String} (ha : Quiet a)
    (ht : isGap (" " ++ token ++ " ") = true) (hb : Quiet b) :
    Quiet (a ++ " " ++ token ++ " " ++ b) := by
  have whole := ha.between ht hb
  simpa only [String.append_assoc] using whole

theorem quiet_constant {value : Constant} (h : QuietHere (.constant value)) :
    Quiet value.render := by
  match value with
  | .none => decide
  | .bool true => decide
  | .bool false => decide
  | .int text => exact h
  | .float text => exact h
  | .str text => exact quiet_quote h
  | .bytes data => exact quiet_writeBytes data

/-! ## Lists of expressions -/

theorem results_writeAll (pos : Position) {es : List Expr} (h : ∀ e ∈ es, Hushed view e) :
    Results (∀ text ∈ ·, Quiet text) Cause.Calm (writeAll view pos es) := by
  induction es with
  | nil => simpa only [writeAll] using results_nil
  | cons e es ih =>
    obtain ⟨he, hes⟩ := List.forall_mem_cons.1 h
    rw [writeAll]
    refine (he pos).bind fun text ht => (ih hes).bind fun texts hts => ?_
    exact List.forall_mem_cons.2 ⟨ht, hts⟩

theorem results_writeArguments {es : List Expr} (h : ∀ e ∈ es, Hushed view e) :
    Results (∀ text ∈ ·, Quiet text) Cause.Calm (writeArguments view es) := by
  induction es with
  | nil => simpa only [writeArguments] using results_nil
  | cons e es ih =>
    obtain ⟨he, hes⟩ := List.forall_mem_cons.1 h
    rw [writeArguments]
    refine (he .whole).bind fun text ht => (ih hes).bind fun texts hts => ?_
    refine List.forall_mem_cons.2 ⟨?_, hts⟩
    unfold View.asArgument
    split
    · exact (Quiet.gap_append (by decide) ht).append_gap (by decide)
    · exact ht

theorem results_writeEntries {entries : List (Expr × Expr)}
    (h : ∀ entry ∈ entries, Hushed view entry.1 ∧ Hushed view entry.2) :
    Results (∀ text ∈ ·, Quiet text) Cause.Calm (writeEntries view entries) := by
  induction entries with
  | nil => simpa only [writeEntries] using results_nil
  | cons entry entries ih =>
    obtain ⟨he, hes⟩ := List.forall_mem_cons.1 h
    rw [writeEntries]
    refine (he.1 .whole).bind fun key hk => (he.2 .whole).bind fun value hv => ?_
    refine (ih hes).bind fun texts hts => ?_
    exact List.forall_mem_cons.2 ⟨hk.between (by decide) hv, hts⟩

/-! ## Calls -/

theorem results_callee (hn : view.naming.QuietNames) {func : Expr} (hq : QuietTexts func)
    (hf : Hushed view func) (hparts : ∀ part ∈ func.parts, Hushed view part) :
    Results Quiet Cause.Calm (callee view func) := by
  match func with
  | .name id => exact view.quiet_calleeName hn hq.here
  | .attribute value attr =>
    rw [callee]
    refine (hparts value (by simp [parts]) .operand).bind fun receiver hr => ?_
    exact hr.between (by decide) (view.quiet_methodName hn value hq.here)
  | .constant _ | .call .. | .binary .. | .unary .. | .boolean .. | .compare .. | .conditional ..
  | .dict _ | .list _ | .tuple _ | .set _ | .subscript .. | .slice .. | .lambda .. | .template _
  | .starred _ | .unsupported _ => exact hf .operand

/-- The refusal of named arguments quotes what is called. -/
theorem results_callText {called : String} (hc : Quiet called) (keywords : List (Keyword Expr))
    {args : Except Cause (List String)}
    (h : Results (∀ text ∈ ·, Quiet text) Cause.Calm args) :
    Results Quiet Cause.Calm (callText called keywords args) := by
  have calm (construct : String) (hq : Quiet construct) :
      ∀ text ∈ [construct, called], Quiet text := by
    simp [hq, hc]
  match keywords with
  | [] =>
    simp only [callText, refuseKeywords, pure_bind]
    refine h.bind fun texts hts => ?_
    exact (hc.between (by decide) (quiet_commaSeparated hts)).append_gap (by decide)
  | ⟨some _, _⟩ :: _ => exact calm "keyword_argument" (by decide)
  | ⟨none, _⟩ :: _ => exact calm "dictionary_splat" (by decide)

/-! ## Comparisons -/

theorem quiet_memberTest (negated : Bool) {a : String} (ha : Quiet a) {items : List String}
    (hi : ∀ item ∈ items, Quiet item) : Quiet (memberTest negated a items) := by
  unfold memberTest
  split
  · refine quiet_separated (by decide) fun text hm => ?_
    obtain ⟨item, hitem, rfl⟩ := List.mem_map.1 hm
    exact ha.between (by decide) (hi item hitem)
  · refine quiet_separated (by decide) fun text hm => ?_
    obtain ⟨item, hitem, rfl⟩ := List.mem_map.1 hm
    exact ha.between (by decide) (hi item hitem)

theorem quiet_containsTest (negated : Bool) {collection a : String} (hc : Quiet collection)
    (ha : Quiet a) : Quiet (containsTest negated collection a) := by
  have call : Quiet (collection ++ ".contains(" ++ a ++ ")") :=
    (hc.between (by decide) ha).append_gap (by decide)
  unfold containsTest
  cases negated with
  | true => simpa [String.append_assoc] using Quiet.gap_append (by decide : isGap "!" = true) call
  | false => simpa [String.append_assoc] using call

theorem results_comparison {left right : Expr} (op : Comparison) (hright : QuietTexts right)
    (hl : Hushed view left) (hr : Hushed view right)
    (hitems : ∀ item ∈ right.parts, Hushed view item) :
    Results Quiet Cause.Calm (comparison view left op right) := by
  cases ht : op.target? with
  | some token =>
    rw [comparison_relation ht]
    refine (hl .operand).bind fun a ha => (hr .operand).bind fun b hb => ?_
    exact quiet_operation ha (isGap_comparison ht) hb
  | none =>
    have member (items : List Expr) (hm : ∀ item ∈ items, Hushed view item) :
        Results Quiet Cause.Calm (if items.isEmpty then
            pure (emptyMemberTest (op == .notMember))
          else do
            let value ← left.write view .operand
            return memberTest (op == .notMember) value (← writeAll view .operand items)) := by
      split
      · change Quiet (emptyMemberTest _)
        unfold emptyMemberTest
        split <;> decide
      · refine (hl .operand).bind fun a ha => ?_
        refine (results_writeAll .operand hm).bind fun texts hts => ?_
        exact quiet_memberTest _ ha hts
    have contained : Results Quiet Cause.Calm (do
        let collection ← right.write view .whole
        return containsTest (op == .notMember) collection (← left.write view .whole)) := by
      refine (hr .whole).bind fun collection hc => (hl .whole).bind fun a ha => ?_
      exact quiet_containsTest _ hc ha
    have refused (kind : String) (hk : Quiet kind) :
        ∀ text ∈ ["comparison_operator", " " ++ kind], Quiet text := by
      have blank : Quiet (" " ++ kind) := Quiet.gap_append (by decide) hk
      have rule : Quiet "comparison_operator" := by decide
      simp [blank, rule]
    unfold comparison
    rw [ht]
    have kind := quiet_kindName hright.here
    match right with
    | .list items | .tuple items | .set items => exact member items (by simpa [parts] using hitems)
    | .name _ | .attribute .. | .subscript .. | .call .. => exact contained
    | .constant _ | .binary .. | .unary .. | .boolean .. | .compare .. | .conditional .. | .dict _
    | .slice .. | .lambda .. | .template _ | .starred _ | .unsupported _ => exact refused _ kind

theorem results_writeChain {left : Expr} (hl : Hushed view left) {comparators : List Expr}
    (h : ∀ e ∈ comparators, QuietTexts e ∧ Hushed view e ∧ ∀ inner ∈ e.parts, Hushed view inner)
    (ops : List Comparison) :
    Results (∀ text ∈ ·, Quiet text) Cause.Calm
      (writeChain view left (left.write view .whole) ops comparators) := by
  induction comparators generalizing left ops with
  | nil => cases ops <;> simpa only [writeChain] using results_nil
  | cons right rest ih =>
    obtain ⟨⟨hq, hr, hitems⟩, hrest⟩ := List.forall_mem_cons.1 h
    cases ops with
    | nil => simpa only [writeChain] using results_nil
    | cons op ops =>
      rw [writeChain_cons]
      refine (results_comparison op hq hl hr hitems).bind fun part hp => ?_
      refine (ih hr hrest ops).bind fun texts hts => ?_
      exact List.forall_mem_cons.2 ⟨hp, hts⟩

theorem quiet_conjunction {parts : List String} (h : ∀ part ∈ parts, Quiet part) :
    Quiet (conjunction parts) := by
  match parts with
  | [part] => exact h part List.mem_cons_self
  | [] => exact quiet_empty
  | first :: second :: rest =>
    refine quiet_separated (by decide) fun text hm => ?_
    obtain ⟨part, hp, rfl⟩ := List.mem_map.1 hm
    exact (h part hp).parenthesize

/-! ## Slices and templates -/

theorem results_lowerBound {lower : Option Expr} (h : ∀ bound ∈ lower, Hushed view bound) :
    Results Quiet Cause.Calm (lowerBound view lower) := by
  cases lower with
  | none => exact (by decide : Quiet "0")
  | some bound => exact h bound rfl .operand

theorem results_upperBound {upper : Option Expr} (h : ∀ bound ∈ upper, Hushed view bound) :
    Results Quiet Cause.Calm (upperBound view upper) := by
  cases upper with
  | none => exact (by decide : Quiet "-1")
  | some bound =>
    cases hv : bound.integerValue? with
    | some value =>
      simp only [upperBound, hv]
      exact quiet_writeInt (value - 1)
    | none =>
      simp only [upperBound, hv]
      exact (h bound rfl .operand).bind fun text ht => ht.append_gap (by decide)

theorem hushed_slice {lower upper : Option Expr} (step : Option Expr)
    (hl : ∀ bound ∈ lower, Hushed view bound) (hu : ∀ bound ∈ upper, Hushed view bound) :
    Hushed view (.slice lower upper step) := by
  have stray : Cause.Calm .straySlice := by decide
  intro pos
  cases pos with
  | whole | operand =>
    rw [write]
    · exact stray
    · simp
  | index =>
    cases step with
    | some _ =>
      simp only [write, Option.isSome_some, if_true]
      exact (by decide : Cause.Calm .sliceStep)
    | none =>
      cases he : isEmptySlice lower upper with
      | true =>
        simp only [write, Option.isSome_none, Bool.false_eq_true, if_false, he, if_true]
        exact (by decide : Cause.Calm .emptySlice)
      | false =>
        rw [write_slice he]
        refine (results_lowerBound hl).bind fun a ha => (results_upperBound hu).bind fun b hb => ?_
        exact ha.between (by decide) hb

theorem quiet_templateCall {pieces : List (TemplatePart Expr)} (h : QuietHere (.template pieces))
    {values : List String} (hv : ∀ value ∈ values, Quiet value) :
    Quiet (templateCall pieces values) := by
  unfold templateCall
  split
  · have format := Quiet.gap_append (by decide : isGap "string.format(" = true) (quiet_quote h.1)
    exact (format.between (by decide) (quiet_commaSeparated hv)).append_gap (by decide)
  · exact quiet_quote h.2

/-! ## All expressions -/

/-- An expression is hushed if its parts are, and the parts of these. -/
theorem hushed_of_parts (hn : view.naming.QuietNames) {e : Expr} (hq : QuietTexts e)
    (he : ∀ part ∈ e.parts, Hushed view part ∧ ∀ inner ∈ part.parts, Hushed view inner) :
    Hushed view e := by
  have hp : ∀ part ∈ e.parts, Hushed view part := fun part hm => (he part hm).1
  have here := hq.here
  intro pos
  match e with
  | .name id =>
    rw [write]
    exact here
  | .attribute value attr =>
    rw [write]
    refine (hp value (by simp [parts]) .operand).bind fun receiver hr => ?_
    exact hr.between (by decide) here
  | .constant value =>
    rw [write]
    exact quiet_constant here
  | .call func args keywords =>
    have hfunc : func ∈ (Expr.call func args keywords).parts := by simp [parts]
    obtain ⟨hf, hinner⟩ := he func hfunc
    rw [write_call]
    refine (results_callee hn (hq.inside hfunc) hf hinner).bind fun called hc => ?_
    exact results_callText hc keywords
      (results_writeArguments fun arg hm => hp arg (by simp [parts, hm]))
  | .binary left op right =>
    cases ht : op.target? with
    | none =>
      simp only [write, ht]
      exact (by decide : ∀ text ∈ ["binary_operator"], Quiet text)
    | some token =>
      simp only [write, ht]
      refine (hp left (by simp [parts]) .operand).bind fun a ha => ?_
      refine (hp right (by simp [parts]) .operand).bind fun b hb => ?_
      exact quiet_enclose pos (quiet_operation ha (isGap_binary ht) hb)
  | .unary op operand =>
    rw [write]
    refine (hp operand (by simp [parts]) .operand).bind fun a ha => ?_
    have signed : Quiet (op.target ++ a) := Quiet.gap_append (isGap_unary op) ha
    change Quiet (if _ then _ else _)
    split
    · exact signed
    · exact quiet_enclose pos signed
  | .boolean op values =>
    rw [write]
    refine (results_writeAll .operand hp).bind fun texts hts => ?_
    exact quiet_enclose pos (quiet_separated (isGap_connective op) hts)
  | .compare left ops comparators =>
    rw [write]
    refine (results_writeChain (hp left (by simp [parts])) (fun e hm => ?_) ops).bind
      fun texts hts => quiet_enclose pos (quiet_conjunction hts)
    have hpart : e ∈ (Expr.compare left ops comparators).parts := by simp [parts, hm]
    exact ⟨hq.inside hpart, he e hpart⟩
  | .conditional test body orelse =>
    rw [write]
    refine (hp test (by simp [parts]) .operand).bind fun a ha => ?_
    refine (hp body (by simp [parts]) .operand).bind fun b hb => ?_
    refine (hp orelse (by simp [parts]) .operand).bind fun c hc => ?_
    exact quiet_enclose pos ((ha.between (by decide) hb).between (by decide) hc)
  | .dict entries =>
    rw [write]
    refine (results_writeEntries fun entry hm => ⟨?_, ?_⟩).bind fun texts hts => ?_
    · exact hp entry.1 (List.mem_flatMap.2 ⟨entry, hm, by simp⟩)
    · exact hp entry.2 (List.mem_flatMap.2 ⟨entry, hm, by simp⟩)
    · exact (Quiet.gap_append (by decide) (quiet_commaSeparated hts)).append_gap (by decide)
  | .list items =>
    rw [write]
    refine (results_writeAll .whole hp).bind fun texts hts => ?_
    exact (Quiet.gap_append (by decide) (quiet_commaSeparated hts)).append_gap (by decide)
  | .tuple items =>
    cases pos with
    | index => exact (by decide : ∀ text ∈ ["subscript"], Quiet text)
    | whole | operand =>
      simp only [write]
      refine (results_writeAll .whole hp).bind fun texts hts => ?_
      exact (Quiet.gap_append (by decide) (quiet_commaSeparated hts)).append_gap (by decide)
  | .set items =>
    rw [write]
    exact (by decide : Cause.Calm .setLiteral)
  | .subscript value index =>
    rw [write]
    refine (hp value (by simp [parts]) .operand).bind fun a ha => ?_
    refine (hp index (by simp [parts]) .index).bind fun b hb => ?_
    exact (ha.between (by decide) hb).append_gap (by decide)
  | .slice lower upper step =>
    exact hushed_slice step (fun bound hb => hp bound (by simp [parts, Option.mem_def.1 hb]))
      (fun bound hb => hp bound (by simp [parts, Option.mem_def.1 hb])) pos
  | .lambda params body =>
    rw [write]
    refine (hp body (by simp [parts]) .whole).bind fun text ht => quiet_enclose pos ?_
    split
    · exact Quiet.gap_append (by decide) ht
    · exact (Quiet.gap_append (by decide) (quiet_commaSeparated here)).between (by decide) ht
  | .template pieces =>
    rw [write, writeValues_eq]
    refine (results_writeAll .whole hp).bind fun texts hts => ?_
    exact quiet_templateCall here hts
  | .starred value =>
    rw [write]
    exact (by decide : Cause.Calm .unpacking)
  | .unsupported kind =>
    rw [write]
    exact List.forall_mem_singleton.2 here

/-- The text of an expression with quiet texts is quiet, and so is what its refusal quotes. -/
theorem hushed (hn : view.naming.QuietNames) {e : Expr} (hq : QuietTexts e) : Hushed view e := by
  induction e using induction_on_inner_parts with
  | step e ih =>
    refine hushed_of_parts hn hq fun part hm => ⟨(ih part hm).1 (hq.inside hm), fun inner hi => ?_⟩
    exact (ih part hm).2 inner hi ((hq.inside hm).inside hi)

end Expr

end Berrify
