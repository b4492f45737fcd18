import Berrify.Proofs.Expr.Assignment
import Berrify.Proofs.Text.Closed

/-!
# Expressions are written as closed text

If the names in an expression and those in the tables are names, and its numbers are numerals
(`Expr.FullyNamed`, `Naming.Named`), then its text ends the strings and closes the brackets that it
starts, in order, and has no control characters (`write_closed`). So it does not matter what stands
in the strings, template strings and byte buffers of an expression : no part of them is taken for
anything else where the expression is written into a line (`render_closed`).
-/

namespace Berrify

open Text

/-! ## Names and numbers -/

/-- The characters of a numeral may stand in names, or are points or signs. -/
theorem mem_of_isNumeric {text : String} (h : isNumeric text = true) {c : Char}
    (hc : c ∈ text.toList) :
    Identifier.isNamePart c = true ∨ c = '.' ∨ c = '+' ∨ c = '-' := by
  unfold isNumeric at h
  cases ht : text.toList with
  | nil => simp [ht] at hc
  | cons d rest =>
    simp only [ht, Bool.and_eq_true, Bool.or_eq_true, List.all_eq_true, beq_iff_eq] at h hc
    rcases List.mem_cons.1 hc with rfl | hm
    · rcases h.1 with ((digit | point) | plus) | minus
      · exact .inl (by simp [Identifier.isNamePart, digit])
      · exact .inr (.inl point)
      · exact .inr (.inr (.inl plus))
      · exact .inr (.inr (.inr minus))
    · rcases h.2 c hm with (((part | underscore) | point) | plus) | minus
      · rcases Bool.or_eq_true_iff.1 (show (c.isAlpha || c.isDigit) = true from part) with
          letter | digit
        · exact .inl (by simp [Identifier.isNamePart, Identifier.isNameStart, letter])
        · exact .inl (by simp [Identifier.isNamePart, digit])
      · exact .inl (by subst underscore; decide)
      · exact .inr (.inl point)
      · exact .inr (.inr (.inl plus))
      · exact .inr (.inr (.inr minus))

theorem closed_of_isNumeric {text : String} (h : isNumeric text = true) : Closed text := by
  refine closed_of_isInert (List.all_eq_true.2 fun c hc => ?_)
  by_contra inert
  obtain ⟨hpart, hpoint, hplus, hminus⟩ := excluded_of_not_isInert (Bool.eq_false_iff.2 inert)
  rcases mem_of_isNumeric h hc with part | point | plus | minus
  · rw [hpart] at part
    cases part
  · exact hpoint point
  · exact hplus plus
  · exact hminus minus

theorem closed_writeInt (value : Int) : Closed (writeInt value) := by
  have digits (n : Nat) : Closed (writeNat n) := by
    refine closed_of_isInert (List.all_eq_true.2 fun c hc => ?_)
    by_contra inert
    have part := (excluded_of_not_isInert (Bool.eq_false_iff.2 inert)).1
    simp [Identifier.isNamePart, isDigit_of_mem_writeNat hc] at part
  unfold writeInt
  split
  · exact (closed_of_isInert (by decide)).append (digits _)
  · exact digits _

namespace Expr

/-- The names at the top of an expression, its parameters among them, and its number are names and
numbers. -/
def FullyNamedHere : Expr → Prop
  | .lambda params _ => ∀ param ∈ params, isWord param = true
  | e => NamedHere e

/-- All names, parameters and numbers in an expression are names and numbers. -/
def FullyNamed (e : Expr) : Prop :=
  Everywhere FullyNamedHere e

variable {view : View}

/-! ## Operators -/

/-- Operators hold neither quotes nor brackets. -/
theorem closed_binary {op : BinaryOp} {token : String} (h : op.target? = some token) :
    Closed token := by
  cases op <;> cases h <;> exact closed_of_isInert (by decide)

theorem closed_unary (op : UnaryOp) : Closed op.target := by
  cases op <;> exact closed_of_isInert (by decide)

theorem closed_relation {op : Comparison} {token : String} (h : op.target? = some token) :
    Closed token := by
  cases op <;> cases h <;> exact closed_of_isInert (by decide)

theorem closed_connective (op : BooleanOp) : Closed (" " ++ op.target ++ " ") := by
  cases op <;> exact closed_of_isInert (by decide)

theorem closed_between {a token b : String} (ha : Closed a) (ht : Closed token) (hb : Closed b) :
    Closed (a ++ " " ++ token ++ " " ++ b) := by
  have blank : Closed " " := closed_of_isInert (by decide)
  exact (((ha.append blank).append ht).append blank).append hb

theorem closed_enclose {text : String} (pos : Position) (h : Closed text) :
    Closed (pos.enclose text) := by
  cases pos with
  | operand => exact h.parenthesize
  | whole => exact h
  | index => exact h

/-! ## The shapes of expressions -/

/-- Whatever is written of an expression is closed. -/
def ClosedText (view : View) (e : Expr) : Prop :=
  ∀ ⦃pos : Position⦄ ⦃text : String⦄, e.write view pos = .ok text → Closed text

theorem closed_constant {value : Constant} (h : FullyNamed (.constant value)) :
    Closed value.render := by
  match value with
  | .none => exact closed_of_isInert (by decide)
  | .bool true => exact closed_of_isInert (by decide)
  | .bool false => exact closed_of_isInert (by decide)
  | .int text => exact closed_of_isNumeric h.here
  | .float text => exact closed_of_isNumeric h.here
  | .str text => exact closed_quote text
  | .bytes data => exact closed_writeBytes data

theorem closed_texts {pos : Position} {es : List Expr} (he : ∀ e ∈ es, ClosedText view e)
    {texts : List String} (h : writeAll view pos es = .ok texts) : ∀ text ∈ texts, Closed text :=
  forall_of_forall₂ (writeAll_eq_ok.1 h) fun e hm _ ht => he e hm ht

theorem closed_arguments {es : List Expr} (he : ∀ e ∈ es, ClosedText view e) {texts : List String}
    (h : writeArguments view es = .ok texts) : ∀ text ∈ texts, Closed text := by
  refine forall_of_forall₂ (writeArguments_eq_ok.1 h) fun e hm text ht => ?_
  obtain ⟨alone, ha, rfl⟩ := ht
  have inner := he e hm ha
  unfold View.asArgument
  split
  · have call : Closed (parenthesize "") := Closed.parenthesize (closed_of_isInert (by decide))
    exact ((closed_of_isInert (by decide)).append inner).append call
  · exact inner

theorem closed_entries {entries : List (Expr × Expr)}
    (he : ∀ entry ∈ entries, ClosedText view entry.1 ∧ ClosedText view entry.2)
    {texts : List String} (h : writeEntries view entries = .ok texts) :
    ∀ text ∈ texts, Closed text := by
  refine forall_of_forall₂ (writeEntries_eq_ok.1 h) fun entry hm text ht => ?_
  obtain ⟨key, hk, value, hv, rfl⟩ := ht
  obtain ⟨h₁, h₂⟩ := he entry hm
  exact ((h₁ hk).append (closed_of_isInert (by decide))).append (h₂ hv)

theorem closed_callee (hn : view.naming.Named) {func : Expr} (hw : FullyNamed func)
    (he : ∀ part ∈ func.parts, ClosedText view part) (hf : ClosedText view func) {called : String}
    (h : callee view func = .ok called) : Closed called := by
  match func with
  | .name id =>
    cases h
    exact closed_of_isWord (view.isWord_calleeName hn hw.here)
  | .attribute value attr =>
    simp only [callee, bind_eq_ok, pure_eq_ok] at h
    obtain ⟨receiver, hr, rfl⟩ := h
    have named := closed_of_isWord (view.isWord_methodName hn value hw.here)
    exact ((he value (by simp [parts]) hr).append (closed_of_isInert (by decide))).append named
  | .constant _ | .call .. | .binary .. | .unary .. | .boolean .. | .compare .. | .conditional ..
  | .dict _ | .list _ | .tuple _ | .set _ | .subscript .. | .slice .. | .lambda .. | .template _
  | .starred _ | .unsupported _ =>
    exact hf (show Expr.write view _ .operand = .ok called from h)

/-- A callee with its arguments in parentheses is closed. -/
theorem closed_call {called : String} (hc : Closed called) {texts : List String}
    (ht : ∀ text ∈ texts, Closed text) : Closed (called ++ "(" ++ commaSeparated texts ++ ")") := by
  have arguments := hc.append (closed_commaSeparated ht).parenthesize
  simpa [parenthesize, String.append_assoc] using arguments

theorem closed_memberTest (negated : Bool) {a : String} (ha : Closed a) {items : List String}
    (hi : ∀ item ∈ items, Closed item) : Closed (memberTest negated a items) := by
  have each (relation : String) (hr : Closed relation) :
      ∀ text ∈ items.map (a ++ relation ++ ·), Closed text := by
    intro text hm
    obtain ⟨item, hitem, rfl⟩ := List.mem_map.1 hm
    exact (ha.append hr).append (hi item hitem)
  cases negated with
  | true =>
    exact closed_separated (closed_of_isInert (by decide))
      (each " != " (closed_of_isInert (by decide)))
  | false =>
    exact closed_separated (closed_of_isInert (by decide))
      (each " == " (closed_of_isInert (by decide)))

theorem closed_containsTest (negated : Bool) {collection a : String} (hc : Closed collection)
    (ha : Closed a) : Closed (containsTest negated collection a) := by
  have call : Closed (collection ++ ".contains" ++ "(" ++ commaSeparated [a] ++ ")") :=
    closed_call (hc.append (closed_of_isInert (by decide))) (List.forall_mem_singleton.2 ha)
  have sign : Closed (if negated then "!" else "") := by
    split <;> exact closed_of_isInert (by decide)
  simpa [containsTest, commaSeparated, separated, String.append_assoc] using sign.append call

/-- One comparison is closed if its operands are, and the items of a collection written out. -/
theorem closed_comparison {left right : Expr} {op : Comparison} (hl : ClosedText view left)
    (hr : ClosedText view right) (hitems : ∀ e ∈ right.parts, ClosedText view e) {text : String}
    (h : comparison view left op right = .ok text) : Closed text := by
  rcases comparison_cases h with ⟨token, ht, a, ha, b, hb, rfl⟩ | ⟨-, -, rfl⟩ |
    ⟨-, items, hi, -, a, ha, texts, hts, rfl⟩ | ⟨-, -, -, collection, hc, a, ha, rfl⟩
  · exact closed_between (hl ha) (closed_relation ht) (hr hb)
  · unfold emptyMemberTest
    split <;> exact closed_of_isInert (by decide)
  · rw [parts_of_literalItems? hi] at hitems
    exact closed_memberTest _ (hl ha) (closed_texts hitems hts)
  · exact closed_containsTest _ (hr hc) (hl ha)

theorem closed_conjunction {texts : List String} (h : ∀ text ∈ texts, Closed text) :
    Closed (conjunction texts) := by
  unfold conjunction
  split
  · exact h _ List.mem_cons_self
  · refine closed_separated (closed_of_isInert (by decide)) fun text hm => ?_
    obtain ⟨part, hp, rfl⟩ := List.mem_map.1 hm
    exact (h part hp).parenthesize

theorem closed_templateCall (pieces : List (TemplatePart Expr)) {values : List String}
    (h : ∀ value ∈ values, Closed value) : Closed (templateCall pieces values) := by
  unfold templateCall
  split
  · have inner : Closed (quote (templateFormat pieces) ++ ", " ++ commaSeparated values) :=
      ((closed_quote _).append (closed_of_isInert (by decide))).append (closed_commaSeparated h)
    have shape : "string.format(" ++ quote (templateFormat pieces) ++ ", " ++
        commaSeparated values ++ ")" = "string.format" ++
          parenthesize (quote (templateFormat pieces) ++ ", " ++ commaSeparated values) := by
      apply String.toList_injective
      simp [parenthesize]
    rw [shape]
    exact (closed_of_isInert (by decide)).append inner.parenthesize
  · exact closed_quote _

theorem closed_upperBound {upper : Option Expr}
    (h : ∀ bound ∈ upper, ClosedText view bound) {text : String}
    (ht : upperBound view upper = .ok text) : Closed text := by
  cases upper with
  | none =>
    cases ht
    exact closed_of_isInert (by decide)
  | some bound =>
    unfold upperBound at ht
    cases hv : bound.integerValue? with
    | some value =>
      simp only [hv, pure_eq_ok] at ht
      exact ht ▸ closed_writeInt _
    | none =>
      simp only [hv, bind_eq_ok, pure_eq_ok] at ht
      obtain ⟨a, ha, rfl⟩ := ht
      exact (h bound rfl ha).append (closed_of_isInert (by decide))

theorem closed_lowerBound {lower : Option Expr}
    (h : ∀ bound ∈ lower, ClosedText view bound) {text : String}
    (ht : lowerBound view lower = .ok text) : Closed text := by
  cases lower with
  | none =>
    cases ht
    exact closed_of_isInert (by decide)
  | some bound => exact h bound rfl ht

/-! ## All expressions -/

/-- The text of an expression is closed if the texts of its parts are, and of their parts. -/
theorem closed_of_parts (hn : view.naming.Named) {e : Expr} (hw : FullyNamed e)
    (he : ∀ part ∈ e.parts, ClosedText view part)
    (hee : ∀ part ∈ e.parts, ∀ inner ∈ part.parts, ClosedText view inner) :
    ClosedText view e := by
  intro pos text h
  match e with
  | .name id =>
    cases h
    exact closed_of_isWord hw.here
  | .attribute value attr =>
    obtain ⟨receiver, hr, rfl⟩ := write_attribute_eq_ok.1 h
    exact ((he value (by simp [parts]) hr).append (closed_of_isInert (by decide))).append
      (closed_of_isWord hw.here)
  | .constant value =>
    cases h
    exact closed_constant hw
  | .call func args keywords =>
    obtain ⟨called, hc, -, texts, ht, rfl⟩ := write_call_eq_ok.1 h
    have hfunc : func ∈ (Expr.call func args keywords).parts := by simp [parts]
    exact closed_call (closed_callee hn (hw.inside hfunc) (hee func hfunc) (he func hfunc) hc)
      (closed_arguments (fun e hm => he e (by simp [parts, hm])) ht)
  | .binary left op right =>
    obtain ⟨token, ht, a, ha, b, hb, rfl⟩ := write_binary_eq_ok.1 h
    exact closed_enclose pos (closed_between (he left (by simp [parts]) ha) (closed_binary ht)
      (he right (by simp [parts]) hb))
  | .unary op operand =>
    obtain ⟨a, ha, rfl⟩ := write_unary_eq_ok.1 h
    have whole := (closed_unary op).append (he operand (by simp [parts]) ha)
    split
    · exact whole
    · exact closed_enclose pos whole
  | .boolean op values =>
    obtain ⟨texts, ht, rfl⟩ := write_boolean_eq_ok.1 h
    exact closed_enclose pos (closed_separated (closed_connective op)
      (closed_texts (fun e hm => he e (by simpa [parts] using hm)) ht))
  | .compare left ops comparators =>
    obtain ⟨texts, ht, rfl⟩ := write_compare_eq_ok.1 h
    refine closed_enclose pos (closed_conjunction (forall_of_forall₂ ht fun link hm text hc => ?_))
    obtain ⟨hleft, hright⟩ := mem_links hm
    have hl : link.1 ∈ (Expr.compare left ops comparators).parts := by
      rcases hleft with hl | hl <;> simp [parts, hl]
    have hr : link.2.2 ∈ (Expr.compare left ops comparators).parts := by simp [parts, hright]
    exact closed_comparison (he _ hl) (he _ hr) (hee _ hr) hc
  | .conditional test body orelse =>
    obtain ⟨a, ha, b, hb, c, hc, rfl⟩ := write_conditional_eq_ok.1 h
    refine closed_enclose pos ?_
    exact ((((he test (by simp [parts]) ha).append (closed_of_isInert (by decide))).append
      (he body (by simp [parts]) hb)).append (closed_of_isInert (by decide))).append
      (he orelse (by simp [parts]) hc)
  | .dict entries =>
    obtain ⟨texts, ht, rfl⟩ := write_dict_eq_ok.1 h
    have inner := closed_entries (fun entry hm =>
      ⟨he entry.1 (List.mem_flatMap.2 ⟨entry, hm, by simp⟩),
        he entry.2 (List.mem_flatMap.2 ⟨entry, hm, by simp⟩)⟩) ht
    exact (closed_commaSeparated inner).bracketed rfl rfl rfl
  | .list items =>
    obtain ⟨texts, ht, rfl⟩ := write_list_eq_ok.1 h
    have inner := closed_texts (fun e hm => he e (by simpa [parts] using hm)) ht
    exact (closed_commaSeparated inner).bracketed rfl rfl rfl
  | .tuple items =>
    obtain ⟨-, texts, ht, rfl⟩ := write_tuple_eq_ok.1 h
    have inner := closed_texts (fun e hm => he e (by simpa [parts] using hm)) ht
    exact (closed_commaSeparated inner).bracketed rfl rfl rfl
  | .set _ => simp [write, throw_eq_ok] at h
  | .subscript value index =>
    obtain ⟨a, ha, b, hb, rfl⟩ := write_subscript_eq_ok.1 h
    have brackets : Closed ("[" ++ b ++ "]") :=
      (he index (by simp [parts]) hb).bracketed rfl rfl rfl
    have whole := (he value (by simp [parts]) ha).append brackets
    simpa only [String.append_assoc] using whole
  | .slice lower upper step =>
    obtain ⟨-, -, -, a, ha, b, hb, rfl⟩ := write_slice_eq_ok.1 h
    have first : Closed a := closed_lowerBound (fun bound hm => he bound (by simp_all [parts])) ha
    have last : Closed b := closed_upperBound (fun bound hm => he bound (by simp_all [parts])) hb
    exact (first.append (closed_of_isInert (by decide))).append last
  | .lambda params body =>
    obtain ⟨a, ha, rfl⟩ := write_lambda_eq_ok.1 h
    have named : ∀ param ∈ params, Closed param :=
      fun param hm => closed_of_isWord (hw.here param hm)
    refine closed_enclose pos (Closed.append ?_ (he body (by simp [parts]) ha))
    split
    · exact closed_of_isInert (by decide)
    · exact ((closed_of_isInert (by decide)).append (closed_commaSeparated named)).append
        (closed_of_isInert (by decide))
  | .template pieces =>
    obtain ⟨texts, ht, rfl⟩ := write_template_eq_ok.1 h
    exact closed_templateCall pieces (closed_texts he ht)
  | .starred _ => simp [write, throw_eq_ok] at h
  | .unsupported _ => simp [write, throw_eq_ok] at h

/-- The text of an expression with proper names and numbers is closed. -/
theorem write_closed (hn : view.naming.Named) {e : Expr} (hw : FullyNamed e) :
    ClosedText view e := by
  induction e using induction_on_inner_parts with
  | step e ih =>
    exact closed_of_parts hn hw (fun part hm => (ih part hm).1 (hw.inside hm))
      fun part hm inner hi => (ih part hm).2 inner hi ((hw.inside hm).inside hi)

/-- However an expression with proper names and numbers is rendered, its text has no control
characters, ends each string that it starts, and nests its brackets properly. -/
theorem render_closed (hn : view.naming.Named) {e : Expr} (hw : FullyNamed e) {text : String}
    (h : e.render view = .ok text ∨ e.renderCondition view = .ok text ∨
      e.renderIndex view = .ok text) :
    (∀ c ∈ text.toList, 0x20 ≤ c.toNat) ∧
      (Scanner.outside []).read text.toList = some (.outside []) := by
  have closed : Closed text := by
    rcases h with h | h | h
    · exact write_closed hn hw h
    · obtain ⟨alone, ha, rfl⟩ := map_eq_ok.1 h
      have inner := write_closed hn hw ha
      split
      · exact inner.parenthesize
      · exact inner
    · exact write_closed hn hw h
  exact ⟨closed.printable, closed.balanced []⟩

/-- A quote, a bracket and a backslash in a string, and a quote in a byte buffer. -/
theorem render_closed_of_quotes :
    (Expr.list [.constant (.str "it's (\\"), .lambda ["k"] (.name "k"),
        .constant (.bytes [0x27])]).render ⟨.builtin, .start .lexical⟩ =
      .ok "['it\\'s (\\\\', /k -> k, bytes('27')]" ∧
    (∀ c ∈ "['it\\'s (\\\\', /k -> k, bytes('27')]".toList, 0x20 ≤ c.toNat) ∧
      (Scanner.outside []).read "['it\\'s (\\\\', /k -> k, bytes('27')]".toList =
        some (.outside []) := by
  have rendered : (Expr.list [.constant (.str "it's (\\"), .lambda ["k"] (.name "k"),
      .constant (.bytes [0x27])]).render ⟨.builtin, .start .lexical⟩ =
        .ok "['it\\'s (\\\\', /k -> k, bytes('27')]" := by
    decide +kernel
  have function : FullyNamed (.lambda ["k"] (.name "k")) :=
    .node (by decide : ∀ param ∈ ["k"], isWord param = true)
      fun part hm => List.mem_singleton.1 hm ▸ .leaf (by decide : isWord "k" = true) rfl
  have named : FullyNamed (.list [.constant (.str "it's (\\"), .lambda ["k"] (.name "k"),
      .constant (.bytes [0x27])]) := by
    refine .node trivial fun part hm => ?_
    simp only [parts, List.mem_cons, List.not_mem_nil, or_false] at hm
    rcases hm with rfl | rfl | rfl
    · exact .leaf trivial rfl
    · exact function
    · exact .leaf trivial rfl
  exact ⟨rendered, render_closed Naming.named_builtin named (.inl rendered)⟩

end Expr

end Berrify
