import Berrify.Proofs.Readback.Reader

/-!
# Rendering is unambiguous

An expression is legible if it is built from names, integers, strings, lists, attributes, indices,
calls, operators and choices, and no number is what an attribute, an index or a call belongs to
(`Legible`). Under a view that renames nothing, the text of a legible expression is read back as
that expression (`Legible.readable`). So two legible expressions with the same text are the same
(`render_injective`).
-/

namespace Berrify

open Text Readback

/-! ## Views that rename nothing -/

/-- A view that knows no classes, no methods and no functions. -/
structure View.KeepsNames (view : View) : Prop where
  classes : view.naming.classes.entries = []
  methods : view.naming.methods.entries = []
  functions : view.scope.functions = []

namespace View.KeepsNames

variable {view : View} (h : view.KeepsNames)
include h

theorem calleeName (id : String) : view.calleeName id = id := by
  simp [View.calleeName, Naming.isContainer, NameMap.contains, NameMap.get?, h.classes]

theorem methodName (receiver : Expr) (method : String) :
    view.methodName receiver method = method := by
  unfold View.methodName
  split
  · simp [Naming.methodName, NameMap.get?, h.methods]
  · rfl

theorem asArgument (arg : Expr) (text : String) : view.asArgument arg text = text := by
  have unknown (name : String) : view.scope.knows name = false := by
    simp [Scope.knows, h.functions]
  cases arg <;> simp [View.asArgument, View.isFunction, unknown]

/-- What is called is written as it is written elsewhere. -/
theorem callee (func : Expr) : Expr.callee view func = func.write view .operand := by
  unfold Expr.callee
  split
  · rw [h.calleeName, Expr.write]
  · simp only [h.methodName, Expr.write]
  · rfl

end View.KeepsNames

namespace Expr

/-! ## Legible expressions -/

/-- Whether an expression is a number, with or without a sign. -/
def isBareNumber : Expr → Bool
  | .unary op operand => isSignedNumber op operand
  | e => e.isNumber

/-- The arithmetic operators that each have an operator of their own in the target. -/
def legibleOperators : List BinaryOp :=
  [.add, .sub, .mul, .div, .mod, .shiftLeft, .shiftRight, .bitAnd, .bitOr, .bitXor]

/-- The comparisons that each have an operator of their own in the target. -/
def legibleComparisons : List Comparison :=
  [.eq, .ne, .lt, .le, .gt, .ge]

/-- Expressions that can be told from their texts. -/
inductive Legible : Expr → Prop where
  | name {id : String} : isWord id = true → Legible (.name id)
  | integer {text : String} : isNumeral text = true → Legible (.constant (.int text))
  | string (text : String) : Legible (.constant (.str text))
  | list {items : List Expr} : (∀ e ∈ items, Legible e) → Legible (.list items)
  | member {value : Expr} {attr : String} : isWord attr = true → value.isBareNumber = false →
      Legible value → Legible (.attribute value attr)
  | subscript {value index : Expr} : value.isBareNumber = false → Legible value → Legible index →
      Legible (.subscript value index)
  | call {func : Expr} {args : List Expr} : func.isBareNumber = false → Legible func →
      (∀ e ∈ args, Legible e) → Legible (.call func args [])
  | binary {left right : Expr} {op : BinaryOp} : op ∈ legibleOperators → Legible left →
      Legible right → Legible (.binary left op right)
  | unary {operand : Expr} (op : UnaryOp) : Legible operand → Legible (.unary op operand)
  | boolean {values : List Expr} (op : BooleanOp) : 2 ≤ values.length →
      (∀ e ∈ values, Legible e) → Legible (.boolean op values)
  | compare {left right : Expr} {op : Comparison} : op ∈ legibleComparisons → Legible left →
      Legible right → Legible (.compare left [op] [right])
  | conditional {test body orelse : Expr} : Legible test → Legible body → Legible orelse →
      Legible (.conditional test body orelse)

/-! ## Texts that are read back -/

variable {view : View} {e : Expr} {text : String}

/-- An expression is rendered, and its text is read back in each place where it may stand. -/
structure Readable (view : View) (e : Expr) (text : String) : Prop where
  rendered : e.write view .whole = .ok text
  whole : ReadsWhole text e
  operand : ReadsOperand (e.enclose text) e
  receiver : e.isBareNumber = false → ReadsReceiver (e.enclose text) e

theorem readable_of_compound (hc : e.isCompound = true) (hr : e.write view .whole = .ok text)
    (h : ReadsWhole text e) : Readable view e text := by
  have receiver : ReadsReceiver (e.enclose text) e := by
    rw [enclose, if_pos hc]
    exact h.enclosed
  exact ⟨hr, h, receiver.operand, fun _ => receiver⟩

theorem readable_of_receiver (hc : e.isCompound = false) (hr : e.write view .whole = .ok text)
    (h : ReadsReceiver text e) : Readable view e text := by
  have plain : e.enclose text = text := by
    simp [enclose, hc]
  exact ⟨hr, h.operand.whole, plain.symm ▸ h.operand, fun _ => plain.symm ▸ h⟩

theorem readable_of_number (hc : e.isCompound = false) (hb : e.isBareNumber = true)
    (hr : e.write view .whole = .ok text) (h : ReadsOperand text e) : Readable view e text := by
  have plain : e.enclose text = text := by
    simp [enclose, hc]
  refine ⟨hr, h.whole, plain.symm ▸ h, fun hn => ?_⟩
  rw [hb] at hn
  cases hn

theorem Readable.write_operand (h : Readable view e text) :
    e.write view .operand = .ok (e.enclose text) :=
  write_operand_eq_ok.2 ⟨text, h.rendered, rfl⟩

/-- Expressions that each have a text have a list of texts. -/
theorem exists_texts {Reads : Expr → String → Prop} {es : List Expr}
    (h : ∀ e ∈ es, ∃ text, Reads e text) : ∃ texts, List.Forall₂ Reads es texts := by
  induction es with
  | nil => exact ⟨[], .nil⟩
  | cons e es ih =>
    obtain ⟨⟨text, htext⟩, hes⟩ := List.forall_mem_cons.1 h
    obtain ⟨texts, htexts⟩ := ih hes
    exact ⟨text :: texts, .cons htext htexts⟩

theorem Legible.write_index (h : Legible e) : e.write view .index = e.write view .whole := by
  cases h with
  | call => rw [write_call, write_call]
  | binary | unary | boolean | compare | conditional => simp only [write]; rfl
  | name | integer | string | list | member | subscript => simp only [write]

theorem exists_token_of_mem_operators {op : BinaryOp} (h : op ∈ legibleOperators) :
    ∃ token, op.target? = some token ∧ ' ' ∉ token.toList ∧
      joint? token = some (.arithmetic op) := by
  simp only [legibleOperators, List.mem_cons, List.not_mem_nil, or_false] at h
  rcases h with rfl | rfl | rfl | rfl | rfl | rfl | rfl | rfl | rfl | rfl <;>
    exact ⟨_, rfl, by decide, by decide⟩

theorem exists_token_of_mem_comparisons {op : Comparison} (h : op ∈ legibleComparisons) :
    ∃ token, op.target? = some token ∧ ' ' ∉ token.toList ∧
      joint? token = some (.relation op) := by
  simp only [legibleComparisons, List.mem_cons, List.not_mem_nil, or_false] at h
  rcases h with rfl | rfl | rfl | rfl | rfl | rfl <;> exact ⟨_, rfl, by decide, by decide⟩

/-- An operator in front of an operand makes a number of an integer if it is a sign. -/
theorem readable_unary {op : UnaryOp} (h : Legible e) (he : Readable view e text) :
    Readable view (.unary op e) (op.target ++ e.enclose text) := by
  have written : (Expr.unary op e).write view .whole = .ok (op.target ++ e.enclose text) := by
    refine write_unary_eq_ok.2 ⟨_, he.write_operand, ?_⟩
    simp
  cases hs : isSignedNumber op e with
  | false =>
    have compound : (Expr.unary op e).isCompound = true := by
      simp [isCompound, hs]
    exact readable_of_compound compound written (.unary he.operand hs)
  | true =>
    obtain ⟨hsign, hnumber⟩ := Bool.and_eq_true_iff.1 hs
    cases h with
    | @integer digits hdigits =>
      have rendered := he.rendered
      rw [write] at rendered
      cases rendered
      have plain : (Expr.unary op (.constant (.int digits))).isCompound = false := by
        simp [isCompound, hs]
      exact readable_of_number plain hs written (.signed hsign hdigits)
    | _ => cases hnumber

/-- A legible expression is rendered, and its text is read back. -/
theorem Legible.readable (hv : view.KeepsNames) (h : Legible e) :
    ∃ text, Readable view e text := by
  induction h with
  | @name id hid =>
    exact ⟨id, readable_of_receiver rfl (by rw [write]; rfl) (.name hid)⟩
  | @integer text ht =>
    exact ⟨text, readable_of_number rfl rfl (by rw [write]; rfl) (.integer ht)⟩
  | string text =>
    exact ⟨quote text, readable_of_receiver rfl (by rw [write]; rfl) (.string text)⟩
  | @list items _ ih =>
    obtain ⟨texts, htexts⟩ := exists_texts ih
    have written : (Expr.list items).write view .whole =
        .ok ("[" ++ commaSeparated texts ++ "]") :=
      write_list_eq_ok.2 ⟨texts, writeAll_eq_ok.2 (htexts.imp fun _ _ h => h.rendered), rfl⟩
    exact ⟨_, readable_of_receiver rfl written (.list (htexts.flip.imp fun _ _ h => h.whole))⟩
  | @member value attr ha hb _ ih =>
    obtain ⟨text, htext⟩ := ih
    have written : (Expr.attribute value attr).write view .whole =
        .ok (value.enclose text ++ "." ++ attr) :=
      write_attribute_eq_ok.2 ⟨_, htext.write_operand, rfl⟩
    exact ⟨_, readable_of_receiver rfl written ((htext.receiver hb).attribute ha)⟩
  | @subscript value index hb _ hi ihv ihi =>
    obtain ⟨text, htext⟩ := ihv
    obtain ⟨inside, hinside⟩ := ihi
    have written : (Expr.subscript value index).write view .whole =
        .ok (value.enclose text ++ "[" ++ inside ++ "]") :=
      write_subscript_eq_ok.2
        ⟨_, htext.write_operand, inside, hi.write_index.trans hinside.rendered, rfl⟩
    exact ⟨_, readable_of_receiver rfl written ((htext.receiver hb).subscript hinside.whole)⟩
  | @call func args hb _ _ ihf iha =>
    obtain ⟨text, htext⟩ := ihf
    obtain ⟨texts, htexts⟩ := exists_texts iha
    have arguments : writeArguments view args = .ok texts :=
      writeArguments_eq_ok.2 (htexts.imp fun e text h => ⟨text, h.rendered, hv.asArgument e text⟩)
    have written : (Expr.call func args []).write view .whole =
        .ok (func.enclose text ++ "(" ++ commaSeparated texts ++ ")") :=
      write_call_eq_ok.2
        ⟨_, (hv.callee func).trans htext.write_operand, rfl, texts, arguments, rfl⟩
    exact ⟨_, readable_of_receiver rfl written
      ((htext.receiver hb).call (htexts.flip.imp fun _ _ h => h.whole))⟩
  | @binary left right op hop _ _ ihl ihr =>
    obtain ⟨a, ha⟩ := ihl
    obtain ⟨b, hb⟩ := ihr
    obtain ⟨token, ht, hblank, hjoint⟩ := exists_token_of_mem_operators hop
    have written : (Expr.binary left op right).write view .whole =
        .ok (left.enclose a ++ " " ++ token ++ " " ++ right.enclose b) :=
      write_binary_eq_ok.2 ⟨token, ht, _, ha.write_operand, _, hb.write_operand, rfl⟩
    exact ⟨_, readable_of_compound rfl written (.binary hblank hjoint ha.operand hb.operand)⟩
  | @unary operand op ho ih =>
    obtain ⟨text, htext⟩ := ih
    exact ⟨_, readable_unary ho htext⟩
  | @boolean values op hlength _ ih =>
    have operands : ∀ e ∈ values, ∃ text, e.write view .operand = .ok text ∧
        ReadsOperand text e := by
      intro e hm
      obtain ⟨text, htext⟩ := ih e hm
      exact ⟨_, htext.write_operand, htext.operand⟩
    obtain ⟨texts, htexts⟩ := exists_texts operands
    have written : (Expr.boolean op values).write view .whole =
        .ok (separated (" " ++ op.target ++ " ") texts) :=
      write_boolean_eq_ok.2 ⟨texts, writeAll_eq_ok.2 (htexts.imp fun _ _ h => h.1), rfl⟩
    refine ⟨_, readable_of_compound rfl written ?_⟩
    -- A single value would be written without its connective.
    match htexts, hlength with
    | .cons ha (.cons hb hmore), _ =>
      exact .boolean ha.2 hb.2 (hmore.flip.imp fun _ _ h => h.2)
  | @compare left right op hop _ _ ihl ihr =>
    obtain ⟨a, ha⟩ := ihl
    obtain ⟨b, hb⟩ := ihr
    obtain ⟨token, ht, hblank, hjoint⟩ := exists_token_of_mem_comparisons hop
    have part : comparison view left op right =
        .ok (left.enclose a ++ " " ++ token ++ " " ++ right.enclose b) := by
      rw [comparison_relation ht, ha.write_operand, hb.write_operand]
      rfl
    have written : (Expr.compare left [op] [right]).write view .whole =
        .ok (left.enclose a ++ " " ++ token ++ " " ++ right.enclose b) :=
      write_compare_eq_ok.2 ⟨[_], .cons part .nil, rfl⟩
    exact ⟨_, readable_of_compound rfl written (.compare hblank hjoint ha.operand hb.operand)⟩
  | @conditional test body orelse _ _ _ iht ihb iho =>
    obtain ⟨a, ha⟩ := iht
    obtain ⟨b, hb⟩ := ihb
    obtain ⟨c, hc⟩ := iho
    have written : (Expr.conditional test body orelse).write view .whole =
        .ok (test.enclose a ++ " ? " ++ body.enclose b ++ " : " ++ orelse.enclose c) :=
      write_conditional_eq_ok.2
        ⟨_, ha.write_operand, _, hb.write_operand, _, hc.write_operand, rfl⟩
    exact ⟨_, readable_of_compound rfl written (.conditional ha.operand hb.operand hc.operand)⟩

theorem Legible.read?_render (hv : view.KeepsNames) (h : Legible e) :
    ∃ text, e.render view = .ok text ∧ read? text = some e := by
  obtain ⟨text, htext⟩ := h.readable hv
  exact ⟨text, htext.rendered, htext.whole.read?⟩

/-- A legible expression is rendered, and no other one is rendered as the same text. -/
theorem render_injective (hv : view.KeepsNames) {e e' : Expr} (h : Legible e) (h' : Legible e') :
    (∃ text, e.render view = .ok text) ∧ (e.render view = e'.render view → e = e') := by
  obtain ⟨text, htext, hread⟩ := h.read?_render hv
  obtain ⟨text', htext', hread'⟩ := h'.read?_render hv
  refine ⟨⟨text, htext⟩, fun same => ?_⟩
  have texts : text = text' := by
    rw [htext, htext'] at same
    exact Except.ok.inj same
  rw [texts, hread'] at hread
  exact (Option.some.inj hread).symm

/-- One string that holds quotes and a comma is told from two strings. -/
theorem render_injective_of_strings :
    let view : View := ⟨{}, default⟩
    let one : Expr := .list [.constant (.str "a', 'b")]
    let two : Expr := .list [.constant (.str "a"), .constant (.str "b")]
    view.KeepsNames ∧ Legible one ∧ Legible two ∧ one.render view ≠ two.render view := by
  intro view one two
  have names : view.KeepsNames := ⟨rfl, rfl, rfl⟩
  have hone : Legible one := .list (List.forall_mem_singleton.2 (.string _))
  have htwo : Legible two :=
    .list (List.forall_mem_cons.2 ⟨.string _, List.forall_mem_singleton.2 (.string _)⟩)
  have differ : one ≠ two := by
    simp [one, two]
  exact ⟨names, hone, htwo, fun same => differ ((render_injective names hone htwo).2 same)⟩

end Expr

end Berrify
