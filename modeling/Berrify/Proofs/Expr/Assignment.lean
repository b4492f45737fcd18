import Berrify.Proofs.Expr.Tidy
import Berrify.Proofs.Text.Assignment

/-!
# No expression is written as an assignment

An operand is a path, or has a symbol behind the path at its front (`write_solid`) : where something
put together by operators stands as an operand, it is in parentheses. So the first blank behind a
path in a whole expression stands in front of an operator, and none of the operators is an
assignment sign (`write_unassigned`).

The text `self` is written for the name only (`eq_name_of_write_operand`), so what is assigned to by
`self.` and a name is a field of that name.
-/

namespace Berrify

open Text

/-! ## Names -/

/-- The tables of classes and methods hold names only. -/
structure Naming.Named (n : Naming) : Prop where
  classes : ∀ entry ∈ n.classes.entries, isWord entry.2 = true
  methods : ∀ entry ∈ n.methods.entries, ∀ method ∈ entry.2.entries, isWord method.2 = true

theorem Naming.named_builtin : Naming.builtin.Named :=
  ⟨by decide, by decide⟩

theorem isWord_getD {m : NameMap String} (hm : ∀ entry ∈ m.entries, isWord entry.2 = true)
    {name : String} (h : isWord name = true) : isWord ((m.get? name).getD name) = true := by
  cases hg : m.get? name with
  | none => exact h
  | some value => exact hm _ (NameMap.mem_of_get? hg)

namespace View

variable {view : View}

theorem isWord_calleeName (hn : view.naming.Named) {id : String} (h : isWord id = true) :
    isWord (view.calleeName id) = true := by
  unfold calleeName
  split
  · exact isWord_getD hn.classes h
  · exact h

theorem isWord_methodName (hn : view.naming.Named) (receiver : Expr) {method : String}
    (h : isWord method = true) : isWord (view.methodName receiver method) = true := by
  unfold methodName
  split
  · unfold Naming.methodName
    cases hg : view.naming.methods.get? _ with
    | none => exact h
    | some methods => exact isWord_getD (hn.methods _ (NameMap.mem_of_get? hg)) h
  · exact h

end View

namespace Expr

/-- The name or number at the top of an expression is a name or number. -/
def NamedHere : Expr → Prop
  | .name id => isWord id = true
  | .attribute _ attr => isWord attr = true
  | .constant (.int text) => isNumeric text = true
  | .constant (.float text) => isNumeric text = true
  | _ => True

/-- All names and numbers in an expression are names and numbers. Other than in a tidy text, a name
may be a structural word. -/
def Named (e : Expr) : Prop :=
  Everywhere NamedHere e

theorem named_name {id : String} (h : isWord id = true) : (Expr.name id).Named :=
  .node h (by simp [parts])

theorem named_attribute {value : Expr} {attr : String} (hv : value.Named)
    (h : isWord attr = true) : (Expr.attribute value attr).Named :=
  .node h fun _ hm => List.mem_singleton.1 hm ▸ hv

variable {view : View}

/-! ## Operands -/

/-- Whatever is written of an expression as an operand is solid. -/
def Solidly (view : View) (e : Expr) : Prop :=
  ∀ ⦃text : String⦄, e.write view .operand = .ok text → Solid text

theorem solid_parenthesize (text : String) : Solid (parenthesize text) :=
  solid_of_symbol '(' (by simp [parenthesize]) (by decide) (by decide)

/-- A text with a symbol behind it stays solid, whatever follows. -/
theorem solid_leading {a b : String} (ha : Solid a) (c : Char) (hb : b.toList.head? = some c)
    (hpath : isPathPart c = false) (hblank : c ≠ ' ') : Solid (a ++ b) :=
  ha.append (solid_of_symbol c hb hpath hblank)

theorem solid_attribute {a attr : String} (ha : Solid a) (hattr : isWord attr = true) :
    Solid (a ++ "." ++ attr) :=
  (ha.append (solid_of_not_blank (by decide))).append (solid_of_isWord hattr)

theorem solid_quote (text : String) : Solid (quote text) :=
  solid_of_symbol '\x27' (by simp [quote]) (by decide) (by decide)

theorem solid_constant {value : Constant} (hw : Named (.constant value)) :
    Solid value.render := by
  match value with
  | .none => exact solid_of_not_blank (by decide)
  | .bool true => exact solid_of_not_blank (by decide)
  | .bool false => exact solid_of_not_blank (by decide)
  | .int text => exact solid_of_not_blank fun hb => (not_blank_of_isNumeric hw.here hb).1 rfl
  | .float text => exact solid_of_not_blank fun hb => (not_blank_of_isNumeric hw.here hb).1 rfl
  | .str text => exact solid_quote text
  | .bytes data =>
    have shape : Constant.render (.bytes data) =
        "bytes" ++ ("('" ++ .ofList (data.flatMap hexByte) ++ "')") := by
      apply String.toList_injective
      simp [Constant.render, writeBytes]
    rw [shape]
    exact solid_leading (solid_of_not_blank (by decide)) '(' (by simp) (by decide) (by decide)

theorem solid_templateCall (pieces : List (TemplatePart Expr)) (values : List String) :
    Solid (templateCall pieces values) := by
  unfold templateCall
  split
  · have shape : "string.format(" ++ quote (templateFormat pieces) ++ ", " ++
        commaSeparated values ++ ")" =
        "string.format" ++ ("(" ++ quote (templateFormat pieces) ++ ", " ++
          commaSeparated values ++ ")") := by
      apply String.toList_injective
      simp
    rw [shape]
    exact solid_leading (solid_of_not_blank (by decide)) '(' (by simp) (by decide) (by decide)
  · exact solid_quote _

theorem solid_callee (hn : view.naming.Named) {func : Expr} (hw : Named func)
    (hf : Solidly view func) (he : ∀ part ∈ func.parts, Solidly view part) {called : String}
    (h : callee view func = .ok called) : Solid called := by
  match func with
  | .name id =>
    cases h
    exact solid_of_isWord (view.isWord_calleeName hn hw.here)
  | .attribute value attr =>
    simp only [callee, bind_eq_ok, pure_eq_ok] at h
    obtain ⟨receiver, hr, rfl⟩ := h
    exact solid_attribute (he value (by simp [parts]) hr) (view.isWord_methodName hn value hw.here)
  | .constant _ | .call .. | .binary .. | .unary .. | .boolean .. | .compare .. | .conditional ..
  | .dict _ | .list _ | .tuple _ | .set _ | .subscript .. | .slice .. | .lambda .. | .template _
  | .starred _ | .unsupported _ =>
    exact hf (show Expr.write view _ .operand = .ok called from h)

/-- An expression that is not put together by operators is solid if its parts are, and the parts of
these. -/
theorem solid_of_parts (hn : view.naming.Named) {e : Expr} (hw : Named e)
    (hc : e.isCompound = false) (he : ∀ part ∈ e.parts, Solidly view part)
    (hee : ∀ part ∈ e.parts, ∀ inner ∈ part.parts, Solidly view inner) {text : String}
    (h : e.write view .whole = .ok text) : Solid text := by
  match e with
  | .name id =>
    cases h
    exact solid_of_isWord hw.here
  | .attribute value attr =>
    obtain ⟨receiver, hr, rfl⟩ := write_attribute_eq_ok.1 h
    exact solid_attribute (he value (by simp [parts]) hr) hw.here
  | .constant value =>
    cases h
    exact solid_constant hw
  | .call func args keywords =>
    obtain ⟨called, hcalled, -, texts, -, rfl⟩ := write_call_eq_ok.1 h
    have hfunc : func ∈ (Expr.call func args keywords).parts := by simp [parts]
    have solid := solid_callee hn (hw.inside hfunc) (he func hfunc) (hee func hfunc) hcalled
    rw [String.append_assoc, String.append_assoc]
    exact solid_leading solid '(' (by simp) (by decide) (by decide)
  | .unary op operand =>
    have signed : isSignedNumber op operand = true := by simpa [isCompound] using hc
    obtain ⟨a, -, rfl⟩ := write_unary_eq_ok.1 h
    rw [if_pos signed]
    cases op with
    | not => cases signed
    | invert => cases signed
    | neg => exact solid_of_symbol '-' (by simp [UnaryOp.target]) (by decide) (by decide)
    | pos => exact solid_of_symbol '+' (by simp [UnaryOp.target]) (by decide) (by decide)
  | .dict _ =>
    obtain ⟨_, -, rfl⟩ := write_dict_eq_ok.1 h
    exact solid_of_symbol '\x7b' (by simp) (by decide) (by decide)
  | .list _ =>
    obtain ⟨_, -, rfl⟩ := write_list_eq_ok.1 h
    exact solid_of_symbol '[' (by simp) (by decide) (by decide)
  | .tuple _ =>
    obtain ⟨-, _, -, rfl⟩ := write_tuple_eq_ok.1 h
    exact solid_of_symbol '(' (by simp) (by decide) (by decide)
  | .subscript value index =>
    obtain ⟨a, ha, b, -, rfl⟩ := write_subscript_eq_ok.1 h
    rw [String.append_assoc, String.append_assoc]
    exact solid_leading (he value (by simp [parts]) ha) '[' (by simp) (by decide) (by decide)
  | .template pieces =>
    obtain ⟨texts, -, rfl⟩ := write_template_eq_ok.1 h
    exact solid_templateCall pieces texts
  | .slice _ _ _ => simp [write, throw_eq_ok] at h
  | .set _ => simp [write, throw_eq_ok] at h
  | .starred _ => simp [write, throw_eq_ok] at h
  | .unsupported _ => simp [write, throw_eq_ok] at h

/-- An operand has no blank behind the path at its front. -/
theorem write_solid (hn : view.naming.Named) {e : Expr} (hw : Named e) :
    Solidly view e := by
  induction e using induction_on_inner_parts with
  | step e ih =>
    intro text h
    obtain ⟨alone, ha, rfl⟩ := write_operand_eq_ok.1 h
    cases hc : e.isCompound with
    | true =>
      rw [enclose, if_pos hc]
      exact solid_parenthesize alone
    | false =>
      rw [enclose, hc, if_neg Bool.false_ne_true]
      exact solid_of_parts hn hw hc (fun part hm => (ih part hm).1 (hw.inside hm))
        (fun part hm inner hi => (ih part hm).2 inner hi ((hw.inside hm).inside hi)) ha

/-- An expression that is not put together by operators is written alone as it is as an operand. -/
theorem solid_alone (hn : view.naming.Named) {e : Expr} (hw : Named e)
    (hc : e.isCompound = false) {text : String} (h : e.write view .whole = .ok text) :
    Solid text := by
  refine write_solid hn hw (write_operand_eq_ok.2 ⟨text, h, ?_⟩)
  rw [enclose, hc, if_neg Bool.false_ne_true]

/-! ## Expressions that stand alone -/

theorem isOperator_binary {op : BinaryOp} {token : String} (h : op.target? = some token) :
    isOperator token = true := by
  cases op <;> cases h <;> decide

theorem isOperator_comparison {op : Comparison} {token : String} (h : op.target? = some token) :
    isOperator token = true := by
  cases op <;> cases h <;> decide

theorem isOperator_connective (op : BooleanOp) : isOperator op.target = true := by
  cases op <;> decide

/-- Solid texts with an operator between them assign to nothing. -/
theorem unassigned_separated {token : String} (ht : isOperator token = true) {texts : List String}
    (h : ∀ text ∈ texts.head?, Solid text) :
    Unassigned (separated (" " ++ token ++ " ") texts) := by
  match texts with
  | [] => exact (solid_of_not_blank (by simp [separated])).unassigned
  | [text] =>
    rw [separated, String.intercalate_singleton]
    exact (h text rfl).unassigned
  | text :: next :: texts =>
    have shape : separated (" " ++ token ++ " ") (text :: next :: texts) =
        text ++ " " ++ token ++ " " ++ separated (" " ++ token ++ " ") (next :: texts) := by
      rw [separated, String.intercalate_cons_cons, separated]
      simp only [String.append_assoc]
    rw [shape]
    exact (h text rfl).between ht _

theorem unassigned_memberTest (negated : Bool) {a : String} (ha : Solid a) :
    ∀ {items : List String}, Unassigned (memberTest negated a items)
  | [] => by
    cases negated <;> exact (solid_of_not_blank (by simp [memberTest, separated])).unassigned
  | item :: items => by
    -- The first test stands in front of everything else, so its relation is the first operator.
    have first (token : String) (ht : isOperator token = true) (connective : String)
        (others : List String) :
        Unassigned (separated connective ((a ++ " " ++ token ++ " " ++ item) :: others)) := by
      cases others with
      | nil =>
        rw [separated, String.intercalate_singleton]
        exact ha.between ht item
      | cons other others =>
        rw [separated, String.intercalate_cons_cons, String.append_assoc, String.append_assoc]
        exact ha.between ht _
    cases negated with
    | true =>
      have test := first "!=" (by decide) " && " (items.map (a ++ " != " ++ ·))
      simpa [memberTest, String.append_assoc] using test
    | false =>
      have test := first "==" (by decide) " || " (items.map (a ++ " == " ++ ·))
      simpa [memberTest, String.append_assoc] using test

theorem solid_containsTest (negated : Bool) {collection : String} (hc : Solid collection)
    (a : String) : Solid (containsTest negated collection a) := by
  unfold containsTest
  cases negated with
  | true => exact solid_of_symbol '!' (by simp) (by decide) (by decide)
  | false =>
    have shape : (if false then "!" else "") ++ collection ++ ".contains(" ++ a ++ ")" =
        collection ++ ".contains" ++ ("(" ++ a ++ ")") := by
      apply String.toList_injective
      simp
    refine shape ▸ solid_leading (hc.append (solid_of_not_blank (by decide))) '(' (by simp)
      (by decide) (by decide)

/-- One comparison assigns to nothing. -/
theorem unassigned_comparison (hn : view.naming.Named) {left right : Expr} {op : Comparison}
    (hl : Named left) (hr : Named right) {text : String}
    (h : comparison view left op right = .ok text) : Unassigned text := by
  rcases comparison_cases h with ⟨token, ht, a, ha, b, -, rfl⟩ | ⟨-, -, rfl⟩ |
    ⟨-, items, -, -, a, ha, texts, -, rfl⟩ | ⟨-, -, hplain, collection, hc, a, -, rfl⟩
  · exact (write_solid hn hl ha).between (isOperator_comparison ht) b
  · unfold emptyMemberTest
    split <;> exact (solid_of_not_blank (by decide)).unassigned
  · exact unassigned_memberTest _ (write_solid hn hl ha)
  · exact (solid_containsTest _ (solid_alone hn hr hplain hc) a).unassigned

theorem unassigned_conjunction {texts : List String} (h : ∀ text ∈ texts, Unassigned text) :
    Unassigned (conjunction texts) := by
  match texts with
  | [text] => exact h text List.mem_cons_self
  | [] => exact (solid_of_not_blank (by simp [conjunction, separated])).unassigned
  | first :: second :: rest =>
    refine unassigned_separated (by decide : isOperator "&&" = true) fun text hm => ?_
    cases hm
    exact solid_parenthesize first

/-- The text of an expression with proper names assigns to nothing. -/
theorem write_unassigned (hn : view.naming.Named) {e : Expr} (hw : Named e) {text : String}
    (h : e.write view .whole = .ok text) : Unassigned text := by
  cases hc : e.isCompound with
  | false => exact (solid_alone hn hw hc h).unassigned
  | true =>
    have operand {part : Expr} (hm : part ∈ e.parts) : Solidly view part :=
      write_solid hn (hw.inside hm)
    match e with
    | .binary left op right =>
      obtain ⟨token, ht, a, ha, b, -, rfl⟩ := write_binary_eq_ok.1 h
      exact (operand (by simp [parts]) ha).between (isOperator_binary ht) b
    | .boolean op values =>
      obtain ⟨texts, ht, rfl⟩ := write_boolean_eq_ok.1 h
      have solid : ∀ text ∈ texts, Solid text :=
        forall_of_forall₂ (writeAll_eq_ok.1 ht) fun e hm _ hv =>
          operand (by simpa [parts] using hm) hv
      exact unassigned_separated (isOperator_connective op)
        fun text hm => solid text (List.mem_of_mem_head? hm)
    | .compare left ops comparators =>
      obtain ⟨texts, ht, rfl⟩ := write_compare_eq_ok.1 h
      refine unassigned_conjunction (forall_of_forall₂ ht fun link hm text hlink => ?_)
      obtain ⟨hleft, hright⟩ := mem_links hm
      have hl : link.1 ∈ (Expr.compare left ops comparators).parts := by
        rcases hleft with hl | hl <;> simp [parts, hl]
      have hr : link.2.2 ∈ (Expr.compare left ops comparators).parts := by simp [parts, hright]
      exact unassigned_comparison hn (hw.inside hl) (hw.inside hr) hlink
    | .conditional test body orelse =>
      obtain ⟨a, ha, b, -, c, -, rfl⟩ := write_conditional_eq_ok.1 h
      have whole := (operand (by simp [parts]) ha).between (by decide : isOperator "?" = true)
        (b ++ " : " ++ c)
      simpa [String.append_assoc] using whole
    | .lambda params body =>
      obtain ⟨a, -, rfl⟩ := write_lambda_eq_ok.1 h
      refine (solid_of_symbol '/' ?_ (by decide) (by decide)).unassigned
      by_cases hp : params.isEmpty = true <;> simp [hp]
    | .unary op operand =>
      have unsigned : isSignedNumber op operand = false := by simpa [isCompound] using hc
      obtain ⟨a, -, rfl⟩ := write_unary_eq_ok.1 h
      rw [unsigned, if_neg Bool.false_ne_true, enclose_whole]
      obtain ⟨c, rest, ht, -, hblank⟩ := exists_head_of_isSymbolic (isSymbolic_unary op)
      refine (solid_of_symbol c (by simp [ht]) ?_ hblank).unassigned
      cases op <;> cases ht <;> decide

/-! ## The text of a name -/

/-- A name character in a text tells it from texts with a symbol. -/
theorem ne_self_of_mem {text : String} (c : Char) (hc : c ∈ text.toList)
    (hs : c ∉ ['s', 'e', 'l', 'f']) : text ≠ "self" := by
  rintro rfl
  exact hs hc

/-- Only what has no parentheses is the text `self` as an operand. -/
theorem enclose_eq_self {e : Expr} {text : String} (h : e.enclose text = "self") :
    e.isCompound = false ∧ text = "self" := by
  rw [enclose] at h
  split at h
  · exact absurd h (ne_self_of_mem '(' (by simp [parenthesize]) (by decide))
  · exact ⟨Bool.eq_false_iff.2 ‹_›, h⟩

theorem constant_ne_self {value : Constant} (hw : Named (.constant value)) :
    value.render ≠ "self" := by
  match value with
  | .none => decide
  | .bool true => decide
  | .bool false => decide
  | .int text =>
    rintro rfl
    exact absurd hw.here (by decide : ¬ isNumeric "self" = true)
  | .float text =>
    rintro rfl
    exact absurd hw.here (by decide : ¬ isNumeric "self" = true)
  | .str text => exact ne_self_of_mem '\x27' (by simp [Constant.render, quote]) (by decide)
  | .bytes data => exact ne_self_of_mem '(' (by simp [Constant.render, writeBytes]) (by decide)

/-- Only the name itself is written as `self`. -/
theorem eq_name_of_write_operand {e : Expr} (hw : Named e)
    (h : e.write view .operand = .ok "self") : e = .name "self" := by
  obtain ⟨alone, ha, henclosed⟩ := write_operand_eq_ok.1 h
  obtain ⟨hc, rfl⟩ := enclose_eq_self henclosed
  match e with
  | .name id =>
    cases ha
    rfl
  | .attribute _ _ =>
    obtain ⟨_, -, htext⟩ := write_attribute_eq_ok.1 ha
    exact absurd htext (ne_self_of_mem '.' (by simp) (by decide))
  | .constant _ => exact absurd (Except.ok.inj ha) (constant_ne_self hw)
  | .call _ _ _ =>
    obtain ⟨_, -, -, _, -, htext⟩ := write_call_eq_ok.1 ha
    exact absurd htext (ne_self_of_mem '(' (by simp) (by decide))
  | .unary op operand =>
    obtain ⟨a, -, htext⟩ := write_unary_eq_ok.1 ha
    rw [enclose_whole, ite_self] at htext
    cases op with
    | not => exact absurd htext (ne_self_of_mem '!' (by simp [UnaryOp.target]) (by decide))
    | neg => exact absurd htext (ne_self_of_mem '-' (by simp [UnaryOp.target]) (by decide))
    | pos => exact absurd htext (ne_self_of_mem '+' (by simp [UnaryOp.target]) (by decide))
    | invert => exact absurd htext (ne_self_of_mem '~' (by simp [UnaryOp.target]) (by decide))
  | .dict _ =>
    obtain ⟨_, -, htext⟩ := write_dict_eq_ok.1 ha
    exact absurd htext (ne_self_of_mem '\x7b' (by simp) (by decide))
  | .list _ =>
    obtain ⟨_, -, htext⟩ := write_list_eq_ok.1 ha
    exact absurd htext (ne_self_of_mem '[' (by simp) (by decide))
  | .tuple _ =>
    obtain ⟨-, _, -, htext⟩ := write_tuple_eq_ok.1 ha
    exact absurd htext (ne_self_of_mem '(' (by simp) (by decide))
  | .subscript _ _ =>
    obtain ⟨_, -, _, -, htext⟩ := write_subscript_eq_ok.1 ha
    exact absurd htext (ne_self_of_mem '[' (by simp) (by decide))
  | .template pieces =>
    obtain ⟨_, -, htext⟩ := write_template_eq_ok.1 ha
    refine absurd htext ?_
    unfold templateCall
    split
    · exact ne_self_of_mem '(' (by simp) (by decide)
    · exact ne_self_of_mem '\x27' (by simp [quote]) (by decide)
  | .slice _ _ _ | .set _ | .starred _ | .unsupported _ => simp [write, throw_eq_ok] at ha
  | .binary _ _ _ | .boolean _ _ | .compare _ _ _ | .conditional _ _ _ | .lambda _ _ => cases hc

end Expr

end Berrify
