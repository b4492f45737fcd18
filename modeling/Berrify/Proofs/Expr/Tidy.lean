import Berrify.Proofs.Expr.Parts
import Berrify.Proofs.Text.Tidy

/-!
# Expressions are written as tidy text

If the names in an expression and those in the tables are names and none of the structural words,
and its numbers are numerals (`Expr.WellNamed`, `Naming.WellNamed`), then the text of the expression
keeps to its line (`write_tidy`). Strings may hold anything, since they are quoted.
-/

namespace Berrify

open Text Identifier

/-! ## Names and numerals -/

/-- The tables hold names only. -/
structure Naming.WellNamed (n : Naming) : Prop where
  classes : ∀ entry ∈ n.classes.entries, isPlainName entry.2 = true
  methods : ∀ entry ∈ n.methods.entries, ∀ method ∈ entry.2.entries, isPlainName method.2 = true
  special : ∀ entry ∈ n.special.entries, isPlainName entry.2 = true

theorem NameMap.mem_of_get? {α : Type} {m : NameMap α} {name : String} {value : α}
    (h : m.get? name = some value) : (name, value) ∈ m.entries := by
  obtain ⟨pre, post, hm, -⟩ := List.lookup_eq_some_iff.1 h
  rw [hm]
  simp

/-- A name that is looked up in a table of names is a name, be it there or not. -/
theorem isPlainName_getD {m : NameMap String} (hm : ∀ entry ∈ m.entries, isPlainName entry.2 = true)
    {name : String} (h : isPlainName name = true) :
    isPlainName ((m.get? name).getD name) = true := by
  cases hg : m.get? name with
  | none => exact h
  | some value => exact hm _ (NameMap.mem_of_get? hg)

namespace Naming.WellNamed

variable {n : Naming} {name : String}

theorem specialName (hn : n.WellNamed) (h : isPlainName name = true) :
    isPlainName (n.specialName name) = true :=
  isPlainName_getD hn.special h

theorem className (hn : n.WellNamed) (h : isPlainName name = true) :
    isPlainName (n.className name) = true :=
  isPlainName_getD hn.classes h

theorem methodName (hn : n.WellNamed) (targetClass : String) (h : isPlainName name = true) :
    isPlainName (n.methodName targetClass name) = true := by
  unfold Naming.methodName
  cases hg : n.methods.get? targetClass with
  | none => exact h
  | some methods => exact isPlainName_getD (hn.methods _ (NameMap.mem_of_get? hg)) h

end Naming.WellNamed

theorem View.calleeName_plain {view : View} (hn : view.naming.WellNamed) {id : String}
    (h : isPlainName id = true) : isPlainName (view.calleeName id) = true := by
  unfold View.calleeName
  split
  · exact hn.className h
  · exact h

theorem View.methodName_plain {view : View} (hn : view.naming.WellNamed) (receiver : Expr)
    {method : String} (h : isPlainName method = true) :
    isPlainName (view.methodName receiver method) = true := by
  unfold View.methodName
  split
  · exact hn.methodName _ h
  · exact h

/-- Whether a text may stand for a number : it starts with a digit, a sign or the point, and
letters, underscores, signs and points may follow. -/
def isNumeric (text : String) : Bool :=
  match text.toList with
  | [] => false
  | c :: rest => (c.isDigit || c == '.' || c == '+' || c == '-') &&
      rest.all fun c => c.isAlphanum || c == '_' || c == '.' || c == '+' || c == '-'

/-- The characters of a numeral are neither blanks nor line breaks. -/
theorem not_blank_of_isNumeric {text : String} (h : isNumeric text = true) {c : Char}
    (hc : c ∈ text.toList) : c ≠ ' ' ∧ c ≠ '\n' := by
  have excluded (d : Char) (hfirst : (d.isDigit || d == '.' || d == '+' || d == '-') = false)
      (hlater : (d.isAlphanum || d == '_' || d == '.' || d == '+' || d == '-') = false) :
      d ∉ text.toList := by
    intro hd
    unfold isNumeric at h
    cases ht : text.toList with
    | nil => simp [ht] at hd
    | cons e rest =>
      simp only [ht, Bool.and_eq_true, List.all_eq_true] at h
      rcases List.mem_cons.1 (ht ▸ hd) with rfl | hm
      · rw [hfirst] at h
        exact absurd h.1 Bool.false_ne_true
      · have := h.2 d hm
        rw [hlater] at this
        exact absurd this Bool.false_ne_true
  exact ⟨fun hb => excluded ' ' (by decide) (by decide) (hb ▸ hc),
    fun hb => excluded '\n' (by decide) (by decide) (hb ▸ hc)⟩

theorem ne_empty_of_isNumeric {text : String} (h : isNumeric text = true) : text ≠ "" := by
  rintro rfl
  exact absurd h (by decide)

theorem isAlpha_head_of_isNumeric {text : String} (h : isNumeric text = true) {c : Char}
    (hc : text.toList.head? = some c) : c.isAlpha = false := by
  unfold isNumeric at h
  cases ht : text.toList with
  | nil => simp [ht] at hc
  | cons d rest =>
    rw [ht] at hc
    cases hc
    simp only [ht, Bool.and_eq_true, Bool.or_eq_true, beq_iff_eq] at h
    rcases h.1 with ((hd | rfl) | rfl) | rfl
    · rw [Bool.eq_false_iff]
      intro halpha
      have hstart : isNameStart c = true := by simp [isNameStart, halpha]
      rw [not_isDigit_of_isNameStart hstart] at hd
      cases hd
    · decide
    · decide
    · decide

/-- A structural word starts with a letter. -/
theorem isAlpha_of_mem_structuralWords :
    ∀ word ∈ structuralWords, word.toList.head?.any Char.isAlpha = true := by
  decide

theorem tidy_of_isNumeric {text : String} (h : isNumeric text = true) : Tidy text := by
  refine ⟨oneLine_of_forall fun c hc => (not_blank_of_isNumeric h hc).2,
    text.toList.takeWhile isNamePart, text.toList.dropWhile isNamePart,
    List.takeWhile_append_dropWhile.symm, fun c hc => List.mem_takeWhile_imp hc, ?_, ?_⟩
  · intro hm
    obtain ⟨c, hc, halpha⟩ := (Option.any_eq_true _ _).1 (isAlpha_of_mem_structuralWords _ hm)
    rw [String.toList_ofList, List.head?_takeWhile, Option.filter_eq_some_iff] at hc
    have := isAlpha_head_of_isNumeric h hc.1
    rw [halpha] at this
    exact absurd this (by decide)
  · intro c more hrest
    have hc : c ∈ text.toList := (List.dropWhile_suffix isNamePart).subset (by simp [hrest])
    have hname := List.head?_dropWhile_not isNamePart text.toList
    rw [hrest] at hname
    exact ⟨by simpa using hname, fun hb => absurd hb (not_blank_of_isNumeric h hc).1⟩

namespace Expr

/-- The names and numbers at the top of an expression are names and numbers. -/
def NamesHere : Expr → Prop
  | .name id => isPlainName id = true
  | .attribute _ attr => isPlainName attr = true
  | .constant (.int text) => isNumeric text = true
  | .constant (.float text) => isNumeric text = true
  | .lambda params _ => ∀ param ∈ params, isPlainName param = true
  | _ => True

/-- All names and numbers in an expression are names and numbers. -/
def WellNamed (e : Expr) : Prop :=
  Everywhere NamesHere e

/-! ## Operands -/

variable {view : View}

theorem tidy_constant {value : Constant} (h : WellNamed (.constant value)) :
    Tidy value.render := by
  have here := h.here
  match value with
  | .none => exact tidy_of_isPlainName (by decide)
  | .bool true => exact tidy_of_isPlainName (by decide)
  | .bool false => exact tidy_of_isPlainName (by decide)
  | .int text => exact tidy_of_isNumeric here
  | .float text => exact tidy_of_isNumeric here
  | .str text =>
    exact tidy_of_symbol '\x27' (oneLine_quote text) (by simp [Constant.render, quote]) (by decide)
      (by decide)
  | .bytes data =>
    have word : Tidy "bytes" := tidy_of_isPlainName (by decide)
    have shape : Constant.render (.bytes data) =
        "bytes" ++ ("('" ++ .ofList (data.flatMap hexByte) ++ "')") := by
      apply String.toList_injective
      simp [Constant.render, writeBytes]
    rw [shape]
    refine word.append '(' ?_ (by simp) (by decide) (by decide)
    have whole := oneLine_writeBytes data
    rw [show writeBytes data = _ from shape, oneLine_append] at whole
    exact whole.2

theorem render_constant_ne_empty {value : Constant} (hw : WellNamed (.constant value)) :
    value.render ≠ "" := by
  match value with
  | .none => decide
  | .bool true => decide
  | .bool false => decide
  | .int text => exact ne_empty_of_isNumeric hw.here
  | .float text => exact ne_empty_of_isNumeric hw.here
  | .str text => simp [Constant.render, quote]
  | .bytes data => simp [Constant.render, writeBytes]

theorem write_ne_empty {e : Expr} (hw : WellNamed e) (hc : e.isCompound = false) {text : String}
    (h : e.write view .whole = .ok text) : text ≠ "" := by
  match e with
  | .name id =>
    cases h
    rintro rfl
    have named : isPlainName "" = true := hw.here
    exact absurd named (by decide)
  | .attribute _ _ =>
    obtain ⟨_, _, rfl⟩ := write_attribute_eq_ok.1 h
    simp
  | .constant value =>
    cases h
    exact render_constant_ne_empty hw
  | .call _ _ _ =>
    obtain ⟨_, _, _, _, _, rfl⟩ := write_call_eq_ok.1 h
    simp
  | .unary op _ =>
    obtain ⟨_, _, rfl⟩ := write_unary_eq_ok.1 h
    cases op <;> simp [UnaryOp.target]
  | .dict _ =>
    obtain ⟨_, _, rfl⟩ := write_dict_eq_ok.1 h
    simp
  | .list _ =>
    obtain ⟨_, _, rfl⟩ := write_list_eq_ok.1 h
    simp
  | .tuple _ =>
    obtain ⟨_, _, _, rfl⟩ := write_tuple_eq_ok.1 h
    simp
  | .subscript _ _ =>
    obtain ⟨_, _, _, _, rfl⟩ := write_subscript_eq_ok.1 h
    simp
  | .template pieces =>
    obtain ⟨_, _, rfl⟩ := write_template_eq_ok.1 h
    unfold templateCall
    split <;> simp [quote]
  | .slice _ _ _ => simp [write, throw_eq_ok] at h
  | .set _ => simp [write, throw_eq_ok] at h
  | .starred _ => simp [write, throw_eq_ok] at h
  | .unsupported _ => simp [write, throw_eq_ok] at h

/-- An operand has a text. -/
theorem write_operand_ne_empty {e : Expr} (hw : WellNamed e) {text : String}
    (h : e.write view .operand = .ok text) : text ≠ "" := by
  obtain ⟨alone, ha, rfl⟩ := write_operand_eq_ok.1 h
  cases hc : e.isCompound with
  | true =>
    rw [enclose, if_pos hc]
    exact parenthesize_ne_empty alone
  | false =>
    rw [enclose, hc, if_neg Bool.false_ne_true]
    exact write_ne_empty hw hc ha

/-! ## All expressions -/

/-- Whatever is written of an expression is tidy. -/
def Tidily (view : View) (e : Expr) : Prop :=
  ∀ ⦃pos : Position⦄ ⦃text : String⦄, e.write view pos = .ok text → Tidy text

theorem tidy_enclose {text : String} (pos : Position) (h : Tidy text) :
    Tidy (pos.enclose text) := by
  cases pos with
  | operand => exact tidy_parenthesize h.oneLine
  | whole => exact h
  | index => exact h

theorem isSymbolic_binary {op : BinaryOp} {token : String} (h : op.target? = some token) :
    isSymbolic token = true := by
  cases op <;> cases h <;> decide

theorem isSymbolic_unary (op : UnaryOp) : isSymbolic op.target = true := by
  cases op <;> decide

theorem isSymbolic_comparison {op : Comparison} {token : String} (h : op.target? = some token) :
    isSymbolic token = true := by
  cases op <;> cases h <;> decide

theorem isSymbolic_connective (op : BooleanOp) : isSymbolic op.target = true := by
  cases op <;> decide

/-- What follows for each text from what it was written from holds for all texts. -/
theorem forall_of_forall₂ {α : Type} {p : α → String → Prop} {q : String → Prop} {es : List α}
    {texts : List String} (h : List.Forall₂ p es texts)
    (hq : ∀ e ∈ es, ∀ text, p e text → q text) : ∀ text ∈ texts, q text := by
  induction h with
  | nil => simp
  | @cons e text es texts hp _ ih =>
    intro t ht
    rcases List.mem_cons.1 ht with rfl | ht
    · exact hq e List.mem_cons_self _ hp
    · exact ih (fun e' he => hq e' (List.mem_cons_of_mem e he)) t ht

/-- Operands with an operator between them are tidy if they all are. -/
theorem tidy_separated {token : String} (ht : isSymbolic token = true) {texts : List String}
    (h : ∀ text ∈ texts, Tidy text ∧ text ≠ "") : Tidy (separated (" " ++ token ++ " ") texts) := by
  match texts with
  | [] => exact tidy_empty
  | [text] =>
    rw [separated, String.intercalate_singleton]
    exact (h text List.mem_cons_self).1
  | text :: next :: texts =>
    obtain ⟨htext, hne⟩ := h text List.mem_cons_self
    have blank : OneLine " " := by decide
    have more : OneLine (separated (" " ++ token ++ " ") (next :: texts)) :=
      oneLine_separated ((blank.append (oneLine_of_isSymbolic ht)).append blank)
        fun t hm => (h t (List.mem_cons_of_mem text hm)).1.oneLine
    have shape : separated (" " ++ token ++ " ") (text :: next :: texts) =
        text ++ " " ++ token ++ " " ++ separated (" " ++ token ++ " ") (next :: texts) := by
      rw [separated, String.intercalate_cons_cons, separated]
      simp only [String.append_assoc]
    rw [shape]
    exact htext.between hne ht more

/-- An operand is tidy and not empty. -/
theorem tidy_operand {e : Expr} (hw : WellNamed e) (he : Tidily view e) {text : String}
    (h : e.write view .operand = .ok text) : Tidy text ∧ text ≠ "" :=
  ⟨he h, write_operand_ne_empty hw h⟩

theorem tidy_operands {es : List Expr} (hw : ∀ e ∈ es, WellNamed e) (he : ∀ e ∈ es, Tidily view e)
    {texts : List String} (h : writeAll view .operand es = .ok texts) :
    ∀ text ∈ texts, Tidy text ∧ text ≠ "" :=
  forall_of_forall₂ (writeAll_eq_ok.1 h) fun e hm _ ht => tidy_operand (hw e hm) (he e hm) ht

theorem oneLine_items {es : List Expr} (he : ∀ e ∈ es, Tidily view e) {texts : List String}
    (h : writeAll view .whole es = .ok texts) : ∀ text ∈ texts, OneLine text :=
  forall_of_forall₂ (writeAll_eq_ok.1 h) fun e hm _ ht => (he e hm ht).oneLine

theorem tidy_callee (hn : view.naming.WellNamed) {func : Expr} (hw : WellNamed func)
    (he : ∀ part ∈ func.parts, Tidily view part) (hf : Tidily view func) {called : String}
    (h : callee view func = .ok called) : Tidy called := by
  match func with
  | .name id =>
    cases h
    exact tidy_of_isPlainName (view.calleeName_plain hn hw.here)
  | .attribute value attr =>
    simp only [callee, bind_eq_ok, pure_eq_ok] at h
    obtain ⟨receiver, hr, rfl⟩ := h
    have named := view.methodName_plain hn value hw.here
    rw [String.append_assoc]
    refine (he value (by simp [parts]) hr).append '.' ?_ (by simp) (by decide) (by decide)
    exact (by decide : OneLine ".").append (tidy_of_isPlainName named).oneLine
  | .constant _ | .call .. | .binary .. | .unary .. | .boolean .. | .compare .. | .conditional ..
  | .dict _ | .list _ | .tuple _ | .set _ | .subscript .. | .slice .. | .lambda .. | .template _
  | .starred _ | .unsupported _ =>
    exact hf (show Expr.write view _ .operand = .ok called from h)

theorem oneLine_arguments {es : List Expr} (he : ∀ e ∈ es, Tidily view e) {texts : List String}
    (h : writeArguments view es = .ok texts) : ∀ text ∈ texts, OneLine text := by
  refine forall_of_forall₂ (writeArguments_eq_ok.1 h) fun e hm text ht => ?_
  obtain ⟨alone, ha, rfl⟩ := ht
  have inner := (he e hm ha).oneLine
  unfold View.asArgument
  split
  · exact ((by decide : OneLine "/-> ").append inner).append (by decide)
  · exact inner

theorem oneLine_entries {entries : List (Expr × Expr)}
    (he : ∀ entry ∈ entries, Tidily view entry.1 ∧ Tidily view entry.2) {texts : List String}
    (h : writeEntries view entries = .ok texts) : ∀ text ∈ texts, OneLine text := by
  refine forall_of_forall₂ (writeEntries_eq_ok.1 h) fun entry hm text ht => ?_
  obtain ⟨key, hk, value, hv, rfl⟩ := ht
  obtain ⟨h₁, h₂⟩ := he entry hm
  exact ((h₁ hk).oneLine.append (by decide)).append (h₂ hv).oneLine

theorem tidy_memberTest (negated : Bool) {a : String} (ha : Tidy a) (hne : a ≠ "")
    {items : List String} (hi : ∀ item ∈ items, OneLine item) :
    Tidy (memberTest negated a items) := by
  have test (token item : String) (ht : isSymbolic token = true) (hitem : OneLine item) :
      Tidy (a ++ " " ++ token ++ " " ++ item) ∧ a ++ " " ++ token ++ " " ++ item ≠ "" :=
    ⟨ha.between hne ht hitem, by simp⟩
  have each (token : String) (ht : isSymbolic token = true) :
      ∀ text ∈ items.map (a ++ " " ++ token ++ " " ++ ·), Tidy text ∧ text ≠ "" := by
    intro text hm
    obtain ⟨item, hitem, rfl⟩ := List.mem_map.1 hm
    exact test token item ht (hi item hitem)
  cases negated with
  | true =>
    have joined := tidy_separated (by decide : isSymbolic "&&" = true) (each "!=" (by decide))
    simpa [memberTest, String.append_assoc] using joined
  | false =>
    have joined := tidy_separated (by decide : isSymbolic "||" = true) (each "==" (by decide))
    simpa [memberTest, String.append_assoc] using joined

theorem tidy_containsTest (negated : Bool) {collection a : String} (hc : Tidy collection)
    (ha : OneLine a) : Tidy (containsTest negated collection a) := by
  have call : OneLine (".contains(" ++ a ++ ")") :=
    ((by decide : OneLine ".contains(").append ha).append (by decide)
  have behind : Tidy (collection ++ (".contains(" ++ a ++ ")")) :=
    hc.append '.' call (by simp) (by decide) (by decide)
  unfold containsTest
  cases negated with
  | true =>
    refine tidy_of_symbol '!' ?_ (by simp) (by decide) (by decide)
    simpa [String.append_assoc] using (by decide : OneLine "!").append behind.oneLine
  | false => simpa [String.append_assoc] using behind

/-- One comparison is tidy if its operands are, and the items of a collection written out. -/
theorem tidy_comparison {left right : Expr} {op : Comparison} (hl : WellNamed left)
    (htl : Tidily view left) (htr : Tidily view right) (hitems : ∀ e ∈ right.parts, Tidily view e)
    {text : String} (h : comparison view left op right = .ok text) : Tidy text := by
  rcases comparison_cases h with ⟨token, ht, a, ha, b, hb, rfl⟩ | ⟨-, -, rfl⟩ |
    ⟨-, items, hi, hne, a, ha, texts, hts, rfl⟩ | ⟨-, -, -, collection, hc, a, ha, rfl⟩
  · obtain ⟨hta, hnea⟩ := tidy_operand hl htl ha
    exact hta.between hnea (isSymbolic_comparison ht) (htr hb).oneLine
  · unfold emptyMemberTest
    split <;> exact tidy_of_isPlainName (by decide)
  · obtain ⟨hta, hnea⟩ := tidy_operand hl htl ha
    rw [parts_of_literalItems? hi] at hitems
    exact tidy_memberTest _ hta hnea
      (forall_of_forall₂ (writeAll_eq_ok.1 hts) fun e hm _ ht => (hitems e hm ht).oneLine)
  · exact tidy_containsTest _ (htr hc) (htl ha).oneLine

theorem tidy_conjunction {parts : List String} (h : ∀ part ∈ parts, Tidy part) :
    Tidy (conjunction parts) := by
  match parts with
  | [part] => exact h part List.mem_cons_self
  | [] => exact tidy_empty
  | first :: second :: rest =>
    refine tidy_separated (by decide : isSymbolic "&&" = true) fun text hm => ?_
    obtain ⟨part, hp, rfl⟩ := List.mem_map.1 hm
    exact ⟨tidy_parenthesize (h part hp).oneLine, parenthesize_ne_empty part⟩

theorem tidy_templateCall (pieces : List (TemplatePart Expr)) {values : List String}
    (h : ∀ value ∈ values, OneLine value) : Tidy (templateCall pieces values) := by
  unfold templateCall
  split
  · have word : Tidy "string" := tidy_of_isPlainName (by decide)
    have shape : "string.format(" ++ quote (templateFormat pieces) ++ ", " ++
        commaSeparated values ++ ")" =
        "string" ++ (".format(" ++ quote (templateFormat pieces) ++ ", " ++
          commaSeparated values ++ ")") := by
      apply String.toList_injective
      simp
    rw [shape]
    refine word.append '.' ?_ (by simp) (by decide) (by decide)
    exact ((((by decide : OneLine ".format(").append (oneLine_quote _)).append (by decide)).append
      (oneLine_commaSeparated h)).append (by decide)
  · exact tidy_of_symbol '\x27' (oneLine_quote _) (by simp [quote]) (by decide) (by decide)

theorem mem_links {left : Expr} : ∀ {ops : List Comparison} {comparators : List Expr}
    {link : Expr × Comparison × Expr}, link ∈ links left ops comparators →
      (link.1 = left ∨ link.1 ∈ comparators) ∧ link.2.2 ∈ comparators
  | _ :: ops, right :: rest, link, h => by
    rcases List.mem_cons.1 h with rfl | h
    · exact ⟨.inl rfl, List.mem_cons_self⟩
    · obtain ⟨h₁, h₂⟩ := mem_links h
      refine ⟨.inr ?_, List.mem_cons_of_mem right h₂⟩
      rcases h₁ with h₁ | h₁
      · exact h₁ ▸ List.mem_cons_self
      · exact List.mem_cons_of_mem right h₁
  | [], _, _, h => by simp [links] at h
  | _ :: _, [], _, h => by simp [links] at h

/-- An expression is written tidily if its parts are, and the parts of these. -/
theorem tidily_of_parts (hn : view.naming.WellNamed) {e : Expr} (hw : WellNamed e)
    (he : ∀ part ∈ e.parts, Tidily view part)
    (hee : ∀ part ∈ e.parts, ∀ inner ∈ part.parts, Tidily view inner) : Tidily view e := by
  intro pos text h
  match e with
  | .name id =>
    cases h
    exact tidy_of_isPlainName hw.here
  | .attribute value attr =>
    obtain ⟨receiver, hr, rfl⟩ := write_attribute_eq_ok.1 h
    rw [String.append_assoc]
    refine (he value (by simp [parts]) hr).append '.' ?_ (by simp) (by decide) (by decide)
    exact (by decide : OneLine ".").append (tidy_of_isPlainName hw.here).oneLine
  | .constant value =>
    cases h
    exact tidy_constant hw
  | .call func args keywords =>
    obtain ⟨called, hc, -, texts, ht, rfl⟩ := write_call_eq_ok.1 h
    have hfunc : func ∈ (Expr.call func args keywords).parts := by simp [parts]
    have tidy := tidy_callee hn (hw.inside hfunc) (hee func hfunc) (he func hfunc) hc
    have inner := oneLine_arguments (fun e hm => he e (by simp [parts, hm])) ht
    rw [String.append_assoc, String.append_assoc]
    refine tidy.append '(' ?_ (by simp) (by decide) (by decide)
    exact (by decide : OneLine "(").append ((oneLine_commaSeparated inner).append (by decide))
  | .binary left op right =>
    obtain ⟨token, ht, a, ha, b, hb, rfl⟩ := write_binary_eq_ok.1 h
    obtain ⟨hta, hne⟩ := tidy_operand (hw.inside (by simp [parts])) (he left (by simp [parts])) ha
    exact tidy_enclose pos (hta.between hne (isSymbolic_binary ht)
      (he right (by simp [parts]) hb).oneLine)
  | .unary op operand =>
    obtain ⟨a, ha, rfl⟩ := write_unary_eq_ok.1 h
    have inner := (he operand (by simp [parts]) ha).oneLine
    have tidy : Tidy (op.target ++ a) := tidy_symbolic (isSymbolic_unary op) inner
    split
    · exact tidy
    · exact tidy_enclose pos tidy
  | .boolean op values =>
    obtain ⟨texts, ht, rfl⟩ := write_boolean_eq_ok.1 h
    exact tidy_enclose pos (tidy_separated (isSymbolic_connective op)
      (tidy_operands (fun e hm => hw.inside (by simpa [parts] using hm))
        (fun e hm => he e (by simpa [parts] using hm)) ht))
  | .compare left ops comparators =>
    obtain ⟨texts, ht, rfl⟩ := write_compare_eq_ok.1 h
    refine tidy_enclose pos (tidy_conjunction (forall_of_forall₂ ht fun link hm text hc => ?_))
    obtain ⟨hleft, hright⟩ := mem_links hm
    have hl : link.1 ∈ (Expr.compare left ops comparators).parts := by
      rcases hleft with hl | hl <;> simp [parts, hl]
    have hr : link.2.2 ∈ (Expr.compare left ops comparators).parts := by simp [parts, hright]
    exact tidy_comparison (hw.inside hl) (he _ hl) (he _ hr) (hee _ hr) hc
  | .conditional test body orelse =>
    obtain ⟨a, ha, b, hb, c, hc, rfl⟩ := write_conditional_eq_ok.1 h
    obtain ⟨hta, hne⟩ := tidy_operand (hw.inside (by simp [parts])) (he test (by simp [parts])) ha
    have inner : OneLine (b ++ " : " ++ c) :=
      ((he body (by simp [parts]) hb).oneLine.append (by decide)).append
        (he orelse (by simp [parts]) hc).oneLine
    have tidy := hta.between hne (by decide : isSymbolic "?" = true) inner
    refine tidy_enclose pos ?_
    simpa [String.append_assoc] using tidy
  | .dict entries =>
    obtain ⟨texts, ht, rfl⟩ := write_dict_eq_ok.1 h
    have inner := oneLine_entries (fun entry hm =>
      ⟨he entry.1 (List.mem_flatMap.2 ⟨entry, hm, by simp⟩),
        he entry.2 (List.mem_flatMap.2 ⟨entry, hm, by simp⟩)⟩) ht
    refine tidy_of_symbol '\x7b' ?_ (by simp) (by decide) (by decide)
    exact ((by decide : OneLine "\x7b").append (oneLine_commaSeparated inner)).append (by decide)
  | .list items =>
    obtain ⟨texts, ht, rfl⟩ := write_list_eq_ok.1 h
    have inner := oneLine_items (fun e hm => he e (by simpa [parts] using hm)) ht
    refine tidy_of_symbol '[' ?_ (by simp) (by decide) (by decide)
    exact ((by decide : OneLine "[").append (oneLine_commaSeparated inner)).append (by decide)
  | .tuple items =>
    obtain ⟨-, texts, ht, rfl⟩ := write_tuple_eq_ok.1 h
    have inner := oneLine_items (fun e hm => he e (by simpa [parts] using hm)) ht
    refine tidy_of_symbol '(' ?_ (by simp) (by decide) (by decide)
    exact ((by decide : OneLine "(").append (oneLine_commaSeparated inner)).append (by decide)
  | .set _ => simp [write, throw_eq_ok] at h
  | .subscript value index =>
    obtain ⟨a, ha, b, hb, rfl⟩ := write_subscript_eq_ok.1 h
    have inner := (he index (by simp [parts]) hb).oneLine
    rw [String.append_assoc, String.append_assoc]
    refine (he value (by simp [parts]) ha).append '[' ?_ (by simp) (by decide) (by decide)
    exact (by decide : OneLine "[").append (inner.append (by decide))
  | .slice lower upper step =>
    obtain ⟨-, -, -, a, ha, b, hb, rfl⟩ := write_slice_eq_ok.1 h
    have hlower : Tidy a := by
      cases lower with
      | none =>
        cases ha
        exact tidy_of_isNumeric (by decide)
      | some bound => exact he bound (by simp [parts]) ha
    have hupper : OneLine b := by
      cases upper with
      | none =>
        cases hb
        decide
      | some bound =>
        unfold upperBound at hb
        cases hv : bound.integerValue? with
        | some value =>
          simp only [hv, pure_eq_ok] at hb
          exact hb ▸ oneLine_writeInt _
        | none =>
          simp only [hv, bind_eq_ok, pure_eq_ok] at hb
          obtain ⟨c, hc, rfl⟩ := hb
          exact (he bound (by simp [parts]) hc).oneLine.append (by decide)
    rw [String.append_assoc]
    exact hlower.append '.' ((by decide : OneLine "..").append hupper) (by simp) (by decide)
      (by decide)
  | .lambda params body =>
    obtain ⟨a, ha, rfl⟩ := write_lambda_eq_ok.1 h
    have inner := (he body (by simp [parts]) ha).oneLine
    refine tidy_enclose pos
      (tidy_of_symbol '/' (OneLine.append ?_ inner) ?_ (by decide) (by decide))
    · split
      · decide
      · have named : ∀ param ∈ params, OneLine param := fun param hm =>
          oneLine_of_isWord (isWord_of_isPlainName (hw.here param hm))
        exact ((by decide : OneLine "/").append (oneLine_commaSeparated named)).append (by decide)
    · split <;> simp
  | .template pieces =>
    obtain ⟨texts, ht, rfl⟩ := write_template_eq_ok.1 h
    exact tidy_templateCall pieces (oneLine_items he ht)
  | .starred _ => simp [write, throw_eq_ok] at h
  | .unsupported _ => simp [write, throw_eq_ok] at h

/-- The text of an expression with proper names keeps to its line. -/
theorem write_tidy (hn : view.naming.WellNamed) {e : Expr} (hw : WellNamed e) : Tidily view e := by
  induction e using induction_on_inner_parts with
  | step e ih =>
    exact tidily_of_parts hn hw (fun part hm => (ih part hm).1 (hw.inside hm))
      fun part hm inner hi => (ih part hm).2 inner hi ((hw.inside hm).inside hi)

end Expr

end Berrify
