import Berrify.Proofs.Success
import Mathlib.Data.List.Forall2

/-!
# What a written expression is made of

One statement for each shape of expression says when `Expr.write` succeeds and what its text then
is, in terms of the texts of the parts : `write_binary_eq_ok`, `write_call_eq_ok` and so on. The
recursions over lists become statements about each member (`writeAll_eq_ok`), and a chain of
comparisons becomes the list of its links (`links`, `writeChain_eq_ok`), each of which
`comparison` writes from the texts of its two operands.

An operand is written as the expression alone and then put in parentheses where that is due
(`write_operand`).
-/

namespace Berrify.Expr

variable {view : View} {pos : Position} {text : String}

attribute [local simp] write

/-! ## Positions -/

@[simp] theorem enclose_whole (text : String) : Position.whole.enclose text = text := rfl

@[simp] theorem enclose_operand (text : String) :
    Position.operand.enclose text = parenthesize text := rfl

/-- An operand is the expression that stands alone, in parentheses if it is compound. -/
theorem write_operand (view : View) (e : Expr) :
    e.write view .operand = (e.write view .whole).map e.enclose := by
  have map_id (x : Except Cause String) : x.map (fun text => text) = x := by
    cases x <;> rfl
  have plain (e : Expr) (h : e.isCompound = false) : e.enclose = fun text => text := by
    funext text
    simp [enclose, h]
  have compound (e : Expr) (h : e.isCompound = true) : e.enclose = parenthesize := by
    funext text
    simp [enclose, h]
  cases e with
  | binary l op r =>
    rw [compound _ rfl]
    cases h : op.target? with
    | none => simp only [write, h]; rfl
    | some token => simp only [write, h, map_of_bind]; rfl
  | unary op e =>
    simp only [write, map_of_bind]
    by_cases h : isSignedNumber op e = true
    · rw [plain _ (by simp [isCompound, h])]
      simp only [h, map_id, if_true]
    · rw [compound _ (by simp [isCompound, h])]
      simp only [h]
      rfl
  | boolean op es => rw [compound _ rfl]; simp only [write, map_of_bind]; rfl
  | compare l ops cs => rw [compound _ rfl]; simp only [write, map_of_bind]; rfl
  | conditional t b o => rw [compound _ rfl]; simp only [write, map_of_bind]; rfl
  | lambda ps b => rw [compound _ rfl]; simp only [write, map_of_bind]; rfl
  | call f args ks => rw [plain _ rfl, map_id]; cases f <;> simp only [write]
  | _ => rw [plain _ rfl, map_id]; simp only [write]

theorem write_operand_eq_ok {e : Expr} :
    e.write view .operand = .ok text ↔
      ∃ alone, e.write view .whole = .ok alone ∧ e.enclose alone = text := by
  rw [write_operand, map_eq_ok]

/-! ## Lists of expressions -/

theorem writeAll_eq_ok {es : List Expr} {texts : List String} :
    writeAll view pos es = .ok texts ↔
      List.Forall₂ (fun e text => e.write view pos = .ok text) es texts := by
  induction es generalizing texts with
  | nil =>
    rw [List.forall₂_nil_left_iff, writeAll, pure_eq_ok]
    exact eq_comm
  | cons e es ih =>
    simp only [writeAll, bind_eq_ok, pure_eq_ok, ih]
    constructor
    · rintro ⟨t, ht, ts, hts, rfl⟩
      exact .cons ht hts
    · rintro (_ | ⟨ht, hts⟩)
      exact ⟨_, ht, _, hts, rfl⟩

theorem writeArguments_eq_ok {es : List Expr} {texts : List String} :
    writeArguments view es = .ok texts ↔
      List.Forall₂ (fun e text => ∃ alone, e.write view .whole = .ok alone ∧
        view.asArgument e alone = text) es texts := by
  induction es generalizing texts with
  | nil =>
    rw [List.forall₂_nil_left_iff, writeArguments, pure_eq_ok]
    exact eq_comm
  | cons e es ih =>
    simp only [writeArguments, bind_eq_ok, pure_eq_ok, ih]
    constructor
    · rintro ⟨t, ht, ts, hts, rfl⟩
      exact .cons ⟨t, ht, rfl⟩ hts
    · rintro (_ | ⟨⟨t, ht, rfl⟩, hts⟩)
      exact ⟨t, ht, _, hts, rfl⟩

theorem writeEntries_eq_ok {entries : List (Expr × Expr)} {texts : List String} :
    writeEntries view entries = .ok texts ↔
      List.Forall₂ (fun entry text => ∃ key, entry.1.write view .whole = .ok key ∧
        ∃ value, entry.2.write view .whole = .ok value ∧ key ++ ": " ++ value = text)
        entries texts := by
  induction entries generalizing texts with
  | nil =>
    rw [List.forall₂_nil_left_iff, writeEntries, pure_eq_ok]
    exact eq_comm
  | cons entry entries ih =>
    simp only [writeEntries, bind_eq_ok, pure_eq_ok, ih]
    constructor
    · rintro ⟨k, hk, v, hv, ts, hts, rfl⟩
      exact .cons ⟨k, hk, v, hv, rfl⟩ hts
    · rintro (_ | ⟨⟨k, hk, v, hv, rfl⟩, hts⟩)
      exact ⟨k, hk, v, hv, _, hts, rfl⟩

/-- The expressions that a template string embeds. -/
def embedded : List (TemplatePart Expr) → List Expr
  | [] => []
  | .text _ :: rest => embedded rest
  | .value e :: rest => e :: embedded rest

theorem writeValues_eq (view : View) (parts : List (TemplatePart Expr)) :
    writeValues view parts = writeAll view .whole (embedded parts) := by
  induction parts with
  | nil => rfl
  | cons part parts ih => cases part <;> simp only [writeValues, embedded, writeAll, ih]

/-! ## Calls -/

/-- The text of what is called. -/
def callee (view : View) : Expr → Except Cause String
  | .name id => pure (view.calleeName id)
  | .attribute value attr => do
    return (← value.write view .operand) ++ "." ++ view.methodName value attr
  | func => func.write view .operand

theorem callText_eq_ok {called : String} {keywords : List (Keyword Expr)}
    {args : Except Cause (List String)} :
    callText called keywords args = .ok text ↔
      keywords = [] ∧ ∃ texts, args = .ok texts ∧
        called ++ "(" ++ commaSeparated texts ++ ")" = text := by
  match keywords with
  | [] => simp only [callText, refuseKeywords, pure_bind, bind_eq_ok, pure_eq_ok, true_and]
  | ⟨some _, _⟩ :: _ => simp [callText, refuseKeywords, bind_eq_ok, throw_eq_ok]
  | ⟨none, _⟩ :: _ => simp [callText, refuseKeywords, bind_eq_ok, throw_eq_ok]

/-- What is called is written first, and then the call is put together. -/
theorem write_call (view : View) (func : Expr) (args : List Expr) (keywords : List (Keyword Expr))
    (pos : Position) :
    (Expr.call func args keywords).write view pos =
      callee view func >>= fun called => callText called keywords (writeArguments view args) := by
  cases func <;> simp only [write, callee, bind_assoc, pure_bind]

theorem write_call_eq_ok {func : Expr} {args : List Expr} {keywords : List (Keyword Expr)} :
    (Expr.call func args keywords).write view pos = .ok text ↔
      ∃ called, callee view func = .ok called ∧ keywords = [] ∧
        ∃ texts, writeArguments view args = .ok texts ∧
          called ++ "(" ++ commaSeparated texts ++ ")" = text := by
  rw [write_call]
  simp only [bind_eq_ok, callText_eq_ok]

/-! ## Comparisons -/

/-- The text of one comparison. -/
def comparison (view : View) (left : Expr) (op : Comparison) (right : Expr) :
    Except Cause String :=
  match op.target? with
  | some token => do
    let leftText ← left.write view .operand
    let rightText ← right.write view .operand
    return leftText ++ " " ++ token ++ " " ++ rightText
  | none =>
    match right with
    | .list items | .tuple items | .set items =>
      if items.isEmpty then pure (emptyMemberTest (op == .notMember))
      else do
        let value ← left.write view .operand
        return memberTest (op == .notMember) value (← writeAll view .operand items)
    | .name _ | .attribute .. | .subscript .. | .call .. => do
      let collection ← right.write view .whole
      return containsTest (op == .notMember) collection (← left.write view .whole)
    | _ => throw (.containment right.kindName)

theorem comparison_relation {left right : Expr} {op : Comparison} {token : String}
    (h : op.target? = some token) :
    comparison view left op right = do
      let leftText ← left.write view .operand
      let rightText ← right.write view .operand
      return leftText ++ " " ++ token ++ " " ++ rightText := by
  unfold comparison
  rw [h]

/-- The links of a chain : each comparison with its two operands. -/
def links (left : Expr) : List Comparison → List Expr → List (Expr × Comparison × Expr)
  | op :: ops, right :: rest => (left, op, right) :: links right ops rest
  | _, _ => []

theorem writeChain_cons (left : Expr) (op : Comparison) (ops : List Comparison) (right : Expr)
    (rest : List Expr) :
    writeChain view left (left.write view .whole) (op :: ops) (right :: rest) = do
      let part ← comparison view left op right
      return part :: (← writeChain view right (right.write view .whole) ops rest) := by
  cases h : op.target? with
  | some token =>
    rw [writeChain, comparison_relation h, h]
    simp only [write_operand, bind_of_map, bind_assoc, pure_bind]
  | none =>
    cases right with
    | list items | tuple items | set items =>
      rw [writeChain, comparison, h]
      simp only [write_operand]
      split <;> simp only [bind_of_map, bind_assoc, pure_bind]
    | _ =>
      simp only [writeChain, comparison, h, bind_assoc, pure_bind]

theorem writeChain_eq_ok {left : Expr} {ops : List Comparison} {comparators : List Expr}
    {texts : List String} :
    writeChain view left (left.write view .whole) ops comparators = .ok texts ↔
      List.Forall₂ (fun link text => comparison view link.1 link.2.1 link.2.2 = .ok text)
        (links left ops comparators) texts := by
  induction comparators generalizing left ops texts with
  | nil =>
    cases ops <;> rw [links, List.forall₂_nil_left_iff, writeChain, pure_eq_ok] <;>
      first | exact eq_comm | simp
  | cons right rest ih =>
    cases ops with
    | nil =>
      rw [links, List.forall₂_nil_left_iff, writeChain, pure_eq_ok]
      · exact eq_comm
      · simp
      · simp
    | cons op ops =>
      simp only [writeChain_cons, bind_eq_ok, pure_eq_ok, ih, links]
      constructor
      · rintro ⟨t, ht, ts, hts, rfl⟩
        exact .cons ht hts
      · rintro (_ | ⟨ht, hts⟩)
        exact ⟨_, ht, _, hts, rfl⟩

/-- The items of a list, tuple or set written out. -/
def literalItems? : Expr → Option (List Expr)
  | .list items => some items
  | .tuple items => some items
  | .set items => some items
  | _ => none

/-- What a comparison that could be written is : a relation of the target, a test in a literal
collection without items or with some, or a call of `contains`. -/
theorem comparison_cases {left right : Expr} {op : Comparison}
    (h : comparison view left op right = .ok text) :
    (∃ token, op.target? = some token ∧ ∃ a, left.write view .operand = .ok a ∧
      ∃ b, right.write view .operand = .ok b ∧ a ++ " " ++ token ++ " " ++ b = text) ∨
    (op.target? = none ∧ right.literalItems? = some [] ∧
      emptyMemberTest (op == .notMember) = text) ∨
    (op.target? = none ∧ ∃ items, right.literalItems? = some items ∧ items ≠ [] ∧
      ∃ a, left.write view .operand = .ok a ∧ ∃ texts, writeAll view .operand items = .ok texts ∧
        memberTest (op == .notMember) a texts = text) ∨
    (op.target? = none ∧ right.literalItems? = none ∧ right.isCompound = false ∧
      ∃ collection, right.write view .whole = .ok collection ∧
        ∃ a, left.write view .whole = .ok a ∧
          containsTest (op == .notMember) collection a = text) := by
  cases ht : op.target? with
  | some token =>
    rw [comparison_relation ht] at h
    simp only [bind_eq_ok, pure_eq_ok] at h
    exact .inl ⟨token, rfl, h⟩
  | none =>
    have literal (items : List Expr) (h : (if items.isEmpty then
        pure (emptyMemberTest (op == .notMember))
        else do
          let value ← left.write view .operand
          return memberTest (op == .notMember) value (← writeAll view .operand items)) =
          Except.ok text) :
        (items = [] ∧ emptyMemberTest (op == .notMember) = text) ∨
          (items ≠ [] ∧ ∃ a, left.write view .operand = .ok a ∧
            ∃ texts, writeAll view .operand items = .ok texts ∧
              memberTest (op == .notMember) a texts = text) := by
      cases items with
      | nil => exact .inl ⟨rfl, pure_eq_ok.1 h⟩
      | cons e es =>
        simp only [List.isEmpty_cons, Bool.false_eq_true, if_false, bind_eq_ok, pure_eq_ok] at h
        exact .inr ⟨by simp, h⟩
    cases right with
    | list items | tuple items | set items =>
      rw [comparison, ht] at h
      rcases literal items h with ⟨rfl, hm⟩ | ⟨hne, hm⟩
      · exact .inr (.inl ⟨rfl, rfl, hm⟩)
      · exact .inr (.inr (.inl ⟨rfl, items, rfl, hne, hm⟩))
    | _ =>
      simp only [comparison, ht, bind_eq_ok, pure_eq_ok, throw_eq_ok] at h <;>
        exact .inr (.inr (.inr ⟨rfl, rfl, rfl, h⟩))

theorem write_compare_eq_ok {left : Expr} {ops : List Comparison} {comparators : List Expr} :
    (Expr.compare left ops comparators).write view pos = .ok text ↔
      ∃ parts, List.Forall₂ (fun link part => comparison view link.1 link.2.1 link.2.2 = .ok part)
        (links left ops comparators) parts ∧ pos.enclose (conjunction parts) = text := by
  simp only [write, bind_eq_ok, pure_eq_ok, writeChain_eq_ok]

/-! ## The other shapes -/

theorem write_attribute_eq_ok {value : Expr} {attr : String} :
    (Expr.attribute value attr).write view pos = .ok text ↔
      ∃ receiver, value.write view .operand = .ok receiver ∧ receiver ++ "." ++ attr = text := by
  simp only [write, bind_eq_ok, pure_eq_ok]

theorem write_binary_eq_ok {left right : Expr} {op : BinaryOp} :
    (Expr.binary left op right).write view pos = .ok text ↔
      ∃ token, op.target? = some token ∧ ∃ a, left.write view .operand = .ok a ∧
        ∃ b, right.write view .operand = .ok b ∧
          pos.enclose (a ++ " " ++ token ++ " " ++ b) = text := by
  cases h : op.target? with
  | none => simp [h, throw_eq_ok]
  | some token => simp only [write, h, bind_eq_ok, pure_eq_ok, Option.some.injEq, exists_eq_left']

theorem write_unary_eq_ok {op : UnaryOp} {operand : Expr} :
    (Expr.unary op operand).write view pos = .ok text ↔
      ∃ a, operand.write view .operand = .ok a ∧
        (if isSignedNumber op operand then op.target ++ a else pos.enclose (op.target ++ a)) =
          text := by
  simp only [write, bind_eq_ok, pure_eq_ok]

theorem write_boolean_eq_ok {op : BooleanOp} {values : List Expr} :
    (Expr.boolean op values).write view pos = .ok text ↔
      ∃ texts, writeAll view .operand values = .ok texts ∧
        pos.enclose (separated (" " ++ op.target ++ " ") texts) = text := by
  simp only [write, bind_eq_ok, pure_eq_ok]

theorem write_conditional_eq_ok {test body orelse : Expr} :
    (Expr.conditional test body orelse).write view pos = .ok text ↔
      ∃ a, test.write view .operand = .ok a ∧ ∃ b, body.write view .operand = .ok b ∧
        ∃ c, orelse.write view .operand = .ok c ∧
          pos.enclose (a ++ " ? " ++ b ++ " : " ++ c) = text := by
  simp only [write, bind_eq_ok, pure_eq_ok]

theorem write_dict_eq_ok {entries : List (Expr × Expr)} :
    (Expr.dict entries).write view pos = .ok text ↔
      ∃ texts, writeEntries view entries = .ok texts ∧
        "\x7b" ++ commaSeparated texts ++ "\x7d" = text := by
  simp only [write, bind_eq_ok, pure_eq_ok]

theorem write_list_eq_ok {items : List Expr} :
    (Expr.list items).write view pos = .ok text ↔
      ∃ texts, writeAll view .whole items = .ok texts ∧
        "[" ++ commaSeparated texts ++ "]" = text := by
  simp only [write, bind_eq_ok, pure_eq_ok]

theorem write_tuple_eq_ok {items : List Expr} :
    (Expr.tuple items).write view pos = .ok text ↔
      pos ≠ .index ∧ ∃ texts, writeAll view .whole items = .ok texts ∧
        "(" ++ commaSeparated texts ++ ")" = text := by
  cases pos with
  | index => simp [throw_eq_ok]
  | _ => simp only [write, bind_eq_ok, pure_eq_ok, ne_eq, reduceCtorEq, not_false_eq_true, true_and]

theorem write_subscript_eq_ok {value index : Expr} :
    (Expr.subscript value index).write view pos = .ok text ↔
      ∃ a, value.write view .operand = .ok a ∧ ∃ b, index.write view .index = .ok b ∧
        a ++ "[" ++ b ++ "]" = text := by
  simp only [write, bind_eq_ok, pure_eq_ok]

theorem write_lambda_eq_ok {params : List String} {body : Expr} :
    (Expr.lambda params body).write view pos = .ok text ↔
      ∃ a, body.write view .whole = .ok a ∧
        pos.enclose ((if params.isEmpty then "/-> " else "/" ++ commaSeparated params ++ " -> ") ++
          a) = text := by
  simp only [write, bind_eq_ok, pure_eq_ok]

theorem write_template_eq_ok {parts : List (TemplatePart Expr)} :
    (Expr.template parts).write view pos = .ok text ↔
      ∃ texts, writeAll view .whole (embedded parts) = .ok texts ∧
        templateCall parts texts = text := by
  simp only [write, bind_eq_ok, pure_eq_ok, writeValues_eq]

/-- The text of the lower bound of a slice. -/
def lowerBound (view : View) : Option Expr → Except Cause String
  | some bound => bound.write view .operand
  | none => pure "0"

/-- The text of the upper bound of a slice, which the range includes. -/
def upperBound (view : View) : Option Expr → Except Cause String
  | some bound =>
    match bound.integerValue? with
    | some value => pure (Text.writeInt (value - 1))
    | none => do return (← bound.write view .operand) ++ " - 1"
  | none => pure "-1"

/-- A slice without a step that selects something is written bound by bound. -/
theorem write_slice {lower upper : Option Expr} (h : isEmptySlice lower upper = false) :
    (Expr.slice lower upper none).write view .index = do
      let a ← lowerBound view lower
      let b ← upperBound view upper
      return a ++ ".." ++ b := by
  cases lower <;> cases upper with
  | none => simp [h, lowerBound, upperBound]
  | some bound => cases hv : bound.integerValue? <;> simp [h, lowerBound, upperBound, hv]

theorem write_slice_eq_ok {lower upper step : Option Expr} :
    (Expr.slice lower upper step).write view pos = .ok text ↔
      pos = .index ∧ step = none ∧ isEmptySlice lower upper = false ∧
        ∃ a, lowerBound view lower = .ok a ∧ ∃ b, upperBound view upper = .ok b ∧
          a ++ ".." ++ b = text := by
  cases pos with
  | whole => simp [throw_eq_ok]
  | operand => simp [throw_eq_ok]
  | index =>
    cases step with
    | some step => simp [throw_eq_ok, bind_eq_ok]
    | none =>
      cases he : isEmptySlice lower upper with
      | true => simp [he, throw_eq_ok, bind_eq_ok]
      | false => simp only [write_slice he, bind_eq_ok, pure_eq_ok, true_and]

end Berrify.Expr
