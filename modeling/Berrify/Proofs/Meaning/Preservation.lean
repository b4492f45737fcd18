import Berrify.Proofs.Meaning.Target

/-!
# Writing keeps the meaning of arithmetic and tests

The text of a plain expression, read by the rules of the target language, is a term with the same
value. `Translates` carries the proof. It says of an expression, its text and a term that the text
is what the writer gives, that it is read as the term where it stands alone and, put in parentheses
where the writer does so, where an operand stands, and that the term keeps the value. There is one
lemma for each shape of expression, and they are put together by induction over `Expr.Plain`.
-/

namespace Berrify.Expr

open Target

variable {view : View}

/-- A term has every value that an expression has. -/
def Preserves (e : Expr) (t : Term) : Prop :=
  ∀ env v, e.value? env = some v → t.value? env = some v

/-- An expression, its text and the term that the text is read as. -/
structure Translates (view : View) (e : Expr) (text : String) (t : Term) : Prop where
  written : e.write view .whole = .ok text
  whole : ReadsWhole text t
  operand : ReadsAt 0 (e.enclose text) t
  preserves : e.Preserves t

/-- An operand that is compound stands in parentheses, so only the others have to be read as
operands as they are. -/
theorem Translates.of_whole {e : Expr} {text : String} {t : Term}
    (written : e.write view .whole = .ok text) (whole : ReadsWhole text t)
    (simple : e.isCompound = false → ReadsAt 0 text t) (preserves : e.Preserves t) :
    Translates view e text t := by
  refine ⟨written, whole, ?_, preserves⟩
  cases hc : e.isCompound with
  | true => simpa [enclose, hc] using whole.enclosed
  | false => simpa [enclose, hc] using simple hc

theorem Translates.write_operand {e : Expr} {text : String} {t : Term}
    (h : Translates view e text t) : e.write view .operand = .ok (e.enclose text) :=
  write_operand_eq_ok.2 ⟨text, h.written, rfl⟩

/-! ## Names, numerals and operators with one or two operands -/

theorem Translates.name {id : String} (h : isVariable id = true) :
    Translates view (.name id) id (.name id) := by
  simp only [isVariable, Bool.and_eq_true, bne_iff_ne] at h
  have word : Term.ofWord id = .name id := by
    rw [Term.ofWord, if_neg h.1.2, if_neg h.2]
  have reads : ReadsAt 0 id (.name id) := word ▸ ReadsAt.word h.1.1
  refine .of_whole rfl (reads.whole (Nat.zero_le _)) (fun _ => reads) fun env v hv => ?_
  rwa [value?] at hv

theorem Translates.numeral {text : String} (h : isNumeral text = true) :
    ∃ t, Translates view (.constant (.int text)) text t := by
  obtain ⟨n, hn⟩ := readDigits?_of_isNumeral h
  have reads := ReadsAt.numeral h hn
  refine ⟨_, .of_whole rfl (reads.whole (Nat.zero_le _)) (fun _ => reads) fun env v hv => ?_⟩
  rwa [value?, hn] at hv

theorem value?_apply {env : String → Int} {s : Symbol} {t u : Term} {a b : Datum}
    (ha : t.value? env = some a) (hb : u.value? env = some b) (hs : s.shortcut? a = none) :
    (Term.apply s t u).value? env = s.value? a b := by
  simp [Term.value?, ha, hb, hs]

/-- The operator that the target has for an arithmetic one. -/
theorem exists_symbol_of_arithmetic {op : BinaryOp} (h : op ∈ [BinaryOp.add, .sub, .mul]) :
    ∃ s : Symbol, op.target? = some s.spelling ∧ (∃ n, s.level? = some n ∧ n < levels) ∧
      ∀ a b v, op.value? a b = some v → s.shortcut? a = none ∧ s.value? a b = some v := by
  simp only [List.mem_cons, List.not_mem_nil, or_false] at h
  rcases h with rfl | rfl | rfl
  · refine ⟨.plus, rfl, ⟨1, rfl, by decide⟩, ?_⟩
    rintro (a | a) (b | b) v hv <;> exact ⟨rfl, hv⟩
  · refine ⟨.minus, rfl, ⟨1, rfl, by decide⟩, ?_⟩
    rintro (a | a) (b | b) v hv <;> exact ⟨rfl, hv⟩
  · refine ⟨.times, rfl, ⟨0, rfl, by decide⟩, ?_⟩
    rintro (a | a) (b | b) v hv <;> exact ⟨rfl, hv⟩

theorem Translates.binary {left right : Expr} {a b : String} {t u : Term} {op : BinaryOp}
    (hop : op ∈ [BinaryOp.add, .sub, .mul]) (hl : Translates view left a t)
    (hr : Translates view right b u) :
    ∃ text t', Translates view (.binary left op right) text t' := by
  obtain ⟨s, htarget, ⟨n, hn, hlt⟩, hvalue⟩ := exists_symbol_of_arithmetic hop
  have reads := ReadsAt.between hn (hl.operand.mono (Nat.zero_le n))
    (hr.operand.mono (Nat.zero_le n))
  refine ⟨_, _, .of_whole ?_ (reads.whole hlt) (by rintro ⟨⟩) ?_⟩
  · exact write_binary_eq_ok.2 ⟨_, htarget, _, hl.write_operand, _, hr.write_operand, rfl⟩
  · intro env v hv
    simp only [value?, Option.bind_eq_bind, Option.bind_eq_some_iff] at hv
    obtain ⟨x, hx, y, hy, hv⟩ := hv
    obtain ⟨hshort, hs⟩ := hvalue x y v hv
    rw [value?_apply (hl.preserves env x hx) (hr.preserves env y hy) hshort, hs]

/-- The operator that the target has for one with a single operand. -/
theorem exists_symbol_of_prefixed {op : UnaryOp} (h : op ∈ [UnaryOp.neg, .pos, .not]) :
    ∃ s : Symbol, op.target = s.spelling ∧ s.leads = true ∧
      ∀ a v, op.value? a = some v → s.unaryValue? a = some v := by
  simp only [List.mem_cons, List.not_mem_nil, or_false] at h
  rcases h with rfl | rfl | rfl
  · refine ⟨.minus, rfl, rfl, ?_⟩
    rintro (a | a) v hv <;> exact hv
  · refine ⟨.plus, rfl, rfl, ?_⟩
    rintro (a | a) v hv <;> exact hv
  · refine ⟨.not, rfl, rfl, ?_⟩
    rintro (a | a) v hv <;> exact hv

/-- A number with a sign is the one operand put together by an operator that stays bare : the sign
binds tightest, so it is read as an operand as it stands. -/
theorem Translates.unary {e : Expr} {a : String} {t : Term} {op : UnaryOp}
    (hop : op ∈ [UnaryOp.neg, .pos, .not]) (h : Translates view e a t) :
    ∃ text t', Translates view (.unary op e) text t' := by
  obtain ⟨s, htarget, hleads, hvalue⟩ := exists_symbol_of_prefixed hop
  have reads := h.operand.unary hleads
  refine ⟨_, _, .of_whole ?_ (reads.whole (Nat.zero_le _)) (fun _ => reads) ?_⟩
  · refine write_unary_eq_ok.2 ⟨_, h.write_operand, ?_⟩
    rw [enclose_whole, ite_self, htarget]
  · intro env v hv
    simp only [value?, Option.bind_eq_bind, Option.bind_eq_some_iff] at hv
    obtain ⟨x, hx, hv⟩ := hv
    simp [Term.value?, h.preserves env x hx, hvalue x v hv]

theorem Translates.conditional {test body orelse : Expr} {a b c : String} {t u w : Term}
    (ht : Translates view test a t) (hb : Translates view body b u)
    (ho : Translates view orelse c w) :
    ∃ text t', Translates view (.conditional test body orelse) text t' := by
  have reads := ReadsWhole.choose (ht.operand.mono (Nat.zero_le _))
    (hb.operand.whole (Nat.zero_le _)) (ho.operand.whole (Nat.zero_le _))
  refine ⟨_, _, .of_whole ?_ reads (by rintro ⟨⟩) ?_⟩
  · exact write_conditional_eq_ok.2
      ⟨_, ht.write_operand, _, hb.write_operand, _, ho.write_operand, rfl⟩
  · intro env v hv
    simp only [value?, Option.bind_eq_bind, Option.bind_eq_some_iff] at hv
    obtain ⟨x, hx, hv⟩ := hv
    rcases x with n | (_ | _)
    · cases hv
    · simp [Term.value?, ht.preserves env _ hx, ho.preserves env v hv]
    · simp [Term.value?, ht.preserves env _ hx, hb.preserves env v hv]

/-! ## Connectives -/

/-- The symbol of a connective. -/
def connectiveSymbol : BooleanOp → Symbol
  | .and => .and
  | .or => .or

theorem target_eq_spelling (op : BooleanOp) : op.target = (connectiveSymbol op).spelling := by
  cases op <;> rfl

theorem exists_level_of_connective (op : BooleanOp) :
    ∃ n, (connectiveSymbol op).level? = some n ∧ 4 ≤ n ∧ n < levels := by
  cases op with
  | and => exact ⟨4, rfl, by decide, by decide⟩
  | or => exact ⟨5, rfl, by decide, by decide⟩

/-- The truth value of terms with a connective between them, the first that decides it first. -/
def connect? (env : String → Int) (op : BooleanOp) : List Term → Option Bool
  | [] => some (!op.decisive)
  | t :: rest => do
    match ← t.value? env with
    | .bool b => if b = op.decisive then some b else connect? env op rest
    | .int _ => none

theorem connect?_cons {env : String → Int} {op : BooleanOp} {t : Term} {rest : List Term}
    {b : Bool} (h : t.value? env = some (.bool b)) :
    connect? env op (t :: rest) = if b = op.decisive then some b else connect? env op rest := by
  simp [connect?, h]

theorem value?_of_connect?_cons {env : String → Int} {op : BooleanOp} {t : Term}
    {rest : List Term} {truth : Bool} (h : connect? env op (t :: rest) = some truth) :
    ∃ b, t.value? env = some (.bool b) := by
  simp only [connect?, Option.bind_eq_bind, Option.bind_eq_some_iff] at h
  obtain ⟨n | b, hv, h⟩ := h
  · cases h
  · exact ⟨b, hv⟩

/-- A decisive left operand is the value of a connective. -/
theorem value?_apply_of_decisive {env : String → Int} {op : BooleanOp} {t u : Term}
    (h : t.value? env = some (.bool op.decisive)) :
    (Term.apply (connectiveSymbol op) t u).value? env = some (.bool op.decisive) := by
  cases op <;> simp [Term.value?, h, connectiveSymbol, Symbol.shortcut?, BooleanOp.decisive]

/-- Behind a left operand that does not decide, the right operand is the value of a connective. -/
theorem value?_apply_of_ne_decisive {env : String → Int} {op : BooleanOp} {t u : Term} {b c : Bool}
    (ht : t.value? env = some (.bool b)) (hu : u.value? env = some (.bool c))
    (hb : b ≠ op.decisive) :
    (Term.apply (connectiveSymbol op) t u).value? env = some (.bool c) := by
  cases op <;> cases b <;> simp_all [Term.value?, connectiveSymbol, Symbol.shortcut?, Symbol.value?,
    BooleanOp.decisive]

/-- Grouping to the left and stopping at the first decisive operand come to the same. -/
theorem value?_joined {env : String → Int} (op : BooleanOp) {truth : Bool} :
    ∀ {more : List Term} {t : Term}, connect? env op (t :: more) = some truth →
      (t.joined (connectiveSymbol op) more).value? env = some (.bool truth)
  | [], t, h => by
    obtain ⟨b, hb⟩ := value?_of_connect?_cons h
    rw [connect?_cons hb, connect?] at h
    have : b = truth := by
      revert h
      cases op <;> cases b <;> simp [BooleanOp.decisive]
    rw [Term.joined, List.foldl_nil, hb, this]
  | u :: more, t, h => by
    obtain ⟨b, hb⟩ := value?_of_connect?_cons h
    have shifted : connect? env op (.apply (connectiveSymbol op) t u :: more) = some truth := by
      rw [connect?_cons hb] at h
      split at h
      · rename_i hdec
        subst hdec
        rw [connect?_cons (value?_apply_of_decisive hb), if_pos rfl, h]
      · rename_i hdec
        obtain ⟨c, hc⟩ := value?_of_connect?_cons h
        rwa [connect?_cons (value?_apply_of_ne_decisive hb hc hdec), ← connect?_cons hc]
    change ((Term.apply (connectiveSymbol op) t u).joined _ more).value? env = _
    exact value?_joined op shifted

/-- Operands are written, read and keep their values one by one. -/
theorem exists_operands {es : List Expr} (h : ∀ e ∈ es, ∃ text t, Translates view e text t) :
    ∃ texts terms, writeAll view .operand es = .ok texts ∧
      List.Forall₂ (ReadsAt 0) texts terms ∧ List.Forall₂ Preserves es terms := by
  induction es with
  | nil => exact ⟨[], [], rfl, .nil, .nil⟩
  | cons e es ih =>
    obtain ⟨text, t, ht⟩ := h e List.mem_cons_self
    obtain ⟨texts, terms, hwrite, hreads, hkeeps⟩ :=
      ih fun e' he => h e' (List.mem_cons_of_mem e he)
    refine ⟨e.enclose text :: texts, t :: terms, ?_, .cons ht.operand hreads,
      .cons ht.preserves hkeeps⟩
    exact writeAll_eq_ok.2 (.cons ht.write_operand (writeAll_eq_ok.1 hwrite))

theorem connect?_of_connective? {env : String → Int} {op : BooleanOp} {es : List Expr}
    {terms : List Term} (h : List.Forall₂ Preserves es terms) {truth : Bool}
    (hv : connective? env op es = some truth) : connect? env op terms = some truth := by
  induction h with
  | nil => rwa [connective?] at hv
  | cons hpres _ ih =>
    simp only [connective?, Option.bind_eq_bind, Option.bind_eq_some_iff] at hv
    obtain ⟨n | b, hb, hv⟩ := hv
    · cases hv
    · rw [connect?_cons (hpres env _ hb)]
      dsimp only at hv
      split at hv
      · rename_i hdec
        rw [if_pos hdec, hv]
      · rename_i hdec
        rw [if_neg hdec, ih hv]

theorem Translates.boolean {op : BooleanOp} {es : List Expr} (hne : es ≠ [])
    (h : ∀ e ∈ es, ∃ text t, Translates view e text t) :
    ∃ text t, Translates view (.boolean op es) text t := by
  obtain ⟨texts, terms, hwrite, hreads, hkeeps⟩ := exists_operands h
  obtain ⟨n, hn, -, hlt⟩ := exists_level_of_connective op
  cases hreads with
  | nil => exact absurd (List.forall₂_nil_right_iff.1 hkeeps) hne
  | @cons text t texts terms hfirst hmore =>
    have reads := ReadsAt.separated hn (hfirst.mono (Nat.zero_le n))
      (hmore.imp fun _ _ hr => hr.mono (Nat.zero_le n))
    refine ⟨_, _, .of_whole ?_ (reads.whole hlt) (by rintro ⟨⟩) ?_⟩
    · refine write_boolean_eq_ok.2 ⟨_, hwrite, ?_⟩
      rw [enclose_whole, target_eq_spelling]
    · intro env v hv
      simp only [value?, Option.map_eq_some_iff] at hv
      obtain ⟨truth, hv, rfl⟩ := hv
      exact value?_joined op (connect?_of_connective? hkeeps hv)

/-! ## Comparisons -/

/-- The operator that the target has for a relation. -/
theorem exists_symbol_of_isRelation {op : Comparison} (h : op.isRelation = true) :
    ∃ s : Symbol, op.target? = some s.spelling ∧ (∃ n, s.level? = some n ∧ n < 4) ∧
      ∀ a b truth, op.holds? a b = some truth →
        s.shortcut? a = none ∧ s.value? a b = some (.bool truth) := by
  have agrees (s : Symbol) (hs : ∀ a, s.shortcut? a = none)
      (hv : ∀ a b, s.value? a b = (op.holds? a b).map .bool) :
      ∀ a b truth, op.holds? a b = some truth →
        s.shortcut? a = none ∧ s.value? a b = some (.bool truth) := by
    intro a b truth ht
    exact ⟨hs a, by rw [hv, ht]; rfl⟩
  cases op with
  | eq => exact ⟨.eq, rfl, ⟨3, rfl, by decide⟩, agrees .eq (fun _ => rfl)
      (by rintro (a | a) (b | b) <;> rfl)⟩
  | ne => exact ⟨.ne, rfl, ⟨3, rfl, by decide⟩, agrees .ne (fun _ => rfl)
      (by rintro (a | a) (b | b) <;> rfl)⟩
  | lt => exact ⟨.lt, rfl, ⟨2, rfl, by decide⟩, agrees .lt (fun _ => rfl)
      (by rintro (a | a) (b | b) <;> rfl)⟩
  | le => exact ⟨.le, rfl, ⟨2, rfl, by decide⟩, agrees .le (fun _ => rfl)
      (by rintro (a | a) (b | b) <;> rfl)⟩
  | gt => exact ⟨.gt, rfl, ⟨2, rfl, by decide⟩, agrees .gt (fun _ => rfl)
      (by rintro (a | a) (b | b) <;> rfl)⟩
  | ge => exact ⟨.ge, rfl, ⟨2, rfl, by decide⟩, agrees .ge (fun _ => rfl)
      (by rintro (a | a) (b | b) <;> rfl)⟩
  | _ => cases h

/-- The links of a chain are written and read one by one, and stopping at the first that fails
gives the value of the chain. The right operand of a link is the left one of the next, so the
induction is over the chain with the left operand free. -/
theorem exists_chain : ∀ {comparators : List Expr} {ops : List Comparison} {left : Expr}
    {a : String} {t : Term}, Translates view left a t →
    ops.length = comparators.length → (∀ op ∈ ops, op.isRelation = true) →
    (∀ e ∈ comparators, ∃ text u, Translates view e text u) →
    ∃ texts terms,
      List.Forall₂ (fun link text => comparison view link.1 link.2.1 link.2.2 = .ok text)
        (links left ops comparators) texts ∧
      List.Forall₂ (ReadsAt 4) texts terms ∧ texts.length = ops.length ∧
      ∀ env x truth, t.value? env = some x → chain? env x ops comparators = some truth →
        connect? env .and terms = some truth
  | [], [], left, a, t, _, _, _, _ =>
    ⟨[], [], .nil, .nil, rfl, fun env x truth _ h => by
      simpa [chain?, connect?, BooleanOp.decisive] using h⟩
  | [], op :: ops, left, a, t, _, hlen, _, _ => by simp at hlen
  | right :: rest, [], left, a, t, _, hlen, _, _ => by simp at hlen
  | right :: rest, op :: ops, left, a, t, hl, hlen, hops, hes => by
    obtain ⟨b, u, hr⟩ := hes right List.mem_cons_self
    obtain ⟨texts, terms, hwrite, hreads, hcount, hvalue⟩ := exists_chain hr (by simpa using hlen)
      (fun o ho => hops o (List.mem_cons_of_mem op ho))
      (fun e he => hes e (List.mem_cons_of_mem right he))
    have hop := hops op List.mem_cons_self
    obtain ⟨s, htarget, ⟨n, hn, hlt⟩, hagrees⟩ := exists_symbol_of_isRelation hop
    have reads := ReadsAt.between hn (hl.operand.mono (Nat.zero_le n))
      (hr.operand.mono (Nat.zero_le n))
    refine ⟨_ :: texts, .apply s t u :: terms, .cons ?_ hwrite, .cons (reads.mono hlt) hreads,
      by simp [hcount], fun env x truth hx hv => ?_⟩
    · rw [comparison_relation htarget, hl.write_operand, hr.write_operand]
      rfl
    · rw [chain?, Comparison.not_isContainment_of_isRelation hop, if_neg Bool.false_ne_true] at hv
      simp only [Option.bind_eq_bind, Option.bind_eq_some_iff] at hv
      obtain ⟨y, hy, holds, hh, hv⟩ := hv
      obtain ⟨hshort, hs⟩ := hagrees x y holds hh
      have link := value?_apply hx (hr.preserves env y hy) hshort
      rw [hs] at link
      rw [connect?_cons link]
      cases holds with
      | true => exact hvalue env y truth (hr.preserves env y hy) hv
      | false => exact hv

/-- A conjunction of links is read as such : one link as it stands, several in parentheses. -/
theorem readsWhole_conjunction {text : String} {t : Term} {texts : List String}
    {terms : List Term} (h : ReadsAt 4 text t) (hmore : List.Forall₂ (ReadsAt 4) texts terms) :
    ReadsWhole (conjunction (text :: texts)) (t.joined .and terms) := by
  cases hmore with
  | nil => exact h.whole (by decide)
  | cons hnext hmore =>
    have inside {text : String} {t : Term} (h : ReadsAt 4 text t) :
        ReadsAt 4 (parenthesize text) t :=
      (h.whole (by decide)).enclosed.mono (by decide)
    have enclosed := List.Forall₂.cons hnext hmore
    have reads := ReadsAt.separated (s := .and) rfl (inside h)
      (List.forall₂_map_left_iff.2 (enclosed.imp fun _ _ hr => inside hr))
    exact reads.whole (by decide)

theorem Translates.chain {left : Expr} {ops : List Comparison} {comparators : List Expr}
    {a : String} {t : Term} (hl : Translates view left a t) (hne : ops ≠ [])
    (hlen : ops.length = comparators.length) (hops : ∀ op ∈ ops, op.isRelation = true)
    (hes : ∀ e ∈ comparators, ∃ text u, Translates view e text u) :
    ∃ text t', Translates view (.compare left ops comparators) text t' := by
  obtain ⟨texts, terms, hwrite, hreads, hcount, hvalue⟩ := exists_chain hl hlen hops hes
  cases hreads with
  | nil => exact absurd (List.length_eq_zero_iff.1 hcount.symm) hne
  | cons hfirst hmore =>
    have reads := readsWhole_conjunction hfirst hmore
    refine ⟨_, _, .of_whole ?_ reads (by rintro ⟨⟩) ?_⟩
    · exact write_compare_eq_ok.2 ⟨_, hwrite, rfl⟩
    · intro env v hv
      simp only [value?, Option.bind_eq_bind, Option.bind_eq_some_iff, Option.map_eq_some_iff] at hv
      obtain ⟨x, hx, truth, hv, rfl⟩ := hv
      exact value?_joined .and (hvalue env x truth (hl.preserves env x hx) hv)

/-! ## Containment -/

theorem comparison_of_literalItems? {left right : Expr} {op : Comparison} {items : List Expr}
    (hop : op.isContainment = true) (h : right.literalItems? = some items) :
    comparison view left op right =
      if items.isEmpty then pure (emptyMemberTest (op == .notMember))
      else do
        let value ← left.write view .operand
        return memberTest (op == .notMember) value (← writeAll view .operand items) := by
  cases op <;> cases hop <;> cases right <;> cases h <;> rfl

/-- The connective of a test whether a value is one of some items, or none of them. -/
def memberConnective (negated : Bool) : BooleanOp :=
  if negated then .and else .or

/-- The relation to each item in such a test. -/
def memberRelation (negated : Bool) : Symbol :=
  if negated then .ne else .eq

theorem memberTest_eq (negated : Bool) (value : String) (items : List String) :
    memberTest negated value items =
      separated (" " ++ (connectiveSymbol (memberConnective negated)).spelling ++ " ")
        (items.map (value ++ " " ++ (memberRelation negated).spelling ++ " " ++ ·)) := by
  cases negated
  · simp only [memberTest, memberConnective, memberRelation, connectiveSymbol, Symbol.spelling,
      Bool.false_eq_true, if_false, String.append_assoc]
    rfl
  · simp only [memberTest, memberConnective, memberRelation, connectiveSymbol, Symbol.spelling,
      if_true, String.append_assoc]
    rfl

theorem level?_memberRelation (negated : Bool) : (memberRelation negated).level? = some 3 := by
  cases negated <;> rfl

/-- Negating a test for containment negates its relations and swaps its connective. -/
theorem connect?_member {env : String → Int} (negated : Bool) {t : Term} {x : Datum}
    (hx : t.value? env = some x) {terms : List Term} {values : List Datum}
    (h : List.Forall₂ (fun u y => u.value? env = some y) terms values) {found : Bool}
    (hf : x.isOneOf? values = some found) :
    connect? env (memberConnective negated) (terms.map (.apply (memberRelation negated) t)) =
      some (found != negated) := by
  induction h with
  | nil =>
    cases hf
    cases negated <;> rfl
  | @cons u y terms values hu _ ih =>
    simp only [Datum.isOneOf?, Option.bind_eq_bind, Option.bind_eq_some_iff] at hf
    obtain ⟨equal, he, hf⟩ := hf
    have link : (Term.apply (memberRelation negated) t u).value? env =
        some (.bool (equal != negated)) := by
      rw [value?_apply hx hu (by cases negated <;> rfl)]
      cases negated <;> cases x <;> cases y <;> cases he <;>
        simp [memberRelation, Symbol.value?, bne]
    rw [List.map_cons, connect?_cons link]
    cases equal with
    | true =>
      cases hf
      cases negated <;> rfl
    | false =>
      rw [if_neg (by cases negated <;> decide)]
      exact ih hf

theorem forall₂_value? {env : String → Int} {es : List Expr} {terms : List Term}
    (h : List.Forall₂ Preserves es terms) : ∀ {values : List Datum}, values? env es = some values →
      List.Forall₂ (fun u y => u.value? env = some y) terms values := by
  induction h with
  | nil =>
    intro values hv
    cases hv
    exact .nil
  | cons hpres _ ih =>
    intro values hv
    simp only [values?, Option.bind_eq_bind, Option.bind_eq_some_iff, Option.pure_def,
      Option.some.injEq] at hv
    obtain ⟨y, hy, ys, hys, rfl⟩ := hv
    exact .cons (hpres env y hy) (ih hys)

theorem Translates.containment {left right : Expr} {op : Comparison} {items : List Expr}
    {a : String} {t : Term} (hop : op.isContainment = true)
    (hright : right.literalItems? = some items) (hl : Translates view left a t)
    (hes : ∀ e ∈ items, ∃ text u, Translates view e text u) :
    ∃ text t', Translates view (.compare left [op] [right]) text t' := by
  obtain ⟨texts, terms, hwrite, hreads, hkeeps⟩ := exists_operands hes
  have written {text : String} (h : comparison view left op right = .ok text) :
      (Expr.compare left [op] [right]).write view .whole = .ok text :=
    write_compare_eq_ok.2 ⟨[text], .cons h .nil, rfl⟩
  have meaning {env : String → Int} {v : Datum}
      (hv : (Expr.compare left [op] [right]).value? env = some v) :
      ∃ x, left.value? env = some x ∧ ∃ values, values? env items = some values ∧
        ∃ found, x.isOneOf? values = some found ∧ .bool (found != (op == .notMember)) = v := by
    simpa [value?, chain?, hop, items?_of_literalItems? hright, Option.bind_eq_some_iff] using hv
  cases hreads with
  | nil =>
    cases List.forall₂_nil_right_iff.1 hkeeps
    have reads : ReadsAt 0 (emptyMemberTest (op == .notMember)) (.truth (op == .notMember)) := by
      cases op == .notMember
      · exact .word (by decide : Text.isWord "false" = true)
      · exact .word (by decide : Text.isWord "true" = true)
    refine ⟨_, _, .of_whole (written (comparison_of_literalItems? hop hright))
      (reads.whole (Nat.zero_le _)) (by rintro ⟨⟩) fun env v hv => ?_⟩
    obtain ⟨x, -, values, hvs, found, hf, rfl⟩ := meaning hv
    cases hvs
    cases hf
    simp [Term.value?]
  | @cons text u texts terms hfirst hmore =>
    obtain ⟨n, hn, hle, hlt⟩ := exists_level_of_connective (memberConnective (op == .notMember))
    have link {text : String} {u : Term} (h : ReadsAt 0 text u) :
        ReadsAt n (left.enclose a ++ " " ++ (memberRelation (op == .notMember)).spelling ++ " " ++
          text) (.apply (memberRelation (op == .notMember)) t u) :=
      (ReadsAt.between (level?_memberRelation _) (hl.operand.mono (Nat.zero_le 3))
        (h.mono (Nat.zero_le 3))).mono hle
    have reads := ReadsAt.separated hn (link hfirst)
      (List.forall₂_map_left_iff.2 (List.forall₂_map_right_iff.2 (hmore.imp fun _ _ h => link h)))
    have hne : items ≠ [] := by
      rintro rfl
      cases hkeeps
    refine ⟨_, _, .of_whole (written ?_) (reads.whole hlt) (by rintro ⟨⟩)
      fun env v hv => ?_⟩
    · rw [comparison_of_literalItems? hop hright, if_neg (by simpa using hne), hl.write_operand,
        hwrite]
      exact congrArg Except.ok (memberTest_eq ..)
    · obtain ⟨x, hx, values, hvs, found, hf, rfl⟩ := meaning hv
      have hitems := forall₂_value? hkeeps hvs
      exact value?_joined _ (connect?_member _ (hl.preserves env x hx) hitems hf)

/-! ## All plain expressions -/

/-- Every plain expression is written as text that is read as a term with the same value. -/
theorem exists_translates {e : Expr} (h : e.Plain) (view : View) :
    ∃ text t, Translates view e text t := by
  induction h with
  | name h => exact ⟨_, _, .name h⟩
  | numeral h => exact ⟨_, Translates.numeral h⟩
  | arithmetic hop _ _ ihl ihr =>
    obtain ⟨_, _, hl⟩ := ihl
    obtain ⟨_, _, hr⟩ := ihr
    exact Translates.binary hop hl hr
  | prefixed hop _ ih =>
    obtain ⟨_, _, h⟩ := ih
    exact Translates.unary hop h
  | connective hne _ ih => exact Translates.boolean hne ih
  | chain hne hlen hops _ _ ihl ihs =>
    obtain ⟨_, _, hl⟩ := ihl
    exact Translates.chain hl hne hlen hops ihs
  | containment hop hright _ _ ihl ihs =>
    obtain ⟨_, _, hl⟩ := ihl
    exact Translates.containment hop hright hl ihs
  | conditional _ _ _ iht ihb iho =>
    obtain ⟨_, _, ht⟩ := iht
    obtain ⟨_, _, hb⟩ := ihb
    obtain ⟨_, _, ho⟩ := iho
    exact Translates.conditional ht hb ho

/-- A plain test is never put in parentheses as a whole. -/
theorem Plain.not_isContainsTest {e : Expr} (h : e.Plain) : e.isContainsTest = false := by
  cases h with
  | @chain left ops comparators _ _ hops =>
    match ops, comparators with
    | [op], collection :: _ =>
      have hop := hops op List.mem_cons_self
      cases op <;> first | rfl | cases hop
    | [], _ | [_], [] | _ :: _ :: _, _ => rfl
  | @containment left right op items hop hright =>
    cases right <;> cases hright <;> simp [isContainsTest, isLiteralCollection]
  | _ => rfl

/-- The text of a plain expression is read in the target language as a term with the value that the
expression has, whatever its names stand for; an expression of a kind has such a value. The text
of a condition is the same. -/
theorem rendering_preserves_meaning {e : Expr} (h : e.Plain) (view : View) :
    ∃ text term, e.render view = .ok text ∧ e.renderCondition view = .ok text ∧
      read? text = some term ∧
      (∀ env v, e.value? env = some v → term.value? env = some v) ∧
      ∀ κ, e.HasKind κ → ∀ env, ∃ v, v.kind = κ ∧ e.value? env = some v ∧
        term.value? env = some v := by
  obtain ⟨text, term, ht⟩ := exists_translates h view
  refine ⟨text, term, ht.written, ?_, ht.whole.read?, ht.preserves, fun κ hκ env => ?_⟩
  · rw [renderCondition, render, ht.written, h.not_isContainsTest]
    rfl
  · obtain ⟨v, hv, hk⟩ := value_of_hasKind hκ env
    exact ⟨v, hk, hv, ht.preserves env v hv⟩

/-- `not a < b <= 3 or -a not in (b, 3)` where both names stand for two. -/
theorem rendering_preserves_meaning_of_disjunction :
    let three : Expr := .constant (.int "3")
    let e : Expr := .boolean .or
      [.unary .not (.compare (.name "a") [.lt, .le] [.name "b", three]),
        .compare (.unary .neg (.name "a")) [.notMember] [.tuple [.name "b", three]]]
    ∃ text term, e.render ⟨default, default⟩ = .ok text ∧ read? text = some term ∧
      term.value? (fun _ => 2) = some (.bool true) := by
  have a : Plain (.name "a") := .name (by decide)
  have both : ∀ e ∈ [Expr.name "b", .constant (.int "3")], Plain e := by
    have b : Plain (.name "b") := .name (by decide)
    have three : Plain (.constant (.int "3")) := .numeral (by decide)
    simpa using ⟨b, three⟩
  have chain : Plain (.compare (.name "a") [.lt, .le] [.name "b", .constant (.int "3")]) :=
    .chain (by simp) rfl (by decide) a both
  have test : Plain (.compare (.unary .neg (.name "a")) [.notMember]
      [.tuple [.name "b", .constant (.int "3")]]) :=
    .containment rfl rfl (.prefixed (by decide) a) both
  intro three e
  have plain : e.Plain := by
    refine .connective (by simp) ?_
    simpa using ⟨.prefixed (by decide) chain, test⟩
  obtain ⟨text, term, hr, -, hread, hv, -⟩ := rendering_preserves_meaning plain ⟨default, default⟩
  exact ⟨text, term, hr, hread, hv _ _ rfl⟩

end Berrify.Expr
