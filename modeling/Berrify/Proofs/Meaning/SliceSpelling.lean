import Berrify.Literal.Integer
import Berrify.Proofs.Meaning.Slice
import Mathlib.Data.List.SplitBy

/-!
# Spellings of slice bounds

A bound that is a constant integer can be spelled in decimal or in hexadecimal, below any number of
signs (`Expr.ConstantBound`). The range that is written for a slice with such bounds has the same
bounds whatever their spelling is (`exists_range`, with `Target.decimalized` for the hexadecimal
numerals of the target). The refusal of slices that select nothing does depend on the spelling : it
sees the value of a bound only if that is decimal, below minus signs and not too large
(`Expr.ShowsEmpty`, `isEmptySlice_constant_iff`).

So two slices with equal bounds are treated alike unless they select nothing and only one of them
shows it (`slices_treated_alike_iff`).
-/

namespace Berrify

open Text Text.Identifier

/-! ## Hexadecimal numerals of the target -/

namespace Target

/-- A run of name characters, in decimal if it is a hexadecimal numeral. -/
def decimalRun (run : List Char) : List Char :=
  match run with
  | '0' :: letter :: digits =>
    if letter = 'x' ∨ letter = 'X' then
      ((readDigits? 16 digits).map fun n => (writeNat n).toList).getD run
    else run
  | _ => run

/-- Whether two neighbours belong to one run of name characters. -/
def inOneRun (a b : Char) : Bool :=
  isNamePart a && isNamePart b

/-- A text with its hexadecimal numerals in decimal. -/
def decimalized (text : String) : String :=
  .ofList ((text.toList.splitBy inOneRun).flatMap decimalRun)

/-- Texts that do not meet inside of a run are put in decimal each for itself. -/
theorem decimalized_append {a b : String}
    (h : ∀ x ∈ a.toList.getLast?, ∀ y ∈ b.toList.head?, inOneRun x y = false) :
    decimalized (a ++ b) = decimalized a ++ decimalized b := by
  rw [decimalized, String.toList_append, List.splitBy_append h, List.flatMap_append,
    String.ofList_append, decimalized, decimalized]

/-- A symbol at the end of a text is not part of a run. -/
theorem decimalized_symbol_append {a : String} {c : Char} (hlast : a.toList.getLast? = some c)
    (hc : isNamePart c = false) (b : String) :
    decimalized (a ++ b) = decimalized a ++ decimalized b := by
  refine decimalized_append fun x hx y _ => ?_
  rw [hlast, Option.mem_some_iff] at hx
  rw [inOneRun, ← hx, hc, Bool.false_and]

/-- A symbol at the front of a text is not part of a run. -/
theorem decimalized_append_symbol (a : String) {b : String} {c : Char}
    (hhead : b.toList.head? = some c) (hc : isNamePart c = false) :
    decimalized (a ++ b) = decimalized a ++ decimalized b := by
  refine decimalized_append fun x _ y hy => ?_
  rw [hhead, Option.mem_some_iff] at hy
  rw [inOneRun, ← hy, hc, Bool.and_false]

theorem decimalized_run {text : String} (hne : text.toList ≠ [])
    (h : ∀ c ∈ text.toList, isNamePart c = true) :
    decimalized text = .ofList (decimalRun text.toList) := by
  have run : text.toList.IsChain fun a b => inOneRun a b = true := by
    refine (List.pairwise_of_forall_mem_list fun a ha b hb => ?_).isChain
    rw [inOneRun, h a ha, h b hb, Bool.and_self]
  rw [decimalized, List.splitBy_of_isChain hne run, List.flatMap_singleton]

theorem isNamePart_of_isDigitOf {base : ℕ} {c : Char} (h : isDigitOf base c = true) :
    isNamePart c = true := by
  have letter (hc : c.isUpper = true ∨ c.isLower = true) : isNamePart c = true := by
    have alpha : c.isAlpha = true := Bool.or_eq_true_iff.2 hc
    simp [isNamePart, isNameStart, alpha]
  rw [isDigitOf, digitValue?] at h
  split_ifs at h with decimal lower upper
  · have digit : c.isDigit = true := by
      simpa [Char.isDigit, Char.le_def] using decimal
    simp [isNamePart, digit]
  · have last : c ≤ 'z' := Char.le_trans lower.2 (by decide : 'f' ≤ 'z')
    exact letter (.inr (Bool.and_eq_true_iff.2 ⟨decide_eq_true lower.1, decide_eq_true last⟩))
  · have last : c ≤ 'Z' := Char.le_trans upper.2 (by decide : 'F' ≤ 'Z')
    exact letter (.inl (decide_eq_true ⟨upper.1, last⟩))
  · cases h

theorem decimalRun_digits {digits : List Char} (h : ∀ c ∈ digits, c.isDigit = true) :
    decimalRun digits = digits := by
  unfold decimalRun
  split
  · rename_i letter rest
    have digit := h letter (by simp)
    have noMark : ¬(letter = 'x' ∨ letter = 'X') := by
      rintro (rfl | rfl) <;> exact absurd digit (by decide)
    rw [if_neg noMark]
  · rfl

theorem decimalized_digits {text : String} (h : ∀ c ∈ text.toList, c.isDigit = true) :
    decimalized text = text := by
  by_cases hne : text.toList = []
  · have empty : text = "" := String.toList_injective hne
    rw [empty]
    decide
  · rw [decimalized_run hne fun c hc => by simp [isNamePart, h c hc], decimalRun_digits h,
      String.ofList_toList]

theorem decimalized_writeNat (n : ℕ) : decimalized (writeNat n) = writeNat n :=
  decimalized_digits fun _ => isDigit_of_mem_writeNat

theorem decimalized_writeInt (value : Int) : decimalized (writeInt value) = writeInt value := by
  unfold writeInt
  split
  · rw [decimalized_symbol_append (c := '-') (by decide) (by decide), decimalized_writeNat]
    exact congrArg (· ++ _) (by decide : decimalized "-" = "-")
  · exact decimalized_writeNat _

/-- A hexadecimal numeral is put in decimal. -/
theorem decimalized_hexadecimal (capital : Bool) {spelled : List Char} {n : ℕ}
    (h : readDigits? 16 spelled = some n) :
    decimalized (.ofList ((Radix.hexadecimal capital).mark ++ spelled)) = writeNat n := by
  obtain ⟨-, digits⟩ := isDigitOf_of_readDigits? (Option.isSome_of_eq_some h)
  have name : ∀ c ∈ (Radix.hexadecimal capital).mark ++ spelled, isNamePart c = true := by
    refine List.forall_mem_append.2 ⟨List.all_eq_true.1 ?_, fun c hc => ?_⟩
    · cases capital <;> rfl
    · exact isNamePart_of_isDigitOf (digits c hc)
  have run : decimalRun ((Radix.hexadecimal capital).mark ++ spelled) = (writeNat n).toList := by
    cases capital <;> simp [Radix.mark, decimalRun, h]
  rw [decimalized_run (by simp [Radix.mark]) (by simpa using name), String.toList_ofList, run,
    String.ofList_toList]

/-! ## Texts that stand for an integer -/

/-- A text that stands for an integer wherever a number may stand. -/
structure Denotes (text : String) (value : Int) : Prop where
  term : ∃ t, ReadsAt 0 (decimalized text) t ∧ ∀ env, t.value? env = some (.int value)
  noDot : '.' ∉ (decimalized text).toList

namespace Denotes

variable {text : String} {value : Int}

theorem decimal {n : ℕ} (hnum : Expr.isNumeral text = true)
    (hn : readDigits? 10 text.toList = some n) : Denotes text n := by
  have digits : ∀ c ∈ text.toList, c.isDigit = true := by
    simp only [Expr.isNumeral, Bool.and_eq_true, List.all_eq_true] at hnum
    exact hnum.2
  have same := decimalized_digits digits
  refine ⟨⟨.number n, same.symm ▸ .numeral hnum hn, fun env => rfl⟩, ?_⟩
  rw [same]
  exact fun hm => absurd (digits _ hm) (by decide)

theorem hexadecimal (capital : Bool) {digits : List Char} {n : ℕ}
    (h : readDigits? 16 digits = some n) :
    Denotes (.ofList ((Radix.hexadecimal capital).mark ++ digits)) n := by
  have same := decimalized_hexadecimal capital h
  refine ⟨⟨.number n, same.symm ▸ readsAt_writeNat n, fun env => rfl⟩, ?_⟩
  rw [same]
  exact not_mem_writeNat (by decide) n

theorem signed {op : UnaryOp} (hop : op.isSign = true) {signed : Int}
    (hvalue : op.value? (.int value) = some (.int signed)) (h : Denotes text value) :
    Denotes (op.target ++ text) signed := by
  obtain ⟨t, hread, ht⟩ := h.term
  have listed : op ∈ [UnaryOp.neg, .pos, .not] := by
    cases op <;> first | decide | cases hop
  obtain ⟨s, htarget, hleads, hunary⟩ := Expr.exists_symbol_of_prefixed listed
  have sign : decimalized op.target = op.target := by
    cases op <;> decide
  have seam : decimalized (op.target ++ text) = decimalized op.target ++ decimalized text := by
    cases op <;> exact decimalized_symbol_append rfl (by decide) text
  have shape : decimalized (op.target ++ text) = s.spelling ++ decimalized text := by
    rw [seam, sign, htarget]
  refine ⟨⟨.unary s t, shape.symm ▸ hread.unary hleads, fun env => ?_⟩, ?_⟩
  · rw [Term.value?, ht]
    exact hunary _ _ hvalue
  · rw [shape, ← htarget, String.toList_append, List.mem_append, not_or]
    refine ⟨?_, h.noDot⟩
    cases op <;> decide

theorem enclosed (h : Denotes text value) : Denotes (parenthesize text) value := by
  obtain ⟨t, hread, ht⟩ := h.term
  have shape : decimalized (parenthesize text) = parenthesize (decimalized text) := by
    rw [parenthesize, decimalized_append_symbol (c := ')') _ (by decide) (by decide),
      decimalized_symbol_append (c := '(') (by decide) (by decide)]
    rfl
  refine ⟨⟨t, shape.symm ▸ (hread.whole (Nat.zero_le _)).enclosed, ht⟩, ?_⟩
  rw [shape]
  simp [parenthesize, h.noDot]

theorem operand (e : Expr) (h : Denotes text value) : Denotes (e.enclose text) value := by
  unfold Expr.enclose
  split
  · exact h.enclosed
  · exact h

theorem isBound (h : Denotes text value) : IsBound (decimalized text) value := by
  obtain ⟨t, hread, ht⟩ := h.term
  exact isBound_of_reads hread ht h.noDot

theorem isBound_sub_one (h : Denotes text value) :
    IsBound (decimalized (text ++ " - 1")) (value - 1) := by
  obtain ⟨t, hread, ht⟩ := h.term
  have shape : decimalized (text ++ " - 1") = decimalized text ++ " - 1" := by
    rw [decimalized_append_symbol (c := ' ') _ (by decide) (by decide)]
    exact congrArg (_ ++ ·) (by decide : decimalized " - 1" = " - 1")
  have one : ReadsAt 0 "1" (.number 1) := readsAt_writeNat 1
  have difference := ReadsAt.between (s := .minus) rfl (hread.mono (Nat.zero_le 1))
    (one.mono (Nat.zero_le 1))
  have spelled : decimalized text ++ " " ++ Symbol.minus.spelling ++ " " ++ "1" =
      decimalized text ++ " - 1" := by
    rw [String.append_assoc, String.append_assoc, String.append_assoc]
    rfl
  rw [shape]
  refine isBound_of_whole (spelled ▸ difference.whole (by decide)) (fun env => ?_) ?_
  · exact Expr.value?_apply (s := .minus) (u := .number 1) (ht env) rfl rfl
  · simp [h.noDot]

end Denotes

end Target

/-! ## Constant bounds -/

namespace Expr

/-- Integers as a script spells them, and the integer that each is : decimal and hexadecimal
numerals under any number of signs. -/
inductive ConstantBound : Expr → Int → Prop where
  | decimal {text : String} {n : ℕ} : isNumeral text = true →
      readDigits? 10 text.toList = some n → ConstantBound (.constant (.int text)) n
  | hexadecimal (capital : Bool) {digits : List Char} {n : ℕ} : readDigits? 16 digits = some n →
      ConstantBound (.constant (.int (.ofList ((Radix.hexadecimal capital).mark ++ digits)))) n
  | negated {e : Expr} {value : Int} : ConstantBound e value →
      ConstantBound (.unary .neg e) (-value)
  | kept {e : Expr} {value : Int} : ConstantBound e value → ConstantBound (.unary .pos e) value

/-- A literal that is read as a constant is one, with the value of the literal. -/
theorem constantBound_lower {n : IntLiteral} {c : Constant} (h : n.lower = .constant c) :
    ConstantBound n.lower n.value := by
  have read : readDigits? n.radix.base n.digits = some n.value := (Option.some_get n.isNumeral).symm
  have rewritten : ConstantBound (.constant (.int (writeNat n.value))) n.value :=
    .decimal (Target.isNumeral_writeNat _) (readDigits?_writeNat _)
  have noSuffix : ¬n.suffix.isSome = true := by
    intro hsuffix
    rw [IntLiteral.lower, if_pos hsuffix] at h
    cases h
  rw [IntLiteral.lower, if_neg noSuffix] at h ⊢
  cases hradix : n.radix with
  | decimal =>
    rw [hradix] at read
    obtain ⟨given, digits⟩ := isDigitOf_of_readDigits? (Option.isSome_of_eq_some read)
    refine .decimal ?_ (by rwa [String.toList_ofList])
    simpa [isNumeral, given] using fun c hc => isDigit_of_isDigitOf (digits c hc)
  | hexadecimal capital =>
    rw [hradix] at read
    exact .hexadecimal capital read
  | octal capital | binary capital =>
    simp only [hradix] at h ⊢
    split at h
    · rename_i fits
      rwa [if_pos fits]
    · cases h

/-- A bound whose value the refusal of empty slices can see. -/
def IsDecimal (e : Expr) : Prop :=
  ∃ value, IntegerBound e value

namespace ConstantBound

variable {e : Expr} {value : Int}

/-- A constant is written as a text that stands for it. -/
theorem exists_text (h : ConstantBound e value) (view : View) :
    ∃ text, e.write view .whole = .ok text ∧ Target.Denotes text value := by
  have sign {op : UnaryOp} {e : Expr} {text : String} (hw : e.write view .whole = .ok text) :
      (Expr.unary op e).write view .whole = .ok (op.target ++ e.enclose text) :=
    write_unary_eq_ok.2 ⟨_, write_operand_eq_ok.2 ⟨text, hw, rfl⟩, by rw [enclose_whole, ite_self]⟩
  induction h with
  | decimal hnum hn => exact ⟨_, rfl, .decimal hnum hn⟩
  | hexadecimal capital hn => exact ⟨_, rfl, .hexadecimal capital hn⟩
  | @negated e _ _ ih =>
    obtain ⟨text, hw, ht⟩ := ih
    exact ⟨_, sign hw, (ht.operand e).signed rfl rfl⟩
  | @kept e _ _ ih =>
    obtain ⟨text, hw, ht⟩ := ih
    exact ⟨_, sign hw, (ht.operand e).signed rfl rfl⟩

/-- A constant has one value. -/
theorem unique (h : ConstantBound e value) {other : Int} (h' : ConstantBound e other) :
    value = other := by
  obtain ⟨text, hw, ht⟩ := h.exists_text ⟨default, default⟩
  obtain ⟨text', hw', ht'⟩ := h'.exists_text ⟨default, default⟩
  obtain rfl : text = text' := ok_unique rfl hw hw'
  have same := (ht.isBound.integer fun _ => 0).symm.trans (ht'.isBound.integer fun _ => 0)
  exact Option.some.inj same

/-- The value of a constant is seen if that is decimal, and else nothing is. -/
theorem integerValue? (h : ConstantBound e value) :
    (IsDecimal e ∧ e.integerValue? = some value) ∨ (¬IsDecimal e ∧ e.integerValue? = none) := by
  have unseen {e : Expr} (hnone : e.integerValue? = none) : ¬IsDecimal e := by
    rintro ⟨v, hv⟩
    rw [hv.integerValue?] at hnone
    cases hnone
  suffices IntegerBound e value ∨ e.integerValue? = none by
    rcases this with hb | hnone
    · exact .inl ⟨⟨value, hb⟩, hb.integerValue?⟩
    · exact .inr ⟨unseen hnone, hnone⟩
  induction h with
  | @decimal text n hnum hn =>
    by_cases hlt : n < 0x8000000000000000
    · exact .inl (.numeral hnum hn hlt)
    · have digits : ∀ c ∈ text.toList, c.isDigit = true := by
        simp only [isNumeral, Bool.and_eq_true, List.all_eq_true] at hnum
        exact hnum.2
      have large : ¬fitsInt64 n = true := by
        simp only [fitsInt64, Bool.and_eq_true, decide_eq_true_eq]
        omega
      refine .inr ?_
      rw [Expr.integerValue?, readInt64?, readInt?_of_digits digits hn, Option.filter_some,
        if_neg large]
  | hexadecimal capital _ =>
    refine .inr ?_
    rw [Expr.integerValue?, readInt64?, String.toList_ofList]
    cases capital <;> rfl
  | negated _ ih =>
    rcases ih with hb | hnone
    · exact .inl hb.negated
    · exact .inr (by rw [Expr.integerValue?, hnone, Option.map_none])
  | kept => exact .inr rfl

end ConstantBound

/-! ## Slices with constant bounds -/

/-- Whether the refusal of empty slices can see that a slice selects nothing : its bounds are one
expression, or decimal as far as their values matter. If the upper bound is zero, the lower one does
not. -/
def ShowsEmpty (lower upper : Option Expr) (hi : Option Int) : Prop :=
  lower = upper ∨ (∀ u ∈ upper, IsDecimal u) ∧ (hi = some 0 ∨ ∀ l ∈ lower, IsDecimal l)

section

variable {lower upper : Option Expr} {lo hi : Option Int}

/-- A slice is taken for empty if it selects nothing and shows it. -/
theorem isEmptySlice_constant_iff (hlower : Option.Rel ConstantBound lower lo)
    (hupper : Option.Rel ConstantBound upper hi) :
    isEmptySlice lower upper = true ↔ NeverSelects lo hi ∧ ShowsEmpty lower upper hi := by
  cases hupper with
  | none => exact iff_of_false (by simp [isEmptySlice]) (by simp [NeverSelects])
  | @some u b hu =>
    cases hlower with
    | none =>
      rcases hu.integerValue? with ⟨hdecimal, hv⟩ | ⟨hdecimal, hv⟩ <;>
        simp [isEmptySlice, NeverSelects, ShowsEmpty, hv, hdecimal]
    | @some l a hl =>
      have same : l = u → b ≤ a ∧ (a < 0 ↔ b < 0) := by
        rintro rfl
        obtain rfl := hl.unique hu
        exact ⟨Int.le_refl a, Iff.rfl⟩
      rcases hu.integerValue? with ⟨hdu, hvu⟩ | ⟨hdu, hvu⟩ <;>
        rcases hl.integerValue? with ⟨hdl, hvl⟩ | ⟨hdl, hvl⟩ <;>
          simp [isEmptySlice, boundsCross, NeverSelects, ShowsEmpty, hvu, hdu, hvl, hdl] <;> grind

theorem exists_constant_lowerBound (h : Option.Rel ConstantBound lower lo) (view : View) :
    ∃ text, lowerBound view lower = .ok text ∧
      Target.IsBound (Target.decimalized text) (lo.getD 0) := by
  cases h with
  | none =>
    have zero := Target.decimalized_writeInt 0
    exact ⟨"0", rfl, zero.symm ▸ Target.isBound_writeInt 0⟩
  | @some l a h =>
    obtain ⟨text, hw, ht⟩ := h.exists_text view
    exact ⟨_, write_operand_eq_ok.2 ⟨text, hw, rfl⟩, (ht.operand l).isBound⟩

theorem exists_constant_upperBound (h : Option.Rel ConstantBound upper hi) (view : View) :
    ∃ text, upperBound view upper = .ok text ∧
      Target.IsBound (Target.decimalized text) ((hi.map (· - 1)).getD (-1)) := by
  have written (value : Int) : Target.IsBound (Target.decimalized (writeInt value)) value := by
    rw [Target.decimalized_writeInt]
    exact Target.isBound_writeInt value
  cases h with
  | none =>
    have minusOne : writeInt (-1) = "-1" := by decide
    exact ⟨"-1", rfl, minusOne ▸ written (-1)⟩
  | @some u b h =>
    rcases h.integerValue? with ⟨-, hv⟩ | ⟨-, hv⟩
    · exact ⟨writeInt (b - 1), by rw [upperBound, hv]; rfl, written (b - 1)⟩
    · obtain ⟨text, hw, ht⟩ := h.exists_text view
      refine ⟨u.enclose text ++ " - 1", ?_, (ht.operand u).isBound_sub_one⟩
      rw [upperBound, hv, write_operand_eq_ok.2 ⟨text, hw, rfl⟩]
      rfl

/-- A slice that is not taken for empty is written as the range with its bounds. -/
theorem exists_range (view : View) (hlower : Option.Rel ConstantBound lower lo)
    (hupper : Option.Rel ConstantBound upper hi) (he : isEmptySlice lower upper = false) :
    ∃ text, (Expr.slice lower upper none).renderIndex view = .ok text ∧
      ∀ env, Target.readRange? env (Target.decimalized text) =
        some (lo.getD 0, (hi.map (· - 1)).getD (-1)) := by
  obtain ⟨first, hfirst, readFirst⟩ := exists_constant_lowerBound hlower view
  obtain ⟨last, hlast, readLast⟩ := exists_constant_upperBound hupper view
  refine ⟨first ++ ".." ++ last,
    write_slice_eq_ok.2 ⟨rfl, rfl, he, first, hfirst, last, hlast, rfl⟩, fun env => ?_⟩
  have shape : Target.decimalized (first ++ ".." ++ last) =
      Target.decimalized first ++ ".." ++ Target.decimalized last := by
    rw [Target.decimalized_symbol_append (c := '.') (by simp) (by decide),
      Target.decimalized_append_symbol (c := '.') first (by decide) (by decide)]
    exact congrArg (_ ++ · ++ _) (by decide : Target.decimalized ".." = "..")
  rw [shape]
  exact readFirst.readRange? readLast env

/-- A slice with constant bounds is refused exactly if it selects nothing and shows it. -/
theorem renderIndex_eq_error_iff (view : View) (hlower : Option.Rel ConstantBound lower lo)
    (hupper : Option.Rel ConstantBound upper hi) :
    (∃ cause, (Expr.slice lower upper none).renderIndex view = .error cause) ↔
      NeverSelects lo hi ∧ ShowsEmpty lower upper hi := by
  rw [← isEmptySlice_constant_iff hlower hupper]
  cases he : isEmptySlice lower upper with
  | true =>
    refine iff_of_true ⟨.emptySlice, ?_⟩ rfl
    simp [renderIndex, write, he]
    rfl
  | false =>
    obtain ⟨text, written, -⟩ := exists_range view hlower hupper he
    rw [written]
    exact iff_of_false (by rintro ⟨cause, ⟨⟩⟩) Bool.false_ne_true

/-- The range that a slice with constant bounds is written as has its bounds. -/
theorem readRange?_of_renderIndex {view : View} (hlower : Option.Rel ConstantBound lower lo)
    (hupper : Option.Rel ConstantBound upper hi) {text : String}
    (h : (Expr.slice lower upper none).renderIndex view = .ok text) (env : String → Int) :
    Target.readRange? env (Target.decimalized text) =
      some (lo.getD 0, (hi.map (· - 1)).getD (-1)) := by
  obtain ⟨-, -, he, -⟩ := write_slice_eq_ok.1 h
  obtain ⟨range, written, hrange⟩ := exists_range view hlower hupper he
  obtain rfl : text = range := ok_unique rfl h written
  exact hrange env

/-- Two slices with equal constant bounds are refused or accepted alike, unless they select nothing
and only one of them shows it. If both are accepted, their ranges have the same bounds. -/
theorem slices_treated_alike_iff (view : View) {lower' upper' : Option Expr}
    (hlower : Option.Rel ConstantBound lower lo) (hupper : Option.Rel ConstantBound upper hi)
    (hlower' : Option.Rel ConstantBound lower' lo)
    (hupper' : Option.Rel ConstantBound upper' hi) :
    (((∃ cause, (Expr.slice lower upper none).renderIndex view = .error cause) ↔
        ∃ cause, (Expr.slice lower' upper' none).renderIndex view = .error cause) ↔
      (NeverSelects lo hi → (ShowsEmpty lower upper hi ↔ ShowsEmpty lower' upper' hi))) ∧
    ∀ text text', (Expr.slice lower upper none).renderIndex view = .ok text →
      (Expr.slice lower' upper' none).renderIndex view = .ok text' → ∀ env,
        Target.readRange? env (Target.decimalized text) =
            some (lo.getD 0, (hi.map (· - 1)).getD (-1)) ∧
          Target.readRange? env (Target.decimalized text') =
            some (lo.getD 0, (hi.map (· - 1)).getD (-1)) := by
  refine ⟨?_, fun text text' h h' env => ⟨?_, ?_⟩⟩
  · rw [renderIndex_eq_error_iff view hlower hupper, renderIndex_eq_error_iff view hlower' hupper']
    exact and_congr_right_iff
  · exact readRange?_of_renderIndex hlower hupper h env
  · exact readRange?_of_renderIndex hlower' hupper' h' env

end

/-- `[1:3]` and `[+0x1:0x3]` become ranges with the bounds 1 and 2. -/
theorem slices_treated_alike_hexadecimal :
    let decimal (text : String) : Option Expr := some (.constant (.int text))
    let lower' : Option Expr := some (.unary .pos (.constant (.int "0x1")))
    let upper' : Option Expr := some (.constant (.int "0x3"))
    (Expr.slice (decimal "1") (decimal "3") none).renderIndex ⟨default, default⟩ = .ok "1..2" ∧
      (Expr.slice lower' upper' none).renderIndex ⟨default, default⟩ =
        .ok "+0x1..0x3 - 1" ∧
      ∀ env, Target.readRange? env (Target.decimalized "1..2") = some (1, 2) ∧
        Target.readRange? env (Target.decimalized "+0x1..0x3 - 1") = some (1, 2) := by
  intro decimal lower' upper'
  have one : Option.Rel ConstantBound (decimal "1") (some 1) :=
    .some (.decimal (n := 1) (by decide) rfl)
  have three : Option.Rel ConstantBound (decimal "3") (some 3) :=
    .some (.decimal (n := 3) (by decide) rfl)
  have one' : Option.Rel ConstantBound lower' (some 1) :=
    .some (.kept (.hexadecimal false (n := 1) (rfl : readDigits? 16 ['1'] = some 1)))
  have three' : Option.Rel ConstantBound upper' (some 3) :=
    .some (.hexadecimal false (n := 3) (rfl : readDigits? 16 ['3'] = some 3))
  have selects {lower upper : Option Expr} (hlower : Option.Rel ConstantBound lower (some 1))
      (hupper : Option.Rel ConstantBound upper (some 3)) : isEmptySlice lower upper = false := by
    rw [Bool.eq_false_iff, Ne, isEmptySlice_constant_iff hlower hupper]
    simp [NeverSelects]
  have written : (Expr.slice (decimal "1") (decimal "3") none).renderIndex ⟨default, default⟩ =
      .ok "1..2" :=
    write_slice_eq_ok.2 ⟨rfl, rfl, selects one three, "1", rfl, "2", rfl, rfl⟩
  have written' : (Expr.slice lower' upper' none).renderIndex ⟨default, default⟩ =
      .ok "+0x1..0x3 - 1" :=
    write_slice_eq_ok.2 ⟨rfl, rfl, selects one' three', "+0x1", rfl, "0x3 - 1", rfl, rfl⟩
  have ranges := (slices_treated_alike_iff ⟨default, default⟩ one three one' three').2
  exact ⟨written, written', ranges _ _ written written'⟩

/-- `[:0]` is refused, and `[:0x0]` becomes the range of all positions. -/
theorem hexadecimal_empty_slice_accepted :
    ConstantBound (.constant (.int "0")) 0 ∧ ConstantBound (.constant (.int "0x0")) 0 ∧
      (Expr.slice none (some (.constant (.int "0"))) none).renderIndex ⟨default, default⟩ =
        .error .emptySlice ∧
      (Expr.slice none (some (.constant (.int "0x0"))) none).renderIndex ⟨default, default⟩ =
        .ok "0..0x0 - 1" ∧
      (∀ env, Target.readRange? env (Target.decimalized "0..0x0 - 1") = some (0, -1)) ∧
      ∀ length, Target.rangePositions 0 (-1) length = slicePositions none none length := by
  have zero : ConstantBound (.constant (.int "0")) 0 := .decimal (n := 0) (by decide) rfl
  have zero' : ConstantBound (.constant (.int "0x0")) 0 :=
    .hexadecimal false (n := 0) (rfl : readDigits? 16 ['0'] = some 0)
  have written : (Expr.slice none (some (.constant (.int "0x0"))) none).renderIndex
      ⟨default, default⟩ = .ok "0..0x0 - 1" := rfl
  exact ⟨zero, zero', rfl, written, readRange?_of_renderIndex .none (.some zero') written,
    @rangePositions_eq none none (by simp)⟩

end Expr

end Berrify
