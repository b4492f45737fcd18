import Berrify.Proofs.Meaning.Preservation
import Berrify.Proofs.Text.Mark
import Mathlib.Data.Set.Insert

/-!
# Slices and ranges

A slice leaves its upper bound out and clamps both bounds to the sequence; a range of the target
includes its upper bound. In both a negative bound counts from the end. `slicePositions` and
`Target.rangePositions` are the positions that they select from a sequence of a given length.

One taken off the upper bound turns a slice into a range with the same positions, unless it makes a
zero into a bound that counts from the end (`rangePositions_eq`). A slice with integer bounds
(`IntegerBound`) is refused exactly if it selects nothing however long the sequence is
(`neverSelects_iff`, `isEmptySlice_iff`), and else its text, as the target reads it
(`Target.readRange?`), selects the same positions from every sequence
(`slice_selects_same_positions`).
-/

namespace Berrify

/-! ## Positions -/

/-- The place of a bound of a slice in a sequence : a negative one counts from the end, and no place
is outside. -/
def clampBound (length : ℕ) (bound : Int) : Int :=
  if bound < 0 then max (bound + length) 0 else min bound length

/-- The positions that a slice selects from a sequence. The upper bound is not one of them. -/
def slicePositions (lower upper : Option Int) (length : ℕ) : Set Int :=
  {p | (lower.map (clampBound length)).getD 0 ≤ p ∧ p < (upper.map (clampBound length)).getD length}

/-- The place of a bound of a range in a sequence : a negative one counts from the end. -/
def Target.placeBound (length : ℕ) (bound : Int) : Int :=
  if bound < 0 then bound + length else bound

/-- The positions that a range of the target selects from a sequence. The upper bound is one of
them. -/
def Target.rangePositions (first last : Int) (length : ℕ) : Set Int :=
  {p | max (placeBound length first) 0 ≤ p ∧ p ≤ min (placeBound length last) (length - 1)}

/-- Bounds between which nothing lies, however long the sequence is : the end is the start of the
sequence, or both count from the same end and the upper one does not lie behind the lower one. -/
def NeverSelects : Option Int → Option Int → Prop
  | _, none => False
  | none, some upper => upper = 0
  | some lower, some upper => upper = 0 ∨ ((lower < 0 ↔ upper < 0) ∧ upper ≤ lower)

theorem slicePositions_eq_empty_iff {lower upper : Option Int} {length : ℕ} :
    slicePositions lower upper length = ∅ ↔
      (upper.map (clampBound length)).getD length ≤ (lower.map (clampBound length)).getD 0 := by
  rw [Set.eq_empty_iff_forall_notMem]
  refine ⟨fun h => ?_, fun h position hm => ?_⟩
  · have first := h ((lower.map (clampBound length)).getD 0)
    simp only [slicePositions, Set.mem_ofPred_eq] at first
    omega
  · simp only [slicePositions, Set.mem_ofPred_eq] at hm
    omega

theorem slicePositions_of_neverSelects {lower upper : Option Int} (h : NeverSelects lower upper)
    (length : ℕ) : slicePositions lower upper length = ∅ := by
  rw [slicePositions_eq_empty_iff]
  match lower, upper, h with
  | none, some upper, h =>
    have zero : upper = 0 := h
    simp only [Option.map_none, Option.map_some, Option.getD_none, Option.getD_some, clampBound]
    omega
  | some lower, some upper, h =>
    have cross : upper = 0 ∨ ((lower < 0 ↔ upper < 0) ∧ upper ≤ lower) := h
    simp only [Option.map_some, Option.getD_some, clampBound]
    omega

/-- Between other bounds something lies in a sequence that is long enough, or, from a bound that
counts from the end up to one that counts from the start, in a sequence of length one. -/
theorem neverSelects_iff {lower upper : Option Int} :
    NeverSelects lower upper ↔ ∀ length, slicePositions lower upper length = ∅ := by
  refine ⟨slicePositions_of_neverSelects, fun h => ?_⟩
  have one := slicePositions_eq_empty_iff.1 (h 1)
  have long := slicePositions_eq_empty_iff.1
    (h ((lower.getD 0).natAbs + (upper.getD 0).natAbs + 1))
  match lower, upper with
  | none, none =>
    simp only [Option.map_none, Option.getD_none] at one
    omega
  | some lower, none =>
    simp only [Option.map_none, Option.map_some, Option.getD_none, Option.getD_some,
      clampBound] at long
    omega
  | none, some upper =>
    simp only [Option.map_none, Option.map_some, Option.getD_none, Option.getD_some,
      clampBound] at long
    change upper = 0
    omega
  | some lower, some upper =>
    simp only [Option.map_some, Option.getD_some, clampBound] at one long
    change upper = 0 ∨ ((lower < 0 ↔ upper < 0) ∧ upper ≤ lower)
    omega

/-- A slice selects what the range does whose upper bound is one less, if that does not make it
count from the end. -/
theorem rangePositions_eq {lower upper : Option Int} (h : upper ≠ some 0) (length : ℕ) :
    Target.rangePositions (lower.getD 0) ((upper.map (· - 1)).getD (-1)) length =
      slicePositions lower upper length := by
  ext position
  simp only [Target.rangePositions, slicePositions, Set.mem_ofPred_eq, Target.placeBound]
  match lower, upper with
  | none, none =>
    simp only [Option.map_none, Option.getD_none]
    omega
  | some lower, none =>
    simp only [Option.map_none, Option.map_some, Option.getD_none, Option.getD_some, clampBound]
    omega
  | none, some upper =>
    have nonzero : upper ≠ 0 := fun hz => h (congrArg some hz)
    simp only [Option.map_none, Option.map_some, Option.getD_none, Option.getD_some, clampBound]
    omega
  | some lower, some upper =>
    have nonzero : upper ≠ 0 := fun hz => h (congrArg some hz)
    simp only [Option.map_some, Option.getD_some, clampBound]
    omega

/-! ## Ranges as the target reads them -/

namespace Target

/-- The text in front of the first two dots and the text behind them. -/
def splitRange? : List Char → Option (List Char × List Char)
  | '.' :: '.' :: rest => some ([], rest)
  | c :: rest => (splitRange? rest).map fun parts => (c :: parts.1, parts.2)
  | [] => none

/-- The integer that a text denotes, given those of its names. -/
def integer? (env : String → Int) (text : String) : Option Int :=
  match (read? text).bind (Term.value? env) with
  | some (.int n) => some n
  | _ => none

/-- The bounds that the text of a range denotes. -/
def readRange? (env : String → Int) (text : String) : Option (Int × Int) := do
  let (first, last) ← splitRange? text.toList
  return (← integer? env (.ofList first), ← integer? env (.ofList last))

theorem splitRange?_append {front : List Char} (h : '.' ∉ front) (back : List Char) :
    splitRange? (front ++ '.' :: '.' :: back) = some (front, back) := by
  induction front with
  | nil => rfl
  | cons c front ih =>
    rw [List.mem_cons, not_or] at h
    have dot : c ≠ '.' := Ne.symm h.1
    rw [List.cons_append, splitRange?, ih h.2, Option.map_some]
    rintro rest rfl
    exact absurd rfl dot

/-- A text that stands for an integer as a bound of a range : it holds no dot. -/
structure IsBound (text : String) (value : Int) : Prop where
  integer : ∀ env, integer? env text = some value
  noDot : '.' ∉ text.toList

theorem IsBound.readRange? {first last : String} {a b : Int} (ha : IsBound first a)
    (hb : IsBound last b) (env : String → Int) :
    readRange? env (first ++ ".." ++ last) = some (a, b) := by
  have shape : (first ++ ".." ++ last).toList = first.toList ++ '.' :: '.' :: last.toList := by
    simp
  rw [Target.readRange?, shape, splitRange?_append ha.noDot]
  simp [ha.integer, hb.integer]

theorem isBound_of_whole {text : String} {t : Term} (hread : ReadsWhole text t) {value : Int}
    (hvalue : ∀ env, t.value? env = some (.int value)) (hdot : '.' ∉ text.toList) :
    IsBound text value := by
  refine ⟨fun env => ?_, hdot⟩
  rw [integer?, hread.read?, Option.bind_some, hvalue]

theorem isBound_of_reads {text : String} {t : Term} (hread : ReadsAt 0 text t) {value : Int}
    (hvalue : ∀ env, t.value? env = some (.int value)) (hdot : '.' ∉ text.toList) :
    IsBound text value :=
  isBound_of_whole (hread.whole (Nat.zero_le _)) hvalue hdot

theorem isNumeral_writeNat (n : ℕ) : Expr.isNumeral (Text.writeNat n) = true := by
  simp only [Expr.isNumeral, Bool.and_eq_true, Bool.not_eq_true', List.isEmpty_eq_false_iff,
    List.all_eq_true]
  exact ⟨Text.writeNat_ne_nil n, fun _ => Text.isDigit_of_mem_writeNat⟩

theorem readsAt_writeNat (n : ℕ) : ReadsAt 0 (Text.writeNat n) (.number n) :=
  .numeral (isNumeral_writeNat n) (Text.readDigits?_writeNat n)

/-- An integer that is written is read as that integer. -/
theorem isBound_writeInt (value : Int) : IsBound (Text.writeInt value) value := by
  have digits : '.' ∉ (Text.writeNat value.natAbs).toList :=
    Text.not_mem_writeNat (by decide) value.natAbs
  have reads := readsAt_writeNat value.natAbs
  unfold Text.writeInt
  split
  · refine isBound_of_reads (reads.unary (s := .minus) rfl) (fun env => ?_)
      (by simp [Symbol.spelling, digits])
    simp only [Term.value?, Option.bind_eq_bind, Option.bind_some, Symbol.unaryValue?]
    congr 2
    omega
  · refine isBound_of_reads reads (fun env => ?_) digits
    rw [Term.value?]
    congr 2
    omega

end Target

/-! ## Integer bounds -/

namespace Expr

/-- A decimal numeral below `2 ^ 63` under any number of minus signs, and the integer that it is. -/
inductive IntegerBound : Expr → Int → Prop where
  | numeral {text : String} {n : ℕ} : isNumeral text = true →
      Text.readDigits? 10 text.toList = some n → n < 0x8000000000000000 →
      IntegerBound (.constant (.int text)) n
  | negated {e : Expr} {value : Int} : IntegerBound e value →
      IntegerBound (.unary .neg e) (-value)

namespace IntegerBound

variable {e : Expr} {value : Int}

/-- The integer is the value of the bound as an expression. -/
theorem value? (h : IntegerBound e value) (env : String → Int) :
    e.value? env = some (.int value) := by
  induction h with
  | numeral _ hn _ => simp [Expr.value?, hn]
  | negated _ ih => simp [Expr.value?, ih, UnaryOp.value?]

theorem integerValue? (h : IntegerBound e value) : e.integerValue? = some value := by
  induction h with
  | numeral hnum hn hlt =>
    simp only [isNumeral, Bool.and_eq_true, List.all_eq_true] at hnum
    rw [Expr.integerValue?, Text.readInt64?_of_digits hnum.2 hn hlt]
  | negated _ ih => rw [Expr.integerValue?, ih, Option.map_some]

/-- A bound is written as digits, minus signs and parentheses, and read as an operand. -/
theorem exists_translates (h : IntegerBound e value) (view : View) :
    ∃ text t, Translates view e text t ∧ '.' ∉ text.toList := by
  induction h with
  | @numeral text _ hnum _ _ =>
    obtain ⟨t, ht⟩ : ∃ t, Translates view (.constant (.int text)) text t := Translates.numeral hnum
    simp only [isNumeral, Bool.and_eq_true, List.all_eq_true] at hnum
    exact ⟨text, t, ht, fun hm => absurd (hnum.2 _ hm) (by decide)⟩
  | @negated e _ _ ih =>
    obtain ⟨inner, u, hu, hdot⟩ := ih
    obtain ⟨text, t, ht⟩ : ∃ text t, Translates view (.unary .neg e) text t :=
      Translates.unary (by decide) hu
    obtain ⟨a, ha, htext⟩ := write_unary_eq_ok.1 ht.written
    rw [hu.write_operand, Except.ok.injEq] at ha
    rw [enclose_whole, ite_self] at htext
    refine ⟨text, t, ht, ?_⟩
    subst htext ha
    unfold enclose
    split <;> simp [parenthesize, UnaryOp.target, hdot]

/-- A bound in operand position stands for its integer. -/
theorem write_operand (h : IntegerBound e value) (view : View) :
    ∃ text, e.write view .operand = .ok text ∧ Target.IsBound text value := by
  obtain ⟨text, t, ht, hdot⟩ := h.exists_translates view
  refine ⟨e.enclose text, ht.write_operand, Target.isBound_of_reads ht.operand
    (fun env => ht.preserves env _ (h.value? env)) ?_⟩
  unfold enclose
  split <;> simp [parenthesize, hdot]

end IntegerBound

/-! ## Slices with integer bounds -/

section

variable {lower upper : Option Expr} {lo hi : Option Int}

theorem isEmptySlice_iff (hlower : Option.Rel IntegerBound lower lo)
    (hupper : Option.Rel IntegerBound upper hi) :
    isEmptySlice lower upper = true ↔ NeverSelects lo hi := by
  cases hupper with
  | none => exact iff_of_false (by simp [isEmptySlice]) id
  | @some u b hu =>
    cases hlower with
    | none =>
      simp [isEmptySlice, hu.integerValue?, NeverSelects]
    | @some l a hl =>
      have same : l = u → a = b := by
        rintro rfl
        exact Option.some.inj (hl.integerValue?.symm.trans hu.integerValue?)
      have spelled : isEmptySlice (some l) (some u) = true ↔
          b = 0 ∨ l = u ∨ ((a < 0 ↔ b < 0) ∧ b ≤ a) := by
        simp [isEmptySlice, boundsCross, hl.integerValue?, hu.integerValue?, or_assoc]
      rw [spelled, NeverSelects]
      constructor
      · rintro (hz | heq | hcross)
        · exact .inl hz
        · obtain rfl := same heq
          exact .inr ⟨Iff.rfl, Int.le_refl a⟩
        · exact .inr hcross
      · rintro (hz | hcross)
        · exact .inl hz
        · exact .inr (.inr hcross)

theorem exists_lowerBound (h : Option.Rel IntegerBound lower lo) (view : View) :
    ∃ text, lowerBound view lower = .ok text ∧ Target.IsBound text (lo.getD 0) := by
  cases h with
  | none => exact ⟨"0", rfl, Target.isBound_writeInt 0⟩
  | some h => exact h.write_operand view

theorem exists_upperBound (h : Option.Rel IntegerBound upper hi) (view : View) :
    ∃ text, upperBound view upper = .ok text ∧
      Target.IsBound text ((hi.map (· - 1)).getD (-1)) := by
  cases h with
  | none =>
    have minusOne : Text.writeInt (-1) = "-1" := by decide
    exact ⟨"-1", rfl, minusOne ▸ Target.isBound_writeInt (-1)⟩
  | @some u b h =>
    refine ⟨Text.writeInt (b - 1), ?_, Target.isBound_writeInt (b - 1)⟩
    rw [upperBound, h.integerValue?]
    rfl

/-- A slice whose bounds are absent or integers is refused exactly if it selects nothing from any
sequence; else the range that it is written as selects the same positions from every sequence. -/
theorem slice_selects_same_positions (view : View) (hlower : Option.Rel IntegerBound lower lo)
    (hupper : Option.Rel IntegerBound upper hi) :
    ((∃ cause, (Expr.slice lower upper none).renderIndex view = .error cause) ↔
      ∀ length, slicePositions lo hi length = ∅) ∧
    ∀ text, (Expr.slice lower upper none).renderIndex view = .ok text →
      ∃ first last, (∀ env, Target.readRange? env text = some (first, last)) ∧
        ∀ length, Target.rangePositions first last length = slicePositions lo hi length := by
  rw [← neverSelects_iff, ← isEmptySlice_iff hlower hupper, renderIndex]
  cases he : isEmptySlice lower upper with
  | true =>
    have refused : (Expr.slice lower upper none).write view .index = .error .emptySlice := by
      simp [write, he]
      rfl
    rw [refused]
    refine ⟨iff_of_true ⟨_, rfl⟩ rfl, fun text htext => ?_⟩
    cases htext
  | false =>
    obtain ⟨first, hfirst, readFirst⟩ := exists_lowerBound hlower view
    obtain ⟨last, hlast, readLast⟩ := exists_upperBound hupper view
    have written : (Expr.slice lower upper none).write view .index =
        .ok (first ++ ".." ++ last) :=
      write_slice_eq_ok.2 ⟨rfl, rfl, he, first, hfirst, last, hlast, rfl⟩
    have nonzero : hi ≠ some 0 := by
      rintro rfl
      have zero : NeverSelects lo (some 0) := by
        cases lo with
        | none => rfl
        | some a => exact .inl rfl
      rw [(isEmptySlice_iff hlower hupper).2 zero] at he
      cases he
    rw [written]
    refine ⟨iff_of_false (by rintro ⟨cause, ⟨⟩⟩) Bool.false_ne_true, fun text htext => ?_⟩
    cases htext
    exact ⟨_, _, readFirst.readRange? readLast, rangePositions_eq nonzero⟩

end

/-- `[-7:--3]` selects the first three of five items. -/
theorem slice_selects_same_positions_signed :
    let lower : Option Expr := some (.unary .neg (.constant (.int "7")))
    let upper : Option Expr := some (.unary .neg (.unary .neg (.constant (.int "3"))))
    (Expr.slice lower upper none).renderIndex ⟨default, default⟩ = .ok "-7..2" ∧
      ∃ first last, (∀ env, Target.readRange? env "-7..2" = some (first, last)) ∧
        Target.rangePositions first last 5 = {0, 1, 2} := by
  intro lower upper
  have seven : IntegerBound (.constant (.int "7")) 7 :=
    .numeral (n := 7) (by decide) rfl (by decide)
  have three : IntegerBound (.constant (.int "3")) 3 :=
    .numeral (n := 3) (by decide) rfl (by decide)
  have hlower : Option.Rel IntegerBound lower (some (-7)) := .some seven.negated
  have hupper : Option.Rel IntegerBound upper (some 3) := .some three.negated.negated
  have selects : isEmptySlice lower upper = false := by
    rw [Bool.eq_false_iff, Ne, isEmptySlice_iff hlower hupper]
    simp [NeverSelects]
  have written : (Expr.slice lower upper none).renderIndex ⟨default, default⟩ = .ok "-7..2" :=
    write_slice_eq_ok.2 ⟨rfl, rfl, selects, "-7", rfl, "2", rfl, rfl⟩
  obtain ⟨first, last, hread, hsame⟩ :=
    (slice_selects_same_positions ⟨default, default⟩ hlower hupper).2 _ written
  have positions : slicePositions (some (-7)) (some 3) 5 = {0, 1, 2} := by
    ext position
    simp only [slicePositions, clampBound, Option.map_some, Option.getD_some, Set.mem_ofPred_eq,
      Set.mem_insert_iff, Set.mem_singleton_iff]
    omega
  exact ⟨written, first, last, hread, (hsame 5).trans positions⟩

end Expr

end Berrify
