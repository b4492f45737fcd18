import Berrify.Proofs.Text.Mark

/-!
# The line of a refusal

A refusal is given a line unless its explanation holds the mark of one. The texts of which an
explanation is made (`Explained`) do not hold it, so if the mark is there, then it is in a text of
the script that the explanation quotes (`Cause.occursIn_detail`). If these texts are quiet, so is
all that stands in front of the line (`Cause.quiet_heading`).

A refusal that has been given a line keeps it : the lines of the statements around it come too late
(`Refusal.atLine_atLine`).
-/

namespace Berrify

open Text
open Refusal (lineMark)

/-! ## Texts with quotations -/

/-- A text put together from given texts and quiet ones that do not meet in the mark. -/
inductive Explained : List String → String → Prop where
  | plain {text : String} : Quiet text → Explained [] text
  | quote (text : String) : Explained [text] text
  | append {quotes quotes' : List String} {a b : String} :
      Explained quotes a → Explained quotes' b → ¬Meet mark a.toList b.toList →
      Explained (quotes ++ quotes') (a ++ b)

namespace Explained

variable {quotes : List String} {text : String}

/-- The mark stands in such a text exactly if it stands in a quotation. -/
theorem occursIn (h : Explained quotes text) :
    Text.occursIn lineMark text = quotes.any (Text.occursIn lineMark) := by
  induction h with
  | plain hq => exact hq.unmarked
  | quote text => simp
  | @append quotes quotes' a b _ _ hseam iha ihb =>
    rw [List.any_append, ← iha, ← ihb, Bool.eq_iff_iff, Bool.or_eq_true, occursIn_iff,
      occursIn_iff, occursIn_iff, String.toList_append]
    refine ⟨fun hm => ?_, fun hm => ?_⟩
    · rcases infix_or_meet hm with hm | hm | hm
      · exact .inl hm
      · exact .inr hm
      · exact absurd hm hseam
    · rcases hm with hm | hm
      · exact List.infix_append_of_infix_left hm
      · exact List.infix_append_of_infix_right hm

theorem quiet (h : Explained quotes text) (hq : ∀ quote ∈ quotes, Quiet quote) : Quiet text := by
  induction h with
  | plain h => exact h
  | quote text => exact hq text (by simp)
  | append _ _ hseam iha ihb =>
    obtain ⟨ha, hb⟩ := List.forall_mem_append.1 hq
    refine (iha ha).append (ihb hb) fun ⟨x, y, hx, hy, hxy⟩ => hseam ⟨x, y, hx, hy, ?_⟩
    exact hxy.trans (by decide)

end Explained

/-- Whether characters make a quiet text that ends in none of the mark. -/
def isFront (cs : List Char) : Bool :=
  isQuiet cs && cs.getLast?.any (!mark.contains ·)

/-- Whether characters make a quiet text that starts with none of the mark. -/
def isBack (cs : List Char) : Bool :=
  isQuiet cs && cs.head?.any (!mark.contains ·)

namespace Explained

variable {quotes : List String} {text : String}

theorem behind {front : List Char} (hf : isFront front = true) (h : Explained quotes text) :
    Explained quotes (.ofList front ++ text) := by
  rw [isFront, Bool.and_eq_true] at hf
  have ends : endsApart mark (.ofList front) = true := by
    rw [endsApart, String.toList_ofList, hf.2]
  exact (plain (quiet_ofList hf.1)).append h (not_meet_of_endsApart _ ends)

theorem before (h : Explained quotes text) {back : List Char} (hb : isBack back = true) :
    Explained quotes (text ++ .ofList back) := by
  rw [isBack, Bool.and_eq_true] at hb
  have starts : startsApart mark (.ofList back) = true := by
    rw [startsApart, String.toList_ofList, hb.2]
  have whole := h.append (plain (quiet_ofList hb.1)) (not_meet_of_startsApart _ starts)
  rwa [List.append_nil] at whole

/-- A quotation behind a blank. -/
theorem behind_blank {front : List Char} (hb : front.getLast? = some ' ')
    (hf : isFront front.dropLast = true) (kind : String) :
    Explained [" " ++ kind] (.ofList front ++ kind) := by
  have shape : String.ofList front ++ kind = .ofList front.dropLast ++ (" " ++ kind) := by
    apply String.toList_injective
    have parted := List.dropLast_append_getLast? ' ' hb
    simp only [String.toList_append, String.toList_ofList]
    rw [← List.append_assoc, show " ".toList = [' '] from rfl, parted]
  rw [shape]
  exact behind hf (quote _)

end Explained

/-! ## Explanations -/

namespace Cause

/-- The texts that an explanation quotes, with the blanks beside them. -/
def quotes : Cause → List String
  | keywordArgument callee => [callee]
  | mappingArgument callee => [callee]
  | containment kind => [" " ++ kind]
  | manyBases className => [className]
  | decorator shown function => [shown ++ " ", function]
  | varArgs name => [name]
  | kwArgs name => [name]
  | iteration kind => [" " ++ kind]
  | dottedImport name => [name]
  | targetIndex inner => inner.construct?.toList ++ inner.quotes
  | target kind => [" " ++ kind]
  | loopTarget kind => [" " ++ kind]
  | _ => []

/-- What starts with a text starts as that text does. -/
theorem head?_any_append {p : Char → Bool} {a : String} (b : String)
    (h : a.toList.head?.any p = true) : (a ++ b).toList.head?.any p = true := by
  obtain ⟨c, hc, hp⟩ := (Option.any_eq_true _ _).1 h
  refine (Option.any_eq_true _ _).2 ⟨c, ?_, hp⟩
  rw [String.toList_append, List.head?_append, hc, Option.some_or]

/-- No explanation starts with a parenthesis. -/
theorem head?_detail (c : Cause) : c.detail.toList.head?.any (· != '(') = true := by
  have alone {cs : List Char} (h : cs.head?.any (· != '(') = true) :
      (String.ofList cs).toList.head?.any (· != '(') = true := by
    rwa [String.toList_ofList]
  have behind {cs : List Char} (text : String) (h : cs.head?.any (· != '(') = true) :
      (.ofList cs ++ text).toList.head?.any (· != '(') = true := head?_any_append _ (alone h)
  have framed {cs : List Char} (text back : String) (h : cs.head?.any (· != '(') = true) :
      (.ofList cs ++ text ++ back).toList.head?.any (· != '(') = true :=
    head?_any_append _ (behind text h)
  cases c with
  | operator | updateOperator | keywordArgument | mappingArgument | manyBases | varArgs | kwArgs
  | iteration | dottedImport | targetIndex => exact framed _ _ (by decide)
  | containment | target | loopTarget => exact behind _ (by decide)
  | decorator shown _ =>
    exact head?_any_append _ (head?_any_append _ (framed shown " on `" (by decide)))
  | unknownExpression | unknownStatement | setLiteral | straySlice | sliceStep | emptySlice
  | manyIndices | unpacking | loopElse | attemptElse | targetUnpacking | starredTarget
  | loopUnpacking => exact alone (by decide)

theorem explained_headline (construct? : Option String) :
    Explained construct?.toList (headline construct?) := by
  cases construct? with
  | none => exact .plain (quiet_ofList (by decide))
  | some construct => exact .before (.behind (by decide) (.quote construct)) (by decide)

theorem getLast?_headline (construct? : Option String) :
    (headline construct?).toList.getLast? = some ' ' := by
  cases construct? with
  | none => decide +kernel
  | some construct =>
    have last : "`: ".toList.getLast? = some ' ' := by decide
    change ("unsupported construct `" ++ construct ++ "`: ").toList.getLast? = _
    rw [String.toList_append, List.getLast?_append, last, Option.some_or]

theorem startsApart_headline (construct? : Option String) :
    startsApart mark (headline construct?) = true := by
  cases construct? with
  | none => decide +kernel
  | some construct => exact head?_any_append _ (head?_any_append _ (by decide +kernel))

/-- An explanation behind its headline. The headline ends in a blank, which makes a mark only with a
parenthesis behind it. -/
theorem explained_heading (construct? : Option String) {quotes : List String} {text : String}
    (h : Explained quotes text) (hhead : text.toList.head?.any (· != '(') = true) :
    Explained (construct?.toList ++ quotes) (headline construct? ++ text) := by
  refine (explained_headline construct?).append h ?_
  rintro ⟨x, y, hx, hy, hxy⟩
  rw [getLast?_headline, Option.some.injEq] at hx
  rw [hy] at hhead
  obtain rfl : y = '(' := by
    rw [mark_eq, ← hx] at hxy
    simpa [List.infix_cons_iff] using hxy
  exact absurd hhead (by decide)

/-- An explanation is made of its quotations. -/
theorem explained_detail (c : Cause) : Explained c.quotes c.detail := by
  induction c with
  | operator op =>
    have token : Quiet op.token := by cases op <;> decide
    exact .before (.behind (by decide) (.plain token)) (by decide)
  | updateOperator op =>
    have token : Quiet op.token := by cases op <;> decide
    exact .before (.behind (by decide) (.plain token)) (by decide)
  | keywordArgument text | mappingArgument text | manyBases text | varArgs text | kwArgs text
  | dottedImport text =>
    exact .before (.behind (by decide) (.quote text)) (by decide)
  | containment kind =>
    exact .behind_blank (by decide) (by decide) kind
  | iteration kind =>
    exact .before (.behind_blank (by decide) (by decide) kind) (by decide)
  | target kind =>
    exact .behind_blank (by decide) (by decide) kind
  | loopTarget kind =>
    exact .behind_blank (by decide) (by decide) kind
  | decorator shown function =>
    have shape : detail (.decorator shown function) =
        ("@" ++ (shown ++ " ")) ++ ("on `" ++ function ++ "`") := by
      have blank : " on `" = " " ++ "on `" := by decide
      change "@" ++ shown ++ " on `" ++ function ++ "`" = _
      rw [blank]
      simp only [String.append_assoc]
    rw [shape]
    refine (Explained.behind (by decide) (.quote (shown ++ " "))).append
      (.before (.behind (by decide) (.quote function)) (by decide)) ?_
    exact not_meet_of_startsApart _ (head?_any_append _ (head?_any_append _ (by decide)))
  | targetIndex inner ih =>
    have inside := explained_heading inner.construct? ih (head?_detail inner)
    have lead : Quiet "subscript target index: " := quiet_ofList (by decide)
    change Explained ([] ++ (inner.construct?.toList ++ inner.quotes))
      ("subscript target index: " ++ headline inner.construct? ++ inner.detail)
    rw [String.append_assoc]
    refine (Explained.plain lead).append inside (not_meet_of_startsApart _ ?_)
    exact head?_any_append _ (startsApart_headline _)
  | unknownExpression _ => exact .plain (quiet_ofList (by decide) : Quiet "expression")
  | unknownStatement _ => exact .plain (quiet_ofList (by decide) : Quiet "statement")
  | setLiteral | straySlice | sliceStep | emptySlice | manyIndices | unpacking | loopElse
  | attemptElse | targetUnpacking | starredTarget | loopUnpacking =>
    exact .plain (quiet_ofList (by decide))

/-- The mark stands in an explanation exactly if it stands in a text that is quoted there. -/
theorem occursIn_detail (c : Cause) :
    occursIn lineMark c.detail = c.quotes.any (occursIn lineMark) :=
  (explained_detail c).occursIn

/-- All texts that a message quotes, those of its headline included. -/
def texts (c : Cause) : List String :=
  c.construct?.toList ++ c.quotes

/-- What stands in front of the line is quiet if all quotations are. -/
theorem quiet_heading {c : Cause} (h : ∀ text ∈ c.texts, Quiet text) :
    Quiet (headline c.construct? ++ c.detail) :=
  (explained_heading c.construct? (explained_detail c) (head?_detail c)).quiet h

end Cause

/-! ## Lines -/

namespace Refusal

/-- A new refusal gets its line unless the mark stands in a text that it quotes. -/
theorem atLine_new (cause : Cause) (line : Nat) :
    ({ cause } : Refusal).atLine line =
      ⟨cause, if cause.quotes.any (occursIn lineMark) then none else some line⟩ := by
  rw [← Cause.occursIn_detail]
  cases h : occursIn lineMark cause.detail <;> simp [atLine, mentionsLine, h]

/-- The first line stays. -/
theorem atLine_atLine (r : Refusal) (line later : Nat) :
    (r.atLine line).atLine later = r.atLine line := by
  have mentioned : (r.atLine line).mentionsLine = true := by
    unfold atLine
    split
    · assumption
    · rfl
  rw [atLine, if_pos mentioned]

end Refusal

end Berrify
