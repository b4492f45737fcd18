import Berrify.Proofs.Text.Replace
import Berrify.Proofs.Token.Words
import Berrify.Translator

/-!
# Lines and words under substitutions

Substitutions that work inside of lines (`Substitutions.WithinLines`) turn each line of a text into
one line : the text is treated line by line (`Substitutions.treats_line_by_line`). So a construct is
reported on the line of the source on which it stands.

A word that is substituted does not come back if neither its own value nor a later one can make it
(`Substitutions.not_infix_apply`). The spellings of literals in the source language are such words :
nothing of them is left where the builtin substitutions have been applied, and none is among the
tokens that the translator reads (`Substitutions.builtin_removes_literals`).
-/

namespace Berrify

open Text

/-! ## Lines -/

/-- A substitution that has a pattern and works inside of lines. -/
structure Substitution.WithinLine (s : Substitution) : Prop where
  nonempty : s.pattern ≠ ""
  pattern : '\n' ∉ s.pattern.toList
  value : '\n' ∉ s.value.toList

namespace Substitution.WithinLine

variable {s : Substitution}

theorem replaceAll_eq (h : s.WithinLine) (text : String) :
    replaceAll s.pattern s.value text =
      .ofList (replaceChars s.pattern.toList s.value.toList 0 text.toList) := by
  have given : s.pattern.isEmpty = false := by
    simpa using h.nonempty
  rw [replaceAll, given, if_neg Bool.false_ne_true]

theorem replaceAll_append (h : s.WithinLine) (front behind : String) :
    replaceAll s.pattern s.value (front ++ "\n" ++ behind) =
      replaceAll s.pattern s.value front ++ "\n" ++ replaceAll s.pattern s.value behind := by
  have nonempty : s.pattern.toList ≠ [] := fun he => h.nonempty (String.toList_injective he)
  have text : (front ++ "\n" ++ behind).toList = front.toList ++ '\n' :: behind.toList := by
    simp
  rw [h.replaceAll_eq, h.replaceAll_eq, h.replaceAll_eq, text,
    replaceChars_append_cons nonempty h.pattern (Nat.zero_le _)]
  apply String.toList_injective
  simp

theorem newline_not_mem_replaceAll (h : s.WithinLine) {text : String} (ht : '\n' ∉ text.toList) :
    '\n' ∉ (replaceAll s.pattern s.value text).toList := by
  rw [h.replaceAll_eq, String.toList_ofList]
  exact fun hm => (mem_replaceChars hm).elim h.value ht

end Substitution.WithinLine

namespace Substitutions

/-- All substitutions work inside of lines. -/
def WithinLines (subs : Substitutions) : Prop :=
  ∀ s ∈ subs, s.WithinLine

theorem apply_cons (s : Substitution) (subs : Substitutions) (text : String) :
    apply (s :: subs) text = apply subs (replaceAll s.pattern s.value text) :=
  rfl

theorem apply_append (before after : Substitutions) (text : String) :
    apply (before ++ after) text = apply after (apply before text) :=
  List.foldl_append

theorem WithinLines.apply_newline {subs : Substitutions} (h : subs.WithinLines)
    (front behind : String) :
    subs.apply (front ++ "\n" ++ behind) = subs.apply front ++ "\n" ++ subs.apply behind := by
  induction subs generalizing front behind with
  | nil => rfl
  | cons s subs ih =>
    obtain ⟨first, others⟩ := List.forall_mem_cons.1 h
    rw [apply_cons, first.replaceAll_append, ih others, apply_cons, apply_cons]

theorem WithinLines.newline_not_mem_apply {subs : Substitutions} (h : subs.WithinLines)
    {text : String} (ht : '\n' ∉ text.toList) : '\n' ∉ (subs.apply text).toList := by
  induction subs generalizing text with
  | nil => exact ht
  | cons s subs ih =>
    obtain ⟨first, others⟩ := List.forall_mem_cons.1 h
    exact ih others (first.newline_not_mem_replaceAll ht)

theorem withinLines_builtin : builtin.WithinLines := by
  intro s hs
  have table : ∀ s ∈ builtin, s.pattern ≠ "" ∧ '\n' ∉ s.pattern.toList ∧ '\n' ∉ s.value.toList := by
    decide
  obtain ⟨nonempty, pattern, value⟩ := table s hs
  exact ⟨nonempty, pattern, value⟩

/-- Configured substitutions without line ends may be added to any others : those without a pattern
are left out. -/
theorem WithinLines.extend {subs extra : Substitutions} (h : subs.WithinLines)
    (hextra : ∀ s ∈ extra, '\n' ∉ s.pattern.toList ∧ '\n' ∉ s.value.toList) :
    (subs.extend extra).WithinLines := by
  refine List.forall_mem_append.2 ⟨h, fun s hs => ?_⟩
  obtain ⟨hm, hgiven⟩ := List.mem_filter.1 hs
  exact ⟨by simpa using hgiven, (hextra s hm).1, (hextra s hm).2⟩

/-- Substitutions inside of lines treat the texts around the end of a line each for itself, and make
of every line of a text the line in its place. The builtin substitutions are such, with whatever
others are added to them that hold no line end. -/
theorem treats_line_by_line :
    (∀ subs : Substitutions, subs.WithinLines →
      (∀ front behind,
        subs.apply (front ++ "\n" ++ behind) = subs.apply front ++ "\n" ++ subs.apply behind) ∧
      ∀ text, lines (subs.apply text) = (lines text).map subs.apply) ∧
    ∀ extra : Substitutions,
      (∀ s ∈ extra, '\n' ∉ s.pattern.toList ∧ '\n' ∉ s.value.toList) →
      (builtin.extend extra).WithinLines :=
  ⟨fun _ h => ⟨h.apply_newline, lines_of_append h.apply_newline fun _ => h.newline_not_mem_apply⟩,
    fun _ => withinLines_builtin.extend⟩

/-- Of the two added substitutions here one sees what a builtin one has put, and one is left out. -/
theorem treats_line_by_line_of_added :
    let subs := builtin.extend [⟨"real", "number"⟩, ⟨"", "?"⟩]
    subs.WithinLines ∧
      subs.apply "x = float(s)\nNone" = subs.apply "x = float(s)" ++ "\n" ++ subs.apply "None" ∧
      subs.apply "x = float(s)" = "x = number(s)" ∧
      lines (subs.apply "x = float(s)\nNone") = ["x = number(s)", "nil"] := by
  intro subs
  have within : subs.WithinLines := treats_line_by_line.2 _ (by decide)
  obtain ⟨append, line⟩ := treats_line_by_line.1 subs within
  have first : subs.apply "x = float(s)" = "x = number(s)" := by decide
  refine ⟨within, append "x = float(s)" "None", first, ?_⟩
  rw [line]
  decide

/-! ## Words -/

theorem not_infix_replaceAll {word : String} {s : Substitution} (hne : word ≠ "")
    (h : Foreign word.toList s.value.toList) {text : String}
    (hword : word = s.pattern ∨ ¬word.toList <:+: text.toList) :
    ¬word.toList <:+: (replaceAll s.pattern s.value text).toList := by
  have nonempty : word.toList ≠ [] := fun he => hne (String.toList_injective he)
  unfold replaceAll
  split
  · rename_i hempty
    refine hword.resolve_left fun he => hne ?_
    rw [he]
    simpa using hempty
  · rw [String.toList_ofList]
    exact not_infix_replaceChars nonempty h (hword.imp_left (congrArg String.toList)) 0

/-- A word that is not in a text does not come about if all values are foreign to it. -/
theorem not_infix_apply_of_foreign {word : String} (hne : word ≠ "") {subs : Substitutions}
    (h : ∀ s ∈ subs, Foreign word.toList s.value.toList) {text : String}
    (hword : ¬word.toList <:+: text.toList) : ¬word.toList <:+: (subs.apply text).toList := by
  induction subs generalizing text with
  | nil => exact hword
  | cons s subs ih =>
    obtain ⟨first, others⟩ := List.forall_mem_cons.1 h
    exact ih others (not_infix_replaceAll hne first (.inr hword))

/-- A word that is substituted is gone, if its value and the later ones are foreign to it. -/
theorem not_infix_apply (before after : Substitutions) (s : Substitution) (hne : s.pattern ≠ "")
    (h : ∀ later ∈ s :: after, Foreign s.pattern.toList later.value.toList) (text : String) :
    ¬s.pattern.toList <:+: (apply (before ++ s :: after) text).toList := by
  obtain ⟨own, others⟩ := List.forall_mem_cons.1 h
  rw [apply_append, apply_cons]
  exact not_infix_apply_of_foreign hne others (not_infix_replaceAll hne own (.inl rfl))

/-- The spellings of literals in the source language. -/
def literalSpellings : List String := ["None", "True", "False"]

/-- No spelling of a literal is left where the builtin substitutions have been applied, and none is
among the words that the translator reads if it has no others. -/
theorem builtin_removes_literals (source : String) : ∀ word ∈ literalSpellings,
    ¬word.toList <:+: (builtin.apply source).toList ∧
      ∀ token ∈ Token.lex (({} : Translator).substitutions.apply source),
        token.isWord word = false := by
  intro word hword
  have gone : ¬word.toList <:+: (builtin.apply source).toList := by
    simp only [literalSpellings, List.mem_cons, List.not_mem_nil, or_false] at hword
    rcases hword with rfl | rfl | rfl
    · exact not_infix_apply (builtin.take 2) (builtin.drop 3) ⟨"None", "nil"⟩ (by decide)
        (by decide) source
    · exact not_infix_apply (builtin.take 3) (builtin.drop 4) ⟨"True", "true"⟩ (by decide)
        (by decide) source
    · exact not_infix_apply (builtin.take 4) (builtin.drop 5) ⟨"False", "false"⟩ (by decide)
        (by decide) source
  refine ⟨gone, fun token hm => Bool.eq_false_iff.2 fun hread => gone ?_⟩
  rw [Token.isWord, Bool.and_eq_true, beq_iff_eq, beq_iff_eq] at hread
  rw [← hread.2]
  exact Token.infix_of_mem_lex hm hread.1

/-- What is left around a spelling does not become one again. -/
theorem builtin_removes_literals_nested :
    let source := "NNoneone = TrTrueue\n"
    "None" ∈ literalSpellings ∧ builtin.apply source = "Nnilone = Trtrueue\n" ∧
      ¬"None".toList <:+: "Nnilone = Trtrueue\n".toList ∧
      ∀ token ∈ Token.lex (({} : Translator).substitutions.apply source),
        token.isWord "None" = false := by
  intro source
  have spelling : "None" ∈ literalSpellings := by decide
  have rewritten : builtin.apply source = "Nnilone = Trtrueue\n" := by decide
  obtain ⟨gone, unread⟩ := builtin_removes_literals source "None" spelling
  rw [rewritten] at gone
  exact ⟨spelling, rewritten, gone, unread⟩

end Substitutions

end Berrify
