import Berrify.Proofs.Expr.Writing

/-!
# Template strings as format templates

A template string that embeds expressions becomes a call of the formatter of the target, which gets
a format and the values of these expressions. `Target.format?` is what the formatter makes of a
format and of the texts of its values, and `Expr.filled` is the template string with texts in the
places of its expressions.

The format of a template string is expanded part by part (`format?_templateText` for what stands
between the expressions), so that it uses each text in its place and leaves the rest as it was
(`format?_templateFormat`, `template_formats_back`).
-/

namespace Berrify

/-- Expands a format from the left : `%%` is a percent sign, `%s` is the next text, and every other
character stands for itself. Nothing else may stand behind a percent sign, and no text may be left
over. -/
def Target.format? : List Char → List String → Option (List Char)
  | '%' :: '%' :: rest, texts => (format? rest texts).map ('%' :: ·)
  | '%' :: 's' :: rest, text :: texts => (format? rest texts).map (text.toList ++ ·)
  | '%' :: _, _ => none
  | c :: rest, texts => (format? rest texts).map (c :: ·)
  | [], [] => some []
  | [], _ :: _ => none

namespace Expr

/-- The text of a part of a template string that is no expression. -/
def literalPart? : TemplatePart Expr → Option String
  | .text text => some text
  | .value _ => none

/-- A template string with texts in the places of its expressions. -/
def filled : List (TemplatePart Expr) → List String → String
  | [], _ => ""
  | .text text :: rest, texts => text ++ filled rest texts
  | .value _ :: rest, text :: texts => text ++ filled rest texts
  | .value _ :: rest, [] => filled rest []

theorem format?_cons {c : Char} (hc : c ≠ '%') (rest : List Char) (texts : List String) :
    Target.format? (c :: rest) texts = (Target.format? rest texts).map (c :: ·) := by
  rw [Target.format?] <;> simp [hc]

/-- Literal text inside a format is expanded to itself. -/
theorem format?_templateText (text : String) (rest : List Char) (texts : List String) :
    Target.format? ((templateText text).toList ++ rest) texts =
      (Target.format? rest texts).map (text.toList ++ ·) := by
  rw [templateText, String.toList_ofList]
  induction text.toList with
  | nil => simp
  | cons c cs ih =>
    rw [List.flatMap_cons, List.append_assoc]
    by_cases hc : c = '%'
    · subst hc
      rw [if_pos rfl, List.cons_append, List.cons_append, List.nil_append, Target.format?, ih,
        Option.map_map]
      rfl
    · rw [if_neg hc, List.singleton_append, format?_cons hc, ih, Option.map_map]
      rfl

/-- The format of a template string uses each text in the place of its expression. -/
theorem format?_templateFormat {parts : List (TemplatePart Expr)} {texts : List String}
    (h : texts.length = (embedded parts).length) :
    Target.format? (templateFormat parts).toList texts = some (filled parts texts).toList := by
  induction parts generalizing texts with
  | nil =>
    obtain rfl := List.eq_nil_of_length_eq_zero h
    rfl
  | cons part parts ih =>
    cases part with
    | text text =>
      rw [templateFormat, String.toList_append, format?_templateText, ih h, Option.map_some, filled,
        String.toList_append]
    | value e =>
      obtain ⟨text, texts, rfl⟩ := List.exists_cons_of_length_eq_add_one h
      have expanded := ih (Nat.succ.inj h)
      have front : (templateFormat (.value e :: parts)).toList =
          '%' :: 's' :: (templateFormat parts).toList := by
        simp [templateFormat]
      rw [front, Target.format?, expanded, Option.map_some, filled, String.toList_append]

theorem hasValues_eq_true_iff {parts : List (TemplatePart Expr)} :
    hasValues parts = true ↔ embedded parts ≠ [] := by
  induction parts with
  | nil => simp [hasValues, embedded]
  | cons part parts ih => cases part <;> simp [hasValues, embedded, ih]

theorem templateLiteral_eq_join (parts : List (TemplatePart Expr)) :
    templateLiteral parts = String.join (parts.filterMap literalPart?) := by
  induction parts with
  | nil => rfl
  | cons part parts ih =>
    cases part <;> simp [templateLiteral, literalPart?, List.filterMap_cons, ih]

/-- A template string whose expressions can be written is a call of the formatter, with a format
that gives the template string back whatever the texts of the values are. Without expressions it is
a plain literal. -/
theorem template_formats_back (view : View) (pos : Position) {parts : List (TemplatePart Expr)}
    {values : List String}
    (h : List.Forall₂ (fun e text => e.render view = .ok text) (embedded parts) values) :
    (embedded parts ≠ [] → ∃ format : String,
      (Expr.template parts).write view pos =
        .ok ("string.format(" ++ Text.quote format ++ ", " ++ commaSeparated values ++ ")") ∧
      ∀ texts : List String, texts.length = values.length →
        Target.format? format.toList texts = some (filled parts texts).toList) ∧
    (embedded parts = [] → (Expr.template parts).write view pos =
      .ok (Text.quote (String.join (parts.filterMap literalPart?)))) := by
  have written : (Expr.template parts).write view pos = .ok (templateCall parts values) :=
    write_template_eq_ok.2 ⟨values, writeAll_eq_ok.2 h, rfl⟩
  rw [written]
  refine ⟨fun embeds => ⟨templateFormat parts, ?_, fun texts htexts => ?_⟩, fun plain => ?_⟩
  · rw [templateCall, if_pos (hasValues_eq_true_iff.2 embeds)]
  · exact format?_templateFormat (htexts.trans h.length_eq.symm)
  · have noValues : hasValues parts = false := by
      rw [Bool.eq_false_iff, Ne, hasValues_eq_true_iff, not_not]
      exact plain
    rw [templateCall, noValues, if_neg Bool.false_ne_true, templateLiteral_eq_join]

/-- Percent signs in the literal text, next to places and in front of an `s`, stay what they are. -/
theorem template_formats_back_percent :
    let parts : List (TemplatePart Expr) :=
      [.text "100%", .value (.name "a"), .text "%s%", .value (.constant (.int "1"))]
    (Expr.template parts).render ⟨default, default⟩ =
        .ok "string.format('100%%%s%%s%%%s', a, 1)" ∧
      ∃ format : String, (Expr.template parts).render ⟨default, default⟩ =
          .ok ("string.format(" ++ Text.quote format ++ ", " ++ commaSeparated ["a", "1"] ++ ")") ∧
        Target.format? format.toList ["x", "%"] = some "100%x%s%%".toList := by
  intro parts
  have values : List.Forall₂ (fun e text => e.render ⟨default, default⟩ = .ok text)
      (embedded parts) ["a", "1"] := .cons rfl (.cons rfl .nil)
  obtain ⟨format, hwritten, hformat⟩ :=
    (template_formats_back ⟨default, default⟩ .whole values).1 (by simp [parts, embedded])
  refine ⟨?_, format, hwritten, hformat ["x", "%"] rfl⟩
  decide

end Expr

end Berrify
