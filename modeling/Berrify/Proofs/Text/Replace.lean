import Berrify.Proofs.Text.Search

/-!
# Replacing

A character that is not in the pattern parts a text : what stands in front of it and what stands
behind it are replaced each for itself (`replaceChars_append_cons`). What parts a text in this way
at the ends of lines, and makes no new ones, works line by line (`lines_of_append`).

Where a value is put, a word can come about that was not in the text. It cannot if the value is
`Foreign` to the word, which is to say that neither can start inside of the other : then a word that
does not occur in the text does not occur in the result, and the pattern itself never does
(`not_infix_replaceChars`).
-/

namespace Berrify.Text

variable {pattern value : List Char}

/-! ## Texts in parts -/

/-- Whether a pattern starts a text is decided in front of a character that it does not hold. -/
theorem isPrefixOf_append_cons {c : Char} (hc : c ∉ pattern) (front behind : List Char) :
    pattern.isPrefixOf (front ++ c :: behind) = pattern.isPrefixOf front := by
  induction pattern generalizing front with
  | nil => simp
  | cons d pattern ih =>
    rw [List.mem_cons, not_or] at hc
    cases front with
    | nil =>
      have differs : (d == c) = false := by
        simpa using Ne.symm hc.1
      rw [List.nil_append, List.isPrefixOf_cons_cons, differs, Bool.false_and]
      rfl
    | cons e front =>
      rw [List.cons_append, List.isPrefixOf_cons_cons, List.isPrefixOf_cons_cons, ih hc.2]

theorem replaceChars_append_cons {c : Char} (hne : pattern ≠ []) (hc : c ∉ pattern)
    {skip : Nat} {front : List Char} (hskip : skip ≤ front.length) (behind : List Char) :
    replaceChars pattern value skip (front ++ c :: behind) =
      replaceChars pattern value skip front ++ c :: replaceChars pattern value 0 behind := by
  induction front generalizing skip with
  | nil =>
    obtain rfl : skip = 0 := Nat.le_zero.1 hskip
    have noMatch : pattern.isPrefixOf (c :: behind) = false := by
      have decided := isPrefixOf_append_cons hc [] behind
      rw [List.nil_append] at decided
      rw [decided]
      cases pattern with
      | nil => exact absurd rfl hne
      | cons d pattern => rfl
    rw [List.nil_append, replaceChars, replaceChars, noMatch, if_neg Bool.false_ne_true,
      List.nil_append]
  | cons d front ih =>
    cases skip with
    | succ skip =>
      rw [List.cons_append, replaceChars, replaceChars]
      exact ih (Nat.le_of_succ_le_succ hskip)
    | zero =>
      rw [List.cons_append, replaceChars, replaceChars, ← List.cons_append,
        isPrefixOf_append_cons hc]
      split
      · rename_i found
        -- The match ends in front of the character, so nothing behind it is skipped.
        have inside := (List.isPrefixOf_iff_prefix.1 found).length_le
        rw [List.length_cons] at inside
        rw [ih (by omega), List.append_assoc]
      · rw [ih (Nat.zero_le _), List.cons_append]

/-- What stands in the result stood in the text or comes from the value. -/
theorem mem_replaceChars {skip : Nat} {text : List Char} {c : Char}
    (h : c ∈ replaceChars pattern value skip text) : c ∈ value ∨ c ∈ text := by
  induction text generalizing skip with
  | nil =>
    rw [replaceChars] at h
    exact .inr h
  | cons d text ih =>
    cases skip with
    | succ skip => exact (ih h).imp_right (List.mem_cons_of_mem d)
    | zero =>
      rw [replaceChars] at h
      split at h
      · rcases List.mem_append.1 h with h | h
        · exact .inl h
        · exact (ih h).imp_right (List.mem_cons_of_mem d)
      · rcases List.mem_cons.1 h with rfl | h
        · exact .inr List.mem_cons_self
        · exact (ih h).imp_right (List.mem_cons_of_mem d)

/-! ## Lines -/

/-- The lines of a text, without their ends. -/
def lines (text : String) : List String :=
  (text.toList.splitOn '\n').map String.ofList

theorem lines_append (front behind : String) :
    lines (front ++ "\n" ++ behind) = lines front ++ lines behind := by
  have text : (front ++ "\n" ++ behind).toList = front.toList ++ '\n' :: behind.toList := by
    simp
  rw [lines, text, List.splitOn_append_cons_self, List.map_append, lines, lines]

theorem lines_singleton {text : String} (h : '\n' ∉ text.toList) : lines text = [text] := by
  rw [lines, List.splitOn_eq_singleton h, List.map_singleton, String.ofList_toList]

/-- What treats texts around the end of a line each for itself, and makes one line of one line,
gives for each line of a text one line. -/
theorem lines_of_append {f : String → String}
    (append : ∀ front behind, f (front ++ "\n" ++ behind) = f front ++ "\n" ++ f behind)
    (single : ∀ text, '\n' ∉ text.toList → '\n' ∉ (f text).toList) (text : String) :
    lines (f text) = (lines text).map f := by
  induction hlength : text.toList.length using Nat.strong_induction_on generalizing text with
  | _ length ih =>
    by_cases hm : '\n' ∈ text.toList
    · obtain ⟨front, behind, htext, hfront⟩ := List.eq_append_cons_of_mem hm
      have parted : text = .ofList front ++ "\n" ++ .ofList behind := by
        apply String.toList_injective
        simp [htext]
      have line : '\n' ∉ (String.ofList front).toList := by
        rwa [String.toList_ofList]
      have shorter : (String.ofList behind).toList.length < length := by
        rw [← hlength, htext, String.toList_ofList]
        simp
        omega
      rw [parted, append, lines_append, lines_append, lines_singleton (single _ line),
        lines_singleton line, ih _ shorter _ rfl, List.map_append, List.map_singleton]
    · rw [lines_singleton hm, lines_singleton (single text hm), List.map_singleton]

/-! ## Words that a value does not make -/

/-- Whether a word can start inside of a text, the text being all of it that there is to see. -/
def canStartIn (word : List Char) : List Char → Bool
  | [] => false
  | c :: rest =>
    (c :: rest).isPrefixOf word || word.isPrefixOf (c :: rest) || canStartIn word rest

/-- Neither of a word and a value can start inside of the other. -/
structure Foreign (word value : List Char) : Prop where
  wordInValue : canStartIn word value = false
  valueInWord : canStartIn value word = false

instance (word value : List Char) : Decidable (Foreign word value) :=
  decidable_of_iff (canStartIn word value = false ∧ canStartIn value word = false)
    ⟨fun h => ⟨h.1, h.2⟩, fun h => ⟨h.wordInValue, h.valueInWord⟩⟩

theorem canStartIn_cons_eq_false {word : List Char} {c : Char} {rest : List Char} :
    canStartIn word (c :: rest) = false ↔
      ¬(c :: rest) <+: word ∧ ¬word <+: c :: rest ∧ canStartIn word rest = false := by
  rw [canStartIn, Bool.or_eq_false_iff, Bool.or_eq_false_iff, Bool.eq_false_iff, Bool.eq_false_iff,
    Ne, Ne, List.isPrefixOf_iff_prefix, List.isPrefixOf_iff_prefix, and_assoc]

/-- A word that occurs in what begins with a value occurs behind it, if it cannot start in it. -/
theorem infix_of_infix_append {word : List Char} (h : canStartIn word value = false)
    {rest : List Char} (hinside : word <:+: value ++ rest) : word <:+: rest := by
  induction value with
  | nil => exact hinside
  | cons c value ih =>
    obtain ⟨hlonger, hshorter, hrest⟩ := canStartIn_cons_eq_false.1 h
    rw [List.cons_append, List.infix_cons_iff, ← List.cons_append] at hinside
    refine ih hrest (hinside.resolve_left fun hstart => ?_)
    exact (List.prefix_or_prefix_of_prefix hstart (List.prefix_append _ _)).elim hshorter hlonger

/-- A word that starts the result starts the text, which no match does then, if the value cannot
start in the word. -/
theorem prefix_of_prefix_replaceChars {word : List Char} (hne : word ≠ [])
    (h : canStartIn value word = false) {text : List Char}
    (hstart : word <+: replaceChars pattern value 0 text) :
    word <+: text ∧ ¬pattern <+: text := by
  induction text generalizing word with
  | nil =>
    rw [replaceChars, List.prefix_nil] at hstart
    exact absurd hstart hne
  | cons c text ih =>
    cases word with
    | nil => exact absurd rfl hne
    | cons d word =>
      obtain ⟨hlonger, hshorter, hrest⟩ := canStartIn_cons_eq_false.1 h
      rw [replaceChars] at hstart
      split at hstart
      · exact absurd (List.prefix_or_prefix_of_prefix hstart (List.prefix_append _ _))
          (not_or.2 ⟨hlonger, hshorter⟩)
      · rename_i other
        obtain ⟨rfl, hword⟩ := List.cons_prefix_cons.1 hstart
        refine ⟨List.cons_prefix_cons.2 ⟨rfl, ?_⟩, fun hp => other ?_⟩
        · by_cases hnil : word = []
          · rw [hnil]
            exact List.nil_prefix
          · exact (ih hnil hrest hword).1
        · exact List.isPrefixOf_iff_prefix.2 hp

/-- Where a value is put that is foreign to a word, the word does not come about : if it occurs in
the result it is not the pattern, and it occurs in the text. -/
theorem not_infix_replaceChars {word : List Char} (hne : word ≠ []) (h : Foreign word value)
    {text : List Char} (hword : word = pattern ∨ ¬word <:+: text) (skip : Nat) :
    ¬word <:+: replaceChars pattern value skip text := by
  induction text generalizing skip with
  | nil =>
    rw [replaceChars, List.infix_nil]
    exact hne
  | cons c text ih =>
    have later := ih (hword.imp_right fun hw hinside => hw (List.infix_cons_iff.2 (.inr hinside)))
    cases skip with
    | succ skip => exact later skip
    | zero =>
      intro hinside
      have start : ¬word <+: replaceChars pattern value 0 (c :: text) := fun hstart => by
        obtain ⟨hfront, hother⟩ := prefix_of_prefix_replaceChars hne h.valueInWord hstart
        rcases hword with rfl | hword
        · exact hother hfront
        · exact hword hfront.isInfix
      rw [replaceChars] at hinside start
      split at hinside
      · exact later _ (infix_of_infix_append h.wordInValue hinside)
      · rename_i other
        rw [if_neg other] at start
        exact (List.infix_cons_iff.1 hinside).elim start (later 0)

end Berrify.Text
