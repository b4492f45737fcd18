import Berrify.Token.Lexer
import Mathlib.Data.List.Infix

/-!
# Words among the tokens

Each step of the lexer takes words out of what there is to read, and goes on in a suffix of it
(`Cursor.Takes`, `Cursor.takes_step`). So every word among the tokens of a script stands in its text
(`Token.infix_of_mem_lex`).
-/

namespace Berrify

theorem Gap.suffix_scan (skip : Nat) (inComment : Bool) (gap : Gap) (cs : List Char) :
    (scan skip inComment gap cs).2 <:+ cs := by
  fun_induction scan skip inComment gap cs with
  | case1 | case7 | case8 => exact List.suffix_refl _
  | case2 | case3 | case4 | case5 | case6 =>
    rename_i ih
    exact ih.trans (List.suffix_cons _ _)

theorem Delimiter.suffix_scanTextFrom? {d : Delimiter} {skip : Nat} {r : Read} {cs : List Char}
    {passage : Passage} (h : d.scanTextFrom? skip r cs = some passage) : passage.rest <:+ cs := by
  fun_induction d.scanTextFrom? skip r cs with
  | case1 | case6 => cases h
  | case2 | case3 =>
    rename_i ih
    exact (ih h).trans (List.suffix_cons _ _)
  | case4 r c rest =>
    cases h
    unfold Read.close
    split <;> exact List.drop_suffix _ _
  | case5 =>
    cases h
    exact List.suffix_cons _ _

namespace Cursor

/-- What a step gives has been taken out of what there was to read : words stand in it, and a suffix
of it is left. -/
structure Takes (cs : List Char) (result : List Token × Option Cursor) : Prop where
  words : ∀ token ∈ result.1, token.kind = .word → token.text.toList <:+: cs
  left : ∀ next, result.2 = some next → next.rest <:+ cs

/-- A step that gives one token which is no word. -/
theorem Takes.other {cs : List Char} {token : Token} (hkind : token.kind ≠ .word)
    {next : Option Cursor} (hnext : ∀ cursor, next = some cursor → cursor.rest <:+ cs) :
    Takes cs ([token], next) :=
  ⟨fun _ hm hword => absurd (List.mem_singleton.1 hm ▸ hword) hkind, hnext⟩

theorem takes_codeStep (s : Cursor) : Takes s.rest s.codeStep := by
  have gap := Gap.suffix_scan 0 false (Gap.measure { line := s.line } s.rest) s.rest
  unfold codeStep Gap.ofText
  dsimp only
  split
  · exact .other (by decide : TokenKind.stop ≠ .word) (by simp)
  · split
    · exact .other (by decide : TokenKind.stray ≠ .word) (by simp)
    · refine ⟨fun token hm _ => ?_, fun next hnext => ?_⟩
      · rw [List.mem_singleton.1 hm, Gap.token, String.toList_ofList]
        exact (List.take_prefix _ _).isInfix.trans gap.isInfix
      · cases hnext
        exact (List.drop_suffix _ _).trans gap

theorem takes_textStep (s : Cursor) (d : Delimiter) (outer : List Mode) :
    Takes s.rest (s.textStep d outer) := by
  unfold textStep
  split
  · exact .other (by decide : TokenKind.stray ≠ .word) (by simp)
  · rename_i passage hscan
    refine ⟨fun token hm hword => ?_, fun next hnext => ?_⟩
    · have noWord : token.kind ≠ .word := by
        rcases List.mem_append.1 hm with hm | hm
        · split at hm
          · cases hm
          · rw [List.mem_singleton.1 hm]
            exact (by decide : TokenKind.stringText ≠ .word)
        · rw [List.mem_singleton.1 hm]
          dsimp only
          split <;> decide
      exact absurd hword noWord
    · cases hnext
      exact Delimiter.suffix_scanTextFrom? hscan

theorem takes_formatStep (s : Cursor) (outer : List Mode) :
    Takes s.rest (s.formatStep outer) := by
  unfold formatStep
  split
  · exact .other (by decide : TokenKind.stray ≠ .word) (by simp)
  · rename_i c rest hrest
    have behind : rest <:+ s.rest := hrest ▸ List.suffix_cons c rest
    split
    · exact ⟨by simp, by simpa using behind⟩
    · split
      · exact .other (by decide : TokenKind.fieldOpen ≠ .word) (by simpa using behind)
      · split
        · exact .other (by decide : TokenKind.fieldClose ≠ .word) (by simpa using behind)
        · exact .other (by decide : TokenKind.formatText ≠ .word)
            (by simpa using List.drop_suffix _ _)

theorem takes_step (s : Cursor) : Takes s.rest s.step := by
  unfold step
  split
  · exact s.takes_textStep _ _
  · exact s.takes_formatStep _
  · exact s.takes_codeStep

theorem infix_of_mem_run {fuel : Nat} {s : Cursor} {token : Token} (h : token ∈ run fuel s)
    (hword : token.kind = .word) : token.text.toList <:+: s.rest := by
  induction fuel generalizing s with
  | zero => cases h
  | succ fuel ih =>
    have step := s.takes_step
    rw [run] at h
    split at h
    · rename_i tokens next hstep
      rw [hstep] at step
      rcases List.mem_append.1 h with h | h
      · exact step.words token h hword
      · exact (ih h).trans (step.left next rfl).isInfix
    · rename_i tokens hstep
      rw [hstep] at step
      exact step.words token h hword

end Cursor

/-- Every word among the tokens of a script stands in its text. -/
theorem Token.infix_of_mem_lex {source : String} {token : Token} (h : token ∈ Token.lex source)
    (hword : token.kind = .word) : token.text.toList <:+: source.toList :=
  Cursor.infix_of_mem_run h hword

end Berrify
