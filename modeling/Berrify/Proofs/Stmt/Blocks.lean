import Berrify.Proofs.Expr.Tidy
import Berrify.Proofs.Stmt.Emission

/-!
# Blocks are opened and closed in order

`isWellBlocked` goes through the lines of a text with a stack of open blocks. A line that starts
with `class`, `def`, `static def`, `if`, `for` or `while`, or that is `try`, opens a block; `end`
closes the innermost one and stands where it was opened; `elif`, `else`, `except` and `finally`
stand there too; and every other line is indented by four blanks for each open block. At the end no
block may be open.

The text of every script is well blocked, provided that its names and those in the tables are names
and none of the structural words and that its numbers are numerals. The proof follows the rules of
`Emits` with the number of open blocks (`depthStep`) : a statement leaves it as it was, and so do
the clauses in the middle of one.
-/

namespace Berrify

open Text Identifier

/-! ## Lines of a text -/

/-- What a line is for the block structure. -/
inductive LineKind where
  | opener
  | closer
  | divider
  | plain
deriving DecidableEq, Repr

/-- What a line that starts with a text is. -/
def lineKind (text : String) : LineKind :=
  if startsWith "class " text || startsWith "def " text || startsWith "static def " text ||
      startsWith "if " text || startsWith "for " text || startsWith "while " text ||
      text == "try" then .opener
  else if text == "end" then .closer
  else if startsWith "elif " text || text == "else" || startsWith "except " text ||
      text == "finally" then .divider
  else .plain

/-- The lines of a text, with the characters of the current line read so far in reverse. -/
def linesFrom (current : List Char) : List Char → List String
  | [] => if current.isEmpty then [] else [.ofList current.reverse]
  | c :: rest =>
    if c = '\n' then .ofList current.reverse :: linesFrom [] rest
    else linesFrom (c :: current) rest

/-- The lines of a text. -/
def linesOf (text : String) : List String :=
  linesFrom [] text.toList

/-- One line, given the indentations of the open blocks, the innermost first. -/
def scanLine (opened : List Nat) (line : String) : Option (List Nat) :=
  let indent := (line.toList.takeWhile (· == ' ')).length
  match lineKind (.ofList (line.toList.dropWhile (· == ' '))), opened with
  | .opener, _ => if indent = 4 * opened.length then some (indent :: opened) else none
  | .closer, top :: rest => if indent = top then some rest else none
  | .divider, top :: _ => if indent = top then some opened else none
  | .plain, _ => if indent = 4 * opened.length then some opened else none
  | _, [] => none

/-- Whether the blocks of a text are opened and closed in order. -/
def isWellBlocked (text : String) : Bool :=
  (linesOf text).foldlM scanLine [] == some []

/-! ## Kinds of lines -/

theorem startsWith_eq_true {lead text : String} (h : startsWith lead text = true) :
    ∃ rest, text.toList = lead.toList ++ rest := by
  obtain ⟨rest, hr⟩ := List.isPrefixOf_iff_prefix.1 h
  exact ⟨rest, hr.symm⟩

theorem startsWith_append (lead rest : String) : startsWith lead (lead ++ rest) = true := by
  rw [startsWith, List.isPrefixOf_iff_prefix, String.toList_append]
  exact List.prefix_append _ _

/-- A line whose first word is not structural is plain. -/
theorem lineKind_of_leadWord {text : String} (h : String.ofList (leadWord text) ∉ structuralWords) :
    lineKind text = .plain := by
  have starts (word tail : String) (hw : isWord word = true) (ht : Apart tail.toList)
      (hne : tail.toList ≠ []) (hm : word ∈ structuralWords) :
      startsWith (word ++ tail) text = false := by
    rw [Bool.eq_false_iff]
    intro hs
    obtain ⟨rest, hr⟩ := startsWith_eq_true hs
    have lead : leadWord text = word.toList := by
      rw [leadWord, hr, String.toList_append, List.append_assoc,
        takeWhile_append_of_apart (ht.append hne rest), ← leadWord, leadWord_of_isWord hw]
    rw [lead, String.ofList_toList] at h
    exact h hm
  have differs (word : String) (hw : isWord word = true) (hm : word ∈ structuralWords) :
      (text == word) = false := by
    rw [beq_eq_false_iff_ne]
    rintro rfl
    rw [leadWord_of_isWord hw, String.ofList_toList] at h
    exact h hm
  have blank : Apart " ".toList := apart_cons (by decide)
  have h₁ : startsWith "class " text = false :=
    starts "class" " " (by decide) blank (by decide) (by decide)
  have h₂ : startsWith "def " text = false :=
    starts "def" " " (by decide) blank (by decide) (by decide)
  have h₃ : startsWith "static def " text = false :=
    starts "static" " def " (by decide) (apart_cons (by decide)) (by decide) (by decide)
  have h₄ : startsWith "if " text = false :=
    starts "if" " " (by decide) blank (by decide) (by decide)
  have h₅ : startsWith "for " text = false :=
    starts "for" " " (by decide) blank (by decide) (by decide)
  have h₆ : startsWith "while " text = false :=
    starts "while" " " (by decide) blank (by decide) (by decide)
  have h₇ : startsWith "elif " text = false :=
    starts "elif" " " (by decide) blank (by decide) (by decide)
  have h₈ : startsWith "except " text = false :=
    starts "except" " " (by decide) blank (by decide) (by decide)
  simp [lineKind, h₁, h₂, h₃, h₄, h₅, h₆, h₇, h₈, differs "try" (by decide) (by decide),
    differs "end" (by decide) (by decide), differs "else" (by decide) (by decide),
    differs "finally" (by decide) (by decide)]

/-- A line that can be told from its indentation and its line break. -/
structure Clean (text : String) : Prop where
  oneLine : OneLine text
  noBlank : text.toList.head? ≠ some ' '

theorem Text.Tidy.clean {text : String} (h : Tidy text) : Clean text := by
  refine ⟨h.oneLine, ?_⟩
  obtain ⟨word, rest, ht, hword, -, hbehind⟩ := h.front
  rw [ht]
  cases word with
  | nil =>
    cases rest with
    | nil => simp
    | cons c more =>
      intro hc
      cases hc
      exact ((hbehind ' ' more rfl).2 rfl).1 rfl
  | cons c word =>
    intro hc
    cases hc
    exact absurd (hword ' ' List.mem_cons_self) (by decide)

theorem Text.Tidy.lineKind {text : String} (h : Tidy text) : Berrify.lineKind text = .plain := by
  obtain ⟨word, rest, ht, hword, hplain, hbehind⟩ := h.front
  refine lineKind_of_leadWord ?_
  rwa [leadWord, ht, takeWhile_append_of_apart hbehind.apart, List.takeWhile_eq_self_iff.2 hword]

/-- A line under a keyword that is no structural word is plain. -/
theorem lineKind_keyword {word : String} (h : isPlainName word = true) {rest : String}
    (hrest : Apart rest.toList) : lineKind (word ++ rest) = .plain := by
  refine lineKind_of_leadWord ?_
  rw [leadWord_append hrest, leadWord_of_isWord (isWord_of_isPlainName h), String.ofList_toList]
  rw [isPlainName, Bool.and_eq_true] at h
  simpa using h.2

/-! ## Depths -/

/-- The number of open blocks behind a line. -/
def depthStep (depth : Nat) (line : Line) : Option Nat :=
  match lineKind line.text with
  | .opener => if line.level = depth then some (depth + 1) else none
  | .closer => if depth = line.level + 1 then some line.level else none
  | .divider => if depth = line.level + 1 then some depth else none
  | .plain => if line.level = depth then some depth else none

/-- Lines that lead from one number of open blocks to another, with the lines told apart. -/
structure Steps (lines : List Line) (depth depth' : Nat) : Prop where
  clean : ∀ line ∈ lines, Clean line.text
  scan : lines.foldlM depthStep depth = some depth'

theorem steps_nil (depth : Nat) : Steps [] depth depth :=
  ⟨by simp, rfl⟩

theorem Steps.append {xs ys : List Line} {a b c : Nat} (hx : Steps xs a b) (hy : Steps ys b c) :
    Steps (xs ++ ys) a c := by
  refine ⟨fun line hm => ?_, ?_⟩
  · rcases List.mem_append.1 hm with hm | hm
    · exact hx.clean line hm
    · exact hy.clean line hm
  · rw [List.foldlM_append, hx.scan]
    exact hy.scan

/-- A line one block deeper does the same one block deeper. -/
theorem depthStep_nest (depth : Nat) (line : Line) :
    depthStep (depth + 1) line.nest = (depthStep depth line).map (· + 1) := by
  unfold depthStep
  cases h : lineKind line.text <;> simp only [Line.nest, h, Nat.add_right_cancel_iff] <;>
    split <;> rfl

theorem foldlM_nested (lines : List Line) (depth : Nat) :
    (nested lines).foldlM depthStep (depth + 1) =
      (lines.foldlM depthStep depth).map (· + 1) := by
  induction lines generalizing depth with
  | nil => rfl
  | cons line lines ih =>
    rw [nested, List.map_cons, List.foldlM_cons, depthStep_nest, List.foldlM_cons]
    cases depthStep depth line with
    | none => rfl
    | some next => exact ih next

theorem Steps.nested {lines : List Line} {a b : Nat} (h : Steps lines a b) :
    Steps (nested lines) (a + 1) (b + 1) := by
  refine ⟨fun line hm => ?_, ?_⟩
  · obtain ⟨inner, hi, rfl⟩ := List.mem_map.1 hm
    exact h.clean inner hi
  · rw [foldlM_nested, h.scan]
    rfl

theorem steps_flush {text : String} (hc : Clean text) {a b : Nat}
    (h : depthStep a (.flush text) = some b) : Steps [.flush text] a b := by
  refine ⟨?_, ?_⟩
  · simpa [Line.flush] using hc
  · rw [List.foldlM_cons, h]
    rfl

theorem steps_opener {text : String} (hc : Clean text) (h : lineKind text = .opener) :
    Steps [.flush text] 0 1 := by
  refine steps_flush hc ?_
  unfold depthStep
  simp [Line.flush, h]

theorem steps_divider {text : String} (hc : Clean text) (h : lineKind text = .divider) :
    Steps [.flush text] 1 1 := by
  refine steps_flush hc ?_
  unfold depthStep
  simp [Line.flush, h]

theorem steps_plain {text : String} (hc : Clean text) (h : lineKind text = .plain) :
    Steps [.flush text] 0 0 := by
  refine steps_flush hc ?_
  unfold depthStep
  simp [Line.flush, h]

theorem steps_closing : Steps Outline.closing.lines 1 0 :=
  steps_flush ⟨by decide, by decide⟩ (by decide)

/-- A block : a line that opens it, what is in it, clauses that divide it, and its end. -/
theorem steps_block {header : String} {inner clauses : List Line} (hc : Clean header)
    (hh : lineKind header = .opener) (hi : Steps inner 0 0) (hd : Steps clauses 1 1) :
    Steps (.flush header :: (nested inner ++ (clauses ++ Outline.closing.lines))) 0 0 :=
  (steps_opener hc hh).append (hi.nested.append (hd.append steps_closing))

/-- A clause : a line that divides a block, and what is behind it. -/
theorem steps_clause {header : String} {inner more : List Line} (hc : Clean header)
    (hh : lineKind header = .divider) (hi : Steps inner 0 0) (hm : Steps more 1 1) :
    Steps (.flush header :: (nested inner ++ more)) 1 1 :=
  (steps_divider hc hh).append (hi.nested.append hm)

/-! ## From depths to indentations -/

/-- The indentations of nested blocks, the innermost first. -/
def indents : Nat → List Nat
  | 0 => []
  | n + 1 => 4 * n :: indents n

theorem length_indents (n : Nat) : (indents n).length = n := by
  induction n with
  | zero => rfl
  | succ n ih => rw [indents, List.length_cons, ih]

theorem toList_render (line : Line) :
    line.render.toList = List.replicate (4 * line.level) ' ' ++ line.text.toList := by
  have blanks (n : Nat) : (String.join (List.replicate n Line.indentation)).toList =
      List.replicate (4 * n) ' ' := by
    induction n with
    | zero => rfl
    | succ n ih =>
      rw [List.replicate_succ, String.join_cons, String.toList_append, ih, Nat.mul_succ,
        Nat.add_comm, List.replicate_add]
      rfl
  rw [Line.render, String.toList_append, blanks]

theorem takeWhile_render {line : Line} (h : Clean line.text) :
    line.render.toList.takeWhile (· == ' ') = List.replicate (4 * line.level) ' ' ∧
      line.render.toList.dropWhile (· == ' ') = line.text.toList := by
  have front : line.text.toList.takeWhile (· == ' ') = [] ∧
      line.text.toList.dropWhile (· == ' ') = line.text.toList := by
    cases ht : line.text.toList with
    | nil => exact ⟨rfl, rfl⟩
    | cons c rest =>
      have hc : c ≠ ' ' := by
        rintro rfl
        exact h.noBlank (by rw [ht]; rfl)
      simp [hc]
  rw [toList_render]
  constructor
  · rw [List.takeWhile_append_of_pos (by simp), front.1, List.append_nil]
  · rw [List.dropWhile_append_of_pos (by simp), front.2]

/-- A line that steps from one depth to another leads between the indentations of these. -/
theorem scanLine_render {line : Line} (hc : Clean line.text) {depth depth' : Nat}
    (h : depthStep depth line = some depth') :
    scanLine (indents depth) line.render = some (indents depth') := by
  obtain ⟨ht, hd⟩ := takeWhile_render hc
  unfold scanLine
  rw [ht, hd, String.ofList_toList, List.length_replicate, length_indents]
  unfold depthStep at h
  cases hk : lineKind line.text with
  | opener =>
    simp only [hk, Option.ite_none_right_eq_some, Option.some.injEq] at h
    obtain ⟨rfl, rfl⟩ := h
    simp [indents]
  | closer =>
    simp only [hk, Option.ite_none_right_eq_some, Option.some.injEq] at h
    obtain ⟨rfl, rfl⟩ := h
    simp [indents]
  | divider =>
    simp only [hk, Option.ite_none_right_eq_some, Option.some.injEq] at h
    obtain ⟨rfl, rfl⟩ := h
    simp [indents]
  | plain =>
    simp only [hk, Option.ite_none_right_eq_some, Option.some.injEq] at h
    obtain ⟨rfl, rfl⟩ := h
    simp

theorem foldlM_scanLine : ∀ {lines : List Line} {depth depth' : Nat}, Steps lines depth depth' →
    (lines.map Line.render).foldlM scanLine (indents depth) = some (indents depth')
  | [], depth, depth', h => by
    cases h.scan
    rfl
  | line :: lines, depth, depth', h => by
    have scan := h.scan
    rw [List.foldlM_cons, Option.bind_eq_bind, Option.bind_eq_some_iff] at scan
    obtain ⟨next, hnext, hrest⟩ := scan
    rw [List.map_cons, List.foldlM_cons, scanLine_render (h.clean line List.mem_cons_self) hnext]
    exact foldlM_scanLine ⟨fun l hl => h.clean l (List.mem_cons_of_mem line hl), hrest⟩

theorem linesFrom_append {text : List Char} (h : '\n' ∉ text) (current rest : List Char) :
    linesFrom current (text ++ '\n' :: rest) =
      .ofList (current.reverse ++ text) :: linesFrom [] rest := by
  induction text generalizing current with
  | nil => simp [linesFrom]
  | cons c text ih =>
    have hc : c ≠ '\n' := fun he => h (he ▸ List.mem_cons_self)
    rw [List.cons_append, linesFrom, if_neg hc, ih fun hm => h (List.mem_cons_of_mem c hm)]
    simp

/-- The lines of a joined text are the lines it was joined from. -/
theorem linesOf_joinAll {lines : List Line} (h : ∀ line ∈ lines, Clean line.text) :
    linesOf (Line.joinAll lines) = lines.map Line.render := by
  induction lines with
  | nil => rfl
  | cons line lines ih =>
    have clean : '\n' ∉ line.render.toList := by
      rw [toList_render, List.mem_append, List.mem_replicate]
      rintro (⟨-, hc⟩ | hm)
      · cases hc
      · exact (h line List.mem_cons_self).oneLine hm
    have later := ih fun l hl => h l (List.mem_cons_of_mem line hl)
    have shape : (Line.joinAll (line :: lines)).toList =
        line.render.toList ++ '\n' :: (Line.joinAll lines).toList := by
      simp [Line.joinAll, String.join_cons]
    rw [linesOf, shape, linesFrom_append clean, ← linesOf, later]
    simp

/-- Lines that end where they began are a well blocked text. -/
theorem Steps.isWellBlocked {lines : List Line} (h : Steps lines 0 0) :
    isWellBlocked (Line.joinAll lines) = true := by
  rw [Berrify.isWellBlocked, linesOf_joinAll h.clean, show ([] : List Nat) = indents 0 from rfl,
    foldlM_scanLine h]
  rfl

/-! ## Names in a script -/

/-- The name of a parameter is a name, and so are those in its default. -/
def Param.WellNamed (param : Param) : Prop :=
  isPlainName param.name = true ∧ ∀ value ∈ param.fallback, value.WellNamed

/-- The names of an import are names. -/
def ImportedName.WellNamed (imported : ImportedName) : Prop :=
  isPlainName imported.name = true ∧ ∀ boundAs ∈ imported.boundAs, isPlainName boundAs = true

mutual
/-- All names and numbers in a statement are names and numbers. Type hints, decorators and the
classes of exceptions are not written and may hold anything. -/
def Stmt.WellNamed : Stmt → Prop
  | .classDef name bases body =>
    isPlainName name = true ∧ (∀ base ∈ bases, base.WellNamed) ∧ BlockWellNamed body
  | .functionDef name params _ body =>
    isPlainName name = true ∧ (∀ param ∈ params, param.WellNamed) ∧ BlockWellNamed body
  | .assign targets value => (∀ target ∈ targets, target.WellNamed) ∧ value.WellNamed
  | .declare target _ value => target.WellNamed ∧ ∀ given ∈ value, given.WellNamed
  | .update target _ value => target.WellNamed ∧ value.WellNamed
  | .branch test body orelse => test.WellNamed ∧ BlockWellNamed body ∧ BlockWellNamed orelse
  | .forEach target iter body orelse =>
    target.WellNamed ∧ iter.WellNamed ∧ BlockWellNamed body ∧ BlockWellNamed orelse
  | .whileLoop test body orelse => test.WellNamed ∧ BlockWellNamed body ∧ BlockWellNamed orelse
  | .attempt body handlers orelse cleanup =>
    BlockWellNamed body ∧ HandlersWellNamed handlers ∧ BlockWellNamed orelse ∧
      BlockWellNamed cleanup
  | .giveBack value => ∀ given ∈ value, given.WellNamed
  | .expr value => value.WellNamed
  | .importNames names => ∀ imported ∈ names, imported.WellNamed
  | .globalNames names => ∀ name ∈ names, isPlainName name = true
  | _ => True
/-- All names and numbers in a block are names and numbers. -/
def BlockWellNamed : List (Located Stmt) → Prop
  | [] => True
  | ⟨_, stmt⟩ :: rest => stmt.WellNamed ∧ BlockWellNamed rest
/-- All names and numbers in handlers are names and numbers. -/
def HandlersWellNamed : List (Handler (List (Located Stmt))) → Prop
  | [] => True
  | ⟨_, name, body⟩ :: rest =>
    (∀ bound ∈ name, isPlainName bound = true) ∧ BlockWellNamed body ∧ HandlersWellNamed rest
end

/-- What a part of a script has to satisfy. -/
def Phrase.WellNamed : Phrase → Prop
  | .stmt s => s.WellNamed
  | .block b => BlockWellNamed b
  | .otherwise b => BlockWellNamed b
  | .clause keyword b => lineKind keyword = .divider ∧ Clean keyword ∧ BlockWellNamed b
  | .handlers hs => HandlersWellNamed hs
  | .targets value _ ts => OneLine value ∧ ∀ target ∈ ts, target.WellNamed

/-- The number of blocks that are open where a part of a script stands. -/
def Phrase.depth : Phrase → Nat
  | .otherwise _ | .clause _ _ | .handlers _ => 1
  | _ => 0

/-! ## Lines of statements -/

section

variable {view : View} (hn : view.naming.WellNamed)
include hn

theorem tidy_render {e : Expr} (hw : e.WellNamed) {text : String} (h : e.render view = .ok text) :
    Tidy text :=
  Expr.write_tidy hn hw h

theorem tidy_renderCondition {e : Expr} (hw : e.WellNamed) {text : String}
    (h : e.renderCondition view = .ok text) : Tidy text := by
  obtain ⟨alone, ha, rfl⟩ := map_eq_ok.1 h
  have tidy := tidy_render hn hw ha
  split
  · exact tidy_parenthesize tidy.oneLine
  · exact tidy

/-- The text of an assignment target is tidy and not empty. -/
theorem tidy_renderTarget {target : Expr} (hw : target.WellNamed) {text : String}
    (h : renderTarget view target = .ok text) : Tidy text ∧ text ≠ "" := by
  match target with
  | .name id =>
    have written : (Expr.name id).write view .operand = .ok text := h
    exact ⟨Expr.write_tidy hn hw written, Expr.write_operand_ne_empty hw written⟩
  | .attribute value attr =>
    have written : (Expr.attribute value attr).write view .whole = .ok text := h
    refine ⟨Expr.write_tidy hn hw written, ?_⟩
    obtain ⟨_, _, rfl⟩ := Expr.write_attribute_eq_ok.1 written
    simp
  | .subscript value index =>
    obtain ⟨indexText, index, valueText, hv, rfl⟩ := renderTarget_subscript_eq_ok.1 h
    have inner := (Expr.write_tidy hn (hw.inside (by simp [Expr.parts])) index).oneLine
    rw [String.append_assoc, String.append_assoc]
    refine ⟨(tidy_render hn (hw.inside (by simp [Expr.parts])) hv).append '[' ?_ (by simp)
      (by decide) (by decide), by simp⟩
    exact (by decide : OneLine "[").append (inner.append (by decide))
  | .constant _ | .call .. | .binary .. | .unary .. | .boolean .. | .compare .. | .conditional ..
  | .dict _ | .list _ | .tuple _ | .set _ | .slice .. | .lambda .. | .template _ | .starred _
  | .unsupported _ => simp [renderTarget, throw_eq_ok] at h

end

/-- A line under a keyword that is no structural word keeps the number of open blocks. -/
theorem steps_keyword (word rest : String) (h : isPlainName word = true) (hb : Apart rest.toList)
    (hrest : OneLine rest) : Steps [.flush (word ++ rest)] 0 0 := by
  have name := isWord_of_isPlainName h
  refine steps_plain ⟨(oneLine_of_isWord name).append hrest, ?_⟩ (lineKind_keyword h hb)
  cases hw : word.toList with
  | nil => exact absurd hw (toList_ne_nil_of_isWord name)
  | cons c more =>
    rw [String.toList_append, hw]
    intro hc
    cases hc
    have := all_isNamePart_of_isWord name ' ' (by simp [hw])
    exact absurd this (by decide)

/-- A word and something behind a blank. -/
theorem steps_word (lead word : String) (hlead : lead = word ++ " ") (h : isPlainName word = true)
    {rest : String} (hrest : OneLine rest) : Steps [.flush (lead ++ rest)] 0 0 := by
  rw [hlead, String.append_assoc]
  exact steps_keyword word (" " ++ rest) h (by simpa using apart_cons (by decide))
    ((by decide : OneLine " ").append hrest)

theorem steps_tidy {text : String} (h : Tidy text) : Steps [.flush text] 0 0 :=
  steps_plain h.clean h.lineKind

theorem steps_assignmentLine (form : AssignmentForm) {target value : String} (ht : Tidy target)
    (hne : target ≠ "") (hv : OneLine value) :
    Steps [.flush (assignmentLine form target value)] 0 0 := by
  cases form with
  | assign => exact steps_tidy (ht.assigned hne hv)
  | declare =>
    have line := steps_word "var " "var" rfl (by decide)
      ((ht.oneLine.append (by decide : OneLine " = ")).append hv)
    simpa [assignmentLine, String.append_assoc] using line

/-- The ways in which the header of a block starts. -/
def openings : List String :=
  ["class ", "def ", "static def ", "if ", "for ", "while "]

theorem lineKind_opening {lead : String} (h : lead ∈ openings) (rest : String) :
    lineKind (lead ++ rest) = .opener := by
  simp only [openings, List.mem_cons, List.not_mem_nil, or_false] at h
  rcases h with rfl | rfl | rfl | rfl | rfl | rfl <;> simp [lineKind, startsWith_append]

/-- A text in front that is not empty decides whether a text starts with a blank. -/
theorem Clean.append {a b : String} (ha : Clean a) (hne : a.toList ≠ []) (hb : OneLine b) :
    Clean (a ++ b) := by
  refine ⟨ha.oneLine.append hb, ?_⟩
  rw [String.toList_append, List.head?_append_of_ne_nil _ hne]
  exact ha.noBlank

theorem clean_opening {lead : String} (h : lead ∈ openings) {rest : String} (hr : OneLine rest) :
    Clean (lead ++ rest) := by
  simp only [openings, List.mem_cons, List.not_mem_nil, or_false] at h
  rcases h with rfl | rfl | rfl | rfl | rfl | rfl <;>
    exact Clean.append ⟨by decide, by decide⟩ (by decide) hr

/-- A block under a header, with the header taken apart. -/
theorem steps_header {lead rest : String} (h : lead ∈ openings) (hr : OneLine rest)
    {inner clauses : List Line} (hi : Steps inner 0 0) (hd : Steps clauses 1 1) :
    Steps (.flush (lead ++ rest) :: (nested inner ++ (clauses ++ Outline.closing.lines))) 0 0 :=
  steps_block (clean_opening h hr) (lineKind_opening h rest) hi hd

theorem exists_classHeader {view : View} (hn : view.naming.WellNamed) {name : String}
    (hname : isPlainName name = true) {bases : List Expr} (hb : ∀ base ∈ bases, base.WellNamed)
    {header : String} (h : classHeader view name bases = .ok header) :
    ∃ rest, header = "class " ++ rest ∧ OneLine rest := by
  have hoped := (tidy_of_isPlainName hname).oneLine
  unfold classHeader at h
  split at h
  · cases h
    exact ⟨name, rfl, hoped⟩
  · rename_i base hp
    simp only [bind_eq_ok, pure_eq_ok] at h
    obtain ⟨text, ht, rfl⟩ := h
    have hm : base ∈ bases := List.mem_of_mem_filter (hp ▸ List.mem_cons_self)
    refine ⟨name ++ " : " ++ text, by simp only [String.append_assoc], ?_⟩
    exact (hoped.append (by decide)).append (tidy_render hn (hb base hm) ht).oneLine
  · simp [throw_eq_ok] at h

theorem exists_loopHeader {view : View} (hn : view.naming.WellNamed) {target iter : Expr}
    (ht : target.WellNamed) (hi : iter.WellNamed) {orelse : Block} {key header : String}
    (h : loopHeader view target iter orelse = .ok (key, header)) :
    ∃ rest, header = "for " ++ rest ∧ OneLine rest := by
  obtain ⟨-, rfl, receiver, keywords, rfl, text, hr, rfl⟩ := loopHeader_eq_ok.1 h
  have inner : receiver.WellNamed := by
    have func : Expr.WellNamed (.attribute receiver "keys") := hi.inside (by simp [Expr.parts])
    exact func.inside (by simp [Expr.parts])
  refine ⟨key ++ " : " ++ text ++ ".keys()", by simp only [String.append_assoc], ?_⟩
  exact (((tidy_of_isPlainName ht.here).oneLine.append (by decide)).append
    (tidy_render hn inner hr).oneLine).append (by decide)

theorem exists_functionHeader (isStatic : Bool) {name : String} (hname : isPlainName name = true)
    {params : List Param} (hp : ∀ param ∈ params, param.WellNamed) :
    ∃ lead rest, lead ∈ openings ∧ functionHeader isStatic name params = lead ++ rest ∧
      OneLine rest := by
  have names : OneLine (commaSeparated (params.map (·.name))) := by
    refine oneLine_commaSeparated fun text hm => ?_
    obtain ⟨param, hparam, rfl⟩ := List.mem_map.1 hm
    exact (tidy_of_isPlainName (hp param hparam).1).oneLine
  have rest : OneLine (name ++ "(" ++ commaSeparated (params.map (·.name)) ++ ")") :=
    (((tidy_of_isPlainName hname).oneLine.append (by decide)).append names).append (by decide)
  cases isStatic with
  | true =>
    exact ⟨"static def ", _, by decide, by simp [functionHeader, String.append_assoc], rest⟩
  | false => exact ⟨"def ", _, by decide, by simp [functionHeader, String.append_assoc], rest⟩

theorem lineKind_elif (text : String) : lineKind ("elif " ++ text) = .divider := by
  simp [lineKind, startsWith, ← String.toList_inj]

theorem lineKind_except (text : String) : lineKind ("except .. as " ++ text) = .divider := by
  simp [lineKind, startsWith, ← String.toList_inj]

theorem isSymbolic_update {op : BinaryOp} {token : String} (h : op.target? = some token) :
    isSymbolic (token ++ "=") = true := by
  cases op <;> cases h <;> decide

/-! ## Fields -/

theorem oneLine_fieldOf {target : Expr} (h : target.WellNamed) :
    ∀ field ∈ fieldOf target, OneLine field := by
  intro field hf
  unfold fieldOf at hf
  split at hf
  · rename_i attr
    have : field = attr := by simpa using hf
    exact this ▸ (tidy_of_isPlainName h.here).oneLine
  · simp at hf

mutual
/-- The fields that a statement assigns to are names. -/
theorem oneLine_assignedFields :
    (s : Stmt) → s.WellNamed → ∀ field ∈ s.assignedFields, OneLine field
  | .assign targets value, h, field, hf => by
    obtain ⟨target, ht, hf⟩ := List.mem_flatMap.1 (by simpa only [Stmt.assignedFields] using hf)
    simp only [Stmt.WellNamed] at h
    exact oneLine_fieldOf (h.1 target ht) field hf
  | .declare target _ _, h, field, hf => by
    simp only [Stmt.WellNamed] at h
    simp only [Stmt.assignedFields] at hf
    exact oneLine_fieldOf h.1 field hf
  | .update target _ _, h, field, hf => by
    simp only [Stmt.WellNamed] at h
    simp only [Stmt.assignedFields] at hf
    exact oneLine_fieldOf h.1 field hf
  | .branch _ body orelse, h, field, hf => by
    simp only [Stmt.WellNamed] at h
    simp only [Stmt.assignedFields, List.mem_append] at hf
    rcases hf with hf | hf
    · exact oneLine_assignedFieldsIn body h.2.1 field hf
    · exact oneLine_assignedFieldsIn orelse h.2.2 field hf
  | .forEach _ _ body orelse, h, field, hf => by
    simp only [Stmt.WellNamed] at h
    simp only [Stmt.assignedFields, List.mem_append] at hf
    rcases hf with hf | hf
    · exact oneLine_assignedFieldsIn body h.2.2.1 field hf
    · exact oneLine_assignedFieldsIn orelse h.2.2.2 field hf
  | .whileLoop _ body orelse, h, field, hf => by
    simp only [Stmt.WellNamed] at h
    simp only [Stmt.assignedFields, List.mem_append] at hf
    rcases hf with hf | hf
    · exact oneLine_assignedFieldsIn body h.2.1 field hf
    · exact oneLine_assignedFieldsIn orelse h.2.2 field hf
  | .attempt body handlers orelse cleanup, h, field, hf => by
    simp only [Stmt.WellNamed] at h
    simp only [Stmt.assignedFields, List.mem_append] at hf
    rcases hf with ((hf | hf) | hf) | hf
    · exact oneLine_assignedFieldsIn body h.1 field hf
    · exact oneLine_assignedFieldsInHandlers handlers h.2.1 field hf
    · exact oneLine_assignedFieldsIn orelse h.2.2.1 field hf
    · exact oneLine_assignedFieldsIn cleanup h.2.2.2 field hf
  | .functionDef _ _ _ body, h, field, hf => by
    simp only [Stmt.WellNamed] at h
    simp only [Stmt.assignedFields] at hf
    exact oneLine_assignedFieldsIn body h.2.2 field hf
  | .classDef .., _, field, hf => by simp [Stmt.assignedFields] at hf
  | .giveBack _, _, field, hf => by simp [Stmt.assignedFields] at hf
  | .expr _, _, field, hf => by simp [Stmt.assignedFields] at hf
  | .pass, _, field, hf => by simp [Stmt.assignedFields] at hf
  | .leaveLoop, _, field, hf => by simp [Stmt.assignedFields] at hf
  | .nextRound, _, field, hf => by simp [Stmt.assignedFields] at hf
  | .importNames _, _, field, hf => by simp [Stmt.assignedFields] at hf
  | .globalNames _, _, field, hf => by simp [Stmt.assignedFields] at hf
  | .unsupported _, _, field, hf => by simp [Stmt.assignedFields] at hf
theorem oneLine_assignedFieldsIn : (b : List (Located Stmt)) → BlockWellNamed b →
    ∀ field ∈ assignedFieldsIn b, OneLine field
  | [], _, field, hf => by simp [assignedFieldsIn] at hf
  | ⟨_, stmt⟩ :: rest, h, field, hf => by
    simp only [BlockWellNamed] at h
    simp only [assignedFieldsIn, List.mem_append] at hf
    rcases hf with hf | hf
    · exact oneLine_assignedFields stmt h.1 field hf
    · exact oneLine_assignedFieldsIn rest h.2 field hf
theorem oneLine_assignedFieldsInHandlers : (hs : List (Handler (List (Located Stmt)))) →
    HandlersWellNamed hs → ∀ field ∈ assignedFieldsInHandlers hs, OneLine field
  | [], _, field, hf => by simp [assignedFieldsInHandlers] at hf
  | ⟨_, _, body⟩ :: rest, h, field, hf => by
    simp only [HandlersWellNamed] at h
    simp only [assignedFieldsInHandlers, List.mem_append] at hf
    rcases hf with hf | hf
    · exact oneLine_assignedFieldsIn body h.2.1 field hf
    · exact oneLine_assignedFieldsInHandlers rest h.2.2 field hf
end

theorem mem_of_mem_firstOccurrences {name : String} : ∀ {names : List String},
    name ∈ firstOccurrences names → name ∈ names
  | [], h => by simp [firstOccurrences] at h
  | first :: names, h => by
    simp only [firstOccurrences, List.mem_cons] at h
    rcases h with rfl | h
    · exact List.mem_cons_self
    · exact List.mem_cons_of_mem _ (mem_of_mem_firstOccurrences (List.mem_of_mem_filter h))

theorem oneLine_methodFields : ∀ {body : Block}, BlockWellNamed body →
    ∀ field ∈ methodFields body, OneLine field
  | [], _, field, hf => by simp [methodFields] at hf
  | ⟨n, stmt⟩ :: rest, h, field, hf => by
    simp only [BlockWellNamed] at h
    have later := oneLine_methodFields h.2 field
    unfold methodFields at hf
    split at hf
    · simp at *
    · rename_i he
      cases he
      rcases List.mem_append.1 hf with hf | hf
      · have here := h.1
        simp only [Stmt.WellNamed] at here
        exact oneLine_assignedFieldsIn _ here.2.2 field hf
      · exact later hf
    · rename_i he
      cases he
      exact later hf

theorem steps_members (style : Style) {body : Block} (h : BlockWellNamed body) :
    Steps (Outline.flat (memberTexts style body)).lines 0 0 := by
  unfold memberTexts
  split
  · have fields : OneLine (commaSeparated (memberFields body)) :=
      oneLine_commaSeparated fun field hf =>
        oneLine_methodFields h field (mem_of_mem_firstOccurrences hf)
    exact steps_word "var " "var" rfl (by decide) fields
  · exact steps_nil 0

/-! ## All parts of a script -/

theorem mem_defaults {params : List Param} {given : String × Expr} (h : given ∈ defaults params) :
    ∃ param ∈ params, param.name = given.1 ∧ given.2 ∈ param.fallback := by
  obtain ⟨param, hp, hg⟩ := List.mem_filterMap.1 h
  obtain ⟨value, hv, rfl⟩ := Option.map_eq_some_iff.1 hg
  exact ⟨param, hp, rfl, hv⟩

theorem wellNamed_writtenParams (site : Site) (isStatic : Bool) {params : List Param}
    (h : ∀ param ∈ params, param.WellNamed) :
    ∀ param ∈ writtenParams site isStatic params, param.WellNamed := by
  intro param hm
  unfold writtenParams ownParams at hm
  split at hm
  · exact h param (List.mem_of_mem_drop hm)
  · exact h param hm

theorem wellNamed_defaults {params : List Param} (h : ∀ param ∈ params, param.WellNamed) :
    ∀ given ∈ defaults params, isPlainName given.1 = true ∧ given.2.WellNamed := by
  intro given hm
  obtain ⟨param, hp, hname, hvalue⟩ := mem_defaults hm
  exact ⟨hname ▸ (h param hp).1, (h param hp).2 _ hvalue⟩

/-- The guards of parameters are blocks of their own. -/
theorem steps_guards {view : View} (hn : view.naming.WellNamed) {given : List (String × Expr)}
    {texts : List (String × String)}
    (h : List.Forall₂ (fun given text => given.1 = text.1 ∧ given.2.render view = .ok text.2)
      given texts)
    (hw : ∀ g ∈ given, isPlainName g.1 = true ∧ g.2.WellNamed) :
    Steps (Outline.guards texts).lines 0 0 := by
  induction h with
  | nil => exact steps_nil 0
  | @cons g text given texts hg _ ih =>
    obtain ⟨name, value⟩ := text
    obtain ⟨rfl, hv⟩ := hg
    obtain ⟨hname, hvalue⟩ := hw g List.mem_cons_self
    have tidy := tidy_of_isPlainName hname
    have body : Steps [.flush (g.1 ++ " = " ++ value)] 0 0 :=
      steps_tidy (tidy.assigned (ne_empty_of_isPlainName hname) (tidy_render hn hvalue hv).oneLine)
    have test : OneLine (g.1 ++ " == nil") := tidy.oneLine.append (by decide)
    have later := ih fun g' hm => hw g' (List.mem_cons_of_mem g hm)
    have block := (steps_header (by decide : "if " ∈ openings) test body (steps_nil 1)).append later
    simpa [Outline.guards, Outline.lines, Outline.only, Outline.closing, ← String.append_assoc]
      using block

theorem steps_imports {names : List ImportedName} (h : ∀ imported ∈ names, imported.WellNamed) :
    Steps (Outline.flat (names.map importText)).lines 0 0 := by
  induction names with
  | nil => exact steps_nil 0
  | cons imported names ih =>
    obtain ⟨hname, hbound⟩ := h imported List.mem_cons_self
    have name := (tidy_of_isPlainName hname).oneLine
    have line : Steps [.flush (importText imported)] 0 0 := by
      unfold importText
      cases hb : imported.boundAs with
      | none => exact steps_word "import " "import" rfl (by decide) name
      | some boundAs =>
        have bound := (tidy_of_isPlainName (hbound boundAs hb)).oneLine
        have line := steps_word "import " "import" rfl (by decide)
          ((name.append (by decide : OneLine " as ")).append bound)
        simpa [String.append_assoc] using line
    exact line.append (ih fun i hi => h i (List.mem_cons_of_mem imported hi))

/-- Every part of a script leaves as many blocks open as there were before it. -/
theorem Emits.steps {site : Site} {phrase : Phrase} {s s' : Scope} {o : Outline}
    (h : Emits site phrase s s' o) (hn : site.style.naming.WellNamed) (hw : phrase.WellNamed) :
    Steps o.lines phrase.depth phrase.depth := by
  induction h with
  | @classDef site name bases body s s' header o hh _ ih =>
    simp only [Phrase.WellNamed, Stmt.WellNamed] at hw
    obtain ⟨rest, rfl, hr⟩ := exists_classHeader hn hw.1 hw.2.1 hh
    have inner := (steps_members site.style hw.2.2).append (ih hn hw.2.2)
    have block := steps_header (by decide : "class " ∈ openings) hr inner (steps_nil 1)
    simpa [Outline.lines, Phrase.depth] using block
  | @functionDef site name params decorators body s s' isStatic texts o _ _ hg _ ih =>
    simp only [Phrase.WellNamed, Stmt.WellNamed] at hw
    have own := wellNamed_writtenParams site isStatic hw.2.1
    have inner := (steps_guards hn hg (wellNamed_defaults own)).append (ih hn hw.2.2)
    obtain ⟨lead, rest, hlead, hheader, hr⟩ :=
      exists_functionHeader (isStatic && site.body == .classBody) (hn.specialName hw.1) own
    have block := steps_header hlead hr inner (steps_nil 1)
    rw [hheader]
    simpa [Outline.lines, Phrase.depth] using block
  | assign ht _ ih =>
    simp only [Phrase.WellNamed, Stmt.WellNamed] at hw
    exact ih hn ⟨(tidy_render hn hw.2 ht).oneLine, hw.1⟩
  | declareValue hg ht =>
    simp only [Phrase.WellNamed, Stmt.WellNamed] at hw
    obtain ⟨target, hne⟩ := tidy_renderTarget hn hw.1 ht
    exact steps_assignmentLine _ target hne (tidy_render hn (hw.2 _ rfl) hg).oneLine
  | @declareFirst site id _ _ _ =>
    simp only [Phrase.WellNamed, Stmt.WellNamed] at hw
    exact steps_word "var " "var" rfl (by decide) (tidy_of_isPlainName hw.1.here).oneLine
  | declareAgain _ => exact steps_nil 0
  | declareField _ _ => exact steps_nil 0
  | update ht hop hg =>
    simp only [Phrase.WellNamed, Stmt.WellNamed] at hw
    obtain ⟨target, hne⟩ := tidy_renderTarget hn hw.1 ht
    have line := target.between hne (isSymbolic_update hop) (tidy_render hn hw.2 hg).oneLine
    refine steps_tidy ?_
    simpa [String.append_assoc] using line
  | branch ht _ _ ih₁ ih₂ =>
    simp only [Phrase.WellNamed, Stmt.WellNamed] at hw
    have test := (tidy_renderCondition hn hw.1 ht).oneLine
    have block := steps_header (by decide : "if " ∈ openings) test (ih₁ hn hw.2.1) (ih₂ hn hw.2.2)
    simpa [Outline.lines, Phrase.depth] using block
  | forEach hh _ ih =>
    simp only [Phrase.WellNamed, Stmt.WellNamed] at hw
    obtain ⟨rest, rfl, hr⟩ := exists_loopHeader hn hw.1 hw.2.1 hh
    have block := steps_header (by decide : "for " ∈ openings) hr (ih hn hw.2.2.1) (steps_nil 1)
    simpa [Outline.lines, Phrase.depth] using block
  | whileLoop ht _ _ ih₁ ih₂ =>
    simp only [Phrase.WellNamed, Stmt.WellNamed] at hw
    have test := (tidy_renderCondition hn hw.1 ht).oneLine
    have clause := ih₂ hn ⟨by decide, ⟨by decide, by decide⟩, hw.2.2⟩
    have block := steps_header (by decide : "while " ∈ openings) test (ih₁ hn hw.2.1) clause
    simpa [Outline.lines, Phrase.depth] using block
  | attempt _ _ _ ih₁ ih₂ ih₃ =>
    simp only [Phrase.WellNamed, Stmt.WellNamed] at hw
    have clauses := (ih₂ hn hw.2.1).append
      (ih₃ hn ⟨by decide, ⟨by decide, by decide⟩, hw.2.2.2⟩)
    have header : Clean "try" := ⟨by decide, by decide⟩
    have block := steps_block header (by decide) (ih₁ hn hw.1) clauses
    simpa [Outline.lines, Phrase.depth] using block
  | leave => exact steps_tidy (tidy_of_isPlainName (by decide))
  | giveBack ht =>
    exact steps_word "return " "return" rfl (by decide) (tidy_render hn (hw _ rfl) ht).oneLine
  | docText => exact steps_nil 0
  | expr _ ht => exact steps_tidy (tidy_render hn hw ht)
  | pass => exact steps_nil 0
  | leaveLoop => exact steps_tidy (tidy_of_isPlainName (by decide))
  | nextRound => exact steps_tidy (tidy_of_isPlainName (by decide))
  | importNames _ => exact steps_imports hw
  | globalNames =>
    exact steps_word "global " "global" rfl (by decide)
      (oneLine_commaSeparated fun name hm => (tidy_of_isPlainName (hw name hm)).oneLine)
  | blockNil => exact steps_nil 0
  | blockCons _ _ ih₁ ih₂ =>
    simp only [Phrase.WellNamed, BlockWellNamed] at hw
    rw [Outline.lines_append]
    exact (ih₁ hn hw.1).append (ih₂ hn hw.2)
  | otherwiseElif ht _ _ ih₁ ih₂ =>
    simp only [Phrase.WellNamed, BlockWellNamed, Stmt.WellNamed, and_true] at hw
    have test := (tidy_renderCondition hn hw.1 ht).oneLine
    have clean : Clean ("elif " ++ _) := .append ⟨by decide, by decide⟩ (by decide) test
    exact steps_clause clean (lineKind_elif _) (ih₁ hn hw.2.1) (ih₂ hn hw.2.2)
  | otherwiseElse _ _ ih => exact ih hn ⟨by decide, ⟨by decide, by decide⟩, hw⟩
  | clauseNil => exact steps_nil 1
  | clauseCons _ _ ih =>
    simp only [Phrase.WellNamed] at hw
    exact steps_clause hw.2.1 hw.1 (ih hn hw.2.2) (steps_nil 1)
  | handlersNil => exact steps_nil 1
  | handlersBare _ _ ih₁ ih₂ =>
    simp only [Phrase.WellNamed, HandlersWellNamed] at hw
    exact steps_clause ⟨by decide, by decide⟩ (by decide) (ih₁ hn hw.2.1) (ih₂ hn hw.2.2)
  | handlersNamed _ _ ih₁ ih₂ =>
    simp only [Phrase.WellNamed, HandlersWellNamed] at hw
    have name := (tidy_of_isPlainName (hw.1 _ rfl)).oneLine
    have clean : Clean ("except .. as " ++ _) := .append ⟨by decide, by decide⟩ (by decide) name
    exact steps_clause clean (lineKind_except _) (ih₁ hn hw.2.1) (ih₂ hn hw.2.2)
  | targetsNil => exact steps_nil 0
  | targetsCons ht _ ih =>
    simp only [Phrase.WellNamed, List.forall_mem_cons] at hw
    obtain ⟨target, hne⟩ := tidy_renderTarget hn hw.2.1 ht
    exact (steps_assignmentLine _ target hne hw.1).append (ih hn ⟨hw.1, hw.2.2⟩)

/-- The text of a script has its blocks opened and closed in order, if its names are names. -/
theorem emitScript_isWellBlocked {style : Style} {script : Block} {text : String}
    (hn : style.naming.WellNamed) (hw : BlockWellNamed script)
    (h : emitScript style script = .ok text) : isWellBlocked text = true := by
  obtain ⟨s, o, ho, rfl⟩ := emitScript_eq_ok h
  exact (ho.steps hn hw).isWellBlocked

/-- The built-in tables with a loop inside a branch that has a second test. -/
theorem emitScript_isWellBlocked_branch :
    let script : Block := [⟨1, .branch (.name "a")
      [⟨2, .whileLoop (.name "b") [⟨3, .leaveLoop⟩] []⟩]
      [⟨4, .branch (.name "c") [⟨5, .giveBack none⟩] []⟩]⟩]
    ∃ text, emitScript {} script = .ok text ∧ isWellBlocked text = true := by
  have name (id : String) (h : isPlainName id = true) : (Expr.name id).WellNamed :=
    .node h (by simp [Expr.parts])
  have tables : Naming.builtin.WellNamed := ⟨by decide, by decide, by decide⟩
  intro script
  obtain ⟨text, run⟩ : ∃ text, emitScript {} script = .ok text := ⟨_, rfl⟩
  refine ⟨text, run, emitScript_isWellBlocked tables ?_ run⟩
  simpa [script, BlockWellNamed, Stmt.WellNamed] using
    ⟨name "a" (by decide), name "b" (by decide), name "c" (by decide)⟩

end Berrify
