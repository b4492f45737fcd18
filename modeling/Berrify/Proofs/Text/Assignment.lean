import Berrify.Operator
import Berrify.Proofs.Text.Tidy
import Mathlib.Data.List.Basic

/-!
# Lines that assign to a field

A line assigns to a field of `self` if `self.` and a name are at its front, and an assignment sign
between blanks behind them (`assignedField?`).

Whether a text can be read in this way is decided behind the path at its front, the longest run of
name characters and points. A `Solid` text has no blank there, so an operator that is put behind it
is the first one of the whole text. An `Unassigned` text has no blank there either, or one that a
word between blanks follows which is no assignment sign : it assigns to no field, and neither does
it with more text behind it.
-/

namespace Berrify.Text

open Identifier

/-! ## Reading a line -/

/-- The signs of an assignment : the equals sign, also behind an operator. -/
def assignmentSigns : List String :=
  "=" :: BinaryOp.all.filterMap fun op => op.target?.map (· ++ "=")

/-- The field of `self` that a line assigns to. -/
def assignedField? (text : String) : Option String :=
  match text.toList with
  | 's' :: 'e' :: 'l' :: 'f' :: '.' :: rest =>
    match rest.dropWhile isNamePart with
    | ' ' :: more =>
      if .ofList (more.takeWhile (· != ' ')) ∈ assignmentSigns then
        some (.ofList (rest.takeWhile isNamePart))
      else none
    | _ => none
  | _ => none

/-- What is at the front of a line that assigns to a field. -/
theorem exists_of_assignedField? {text field : String} (h : assignedField? text = some field) :
    ∃ more, text.toList = 's' :: 'e' :: 'l' :: 'f' :: '.' :: (field.toList ++ ' ' :: more) ∧
      (∀ c ∈ field.toList, isNamePart c = true) ∧
      .ofList (more.takeWhile (· != ' ')) ∈ assignmentSigns := by
  unfold assignedField? at h
  split at h
  · rename_i rest ht
    split at h
    · rename_i more hd
      split at h
      · rename_i hsign
        cases h
        have whole : rest.takeWhile isNamePart ++ rest.dropWhile isNamePart = rest :=
          List.takeWhile_append_dropWhile
        refine ⟨more, ?_, fun c hc => List.mem_takeWhile_imp (by simpa using hc), hsign⟩
        rw [hd] at whole
        rw [ht, String.toList_ofList, whole]
      · cases h
    · cases h
  · cases h

theorem span_name {name : List Char} (hname : ∀ c ∈ name, isNamePart c = true)
    (more : List Char) : (name ++ ' ' :: more).takeWhile isNamePart = name ∧
      (name ++ ' ' :: more).dropWhile isNamePart = ' ' :: more := by
  have blank : Apart (' ' :: more) := apart_cons (by decide)
  exact ⟨by rw [takeWhile_append_of_apart blank, List.takeWhile_eq_self_iff.2 hname],
    dropWhile_append_of_apart blank hname⟩

theorem takeWhile_sign {sign : List Char} (h : ' ' ∉ sign) (more : List Char) :
    (sign ++ ' ' :: more).takeWhile (· != ' ') = sign := by
  have symbols : ∀ c ∈ sign, (c != ' ') = true := by
    intro c hc
    rw [bne_iff_ne]
    rintro rfl
    exact h hc
  rw [List.takeWhile_append_of_pos symbols, List.takeWhile_cons_of_neg (by decide),
    List.append_nil]

theorem not_blank_of_mem_assignmentSigns : ∀ sign ∈ assignmentSigns, ' ' ∉ sign.toList := by
  decide

/-- A line that assigns to a field of `self` is read as such. -/
theorem assignedField?_self {field : String} (hf : isWord field = true) {sign : String}
    (hs : sign ∈ assignmentSigns) (value : String) :
    assignedField? ("self" ++ "." ++ field ++ " " ++ sign ++ " " ++ value) = some field := by
  have shape : ("self" ++ "." ++ field ++ " " ++ sign ++ " " ++ value).toList =
      's' :: 'e' :: 'l' :: 'f' :: '.' ::
        (field.toList ++ ' ' :: (sign.toList ++ ' ' :: value.toList)) := by
    simp
  obtain ⟨hname, hrest⟩ :=
    span_name (all_isNamePart_of_isWord hf) (sign.toList ++ ' ' :: value.toList)
  simp only [assignedField?, shape, hrest, hname,
    takeWhile_sign (not_blank_of_mem_assignmentSigns sign hs), String.ofList_toList, hs, if_true]

/-- A word of two characters or more that cannot be the front of `self.`. -/
def isForeign (lead : String) : Bool :=
  match lead.toList with
  | c :: d :: _ => c != 's' || d != 'e'
  | _ => false

/-- A line under another word assigns to no field. -/
theorem assignedField?_foreign {lead : String} (h : isForeign lead = true) (rest : String) :
    assignedField? (lead ++ rest) = none := by
  cases hf : assignedField? (lead ++ rest) with
  | none => rfl
  | some field =>
    obtain ⟨more, hm, -⟩ := exists_of_assignedField? hf
    unfold isForeign at h
    split at h
    · rename_i c d tail ht
      simp only [String.toList_append, ht, List.cons_append, List.cons.injEq] at hm
      obtain ⟨rfl, rfl, -⟩ := hm
      exact absurd h (by decide)
    · cases h

theorem isNamePart_self : ∀ c ∈ ['s', 'e', 'l', 'f'], isNamePart c = true :=
  List.all_eq_true.1 (by decide)

/-- A line that starts with a name alone assigns to no field. -/
theorem assignedField?_name {id : String} (hid : isWord id = true) (tail : String) :
    assignedField? (id ++ (" " ++ tail)) = none := by
  cases hf : assignedField? (id ++ (" " ++ tail)) with
  | none => rfl
  | some field =>
    obtain ⟨more, ht, -⟩ := exists_of_assignedField? hf
    have shape : id.toList ++ ' ' :: tail.toList =
        ['s', 'e', 'l', 'f'] ++ '.' :: (field.toList ++ ' ' :: more) := by simpa using ht
    have blank := (span_name (all_isNamePart_of_isWord hid) tail.toList).2
    rw [shape, dropWhile_append_of_apart (apart_cons (by decide)) isNamePart_self] at blank
    cases blank

/-! ## Behind a path -/

/-- The characters of a path : those of names, and the point between two of them. -/
def isPathPart (c : Char) : Bool :=
  isNamePart c || c == '.'

/-- What is behind the path at the front of a text. -/
def behindPath (text : String) : List Char :=
  text.toList.dropWhile isPathPart

theorem behindPath_append (a b : String) :
    behindPath (a ++ b) = if behindPath a = [] then behindPath b else behindPath a ++ b.toList := by
  have whole : (a.toList ++ b.toList).dropWhile isPathPart = _ := List.dropWhile_append
  simpa [behindPath] using whole

theorem behindPath_cons {text : String} {c : Char} {rest : List Char}
    (ht : text.toList = c :: rest) (hc : isPathPart c = false) :
    behindPath text = text.toList := by
  rw [behindPath, ht, List.dropWhile_cons_of_neg (by simp [hc])]

theorem isPathPart_of_isNamePart {c : Char} (h : isNamePart c = true) : isPathPart c = true := by
  rw [isPathPart, h, Bool.true_or]

theorem span_path {path : List Char} (hpath : ∀ c ∈ path, isPathPart c = true) (more : List Char) :
    (path ++ ' ' :: more).takeWhile isPathPart = path ∧
      (path ++ ' ' :: more).dropWhile isPathPart = ' ' :: more := by
  rw [List.takeWhile_append_of_pos hpath, List.dropWhile_append_of_pos hpath,
    List.takeWhile_cons_of_neg (by decide), List.dropWhile_cons_of_neg (by decide),
    List.append_nil]
  exact ⟨rfl, rfl⟩

theorem isPathPart_self : ∀ c ∈ ['s', 'e', 'l', 'f'], isPathPart c = true :=
  fun c hc => isPathPart_of_isNamePart (isNamePart_self c hc)

/-- A name, a point and a name are a path. -/
theorem path_of_names {front attr : List Char} (hfront : ∀ c ∈ front, isPathPart c = true)
    (hattr : ∀ c ∈ attr, isNamePart c = true) :
    ∀ c ∈ front ++ '.' :: attr, isPathPart c = true :=
  List.forall_mem_append.2 ⟨hfront, List.forall_mem_cons.2
    ⟨by decide, fun c hc => isPathPart_of_isNamePart (hattr c hc)⟩⟩

/-- Behind the path of a line that assigns to a field are a blank and an assignment sign. -/
theorem behindPath_of_assignedField? {text field : String} (h : assignedField? text = some field) :
    ∃ more, behindPath text = ' ' :: more ∧
      .ofList (more.takeWhile (· != ' ')) ∈ assignmentSigns := by
  obtain ⟨more, ht, hfield, hsign⟩ := exists_of_assignedField? h
  have path := path_of_names isPathPart_self hfield
  refine ⟨more, ?_, hsign⟩
  rw [behindPath, ht]
  exact (span_path path more).2

/-- A text without a blank behind its path. -/
def Solid (text : String) : Prop :=
  ∀ c ∈ (behindPath text).head?, c ≠ ' '

theorem solid_of_not_blank {text : String} (h : ' ' ∉ text.toList) : Solid text := by
  rintro c hc rfl
  exact h ((List.dropWhile_suffix isPathPart).subset (List.mem_of_mem_head? hc))

theorem solid_of_isWord {text : String} (h : isWord text = true) : Solid text :=
  solid_of_not_blank fun hb => absurd (all_isNamePart_of_isWord h ' ' hb) (by decide)

/-- A text with a symbol in front has no path there. -/
theorem solid_of_symbol {text : String} (c : Char) (h : text.toList.head? = some c)
    (hpath : isPathPart c = false) (hblank : c ≠ ' ') : Solid text := by
  cases ht : text.toList with
  | nil => simp [ht] at h
  | cons d rest =>
    rw [ht] at h
    cases h
    intro d hd
    rw [behindPath_cons ht hpath, ht] at hd
    cases hd
    exact hblank

theorem Solid.append {a b : String} (ha : Solid a) (hb : Solid b) : Solid (a ++ b) := by
  intro c hc
  rw [behindPath_append] at hc
  split at hc
  · exact hb c hc
  · rename_i hne
    rw [List.head?_append_of_ne_nil _ hne] at hc
    exact ha c hc

/-- What is in front of the point in a line that assigns to a field is `self`, if it is solid. -/
theorem Solid.eq_self {front attr tail field : String} (hfront : Solid front)
    (hattr : isWord attr = true)
    (h : assignedField? (front ++ ("." ++ attr ++ (" " ++ tail))) = some field) :
    front = "self" := by
  obtain ⟨more, ht, hfield, -⟩ := exists_of_assignedField? h
  obtain ⟨_, hbehind, -⟩ := behindPath_of_assignedField? h
  by_cases hall : behindPath front = []
  · -- Both ways to read the line have the same path in front of the first blank.
    have left := path_of_names (List.dropWhile_eq_nil_iff.1 hall) (all_isNamePart_of_isWord hattr)
    have right := path_of_names isPathPart_self hfield
    have same : front.toList ++ '.' :: attr.toList =
        ['s', 'e', 'l', 'f'] ++ '.' :: field.toList := by
      rw [← (span_path left tail.toList).1, ← (span_path right more).1]
      congr 1
      simpa using ht
    have point : '.' ∉ field.toList := fun hm => absurd (hfield '.' hm) (by decide)
    have parts := (List.append_cons_inj_of_notMem (by decide) point).1 same.symm
    exact String.toList_injective parts.1.symm
  · rw [behindPath_append, if_neg hall] at hbehind
    cases hb : behindPath front with
    | nil => exact absurd hb hall
    | cons c rest =>
      rw [hb] at hbehind
      cases hbehind
      exact absurd rfl (hfront ' ' (by rw [hb]; rfl))

/-! ## Texts that assign to nothing -/

/-- Symbols between blanks that are no assignment sign. -/
def isOperator (token : String) : Bool :=
  decide (' ' ∉ token.toList) && decide (token ∉ assignmentSigns) &&
    token.toList.head?.any (!isNamePart ·)

/-- A text that assigns to no field, whatever is put behind it. -/
def Unassigned (text : String) : Prop :=
  ∀ more, behindPath text = ' ' :: more →
    ∃ token rest, isOperator token = true ∧ more = token.toList ++ ' ' :: rest

theorem Unassigned.assignedField? {text : String} (h : Unassigned text) :
    assignedField? text = none := by
  cases hf : Text.assignedField? text with
  | none => rfl
  | some field =>
    obtain ⟨more, hm, hsign⟩ := behindPath_of_assignedField? hf
    obtain ⟨token, rest, htoken, rfl⟩ := h more hm
    simp only [isOperator, Bool.and_eq_true, decide_eq_true_iff] at htoken
    rw [takeWhile_sign htoken.1.1, String.ofList_toList] at hsign
    exact absurd hsign htoken.1.2

theorem Solid.unassigned {text : String} (h : Solid text) : Unassigned text := by
  intro more hm
  exact absurd rfl (h ' ' (by rw [hm]; rfl))

/-- An operator behind a solid text is the first one of the whole. -/
theorem Solid.between {a token : String} (ha : Solid a) (ht : isOperator token = true)
    (b : String) : Unassigned (a ++ " " ++ token ++ " " ++ b) := by
  have shape : a ++ " " ++ token ++ " " ++ b = a ++ (" " ++ token ++ " " ++ b) := by
    simp only [String.append_assoc]
  have behind : behindPath (" " ++ token ++ " " ++ b) =
      ' ' :: (token.toList ++ ' ' :: b.toList) := by
    have text : (" " ++ token ++ " " ++ b).toList = ' ' :: (token.toList ++ ' ' :: b.toList) := by
      simp
    rw [behindPath_cons text (by decide), text]
  intro more hm
  rw [shape, behindPath_append, behind] at hm
  split at hm
  · cases hm
    exact ⟨token, b.toList, ht, rfl⟩
  · rename_i hne
    cases hb : behindPath a with
    | nil => exact absurd hb hne
    | cons c rest =>
      rw [hb] at hm
      cases hm
      exact absurd rfl (ha ' ' (by rw [hb]; rfl))

/-- A text that assigns to nothing does not do so with brackets behind it. -/
theorem Unassigned.bracket {a : String} (ha : Unassigned a) (b : String) :
    Unassigned (a ++ ("[" ++ b)) := by
  have behind : behindPath ("[" ++ b) = '[' :: b.toList := by
    have text : ("[" ++ b).toList = '[' :: b.toList := by simp
    rw [behindPath_cons text (by decide), text]
  intro more hm
  rw [behindPath_append, behind] at hm
  split at hm
  · cases hm
  · cases hb : behindPath a with
    | nil => exact absurd hb ‹_›
    | cons c rest =>
      rw [hb] at hm
      cases hm
      obtain ⟨token, after, ht, rfl⟩ := ha rest hb
      exact ⟨token, after ++ ("[" ++ b).toList, ht, by simp⟩

/-! ## Texts without a second word -/

/-- A text in which no word stands behind the first blank. -/
def SingleWorded (text : String) : Prop :=
  ∀ c more, behindPath text = ' ' :: c :: more → isNamePart c = false

theorem Unassigned.singleWorded {text : String} (h : Unassigned text) : SingleWorded text := by
  intro c more hm
  obtain ⟨token, rest, ht, hshape⟩ := h (c :: more) hm
  simp only [isOperator, Bool.and_eq_true, Option.any_eq_true] at ht
  obtain ⟨-, d, hd, hname⟩ := ht
  cases htoken : token.toList with
  | nil => simp [htoken] at hd
  | cons e tail =>
    rw [htoken] at hd hshape
    cases hd
    cases hshape
    simpa using hname

/-- Behind a solid text and a blank it depends on the next character. -/
theorem Solid.singleWorded_append {a tail : String} (ha : Solid a)
    (ht : ∀ c ∈ tail.toList.head?, isNamePart c = false) : SingleWorded (a ++ (" " ++ tail)) := by
  have behind : behindPath (" " ++ tail) = ' ' :: tail.toList := by
    have text : (" " ++ tail).toList = ' ' :: tail.toList := by simp
    rw [behindPath_cons text (by decide), text]
  intro c more hm
  rw [behindPath_append, behind] at hm
  split at hm
  · exact ht c (by rw [(List.cons.inj hm).2]; rfl)
  · cases hb : behindPath a with
    | nil => exact absurd hb ‹_›
    | cons d rest =>
      rw [hb, List.cons_append, List.cons.injEq] at hm
      exact absurd hm.1 (ha d (by rw [hb]; rfl))

end Berrify.Text
