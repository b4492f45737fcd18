import Berrify.Proofs.Path

/-!
# Where a path ends

Slashes and dots behind the last segment of a path do not count (`trimBack`). Without them every
path is a front, which is empty or ends with a slash, and a last segment (`Ends`, `exists_ends`) :
the segment is the name of the file if it can be one, and else there is none (`Ends.fileName?_eq`).

`Path.withExtension` gives a path with a name the same front and a last segment with the stem of the
old name and the new extension. There is one exception (`Ends.withExtension_eq`) : a dot alone is a
stem, so `..x` loses its extension to become the way up, which has none to replace. For a source the
stem is not hidden, and stays the same however many dots it has (`IsStem.withExtension_join`).
-/

namespace Berrify.Path

/-! ## Slashes and dots at the end -/

theorem trimBack_ne_slash (cs rest : List Char) : trimBack cs ≠ '/' :: rest := by
  fun_induction trimBack cs with
  | case1 cs ih => exact ih
  | case2 cs ih => exact ih
  | case3 cs hslash hdot => exact fun h => hslash rest h

theorem trimBack_ne_dot (cs rest : List Char) : trimBack cs ≠ '.' :: '/' :: rest := by
  fun_induction trimBack cs with
  | case1 cs ih => exact ih
  | case2 cs ih => exact ih
  | case3 cs hslash hdot => exact fun h => hdot rest h

theorem trimBack_eq_self {cs : List Char} (hslash : ∀ rest, cs ≠ '/' :: rest)
    (hdot : ∀ rest, cs ≠ '.' :: '/' :: rest) : trimBack cs = cs := by
  fun_cases trimBack cs with
  | case1 rest => exact absurd rfl (hslash rest)
  | case2 rest => exact absurd rfl (hdot rest)
  | case3 => rfl

@[simp] theorem trimBack_trimBack (cs : List Char) : trimBack (trimBack cs) = trimBack cs :=
  trimBack_eq_self (trimBack_ne_slash cs) (trimBack_ne_dot cs)

theorem trimBack_suffix (cs : List Char) : trimBack cs <:+ cs := by
  fun_induction trimBack cs with
  | case1 cs ih => exact ih.trans (List.suffix_cons _ _)
  | case2 cs ih => exact ih.trans ((List.suffix_cons _ _).trans (List.suffix_cons _ _))
  | case3 => exact List.suffix_rfl

/-- A front and a last segment of a path, behind which there are only slashes and dots. -/
structure Ends (path front last : String) : Prop where
  noSlash : '/' ∉ last.toList
  directory : front = "" ∨ ∃ above, front = above ++ "/"
  trimmed : trimBack path.toList.reverse = (front ++ last).toList.reverse

theorem not_mem_takeWhile_ne (c : Char) (cs : List Char) : c ∉ cs.takeWhile (· != c) := by
  intro hm
  have other := List.all_eq_true.1 List.all_takeWhile _ hm
  simp at other

/-- Every path is parted at its last slash that counts. -/
theorem exists_ends (path : String) : ∃ front last, Ends path front last := by
  obtain ⟨cs, hcs⟩ : ∃ cs, trimBack path.toList.reverse = cs := ⟨_, rfl⟩
  have parted := List.takeWhile_append_dropWhile (p := (· != '/')) (l := cs)
  refine ⟨String.ofList (cs.dropWhile (· != '/')).reverse,
    String.ofList (cs.takeWhile (· != '/')).reverse, ?_, ?_, ?_⟩
  · rw [String.toList_ofList, List.mem_reverse]
    exact not_mem_takeWhile_ne '/' cs
  · cases hd : cs.dropWhile (· != '/') with
    | nil => exact .inl rfl
    | cons c rest =>
      have isSlash : c = '/' := by
        have head := List.head?_dropWhile_not (· != '/') cs
        rw [hd] at head
        simpa using head
      refine .inr ⟨String.ofList rest.reverse, String.toList_injective ?_⟩
      simp [isSlash]
  · simp [hcs, parted]

namespace Ends

variable {path front last : String}

/-- Behind a segment that is neither empty nor a dot there is nothing to trim. -/
theorem of_append (hfront : front = "" ∨ ∃ above, front = above ++ "/") (hempty : last ≠ "")
    (hdot : last ≠ ".") (hslash : '/' ∉ last.toList) : Ends (front ++ last) front last := by
  have other : ∀ c ∈ last.toList.reverse, c ≠ '/' := by
    rintro c hc rfl
    exact hslash (List.mem_reverse.1 hc)
  refine ⟨hslash, hfront, ?_⟩
  rw [String.toList_append, List.reverse_append]
  match hrev : last.toList.reverse with
  | [] => exact absurd (String.toList_injective (List.reverse_eq_nil_iff.1 hrev)) hempty
  | [c] =>
    rw [hrev] at other
    have ne : c ≠ '.' := by
      rintro rfl
      exact hdot (String.toList_injective (List.reverse_eq_iff.1 hrev))
    refine trimBack_eq_self (fun rest h => ?_) (fun rest h => ?_)
    · exact other c List.mem_cons_self (List.cons.inj h).1
    · exact ne (List.cons.inj h).1
  | c :: d :: cs =>
    rw [hrev] at other
    refine trimBack_eq_self (fun rest h => ?_) (fun rest h => ?_)
    · exact other c List.mem_cons_self (List.cons.inj h).1
    · exact other d (by simp) (List.cons.inj (List.cons.inj h).2).1

/-! ## Segments -/

theorem segments_front (hfront : front = "" ∨ ∃ above, front = above ++ "/")
    (hslash : '/' ∉ last.toList) :
    segments (front ++ last) = (segments front).dropLast ++ [last] := by
  rcases hfront with rfl | ⟨above, rfl⟩
  · rw [String.empty_append, segments_name hslash]
    rfl
  · rw [segments_below above hslash, segments_directory, List.dropLast_concat]

/-- Behind the segments of the front and the last one there are only segments that do not count. -/
theorem segments_eq (h : Ends path front last) : ∃ blank, (∀ s ∈ blank, s = "" ∨ s = ".") ∧
    segments path = (segments front).dropLast ++ last :: blank := by
  have trimmed (cs : List Char) (htrim : trimBack cs = (front ++ last).toList.reverse) :
      ∃ blank, (∀ s ∈ blank, s = "" ∨ s = ".") ∧
        segments (String.ofList cs.reverse) = (segments front).dropLast ++ last :: blank := by
    fun_induction trimBack cs with
    | case1 cs ih =>
      obtain ⟨blank, hblank, hsegments⟩ := ih htrim
      have text : String.ofList ('/' :: cs).reverse = String.ofList cs.reverse ++ "/" := by
        apply String.toList_injective
        simp
      refine ⟨blank ++ [""], ?_, ?_⟩
      · simpa [or_imp, forall_and] using hblank
      · rw [text, segments_directory, hsegments, List.append_assoc, List.cons_append]
    | case2 cs ih =>
      obtain ⟨blank, hblank, hsegments⟩ := ih htrim
      have text : String.ofList ('.' :: '/' :: cs).reverse =
          String.ofList cs.reverse ++ "/" ++ "." := by
        apply String.toList_injective
        simp
      refine ⟨blank ++ ["."], ?_, ?_⟩
      · simpa [or_imp, forall_and] using hblank
      · rw [text, segments_below _ (by decide), hsegments, List.append_assoc, List.cons_append]
    | case3 cs =>
      refine ⟨[], by simp, ?_⟩
      rw [htrim, List.reverse_reverse, String.ofList_toList, segments_front h.directory h.noSlash]
  have whole := trimmed _ h.trimmed
  rwa [List.reverse_reverse, String.ofList_toList] at whole

/-- What a path is made of depends on its start, its front and its last segment. -/
theorem components_eq (h : Ends path front last) :
    components path =
      (if isAbsolute path then [.root]
        else if ((segments front).dropLast ++ [last]).head? == some "." then [.here]
        else []) ++
      (((segments front).dropLast ++ [last]).filter fun part => part != "" && part != ".").map
        fun part => if part == ".." then .up else .name part := by
  obtain ⟨blank, hblank, hsegments⟩ := h.segments_eq
  have uncounted : blank.filter (fun part => part != "" && part != ".") = [] := by
    refine List.filter_eq_nil_iff.2 fun s hs => ?_
    rcases hblank s hs with rfl | rfl <;> decide
  have parts : segments path = ((segments front).dropLast ++ [last]) ++ blank := by
    rw [hsegments, List.append_assoc, List.singleton_append]
  have head : (segments path).head? = ((segments front).dropLast ++ [last]).head? := by
    rw [parts]
    cases (segments front).dropLast <;> rfl
  simp only [components, head]
  rw [parts, List.filter_append, uncounted, List.append_nil]

/-- If the last segment does not count, there is nothing in front of it. -/
theorem front_eq_empty (h : Ends path front last) (hlast : last = "" ∨ last = ".") :
    front = "" := by
  refine h.directory.resolve_right ?_
  rintro ⟨above, rfl⟩
  have trimmed := h.trimmed
  rcases hlast with rfl | rfl
  · exact trimBack_ne_slash _ above.toList.reverse (by simpa using trimmed)
  · exact trimBack_ne_dot _ above.toList.reverse (by simpa using trimmed)

/-- A last segment that counts and is no name is the way up. -/
theorem last_eq_up (h : Ends path front last) (hempty : last ≠ "") (hdot : last ≠ ".")
    (hname : ¬isFileName last = true) : last = ".." := by
  by_contra hup
  exact hname (isFileName_iff.2 ⟨hempty, hdot, hup, h.noSlash⟩)

/-- The last segment is the name of the file, if it can be one. -/
theorem fileName?_eq (h : Ends path front last) :
    fileName? path = if isFileName last then some last else none := by
  by_cases hname : isFileName last = true
  · obtain ⟨hempty, hdot, hup, -⟩ := isFileName_iff.1 hname
    have final : (components path).getLast? = some (.name last) := by
      simp [h.components_eq, hempty, hdot, hup]
    rw [fileName?, final, if_pos hname]
  · rw [if_neg hname]
    by_cases hlast : last = "" ∨ last = "."
    · obtain rfl := h.front_eq_empty hlast
      have nothing : (segments "").dropLast = [] := rfl
      have final :
          components path = [.root] ∨ components path = [.here] ∨ components path = [] := by
        rw [h.components_eq, nothing]
        rcases hlast with rfl | rfl <;> cases isAbsolute path <;> decide
      rcases final with hc | hc | hc <;> rw [fileName?, hc] <;> rfl
    · obtain rfl : last = ".." := by
        simp only [isFileName_iff, h.noSlash] at hname
        tauto
      have final : (components path).getLast? = some .up := by
        simp [h.components_eq]
      rw [fileName?, final]

/-- A path starts at the root if its front does. -/
theorem isAbsolute_eq (h : Ends path front last) (hlast : last ≠ "") :
    isAbsolute path = isAbsolute front := by
  obtain ⟨trimmed, htext⟩ := trimBack_suffix path.toList.reverse
  rw [h.trimmed] at htext
  have text : path = front ++ last ++ String.ofList trimmed.reverse := by
    apply String.toList_injective
    simpa using (congrArg List.reverse htext).symm
  rw [text, isAbsolute_append (by simp [hlast])]
  by_cases hfront : front = ""
  · have visible : last.toList.head? ≠ some '/' := fun hh => h.noSlash (List.mem_of_head? hh)
    simp [hfront, isAbsolute, visible]
  · exact isAbsolute_append hfront last

/-- The end of a path does not count. -/
theorem same (h : Ends path front last) {other : String} (h' : Ends other front last)
    (hlast : last ≠ "") : same path other = true := by
  rw [Path.same, h.components_eq, h'.components_eq, h.isAbsolute_eq hlast, h'.isAbsolute_eq hlast,
    beq_self_eq_true]

end Ends

/-! ## Extensions -/

/-- A name is its stem and, if it has one, an extension without a dot. -/
theorem partName_cases (name : String) : partName name = (name, none) ∨
    ∃ stem ext, stem ≠ "" ∧ '.' ∉ ext.toList ∧ name = stem ++ "." ++ ext ∧
      partName name = (stem, some ext) := by
  cases hparted : (partName name).2 with
  | none =>
    simp only [partName] at hparted ⊢
    split at hparted
    · rw [if_pos ‹_›]
      exact .inl rfl
    · cases hparted
  | some ext =>
    obtain ⟨stem, hstem, rfl⟩ := eq_of_partName hparted
    have noDot : '.' ∉ ext.toList := by
      simp only [partName] at hparted
      split at hparted
      · cases hparted
      · rw [Option.some.injEq] at hparted
        rw [← hparted, String.toList_ofList, List.mem_reverse]
        exact not_mem_takeWhile_ne '.' _
    exact .inr ⟨stem, ext, hstem, noDot, rfl, partName_dot hstem noDot⟩

theorem partName_stem {name : String} (h : isFileName name = true) :
    (partName name).1 ≠ "" ∧ '/' ∉ (partName name).1.toList := by
  obtain ⟨hempty, -, -, hslash⟩ := isFileName_iff.1 h
  rcases partName_cases name with hp | ⟨stem, ext, hstem, -, hname, hp⟩
  · rw [hp]
    exact ⟨hempty, hslash⟩
  · rw [hp]
    refine ⟨hstem, fun hm => hslash ?_⟩
    rw [hname]
    simp [hm]

@[simp] theorem dropBytes_zero (cs : List Char) : dropBytes 0 cs = cs := by
  cases cs with
  | nil => rfl
  | cons c rest => rw [dropBytes, if_neg (Nat.not_le.2 c.utf8Size_pos)]

/-- No more is dropped than the bytes allow. -/
theorem exists_dropBytes_append {bytes : Nat} {front : List Char}
    (h : bytes ≤ (String.ofList front.reverse).utf8ByteSize) (behind : List Char) :
    ∃ rest, rest <:+ front ∧ dropBytes bytes (front ++ behind) = rest ++ behind := by
  induction front generalizing bytes with
  | nil =>
    obtain rfl : bytes = 0 := by simpa using h
    exact ⟨[], List.suffix_rfl, dropBytes_zero behind⟩
  | cons c front ih =>
    rw [List.cons_append, dropBytes]
    split
    · have fits : bytes - c.utf8Size ≤ (String.ofList front.reverse).utf8ByteSize := by
        have text : String.ofList (c :: front).reverse =
            String.ofList front.reverse ++ String.singleton c := by
          apply String.toList_injective
          simp
        rw [text, String.utf8ByteSize_append, String.utf8ByteSize_singleton] at h
        omega
      obtain ⟨rest, hrest, hdrop⟩ := ih fits
      exact ⟨rest, hrest.trans (List.suffix_cons _ _), hdrop⟩
    · exact ⟨c :: front, List.suffix_rfl, rfl⟩

/-- What is dropped is dropped from behind the last segment first. -/
theorem exists_trimBack_dropBytes (bytes : Nat) (cs : List Char) :
    ∃ fewer ≤ bytes, trimBack (dropBytes bytes cs) = trimBack (dropBytes fewer (trimBack cs)) := by
  fun_induction trimBack cs generalizing bytes with
  | case1 cs ih =>
    cases bytes with
    | zero => exact ⟨0, Nat.le_refl 0, by simp [trimBack]⟩
    | succ bytes =>
      obtain ⟨fewer, hfewer, htrim⟩ := ih bytes
      exact ⟨fewer, Nat.le_succ_of_le hfewer, htrim⟩
  | case2 cs ih =>
    match bytes with
    | 0 => exact ⟨0, Nat.le_refl 0, by simp [trimBack]⟩
    | 1 =>
      have half : dropBytes 1 ('.' :: '/' :: cs) = '/' :: cs := dropBytes_zero _
      exact ⟨0, Nat.zero_le 1, by simp [half, trimBack]⟩
    | bytes + 2 =>
      obtain ⟨fewer, hfewer, htrim⟩ := ih bytes
      exact ⟨fewer, by omega, htrim⟩
  | case3 cs => exact ⟨bytes, Nat.le_refl bytes, rfl⟩

theorem dotted_ne {stem : String} (h : stem ≠ "") (ext : String) :
    stem ++ "." ++ ext ≠ "" ∧ stem ++ "." ++ ext ≠ "." := by
  refine ⟨by simp, fun hdot => ?_⟩
  have lengths := congrArg String.length hdot
  have positive : stem.length ≠ 0 := fun hzero => h (String.length_eq_zero_iff.1 hzero)
  have one : ".".length = 1 := rfl
  simp only [String.length_append] at lengths
  omega

theorem dotted_ne_up {stem ext : String} (h : stem ≠ "") (hext : ext ≠ "") :
    stem ++ "." ++ ext ≠ ".." := by
  intro hup
  have lengths := congrArg String.length hup
  have positive : stem.length ≠ 0 := fun hzero => h (String.length_eq_zero_iff.1 hzero)
  have positive' : ext.length ≠ 0 := fun hzero => hext (String.length_eq_zero_iff.1 hzero)
  have one : ".".length = 1 := rfl
  have two : "..".length = 2 := rfl
  simp only [String.length_append] at lengths
  omega

theorem eq_dot_of_up {stem left : String} (h : stem ≠ "") (hup : stem ++ "." ++ left = "..") :
    stem = "." := by
  have chars : stem.toList ++ '.' :: left.toList = ['.', '.'] := by
    simpa using congrArg String.toList hup
  match hs : stem.toList with
  | [] => exact absurd (String.toList_injective hs) h
  | [c] =>
    rw [hs] at chars
    exact String.toList_injective (hs.trans (by rw [(List.cons.inj chars).1]; rfl))
  | c :: d :: rest =>
    rw [hs] at chars
    simp at chars

namespace Ends

variable {path front name stem ext : String}

/-- Another extension comes behind the stem of the name, and nothing behind it. -/
theorem putExtension_eq (h : Ends path front name) (hname : isFileName name = true)
    (hext : ext ≠ "") :
    putExtension path ext = front ++ ((partName name).1 ++ "." ++ ext) := by
  have file : fileName? path = some name := by rw [h.fileName?_eq, if_pos hname]
  have given : ext.isEmpty = false := by simpa using hext
  obtain ⟨behind, hbehind⟩ : ∃ behind, name = (partName name).1 ++ behind := by
    rcases partName_cases name with hp | ⟨stem, old, -, -, hold, hp⟩
    · exact ⟨"", by rw [hp, String.append_empty]⟩
    · exact ⟨"." ++ old, by rw [hp, ← String.append_assoc, ← hold]⟩
  have suffix : name.length - (partName name).1.length = behind.toList.reverse.length := by
    have lengths := congrArg String.length hbehind
    rw [String.length_append] at lengths
    rw [List.length_reverse, String.length_toList]
    omega
  have text : (front ++ name).toList.reverse =
      behind.toList.reverse ++ (front ++ (partName name).1).toList.reverse := by
    rw [← List.reverse_append, ← String.toList_append, String.append_assoc, ← hbehind]
  simp only [putExtension, file, h.trimmed, text, suffix, List.drop_left, given,
    Bool.false_eq_true, if_false]
  apply String.toList_injective
  simp

/-- As many bytes as the extension has, off the end of a path, leave at least the stem and the
dot. -/
theorem exists_ends_dropBytes {old : String} (h : Ends path front (stem ++ "." ++ old))
    (hstem : stem ≠ "") :
    ∃ left, (∀ c ∈ left.toList, c ∈ old.toList) ∧
      Ends (String.ofList (dropBytes old.utf8ByteSize path.toList.reverse).reverse) front
        (stem ++ "." ++ left) := by
  obtain ⟨fewer, hfewer, htrim⟩ := exists_trimBack_dropBytes old.utf8ByteSize path.toList.reverse
  have text (last : String) : (front ++ (stem ++ "." ++ last)).toList.reverse =
      last.toList.reverse ++ (front ++ (stem ++ ".")).toList.reverse := by
    simp
  have fits : fewer ≤ (String.ofList old.toList.reverse.reverse).utf8ByteSize := by
    rwa [List.reverse_reverse, String.ofList_toList]
  obtain ⟨rest, hrest, hdrop⟩ :=
    exists_dropBytes_append fits (front ++ (stem ++ ".")).toList.reverse
  have subset : ∀ c ∈ (String.ofList rest.reverse).toList, c ∈ old.toList := by
    intro c hc
    rw [String.toList_ofList, List.mem_reverse] at hc
    exact List.mem_reverse.1 (hrest.subset hc)
  have noSlash : '/' ∉ (stem ++ "." ++ String.ofList rest.reverse).toList := by
    have whole := h.noSlash
    simp only [String.toList_append, List.mem_append, not_or] at whole ⊢
    exact ⟨whole.1, fun hm => whole.2 (subset _ hm)⟩
  obtain ⟨hempty, hdot⟩ := dotted_ne hstem (String.ofList rest.reverse)
  have whole := of_append h.directory hempty hdot noSlash
  refine ⟨_, subset, noSlash, h.directory, ?_⟩
  rw [String.toList_ofList, List.reverse_reverse, htrim, h.trimmed, text, hdrop, ← whole.trimmed,
    text, String.toList_ofList, List.reverse_reverse]

/-- Another extension takes the place of the one that a name has, unless the stem is a dot and what
is left of the name is the way up. -/
theorem withExtension_eq (h : Ends path front name) (hname : isFileName name = true)
    (hext : ext ≠ "") :
    withExtension path ext = front ++ ((partName name).1 ++ "." ++ ext) ∨
      (partName name).1 = "." ∧ Ends (withExtension path ext) front ".." := by
  have file : fileName? path = some name := by rw [h.fileName?_eq, if_pos hname]
  rcases partName_cases name with hp | ⟨stem, old, hstem, hold, rfl, hp⟩
  · refine .inl ?_
    have none : extension? path = none := by rw [extension?, file, Option.bind_some, hp]
    rw [withExtension, none]
    exact h.putExtension_eq hname hext
  · have some : extension? path = some old := by rw [extension?, file, Option.bind_some, hp]
    obtain ⟨left, hleft, cut⟩ := h.exists_ends_dropBytes hstem
    have noDot : '.' ∉ left.toList := fun hm => hold (hleft _ hm)
    simp only [withExtension, some]
    by_cases hfile : isFileName (stem ++ "." ++ left) = true
    · refine .inl ?_
      rw [cut.putExtension_eq hfile hext, partName_dot hstem noDot, hp]
    · refine .inr ?_
      obtain ⟨hempty, hdot⟩ := dotted_ne hstem left
      have up : stem ++ "." ++ left = ".." := cut.last_eq_up hempty hdot hfile
      have unnamed := cut.fileName?_eq
      rw [if_neg hfile] at unnamed
      rw [up] at cut
      refine ⟨?_, ?_⟩
      · rw [hp]
        exact eq_dot_of_up hstem up
      · rwa [putExtension, unnamed]

end Ends

example : withExtension "d/..x/." "be" = "d/..be" ∧ withExtension "d/..x" "be" = "d/.." :=
  ⟨rfl, rfl⟩

/-- A path that another extension changes gets another last segment behind the same front : another
name, or the way up. -/
theorem exists_ends_withExtension {path ext : String} (hext : ext ≠ "") (hslash : '/' ∉ ext.toList)
    (h : same (withExtension path ext) path = false) :
    ∃ front name, Ends path front name ∧ isFileName name = true ∧
      ((∃ other, other ≠ name ∧ isFileName other = true ∧
        Ends (withExtension path ext) front other) ∨
      Ends (withExtension path ext) front "..") := by
  obtain ⟨front, name, ends⟩ := exists_ends path
  have hname : isFileName name = true := by
    by_contra hname
    have file : fileName? path = none := by rw [ends.fileName?_eq, if_neg hname]
    have unchanged : withExtension path ext = path := by
      simp [withExtension, putExtension, extension?, file]
    rw [unchanged, same, beq_self_eq_true] at h
    cases h
  refine ⟨front, name, ends, hname,
    (ends.withExtension_eq hname hext).imp (fun text => ?_) And.right⟩
  obtain ⟨hstem, hstemSlash⟩ := partName_stem hname
  obtain ⟨hempty, hdot⟩ := dotted_ne hstem ext
  have noSlash : '/' ∉ ((partName name).1 ++ "." ++ ext).toList := by
    simp [hstemSlash, hslash]
  have changed := Ends.of_append ends.directory hempty hdot noSlash
  rw [← text] at changed
  refine ⟨_, ?_, ?_, changed⟩
  · intro hsame
    rw [hsame] at changed
    rw [changed.same ends (isFileName_iff.1 hname).1] at h
    cases h
  · exact isFileName_iff.2 ⟨hempty, hdot, dotted_ne_up hstem hext, noSlash⟩

/-- The extension of a source is replaced by another one. -/
theorem IsStem.withExtension_join {stem : String} (h : IsStem stem) {dir : String} (hdir : dir ≠ "")
    {ext : String} (hext : ext ≠ "") :
    withExtension (join dir (stem ++ "." ++ "py")) ext = join dir (stem ++ "." ++ ext) := by
  obtain ⟨above, -, hjoin⟩ := exists_join hdir
  have hname : isFileName (stem ++ "." ++ "py") = true := h.isFileName_dot (by decide)
  obtain ⟨hempty, hdot, -, hslash⟩ := isFileName_iff.1 hname
  have ends : Ends (above ++ "/" ++ (stem ++ "." ++ "py")) (above ++ "/") (stem ++ "." ++ "py") :=
    .of_append (.inr ⟨above, rfl⟩) hempty hdot hslash
  have parted : (partName (stem ++ "." ++ "py")).1 = stem := by
    rw [partName_dot h.nonempty (by decide)]
  rw [hjoin, hjoin]
  rcases ends.withExtension_eq hname hext with text | ⟨hidden, -⟩
  · rw [text, parted]
  · rw [parted] at hidden
    subst hidden
    exact absurd rfl h.visible

end Berrify.Path
