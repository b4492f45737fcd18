import Berrify.Path
import Mathlib.Data.List.Basic

/-!
# Names at the end of a path

A path that a name was joined to ends with that name : the segments of the path are those of the
directory and the name (`exists_join`, `segments_below`), so `Path.fileName?` finds it again.

A name with an extension is a stem, a dot and the extension, which holds no further dot
(`partName_dot`, `eq_of_partName`).
-/

namespace Berrify.Path

/-- Whether a text can be the name of a file. -/
def isFileName (name : String) : Bool :=
  name != "" && name != "." && name != ".." && !name.toList.contains '/'

theorem isFileName_iff {name : String} :
    isFileName name = true ↔ name ≠ "" ∧ name ≠ "." ∧ name ≠ ".." ∧ '/' ∉ name.toList := by
  simp [isFileName, and_assoc]

/-! ## Segments -/

theorem segments_name {name : String} (h : '/' ∉ name.toList) : segments name = [name] := by
  rw [segments, List.splitOn_eq_singleton h, List.map_singleton, String.ofList_toList]

theorem segments_below (above : String) {name : String} (h : '/' ∉ name.toList) :
    segments (above ++ "/" ++ name) = segments above ++ [name] := by
  have text : (above ++ "/" ++ name).toList = above.toList ++ '/' :: name.toList := by
    simp
  rw [segments, text, List.splitOn_append_cons_self, List.map_append, ← segments, ← segments,
    segments_name h]

theorem segments_directory (above : String) : segments (above ++ "/") = segments above ++ [""] := by
  have below : segments (above ++ "/" ++ "") = segments above ++ [""] :=
    segments_below above (by simp)
  rwa [String.append_empty] at below

theorem isAbsolute_append {p : String} (h : p ≠ "") (q : String) :
    isAbsolute (p ++ q) = isAbsolute p := by
  cases hp : p.toList with
  | nil => exact absurd (String.toList_injective hp) h
  | cons c rest => simp [isAbsolute, hp]

/-- A name is joined to a directory with a slash, unless the path of the directory ends with one. -/
theorem exists_join {dir : String} (h : dir ≠ "") :
    ∃ above, (dir = above ∨ dir = above ++ "/") ∧ ∀ name, join dir name = above ++ "/" ++ name := by
  have nonempty : dir.isEmpty = false := by
    simpa using h
  by_cases hlast : dir.toList.getLast? = some '/'
  · obtain ⟨above, htext⟩ := List.getLast?_eq_some_iff.1 hlast
    have hdir : dir = String.ofList above ++ "/" := by
      apply String.toList_injective
      simp [htext]
    refine ⟨String.ofList above, .inr hdir, fun name => ?_⟩
    rw [join, hlast, beq_self_eq_true, Bool.or_true, if_pos rfl, ← hdir]
  · refine ⟨dir, .inl rfl, fun name => ?_⟩
    have other : (dir.toList.getLast? == some '/') = false := by
      simpa using hlast
    rw [join, nonempty, other, Bool.or_false, if_neg Bool.false_ne_true]

theorem join_ne_empty {dir : String} (h : dir ≠ "") (name : String) : join dir name ≠ "" := by
  obtain ⟨above, -, hjoin⟩ := exists_join h
  rw [hjoin]
  simp

theorem joinAll_ne_empty {dir : String} (h : dir ≠ "") (names : List String) :
    joinAll dir names ≠ "" := by
  induction names generalizing dir with
  | nil => exact h
  | cons name names ih => exact ih (join_ne_empty h name)

theorem joinAll_concat (dir : String) (names : List String) (name : String) :
    joinAll dir (names ++ [name]) = join (joinAll dir names) name :=
  List.foldl_concat ..

theorem fileName?_below (above : String) {name : String} (h : isFileName name = true) :
    fileName? (above ++ "/" ++ name) = some name := by
  obtain ⟨hempty, hdot, hup, hslash⟩ := isFileName_iff.1 h
  have last : (components (above ++ "/" ++ name)).getLast? = some (.name name) := by
    simp [components, segments_below above hslash, hempty, hdot, hup]
  rw [fileName?, last]

theorem fileName?_join {dir : String} (hdir : dir ≠ "") {name : String}
    (h : isFileName name = true) : fileName? (join dir name) = some name := by
  obtain ⟨above, -, hjoin⟩ := exists_join hdir
  rw [hjoin, fileName?_below above h]

/-! ## Extensions -/

/-- A name is parted at its last dot. -/
theorem partName_dot {stem ext : String} (hstem : stem ≠ "") (hext : '.' ∉ ext.toList) :
    partName (stem ++ "." ++ ext) = (stem, some ext) := by
  have behind :
      ((stem ++ "." ++ ext).toList.reverse.takeWhile (· != '.')).reverse = ext.toList := by
    have text : (stem ++ "." ++ ext).toList.reverse =
        ext.toList.reverse ++ '.' :: stem.toList.reverse := by
      simp
    rw [text, List.takeWhile_append_of_pos fun c hc => ?_]
    · simp
    · rw [bne_iff_ne]
      rintro rfl
      exact hext (List.mem_reverse.1 hc)
  have length :
      (stem ++ "." ++ ext).toList.length - ext.toList.length = stem.toList.length + 1 := by
    simp
    omega
  have positive : 0 < stem.toList.length := by
    rw [List.length_pos_iff]
    exact fun he => hstem (String.toList_injective he)
  have front : (stem ++ "." ++ ext).toList.take stem.toList.length = stem.toList := by
    simp
  simp only [partName, behind, length]
  rw [if_neg (by omega), Nat.add_sub_cancel, front, String.ofList_toList, String.ofList_toList]

theorem dot_inj {stem stem' ext ext' : String} (hstem : stem ≠ "") (hstem' : stem' ≠ "")
    (hext : '.' ∉ ext.toList) (hext' : '.' ∉ ext'.toList)
    (h : stem ++ "." ++ ext = stem' ++ "." ++ ext') : stem = stem' ∧ ext = ext' := by
  have parted := congrArg partName h
  rwa [partName_dot hstem hext, partName_dot hstem' hext', Prod.mk.injEq,
    Option.some.injEq] at parted

/-- A name with an extension has a stem in front of it. -/
theorem eq_of_partName {name ext : String} (h : (partName name).2 = some ext) :
    ∃ stem, stem ≠ "" ∧ name = stem ++ "." ++ ext := by
  simp only [partName] at h
  split at h
  · cases h
  rename_i hlong
  rw [Option.some.injEq] at h
  have behind : (name.toList.reverse.takeWhile (· != '.')).reverse = ext.toList := by
    rw [← h, String.toList_ofList]
  have parted := List.takeWhile_append_dropWhile (p := (· != '.')) (l := name.toList.reverse)
  cases hd : name.toList.reverse.dropWhile (· != '.') with
  | nil =>
    -- Without a dot, all of the name would stand behind it.
    rw [hd, List.append_nil] at parted
    rw [parted] at hlong
    simp at hlong
  | cons dot stem =>
    have isDot : dot = '.' := by
      have head := List.head?_dropWhile_not (· != '.') name.toList.reverse
      rw [hd] at head
      simpa using head
    have whole : name.toList = stem.reverse ++ '.' :: ext.toList := by
      have reversed := congrArg List.reverse parted
      rw [hd, isDot, List.reverse_append, List.reverse_reverse, behind] at reversed
      rw [← reversed]
      simp
    refine ⟨String.ofList stem.reverse, fun hempty => ?_, ?_⟩
    · have nothing : stem = [] := by
        simpa using congrArg String.toList hempty
      rw [behind, whole, nothing] at hlong
      simp at hlong
    · apply String.toList_injective
      simp [whole]

/-- A text that is the stem of names which are not hidden. -/
structure IsStem (stem : String) : Prop where
  nonempty : stem ≠ ""
  visible : stem.toList.head? ≠ some '.'
  noSlash : '/' ∉ stem.toList

theorem IsStem.isFileName_dot {stem : String} (h : IsStem stem) {ext : String}
    (hext : '/' ∉ ext.toList) : isFileName (stem ++ "." ++ ext) = true := by
  have head : (stem ++ "." ++ ext).toList.head? ≠ some '.' := by
    cases hs : stem.toList with
    | nil => exact absurd (String.toList_injective hs) h.nonempty
    | cons c rest =>
      have visible := h.visible
      rw [hs] at visible
      simpa [hs] using visible
  refine isFileName_iff.2 ⟨by simp, ?_, ?_, ?_⟩
  · intro hdot
    rw [hdot] at head
    exact head rfl
  · intro hup
    rw [hup] at head
    exact head rfl
  · simp [h.noSlash, hext]

/-- Paths with the same components have the same last name. -/
theorem fileName?_of_same {p q : String} (h : same p q = true) : fileName? p = fileName? q := by
  have components : components p = components q := beq_iff_eq.1 h
  rw [fileName?, fileName?, components]

end Berrify.Path
