import Berrify.Proofs.Batch.Sources
import Berrify.Proofs.Path.Order
import Mathlib.Algebra.Order.BigOperators.Group.List
import Mathlib.Data.List.Dedup

/-!
# Finding the sources below a directory

A directory lists what it holds in an order of its own (`FileTree.Lists`). A walk goes through the
listing and those of the directories inside, leaves out what is hidden and keeps the files with the
extension of sources (`Entry.sources`). What it finds below a directory are the sources there, each
once (`walk_finds`) : an entry leads to the sources that its name comes first on the way to, and
other entries to others. Sorted, they are the paths that `sourcesBelow` gives, whatever the order of
the listings (`sourcesBelow_exact`).
-/

namespace Berrify

/-! ## Listings -/

/-- What a directory holds, and what the directories in it hold. -/
inductive Entry where
  | file (name : String)
  | directory (name : String) (entries : List Entry)

namespace Entry

def name : Entry → String
  | file name => name
  | directory name _ => name

/-- The sources that a walk finds at an entry of the directory at a path. It does not go into hidden
directories. -/
def sources (path : String) : Entry → List String
  | file name =>
    let found := Path.join path name
    if !isHidden name && Path.extension? found == some sourceExtension then [found] else []
  | directory name entries =>
    if isHidden name then [] else entries.flatMap (sources (Path.join path name))

end Entry

/-- The sources that a walk finds below a path, sorted. -/
def discover (path : String) (entries : List Entry) : List String :=
  (entries.flatMap (Entry.sources path)).mergeSort Path.notAfter

/-- What the directory at a location holds, listed in some order. -/
inductive FileTree.Lists (tree : FileTree) : Location → List Entry → Prop where
  | intro {dir : Location} {entries : List Entry}
    (nodup : (entries.map Entry.name).Nodup)
    (files : ∀ name, .file name ∈ entries ↔ tree.hasFile (dir ++ [name]) = true)
    (dirs : ∀ name, (∃ inside, .directory name inside ∈ entries) ↔
      tree.hasDir (dir ++ [name]) = true)
    (below : ∀ name inside, .directory name inside ∈ entries →
      tree.Lists (dir ++ [name]) inside) :
    tree.Lists dir entries

/-! ## Walks -/

namespace IsSource

variable {tree : FileTree} {dir : Location} {name : String} {names : Location}

/-- A name that others come behind is that of a directory. -/
theorem hasDir_first (h : IsSource tree dir (name :: names)) (hw : tree.WellFormed)
    (hne : names ≠ []) : tree.hasDir (dir ++ [name]) = true := by
  have file : tree.hasFile (dir ++ [name] ++ names) = true := by
    simpa using h.file
  exact hw.hasDir_above file hne

/-- The names behind a name are those of a source below it. -/
theorem cons_iff (hne : names ≠ []) :
    IsSource tree dir (name :: names) ↔
      name.toList.head? ≠ some '.' ∧ IsSource tree (dir ++ [name]) names := by
  constructor
  · intro h
    obtain ⟨first, others⟩ := List.forall_mem_cons.1 h.visible
    refine ⟨first, by simpa using h.file, others, ?_⟩
    obtain ⟨above, stem, hstem, heq⟩ := h.extension
    cases above with
    | nil => exact absurd (List.cons.inj heq).2 hne
    | cons other above => exact ⟨above, stem, hstem, (List.cons.inj heq).2⟩
  · rintro ⟨first, h⟩
    obtain ⟨above, stem, hstem, heq⟩ := h.extension
    exact ⟨by simpa using h.file, List.forall_mem_cons.2 ⟨first, h.visible⟩,
      name :: above, stem, hstem, by rw [heq, List.cons_append]⟩

theorem singleton_iff :
    IsSource tree dir [name] ↔ tree.hasFile (dir ++ [name]) = true ∧
      name.toList.head? ≠ some '.' ∧ (Path.partName name).2 = some sourceExtension := by
  rw [hasSourceExtension_iff]
  constructor
  · intro h
    obtain ⟨above, stem, hstem, heq⟩ := h.extension
    obtain ⟨-, last⟩ := List.append_singleton_inj.1 ((List.nil_append [name]).trans heq)
    exact ⟨h.file, h.visible name (List.mem_singleton_self name), stem, hstem, last⟩
  · rintro ⟨hfile, hvisible, stem, hstem, rfl⟩
    exact ⟨hfile, List.forall_mem_singleton.2 hvisible, [], stem, hstem, rfl⟩

end IsSource

/-- At an entry of a directory a walk finds the sources that the name of the entry comes first on
the way to, each once. -/
structure Finds (tree : FileTree) (dir : Location) (path : String) (entry : Entry) : Prop where
  nodup : (entry.sources path).Nodup
  mem_iff : ∀ found, found ∈ entry.sources path ↔
    ∃ names, IsSource tree dir (entry.name :: names) ∧
      found = Path.joinAll path (entry.name :: names)

variable {tree : FileTree} {dir : Location} {path : String} {name : String}

theorem finds_file (hw : tree.WellFormed) (hpath : path ≠ "")
    (hfile : tree.hasFile (dir ++ [name]) = true) : Finds tree dir path (.file name) := by
  have isName := hw.isFileName hfile name (by simp)
  have extension : Path.extension? (Path.join path name) = (Path.partName name).2 := by
    rw [Path.extension?, Path.fileName?_join hpath isName, Option.bind_some]
  -- Nothing lies below a file.
  have alone (names : Location) (h : IsSource tree dir (name :: names)) : names = [] := by
    by_contra hne
    have directory := h.hasDir_first hw hne
    rw [hw.not_hasDir hfile] at directory
    cases directory
  constructor
  case nodup =>
    rw [Entry.sources]
    split
    · exact List.nodup_singleton _
    · exact List.nodup_nil
  case mem_iff =>
    intro found
    have kept : found ∈ Entry.sources path (.file name) ↔
        IsSource tree dir [name] ∧ found = Path.join path name := by
      rw [IsSource.singleton_iff, Entry.sources, extension]
      simp [hfile, isHidden]
    rw [kept]
    constructor
    · rintro ⟨h, rfl⟩
      exact ⟨[], h, rfl⟩
    · rintro ⟨names, h, rfl⟩
      obtain rfl := alone names h
      exact ⟨h, rfl⟩

theorem finds_directory (hw : tree.WellFormed) {inside : List Entry}
    (hdir : tree.hasDir (dir ++ [name]) = true)
    (hnodup : (inside.flatMap (Entry.sources (Path.join path name))).Nodup)
    (hmem : ∀ found, found ∈ inside.flatMap (Entry.sources (Path.join path name)) ↔
      ∃ names, IsSource tree (dir ++ [name]) names ∧
        found = Path.joinAll (Path.join path name) names) :
    Finds tree dir path (.directory name inside) := by
  -- A directory is no source itself.
  have below (names : Location) : IsSource tree dir (name :: names) ↔
      isHidden name = false ∧ IsSource tree (dir ++ [name]) names := by
    rw [isHidden_eq_false]
    rcases eq_or_ne names [] with rfl | hne
    · refine iff_of_false (fun h => ?_) (fun h => h.2.ne_nil rfl)
      have other := hw.not_hasDir h.file
      rw [hdir] at other
      cases other
    · exact IsSource.cons_iff hne
  constructor
  case nodup =>
    rw [Entry.sources]
    split
    · exact List.nodup_nil
    · exact hnodup
  case mem_iff =>
    intro found
    rw [Entry.sources, Entry.name]
    simp only [below]
    cases hidden : isHidden name with
    | true => simp
    | false => simpa [Path.joinAll] using hmem found

/-- A walk finds the sources below a directory, each once, in whatever order it is listed. -/
theorem walk_finds (hw : tree.WellFormed) {entries : List Entry} (hl : tree.Lists dir entries)
    (hpath : path ≠ "") :
    (entries.flatMap (Entry.sources path)).Nodup ∧
      ∀ found, found ∈ entries.flatMap (Entry.sources path) ↔
        ∃ names, IsSource tree dir names ∧ found = Path.joinAll path names := by
  induction hl generalizing path with
  | @intro dir entries hnodup files dirs _ ih =>
    have finds (entry : Entry) (hm : entry ∈ entries) : Finds tree dir path entry := by
      cases entry with
      | file name => exact finds_file hw hpath ((files name).1 hm)
      | directory name inside =>
        obtain ⟨once, all⟩ := ih name inside hm (Path.join_ne_empty hpath name)
        exact finds_directory hw ((dirs name).1 ⟨inside, hm⟩) once all
    constructor
    · refine List.nodup_flatMap.2 ⟨fun entry hm => (finds entry hm).nodup, ?_⟩
      refine (List.pairwise_map.1 hnodup).imp_of_mem fun {entry other} hm hm' hne => ?_
      intro found hfound hfound'
      obtain ⟨names, h, rfl⟩ := ((finds entry hm).mem_iff found).1 hfound
      obtain ⟨names', h', heq⟩ := ((finds other hm').mem_iff _).1 hfound'
      have same := Path.joinAll_injective hpath (h.isFileName hw) (h'.isFileName hw) heq
      exact hne (List.cons.inj same).1
    · intro found
      rw [List.mem_flatMap]
      constructor
      · rintro ⟨entry, hm, hfound⟩
        obtain ⟨names, h, heq⟩ := ((finds entry hm).mem_iff found).1 hfound
        exact ⟨entry.name :: names, h, heq⟩
      · rintro ⟨names, h, heq⟩
        cases names with
        | nil => exact absurd rfl h.ne_nil
        | cons name names =>
          obtain ⟨entry, hm, hname⟩ : ∃ entry ∈ entries, entry.name = name := by
            rcases eq_or_ne names [] with rfl | hne
            · exact ⟨.file name, (files name).2 h.file, rfl⟩
            · obtain ⟨inside, hm⟩ := (dirs name).2 (h.hasDir_first hw hne)
              exact ⟨.directory name inside, hm, rfl⟩
          subst hname
          exact ⟨entry, hm, ((finds entry hm).mem_iff found).2 ⟨names, h, heq⟩⟩

/-! ## Sorted sources -/

theorem precedes_iff {names names' : Location} : precedes names names' = true ↔ names ≤ names' := by
  rw [← not_lt]
  fun_induction precedes names names' with
  | case1 names' => simp
  | case2 name names => simp
  | case3 names name names' ih => simp [ih]
  | case4 name names name' names' hne =>
    rw [decide_eq_true_iff, List.cons_lt_cons_iff, not_or, not_lt, lt_iff_le_and_ne]
    exact and_congr_right fun _ => by simp [hne, Ne.symm hne]

theorem precedes_trans (a b c : Location) (h : precedes a b = true) (h' : precedes b c = true) :
    precedes a c = true :=
  precedes_iff.2 (le_trans (precedes_iff.1 h) (precedes_iff.1 h'))

theorem precedes_total (a b : Location) : (precedes a b || precedes b a) = true := by
  rw [Bool.or_eq_true, precedes_iff, precedes_iff]
  exact le_total a b

theorem sorted_sourceNames (hw : tree.WellFormed) (dir : Location) :
    ((sourceNames tree dir).mergeSort precedes).Pairwise (· < ·) := by
  have sorted := List.pairwise_mergeSort precedes_trans precedes_total (sourceNames tree dir)
  have once := (List.mergeSort_perm (sourceNames tree dir) precedes).nodup_iff.2
    (nodup_sourceNames hw dir)
  exact (sorted.and once).imp fun ⟨hle, hne⟩ => lt_of_le_of_ne (precedes_iff.1 hle) hne

theorem mem_sources_iff {root : String} {dir : Location} {found : String} :
    found ∈ ((sourceNames tree dir).mergeSort precedes).map (Path.joinAll root) ↔
      ∃ names, IsSource tree dir names ∧ found = Path.joinAll root names := by
  simp only [List.mem_map, (List.mergeSort_perm _ precedes).mem_iff, mem_sourceNames_iff,
    eq_comm]

theorem sorted_sources (hw : tree.WellFormed) {root : String} (hroot : root ≠ "") (dir : Location) :
    (((sourceNames tree dir).mergeSort precedes).map (Path.joinAll root)).Pairwise Path.Before := by
  have isName {names : Location} (hm : names ∈ (sourceNames tree dir).mergeSort precedes) :
      ∀ name ∈ names, Path.isFileName name = true := by
    rw [(List.mergeSort_perm _ precedes).mem_iff, mem_sourceNames_iff] at hm
    exact hm.isFileName hw
  exact List.pairwise_map.2 ((sorted_sourceNames hw dir).imp_of_mem fun hm hm' hlt =>
    Path.before_joinAll hroot (isName hm) (isName hm') hlt)

/-! ## Existence of listings -/

/-- The last names of the locations that lie directly in a directory, each once. -/
def namesIn (dir : Location) (locs : List Location) : List String :=
  (locs.filterMap fun loc => if loc.dropLast = dir then loc.getLast? else none).dedup

theorem mem_namesIn {dir : Location} {locs : List Location} {name : String} :
    name ∈ namesIn dir locs ↔ dir ++ [name] ∈ locs := by
  rw [namesIn, List.mem_dedup, List.mem_filterMap]
  constructor
  · rintro ⟨loc, hm, hname⟩
    split at hname
    · obtain ⟨above, rfl⟩ := List.getLast?_eq_some_iff.1 hname
      rename_i habove
      rw [List.dropLast_concat] at habove
      rwa [← habove]
    · cases hname
  · intro hm
    refine ⟨_, hm, ?_⟩
    rw [if_pos List.dropLast_concat, List.getLast?_concat]

/-- The files and the directories in a directory, one after the other. -/
def entriesIn (tree : FileTree) (dir : Location) (inside : String → List Entry) : List Entry :=
  (namesIn dir (tree.files.map (·.1))).map .file ++
    (namesIn dir tree.dirs).map fun name => .directory name (inside name)

theorem lists_entriesIn (hw : tree.WellFormed) {inside : String → List Entry}
    (h : ∀ name, tree.hasDir (dir ++ [name]) = true →
      tree.Lists (dir ++ [name]) (inside name)) : tree.Lists dir (entriesIn tree dir inside) := by
  have file (name : String) : name ∈ namesIn dir (tree.files.map (·.1)) ↔
      tree.hasFile (dir ++ [name]) = true := by
    rw [mem_namesIn, FileTree.hasFile_iff, List.mem_map]
  have directory (name : String) : name ∈ namesIn dir tree.dirs ↔
      tree.hasDir (dir ++ [name]) = true := by
    rw [mem_namesIn, FileTree.hasDir]
    simp
  constructor
  case nodup =>
    have names : (entriesIn tree dir inside).map Entry.name =
        namesIn dir (tree.files.map (·.1)) ++ namesIn dir tree.dirs := by
      simp [entriesIn, Entry.name, Function.comp_def]
    rw [names, List.nodup_append']
    refine ⟨List.nodup_dedup _, List.nodup_dedup _, fun name hfile hdir => ?_⟩
    have other := hw.not_hasDir ((file name).1 hfile)
    rw [(directory name).1 hdir] at other
    cases other
  case files => simp [entriesIn, file]
  case dirs => simp [entriesIn, directory]
  case below =>
    intro name within hm
    obtain ⟨hdir, rfl⟩ : name ∈ namesIn dir tree.dirs ∧ inside name = within := by
      simpa [entriesIn] using hm
    exact h name ((directory name).1 hdir)

/-- A directory has a listing, as directories do not lie in each other without end. -/
theorem exists_lists_of_depth (hw : tree.WellFormed) (depth : Nat)
    (h : ∀ below ∈ tree.dirs, below.length < dir.length + depth) :
    ∃ entries, tree.Lists dir entries := by
  induction depth generalizing dir with
  | zero =>
    have none (name : String) : tree.hasDir (dir ++ [name]) = false := by
      refine Bool.eq_false_iff.2 fun hdir => ?_
      have short := h (dir ++ [name]) (by simpa [FileTree.hasDir] using hdir)
      simp at short
    have listed : tree.Lists dir (entriesIn tree dir fun _ => []) :=
      lists_entriesIn hw fun name hdir => absurd hdir (by simp [none name])
    exact ⟨_, listed⟩
  | succ depth ih =>
    have deeper (name : String) : ∃ entries, tree.Lists (dir ++ [name]) entries :=
      ih fun below hm => by
        have short := h below hm
        rw [List.length_append, List.length_singleton]
        omega
    choose inside hinside using deeper
    exact ⟨_, lists_entriesIn hw fun name _ => hinside name⟩

theorem FileTree.WellFormed.exists_lists (hw : tree.WellFormed) (dir : Location) :
    ∃ entries, tree.Lists dir entries := by
  refine exists_lists_of_depth hw ((tree.dirs.map List.length).sum + 1) fun below hm => ?_
  have bound := List.le_sum_of_mem (List.mem_map_of_mem (f := List.length) hm)
  omega

/-! ## Discovery -/

/-- Sorting by paths gives a list that has the same members, each once, and is in order already. -/
theorem mergeSort_notAfter_eq {found sources : List String} (hfound : found.Nodup)
    (hmem : ∀ path, path ∈ found ↔ path ∈ sources) (hsorted : sources.Pairwise Path.Before) :
    found.mergeSort Path.notAfter = sources := by
  have keys : (sources.map Path.key).Nodup :=
    List.pairwise_map.2 (hsorted.imp Path.Before.key_ne)
  have same := (List.perm_ext_iff_of_nodup hfound (keys.of_map _)).2 hmem
  have merged := List.mergeSort_perm found Path.notAfter
  refine List.Perm.eq_of_pairwise (fun p q hp hq hpq hqp => ?_)
    (List.pairwise_mergeSort Path.notAfter_trans Path.notAfter_total found)
    (hsorted.imp Path.Before.notAfter) (merged.trans same)
  have key := List.le_antisymm (Path.notAfter_iff.1 hpq) (Path.notAfter_iff.1 hqp)
  exact List.inj_on_of_nodup_map keys ((merged.trans same).mem_iff.1 hp) hq key

/-- The sources below a directory are exactly the files there that have the extension of sources and
are not hidden, each once and in the order of their paths. A walk finds the same, whatever the order
in which each directory lists what it holds. -/
theorem sourcesBelow_exact {tree : FileTree} (hw : tree.WellFormed) {root : String}
    (hroot : tree.isDir root = true) :
    ∃ dir sources, tree.resolve root = .ok dir ∧ sourcesBelow tree root = .ok sources ∧
      (∀ found, found ∈ sources ↔
        ∃ names, IsSource tree dir names ∧ found = Path.joinAll root names) ∧
      sources.Nodup ∧ sources.Pairwise Path.Before ∧
      (∃ entries, tree.Lists dir entries) ∧
      ∀ entries, tree.Lists dir entries → discover root entries = sources := by
  obtain ⟨dir, hresolve, hdir⟩ := FileTree.exists_dir_of_isDir hroot
  have hne := FileTree.resolve_ne_empty hresolve
  have sorted := sorted_sources hw hne dir
  refine ⟨dir, _, hresolve, sourcesBelow_of_hasDir hresolve hdir, fun found => mem_sources_iff,
    sorted.imp (fun hbefore heq => hbefore.key_ne (congrArg Path.key heq)), sorted,
    hw.exists_lists dir, fun entries hl => ?_⟩
  obtain ⟨once, all⟩ := walk_finds hw hl hne
  exact mergeSort_notAfter_eq once (fun found => (all found).trans mem_sources_iff.symm) sorted

/-- Siblings whose paths as texts come in another order, names with several dots, hidden files and
directories, and a directory that is named like a source. -/
theorem sourcesBelow_exact_siblings :
    let tree : FileTree := {
      dirs := [["d"], ["d", "x.py"], ["d", ".h"], ["d", "a"]]
      files := [(["d", "a.py"], []), (["d", "a.b.py"], []), (["d", "a-b.py"], []),
        (["d", "a", "b.py"], []), (["d", "x.py", "y.py"], []), (["d", ".h", "c.py"], []),
        (["d", ".c.py"], []), (["d", ".py"], []), (["d", "n.txt"], [])] }
    let sources := ["d/a/b.py", "d/a-b.py", "d/a.b.py", "d/a.py", "d/x.py/y.py"]
    tree.WellFormed ∧ tree.isDir "d" = true ∧ sourcesBelow tree "d" = .ok sources ∧
      sources.Pairwise Path.Before ∧ (∃ entries, tree.Lists ["d"] entries) ∧
      ∀ entries, tree.Lists ["d"] entries → discover "d" entries = sources := by
  intro tree sources
  have wellFormed : tree.WellFormed :=
    ⟨by decide, by decide, by decide, by decide, by decide⟩
  have isDir : tree.isDir "d" = true := by decide
  have resolve : tree.resolve "d" = .ok ["d"] := by decide
  have below : sourcesBelow tree "d" = .ok sources := by
    have names : (sourceNames tree ["d"]).mergeSort precedes =
        [["a", "b.py"], ["a-b.py"], ["a.b.py"], ["a.py"], ["x.py", "y.py"]] :=
      List.Perm.eq_of_pairwise (fun _ _ _ _ hlt hgt => absurd hgt (lt_asymm hlt))
        (sorted_sourceNames wellFormed ["d"]) (by decide)
        ((List.mergeSort_perm _ precedes).trans (by decide))
    rw [sourcesBelow_of_hasDir resolve (by decide), names]
    decide
  obtain ⟨dir, found, hdir, hfound, -, -, sorted, listed, walked⟩ :=
    sourcesBelow_exact wellFormed isDir
  rw [resolve] at hdir
  cases hdir
  rw [below] at hfound
  cases hfound
  exact ⟨wellFormed, isDir, below, sorted, listed, walked⟩

end Berrify
