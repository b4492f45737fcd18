import Berrify.FileTree
import Berrify.Proofs.Path
import Berrify.Proofs.Success

/-!
# Trees with the same directories

`FileTree.WellFormed` says what a tree of directories and files is : every file lies in a directory,
every directory in another, and nothing is both. Writing and removing files leave the directories
alone, so for paths that lead through directories the place that they lead to stays the same
(`resolve_joinAll`) in all trees that have these directories (`FileTree.Similar`).

Trees hold their files in a list, whose order does not matter : two trees are the `Same` if they
have the same directories and the same contents everywhere.
-/

namespace Berrify.FileTree

/-! ## Contents -/

theorem lookup_cons_eq (loc : Location) (bytes : List UInt8) (files : List (Location × List UInt8))
    (other : Location) :
    ((loc, bytes) :: files).lookup other =
      if other = loc then some bytes else files.lookup other := by
  by_cases h : other = loc
  · simp [h]
  · simp [h, List.lookup_cons, beq_false_of_ne h]

theorem lookup_putFile (loc : Location) (bytes : List UInt8) (files : List (Location × List UInt8))
    (other : Location) :
    (putFile loc bytes files).lookup other =
      if other = loc then some bytes else files.lookup other := by
  induction files with
  | nil => exact lookup_cons_eq loc bytes [] other
  | cons file files ih =>
    obtain ⟨here, old⟩ := file
    by_cases hhere : here = loc
    · subst hhere
      rw [putFile, if_pos (beq_self_eq_true here), lookup_cons_eq, lookup_cons_eq]
      split <;> rfl
    · rw [putFile, if_neg (by simpa using hhere), lookup_cons_eq, lookup_cons_eq, ih]
      by_cases h : other = here
      · rw [if_pos h, if_pos h, if_neg (h ▸ hhere)]
      · rw [if_neg h, if_neg h]

theorem lookup_filter_ne (loc : Location) (files : List (Location × List UInt8))
    (other : Location) :
    (files.filter (·.1 != loc)).lookup other =
      if other = loc then none else files.lookup other := by
  induction files with
  | nil => simp
  | cons file files ih =>
    obtain ⟨here, old⟩ := file
    by_cases hhere : here = loc
    · subst hhere
      rw [List.filter_cons_of_neg (by simp), ih, lookup_cons_eq]
      split <;> rfl
    · rw [List.filter_cons_of_pos (by simpa using hhere), lookup_cons_eq, lookup_cons_eq, ih]
      by_cases h : other = here
      · rw [if_pos h, if_pos h, if_neg (h ▸ hhere)]
      · rw [if_neg h, if_neg h]

theorem hasFile_iff {tree : FileTree} {loc : Location} :
    tree.hasFile loc = true ↔ ∃ file ∈ tree.files, file.1 = loc := by
  rw [hasFile, contents?, ← Option.ne_none_iff_isSome, Ne, List.lookup_eq_none_iff]
  simp only [bne_iff_ne, not_forall, not_not, exists_prop]
  exact exists_congr fun file => and_congr_right fun _ => eq_comm

/-- Two trees have the same directories and the same contents everywhere. -/
structure Same (tree other : FileTree) : Prop where
  workDir : tree.workDir = other.workDir
  dirs : tree.dirs = other.dirs
  contents : ∀ loc, tree.contents? loc = other.contents? loc

/-- No file is in the place of a directory. -/
def Apart (tree : FileTree) : Prop :=
  ∀ loc, tree.hasDir loc = true → tree.contents? loc = none

/-- A tree has the directories of another one, and files only in other places. -/
structure Similar (tree other : FileTree) : Prop where
  workDir : other.workDir = tree.workDir
  dirs : other.dirs = tree.dirs
  apart : other.Apart

theorem Similar.hasDir {tree other : FileTree} (h : tree.Similar other) (loc : Location) :
    other.hasDir loc = tree.hasDir loc := by
  rw [FileTree.hasDir, FileTree.hasDir, h.dirs]

/-! ## Paths -/

theorem walk_append (tree : FileTree) (loc : Location) (front back : List String) :
    tree.walk loc (front ++ back) = tree.walk loc front >>= (tree.walk · back) := by
  induction front generalizing loc with
  | nil => rfl
  | cons segment front ih =>
    rw [List.cons_append, walk, walk]
    split
    · rfl
    · split
      · rfl
      · split
        · exact ih loc
        · split
          · exact ih loc.dropLast
          · exact ih (loc ++ [segment])

/-- A name leads from a directory to a place in it. -/
theorem walk_name {tree : FileTree} (h : tree.Apart) {loc : Location}
    (hdir : tree.hasDir loc = true) {name : String} (hname : Path.isFileName name = true) :
    tree.walk loc [name] = .ok (loc ++ [name]) := by
  obtain ⟨hempty, hdot, hup, -⟩ := Path.isFileName_iff.1 hname
  simp [walk, hasFile, h loc hdir, hdir, hempty, hdot, hup]

theorem exists_dir_of_isDir {tree : FileTree} {path : String} (h : tree.isDir path = true) :
    ∃ dir, tree.resolve path = .ok dir ∧ tree.hasDir dir = true := by
  unfold isDir at h
  split at h
  · exact ⟨_, ‹_›, h⟩
  · cases h

theorem resolve_ne_empty {tree : FileTree} {path : String} {loc : Location}
    (h : tree.resolve path = .ok loc) : path ≠ "" := by
  rintro rfl
  cases h

/-- Where a path starts. -/
def startOf (tree : FileTree) (path : String) : Location :=
  if Path.isAbsolute path then [] else tree.workDir

theorem resolve_eq {tree : FileTree} {path : String} (h : path ≠ "") :
    tree.resolve path = tree.walk (tree.startOf path) (Path.segments path) := by
  have nonempty : path.isEmpty = false := by
    simpa using h
  rw [resolve, nonempty, if_neg Bool.false_ne_true, startOf]

theorem walk_empty {tree : FileTree} {loc loc' : Location} (h : tree.walk loc [""] = .ok loc') :
    loc = loc' := by
  rw [walk] at h
  split at h
  · cases h
  · split at h
    · cases h
    · exact Except.ok.inj h

/-- A name joined to the path of a directory leads to a place in it. -/
theorem resolve_join {tree : FileTree} (h : tree.Apart) {dir : String} {loc : Location}
    (hdir : tree.resolve dir = .ok loc) (hloc : tree.hasDir loc = true) {name : String}
    (hname : Path.isFileName name = true) :
    tree.resolve (Path.join dir name) = .ok (loc ++ [name]) := by
  have hne := resolve_ne_empty hdir
  obtain ⟨above, habove, hjoin⟩ := Path.exists_join hne
  obtain ⟨-, -, -, hslash⟩ := Path.isFileName_iff.1 hname
  have start := resolve_eq hne ▸ hdir
  -- A slash at the end leads to where the path before it does.
  have walked : tree.walk (tree.startOf dir) (Path.segments above) = .ok loc := by
    rcases habove with rfl | rfl
    · exact start
    · rw [Path.segments_directory, walk_append, bind_eq_ok] at start
      obtain ⟨before, hbefore, hlast⟩ := start
      rw [hbefore, walk_empty hlast]
  have first : tree.startOf (Path.join dir name) = tree.startOf dir := by
    rw [startOf, startOf]
    rcases habove with rfl | rfl
    · rw [hjoin, String.append_assoc, Path.isAbsolute_append hne]
    · rw [hjoin, Path.isAbsolute_append hne]
  rw [resolve_eq (Path.join_ne_empty hne name), first, hjoin, Path.segments_below above hslash,
    walk_append, walked]
  exact walk_name h hloc hname

/-- Names joined one after the other lead from a directory through directories. -/
theorem resolve_joinAll {tree : FileTree} (h : tree.Apart) {names : List String} {root : String}
    {loc : Location} (hroot : tree.resolve root = .ok loc)
    (hdirs : ∀ k < names.length, tree.hasDir (loc ++ names.take k) = true)
    (hnames : ∀ name ∈ names, Path.isFileName name = true) :
    tree.resolve (Path.joinAll root names) = .ok (loc ++ names) := by
  induction names generalizing root loc with
  | nil => rwa [List.append_nil]
  | cons name names ih =>
    obtain ⟨hname, hrest⟩ := List.forall_mem_cons.1 hnames
    have hloc : tree.hasDir loc = true := by
      simpa using hdirs 0 (Nat.zero_lt_succ _)
    have inner : ∀ k < names.length, tree.hasDir (loc ++ [name] ++ names.take k) = true := by
      intro k hk
      simpa using hdirs (k + 1) (Nat.succ_lt_succ hk)
    have next := ih (resolve_join h hroot hloc hname) inner hrest
    rwa [List.append_assoc] at next

/-- Where a path leads to a place, it does so in all trees with the same directories. -/
theorem Similar.walk {tree other : FileTree} (h : tree.Similar other) {segments : List String}
    {loc place : Location} (hwalk : tree.walk loc segments = .ok place) :
    other.walk loc segments = .ok place := by
  induction segments generalizing loc with
  | nil => exact hwalk
  | cons segment segments ih =>
    rw [FileTree.walk] at hwalk ⊢
    split at hwalk
    · cases hwalk
    split at hwalk
    · cases hwalk
    rename_i hdir
    have dir : other.hasDir loc = true := by
      rw [h.hasDir]
      simpa using hdir
    have file : other.hasFile loc = false := by
      rw [hasFile, h.apart loc dir]
      rfl
    rw [file, dir, if_neg Bool.false_ne_true, Bool.not_true, if_neg Bool.false_ne_true]
    split at hwalk
    · rw [if_pos ‹_›]
      exact ih hwalk
    · rw [if_neg ‹_›]
      split at hwalk
      · rw [if_pos ‹_›]
        exact ih hwalk
      · rw [if_neg ‹_›]
        exact ih hwalk

theorem Similar.resolve {tree other : FileTree} (h : tree.Similar other) {path : String}
    {loc : Location} (hpath : tree.resolve path = .ok loc) : other.resolve path = .ok loc := by
  have hne := resolve_ne_empty hpath
  have start : other.startOf path = tree.startOf path := by
    rw [startOf, startOf, h.workDir]
  rw [resolve_eq hne] at hpath ⊢
  rw [start]
  exact h.walk hpath

theorem readBytes_of_resolve {tree : FileTree} {path : String} {loc : Location}
    (h : tree.resolve path = .ok loc) :
    tree.readBytes path = match tree.contents? loc with
      | some bytes => .ok bytes
      | none => .error (if tree.hasDir loc then .isDirectory else .notFound) := by
  rw [readBytes, h]
  rfl

theorem isFile_of_resolve {tree : FileTree} {path : String} {loc : Location}
    (h : tree.resolve path = .ok loc) : tree.isFile path = (tree.contents? loc).isSome := by
  rw [isFile, h]
  rfl

theorem Similar.readBytes {tree other : FileTree} (h : tree.Similar other) {path : String}
    {loc : Location} (hpath : tree.resolve path = .ok loc)
    (hsame : other.contents? loc = tree.contents? loc) :
    other.readBytes path = tree.readBytes path := by
  rw [readBytes_of_resolve (h.resolve hpath), readBytes_of_resolve hpath, hsame, h.hasDir]

theorem Same.hasDir {tree other : FileTree} (h : tree.Same other) (loc : Location) :
    tree.hasDir loc = other.hasDir loc := by
  rw [FileTree.hasDir, FileTree.hasDir, h.dirs]

theorem Same.walk {tree other : FileTree} (h : tree.Same other) (loc : Location)
    (segments : List String) : tree.walk loc segments = other.walk loc segments := by
  induction segments generalizing loc with
  | nil => rfl
  | cons segment segments ih =>
    rw [FileTree.walk, FileTree.walk, hasFile, hasFile, h.contents, h.hasDir]
    simp only [ih]

theorem Same.readBytes {tree other : FileTree} (h : tree.Same other) (path : String) :
    tree.readBytes path = other.readBytes path := by
  simp only [FileTree.readBytes, FileTree.resolve, h.workDir, h.walk, h.contents, h.hasDir]

/-! ## Well-formed trees -/

/-- A tree of directories and files. -/
structure WellFormed (tree : FileTree) : Prop where
  /-- No two files are in one place. -/
  nodup : (tree.files.map (·.1)).Nodup
  /-- Names are such as a path can spell. -/
  names : ∀ file ∈ tree.files, ∀ name ∈ file.1, Path.isFileName name = true
  /-- Files and directories lie in directories. -/
  parents : ∀ file ∈ tree.files, tree.hasDir file.1.dropLast = true
  above : ∀ dir ∈ tree.dirs, tree.hasDir dir.dropLast = true
  /-- No file is in the place of a directory. -/
  apart : ∀ file ∈ tree.files, tree.hasDir file.1 = false

theorem WellFormed.similar {tree : FileTree} (h : tree.WellFormed) : tree.Similar tree := by
  refine ⟨rfl, rfl, fun loc hdir => ?_⟩
  refine List.lookup_eq_none_iff.2 fun file hm => ?_
  rw [bne_iff_ne]
  rintro rfl
  rw [h.apart file hm] at hdir
  cases hdir

theorem WellFormed.hasDir_dropLast {tree : FileTree} (h : tree.WellFormed) {loc : Location}
    (hdir : tree.hasDir loc = true) : tree.hasDir loc.dropLast = true := by
  rw [hasDir, Bool.or_eq_true, List.isEmpty_iff, List.contains_iff_mem] at hdir
  rcases hdir with rfl | hm
  · rfl
  · exact h.above loc hm

/-- All that lies above a file is a directory. -/
theorem WellFormed.hasDir_take {tree : FileTree} (h : tree.WellFormed)
    {file : Location × List UInt8} (hm : file ∈ tree.files) {k : Nat} (hk : k < file.1.length) :
    tree.hasDir (file.1.take k) = true := by
  -- From the directory of the file upwards, one name less in each step.
  have upwards (missing : Nat) :
      tree.hasDir (file.1.take (file.1.length - 1 - missing)) = true := by
    induction missing with
    | zero =>
      rw [Nat.sub_zero, ← List.dropLast_eq_take]
      exact h.parents file hm
    | succ missing ih =>
      have shorter := h.hasDir_dropLast ih
      rwa [List.dropLast_take (by omega)] at shorter
  have reached := upwards (file.1.length - 1 - k)
  rwa [show file.1.length - 1 - (file.1.length - 1 - k) = k by omega] at reached

theorem WellFormed.isFileName {tree : FileTree} (hw : tree.WellFormed) {loc : Location}
    (h : tree.hasFile loc = true) : ∀ name ∈ loc, Path.isFileName name = true := by
  obtain ⟨file, hfile, rfl⟩ := hasFile_iff.1 h
  exact hw.names file hfile

theorem WellFormed.not_hasDir {tree : FileTree} (hw : tree.WellFormed) {loc : Location}
    (h : tree.hasFile loc = true) : tree.hasDir loc = false := by
  obtain ⟨file, hfile, rfl⟩ := hasFile_iff.1 h
  exact hw.apart file hfile

/-- Whatever a file lies in is a directory. -/
theorem WellFormed.hasDir_above {tree : FileTree} (hw : tree.WellFormed) {above below : Location}
    (h : tree.hasFile (above ++ below) = true) (hne : below ≠ []) : tree.hasDir above = true := by
  obtain ⟨file, hfile, place⟩ := hasFile_iff.1 h
  have inside : above.length < file.1.length := by
    rw [place, List.length_append]
    exact Nat.lt_add_of_pos_right (List.length_pos_iff.2 hne)
  have directory := hw.hasDir_take hfile inside
  rwa [place, List.take_left] at directory

end Berrify.FileTree
