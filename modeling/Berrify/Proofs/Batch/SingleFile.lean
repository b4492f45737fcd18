import Berrify.Proofs.Batch.Survival

/-!
# Translating a single file

Whatever the path of the input is, translating it changes at most the place that the path of the
output leads to (`ChangedAt`), and that place is not the one of the input : either both paths lead
to places in the same directory under different names (`exists_place`), or the path of the output
leads to a directory (`hasDir_of_resolve_up`), where nothing can be written or removed.

At that place a translation ends in one of two ways. An output that is reported holds the text that
there was to write (`Translator.readBytes_settle`), and behind a failure there is no file
(`Translator.not_isFile_settle`). `TranslatedFile` is what a translation has done to a tree when it is over, and `translateFile_spec`
says that every translation has done it.
-/

namespace Berrify

/-! ## Where the end of a path leads -/

namespace FileTree

/-- Segments that do not count lead nowhere, but need a directory. -/
theorem walk_blank (tree : FileTree) (loc : Location) {blank : List String}
    (h : ∀ s ∈ blank, s = "" ∨ s = ".") :
    tree.walk loc blank =
      if blank = [] then .ok loc
      else if tree.hasFile loc then .error .notDirectory
      else if !tree.hasDir loc then .error .notFound
      else .ok loc := by
  induction blank with
  | nil => rfl
  | cons s blank ih =>
    obtain ⟨hs, hrest⟩ := List.forall_mem_cons.1 h
    have uncounted : (s == "" || s == ".") = true := by simpa using hs
    rw [walk, uncounted, ih hrest, if_neg (List.cons_ne_nil s blank)]
    split
    · rfl
    · split
      · rfl
      · simp [*]

theorem eq_of_walk_blank {tree : FileTree} {loc place : Location} {blank : List String}
    (h : ∀ s ∈ blank, s = "" ∨ s = ".") (hplace : tree.walk loc blank = .ok place) :
    place = loc := by
  rw [walk_blank tree loc h] at hplace
  split_ifs at hplace <;> cases hplace
  all_goals rfl

variable {path front last : String}

/-- A path leads where its last segment leads from where its front leads. -/
theorem exists_resolve (h : Path.Ends path front last) (hlast : last ≠ "") :
    ∃ blank, (∀ s ∈ blank, s = "" ∨ s = ".") ∧ ∀ tree : FileTree, tree.resolve path =
      tree.walk (tree.startOf front) (Path.segments front).dropLast >>=
        (tree.walk · (last :: blank)) := by
  obtain ⟨blank, hblank, hsegments⟩ := h.segments_eq
  refine ⟨blank, hblank, fun tree => ?_⟩
  have nonempty : path ≠ "" := by
    rintro rfl
    have trimmed := h.trimmed
    simp [Path.trimBack, hlast] at trimmed
  rw [resolve_eq nonempty, startOf, h.isAbsolute_eq hlast, ← startOf, hsegments, walk_append]

theorem hasDir_of_walk_cons {tree : FileTree} {loc place : Location} {segment : String}
    {rest : List String} (h : tree.walk loc (segment :: rest) = .ok place) :
    tree.hasDir loc = true := by
  rw [walk] at h
  split at h
  · cases h
  · split at h
    · cases h
    · rename_i hdir
      simpa using hdir

/-- The way up leads to a directory. -/
theorem WellFormed.hasDir_of_resolve_up {tree : FileTree} (hw : tree.WellFormed)
    (h : Path.Ends path front "..") {place : Location} (hplace : tree.resolve path = .ok place) :
    tree.hasDir place = true := by
  obtain ⟨blank, hblank, resolve⟩ := exists_resolve h (by decide)
  rw [resolve, bind_eq_ok] at hplace
  obtain ⟨loc, -, hplace⟩ := hplace
  have hdir := hasDir_of_walk_cons hplace
  have hfile : tree.hasFile loc = false := by rw [hasFile, hw.similar.apart loc hdir]; rfl
  have up : tree.walk loc (".." :: blank) = tree.walk loc.dropLast blank := by
    simp [walk, hfile, hdir]
  obtain rfl := eq_of_walk_blank hblank (up ▸ hplace)
  exact hw.hasDir_dropLast hdir

/-- From the directory that its front leads to, a path leads to the place of its name. -/
theorem walk_last {tree : FileTree} (ha : tree.Apart) {loc : Location}
    (hdir : tree.hasDir loc = true) (hname : Path.isFileName last = true) (blank : List String) :
    tree.walk loc (last :: blank) = tree.walk (loc ++ [last]) blank := by
  have first : tree.walk loc (last :: blank) = tree.walk loc [last] >>= (tree.walk · blank) :=
    walk_append tree loc [last] blank
  rw [first, walk_name ha hdir hname]
  rfl

theorem exists_place {tree : FileTree} (ha : tree.Apart) (h : Path.Ends path front last)
    (hname : Path.isFileName last = true) {place : Location}
    (hplace : tree.resolve path = .ok place) :
    ∃ loc, tree.walk (tree.startOf front) (Path.segments front).dropLast = .ok loc ∧
      tree.hasDir loc = true ∧ place = loc ++ [last] := by
  obtain ⟨blank, hblank, resolve⟩ := exists_resolve h (Path.isFileName_iff.1 hname).1
  rw [resolve, bind_eq_ok] at hplace
  obtain ⟨loc, hloc, hplace⟩ := hplace
  have hdir := hasDir_of_walk_cons hplace
  rw [walk_last ha hdir hname] at hplace
  exact ⟨loc, hloc, hdir, eq_of_walk_blank hblank hplace⟩

/-- What is read at a path with a name at its end depends on the directories and on what is in the
place of the name. -/
theorem Similar.readBytes_of_name {tree other : FileTree} (h : tree.Similar other) (ha : tree.Apart)
    (hpath : Path.Ends path front last) (hname : Path.isFileName last = true) {loc : Location}
    (hloc : tree.walk (tree.startOf front) (Path.segments front).dropLast = .ok loc)
    (hdir : tree.hasDir loc = true)
    (hsame : other.contents? (loc ++ [last]) = tree.contents? (loc ++ [last])) :
    other.readBytes path = tree.readBytes path := by
  obtain ⟨blank, hblank, resolve⟩ := exists_resolve hpath (Path.isFileName_iff.1 hname).1
  have start : other.startOf front = tree.startOf front := by rw [startOf, startOf, h.workDir]
  have before : tree.resolve path = tree.walk (loc ++ [last]) blank := by
    rw [resolve, hloc]
    exact walk_last ha hdir hname blank
  have after : other.resolve path = other.walk (loc ++ [last]) blank := by
    rw [resolve, start, h.walk hloc]
    exact walk_last h.apart (by rw [h.hasDir, hdir]) hname blank
  have resolved : other.resolve path = tree.resolve path := by
    rw [after, before, walk_blank other _ hblank, walk_blank tree _ hblank, hasFile, hasFile, hsame,
      h.hasDir]
  cases hr : tree.resolve path with
  | ok place =>
    obtain rfl := eq_of_walk_blank hblank (before ▸ hr)
    exact h.readBytes hr hsame
  | error e =>
    rw [FileTree.readBytes, FileTree.readBytes, resolved, hr]
    rfl

end FileTree

/-! ## Changes to the output and the input -/

section

variable {tree final : FileTree} {input ext : String}

/-- A change in the place of a directory, or in none, is no change. -/
theorem ChangedAt.same {output : String} (h : ChangedAt tree tree final output) (ha : tree.Apart)
    (hplace : ∀ loc, tree.resolve output = .ok loc → tree.hasDir loc = true) :
    final.Same tree := by
  refine ⟨h.similar.workDir, h.similar.dirs, fun loc => ?_⟩
  by_cases hloc : tree.resolve output = .ok loc
  · have hdir := hplace loc hloc
    rw [ha loc hdir, h.similar.apart loc (by rw [h.similar.hasDir, hdir])]
  · exact h.elsewhere loc hloc

/-- The place of the output is not that of the input. -/
theorem ChangedAt.readBytes_input (hw : tree.WellFormed) (hext : ext ≠ "")
    (hslash : '/' ∉ ext.toList)
    (hsame : Path.same (Path.withExtension input ext) input = false)
    (h : ChangedAt tree tree final (Path.withExtension input ext)) :
    final.readBytes input = tree.readBytes input := by
  have ha := hw.similar.apart
  obtain ⟨front, name, hinput, hname, ⟨other, hne, hother, hout⟩ | hup⟩ :=
    Path.exists_ends_withExtension hext hslash hsame
  · cases hr : tree.resolve (Path.withExtension input ext) with
    | error e => exact (h.same ha (by simp [hr])).readBytes input
    | ok place =>
      obtain ⟨loc, hloc, hdir, rfl⟩ := FileTree.exists_place ha hout hother hr
      refine h.similar.readBytes_of_name ha hinput hname hloc hdir (h.elsewhere _ ?_)
      rw [hr]
      simpa using hne
  · exact (h.same ha fun loc => hw.hasDir_of_resolve_up hup).readBytes input

end

/-! ## Settling -/

namespace Translator

section

variable {tree : FileTree} {output : String} {result : Except Failure String}

/-- A reported output holds the text that there was to write. -/
theorem readBytes_settle (hself : tree.Similar tree) {path : String}
    (h : (settle output result tree).1 = .ok path) :
    path = output ∧ ∃ target, result = .ok target ∧
      (settle output result tree).2.readBytes output = .ok target.toUTF8.toList := by
  have ha := hself.apart
  cases hout : tree.resolve output with
  | error e =>
    obtain ⟨failure, unsettled⟩ := exists_settle_of_error hout result
    rw [unsettled] at h
    cases h
  | ok place =>
    have after := (changedAt_settle ha hself output result).similar.resolve hout
    obtain ⟨reported, written⟩ := settle_spec ha hout result
    rw [reported] at h
    obtain ⟨rfl, target, htarget, hcontents⟩ := FileTree.eq_of_outcome_ok h
    refine ⟨rfl, target, htarget, ?_⟩
    rw [FileTree.readBytes_of_resolve after, written.here, hcontents]

/-- Where a failure is reported, no file is left : none was written, and an old one is removed. A
directory stays. -/
theorem not_isFile_settle (hself : tree.Similar tree) {failure : Failure}
    (h : (settle output result tree).1 = .error failure) :
    (settle output result tree).2.isFile output = false ∧
      (settle output result tree).2.isDir output = tree.isDir output := by
  have ha := hself.apart
  cases hout : tree.resolve output with
  | error e =>
    obtain ⟨_, unsettled⟩ := exists_settle_of_error hout result
    rw [unsettled]
    exact ⟨by rw [FileTree.isFile, hout], rfl⟩
  | ok place =>
    have similar := (changedAt_settle ha hself output result).similar
    obtain ⟨reported, removed⟩ := settle_spec ha hout result
    have isError : (Report.mk output (tree.outcome output place result).1).isError = true := by
      rw [← reported, h]
      rfl
    constructor
    · rw [FileTree.isFile_of_resolve (similar.resolve hout), removed.here,
        FileTree.outcome_of_isError isError, Option.isSome_none]
    · rw [FileTree.isDir, FileTree.isDir, similar.resolve hout, hout]
      exact similar.hasDir place

end

/-! ## The ends of a translation -/

variable {t : Translator} {tree : FileTree} {input : String}

theorem translateFile_of_same (h : Path.same (t.outputPath input) input = true)
    (tree : FileTree) :
    t.translateFile input tree = (.error (.access input .isInput), tree) :=
  if_pos h

theorem translateFile_of_not_same (h : Path.same (t.outputPath input) input = false)
    (tree : FileTree) :
    t.translateFile input tree = settle (t.outputPath input) (t.targetOf tree input) tree :=
  if_neg (Bool.eq_false_iff.1 h)

/-- The input can be read as before. -/
theorem readBytes_translateFile (hext : Settings.isExtension t.extension = true)
    (hw : tree.WellFormed) (input : String) :
    (t.translateFile input tree).2.readBytes input = tree.readBytes input := by
  obtain ⟨nonempty, noSlash, -⟩ := isExtension_iff.1 hext
  cases hsame : Path.same (t.outputPath input) input with
  | true => rw [translateFile_of_same hsame]
  | false =>
    have changed := changedAt_translateFile hw.similar.apart hw.similar t input
    exact changed.readBytes_input hw nonempty noSlash hsame

/-- A translation that succeeds has read a text, translated it and written it out. -/
theorem translateFile_eq_ok (hself : tree.Similar tree) {path : String}
    (h : (t.translateFile input tree).1 = .ok path) :
    path = t.outputPath input ∧ Path.same path input = false ∧ ∃ source target,
      tree.readText input = .ok source ∧ t.run source = .ok target ∧
        (t.translateFile input tree).2.readBytes path = .ok target.toUTF8.toList := by
  cases hsame : Path.same (t.outputPath input) input with
  | true =>
    rw [translateFile_of_same hsame] at h
    cases h
  | false =>
    rw [translateFile_of_not_same hsame] at h ⊢
    obtain ⟨rfl, target, htarget, written⟩ := readBytes_settle hself h
    obtain ⟨source, hread, hrun⟩ := targetOf_eq_ok htarget
    exact ⟨rfl, hsame, source, target, hread, hrun, written⟩

/-- A translation that fails leaves no output behind. -/
theorem translateFile_eq_error (hself : tree.Similar tree) {failure : Failure}
    (h : (t.translateFile input tree).1 = .error failure)
    (hsame : Path.same (t.outputPath input) input = false) :
    (t.translateFile input tree).2.isFile (t.outputPath input) = false ∧
      (t.translateFile input tree).2.isDir (t.outputPath input) =
        tree.isDir (t.outputPath input) := by
  rw [translateFile_of_not_same hsame] at h ⊢
  exact not_isFile_settle hself h

end Translator

/-! ## What a translation does -/

/-- What the translation of one file has done to a tree. -/
structure TranslatedFile (t : Translator) (tree : FileTree) (input : String)
    (result : Except Failure String) (final : FileTree) : Prop where
  /-- The input is as before, and so is all that is not in the place of the output. -/
  kept : final.readBytes input = tree.readBytes input
  others : ∀ loc, tree.resolve (t.outputPath input) ≠ .ok loc →
    final.contents? loc = tree.contents? loc
  workDir : final.workDir = tree.workDir
  dirs : final.dirs = tree.dirs
  /-- The output of a translation is that of the text of the input. -/
  translated : ∀ path, result = .ok path →
    path = t.outputPath input ∧ Path.same path input = false ∧ ∃ source target,
      tree.readText input = .ok source ∧ t.run source = .ok target ∧
        final.readBytes path = .ok target.toUTF8.toList
  /-- A file that would be its own output is refused. -/
  refused : Path.same (t.outputPath input) input = true →
    (∃ failure, result = .error failure ∧ failure.kind = "io") ∧ final = tree
  /-- A file that could not be translated has no output. -/
  failed : ∀ failure, result = .error failure → Path.same (t.outputPath input) input = false →
    final.isFile (t.outputPath input) = false ∧
      final.isDir (t.outputPath input) = tree.isDir (t.outputPath input)

/-- Translating a file is all or nothing, and never touches the file itself. -/
theorem translateFile_spec {t : Translator} (hext : Settings.isExtension t.extension = true)
    {tree : FileTree} (hw : tree.WellFormed) (input : String) :
    TranslatedFile t tree input (t.translateFile input tree).1 (t.translateFile input tree).2 := by
  have hself := hw.similar
  have changed := changedAt_translateFile hself.apart hself t input
  exact {
    kept := Translator.readBytes_translateFile hext hw input
    others := changed.elsewhere
    workDir := changed.similar.workDir
    dirs := changed.similar.dirs
    translated := fun _ => Translator.translateFile_eq_ok hself
    refused := fun hsame => by
      rw [Translator.translateFile_of_same hsame]
      exact ⟨⟨_, rfl, rfl⟩, rfl⟩
    failed := fun _ => Translator.translateFile_eq_error hself }

/-- Outputs of earlier runs, of a source that is still there and of one that is not. -/
def staleOutputs : FileTree where
  files := [(["a.py"], []), (["a.be"], [1]), (["b.be"], [2])]

/-- The first output is replaced and the second one removed. -/
theorem translateFile_spec_of_stale :
    let t : Translator := {}
    let first := t.translateFile "a.py" staleOutputs
    let second := t.translateFile "b.py" staleOutputs
    Settings.isExtension t.extension = true ∧ staleOutputs.WellFormed ∧
      (first.1 = .ok "a.be" ∧ first.2.readBytes "a.be" = .ok [] ∧
        first.2.readBytes "a.py" = .ok []) ∧
      second.1 = .error (.access "b.py" .notFound) ∧ second.2.isFile "b.be" = false := by
  intro t first second
  have admitted : Settings.isExtension t.extension = true :=
    (by decide : Settings.isExtension "be" = true)
  have wellFormed : staleOutputs.WellFormed :=
    ⟨by decide, by decide, by decide, by decide, by decide⟩
  have translated : (Translator.translateFile {} "a.py" staleOutputs).1 = .ok "a.be" := rfl
  have missing : (Translator.translateFile {} "b.py" staleOutputs).1 =
      .error (.access "b.py" .notFound) := rfl
  have done := translateFile_spec admitted wellFormed "a.py"
  have stopped := translateFile_spec admitted wellFormed "b.py"
  obtain ⟨-, -, source, target, hread, hrun, written⟩ := done.translated "a.be" translated
  obtain rfl : "" = source := Except.ok.inj hread
  obtain rfl : "" = target := Except.ok.inj hrun
  have nothing : "".toUTF8.toList = [] := by simp [ByteArray.toList, ByteArray.toList.loop]
  have other : Path.same (Translator.outputPath {} "b.py") "b.py" = false := rfl
  exact ⟨admitted, wellFormed, ⟨translated, written.trans (by rw [nothing]), done.kept⟩, missing,
    (stopped.failed _ missing other).1⟩

end Berrify
