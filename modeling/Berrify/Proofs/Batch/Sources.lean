import Berrify.Proofs.Batch.Interleaving
import Berrify.Proofs.Path.Ending

/-!
# Translating all sources below a directory

The sources below a directory have the extension of sources and are not hidden, so the name of each
is a stem with that extension, and the name of its output is the same stem with the extension of
outputs (`outputPath_joinAll`). Different sources have different outputs, and no output is a
source : the files of such a batch do not touch each other (`independent_sources`). So whatever the
order of the steps in which they are translated, the reports and the tree come out the same
(`translatePath_order_independent`).
-/

namespace Berrify

/-- An extension that outputs may have. A dot would move to the stem, and the extension of sources
would let a source be overwritten. -/
structure IsOutputExtension (ext : String) : Prop where
  nonempty : ext ≠ ""
  noDot : '.' ∉ ext.toList
  noSlash : '/' ∉ ext.toList
  notSource : ext ≠ sourceExtension

/-! ## Names of sources -/

theorem eq_append_of_drop {dir loc names : Location}
    (h : (if dir.isPrefixOf loc then some (loc.drop dir.length) else none) = some names) :
    loc = dir ++ names := by
  split at h
  · rename_i hfront
    obtain ⟨rest, hrest⟩ := List.isPrefixOf_iff_prefix.1 hfront
    cases h
    rw [← hrest, List.drop_left]
  · cases h

/-- Names that lead from a directory to a source : a file with the extension of sources, for which
neither its name nor one on the way to it starts with a dot. -/
structure IsSource (tree : FileTree) (dir names : Location) : Prop where
  file : tree.hasFile (dir ++ names) = true
  visible : ∀ name ∈ names, name.toList.head? ≠ some '.'
  extension : ∃ above stem, stem ≠ "" ∧ names = above ++ [stem ++ "." ++ sourceExtension]

theorem isHidden_eq_false {name : String} :
    isHidden name = false ↔ name.toList.head? ≠ some '.' := by
  rw [isHidden, beq_eq_false_iff_ne]

/-- A name has the extension of sources if it is a stem with this extension. -/
theorem hasSourceExtension_iff {name : String} :
    (Path.partName name).2 = some sourceExtension ↔
      ∃ stem, stem ≠ "" ∧ name = stem ++ "." ++ sourceExtension := by
  refine ⟨Path.eq_of_partName, ?_⟩
  rintro ⟨stem, hstem, rfl⟩
  rw [Path.partName_dot hstem (by decide)]

namespace IsSource

variable {tree : FileTree} {dir names : Location}

theorem ne_nil (h : IsSource tree dir names) : names ≠ [] := by
  obtain ⟨above, stem, -, rfl⟩ := h.extension
  exact List.append_ne_nil_of_right_ne_nil above (List.cons_ne_nil _ _)

theorem isFileName (h : IsSource tree dir names) (hw : tree.WellFormed) :
    ∀ name ∈ names, Path.isFileName name = true :=
  fun name hm => hw.isFileName h.file name (List.mem_append_right dir hm)

end IsSource

theorem getLast_hasSourceExtension_iff {names : Location} :
    names.getLast?.bind (fun name => (Path.partName name).2) = some sourceExtension ↔
      ∃ above stem, stem ≠ "" ∧ names = above ++ [stem ++ "." ++ sourceExtension] := by
  rcases List.eq_nil_or_concat names with rfl | ⟨above, name, rfl⟩
  · simp
  · rw [List.concat_eq_append, List.getLast?_concat, Option.bind_some, hasSourceExtension_iff]
    simp [List.append_singleton_inj]

theorem mem_sourceNames_iff {tree : FileTree} {dir names : Location} :
    names ∈ sourceNames tree dir ↔ IsSource tree dir names := by
  have place (file : Location × List UInt8) :
      (if dir.isPrefixOf file.1 then some (file.1.drop dir.length) else none) = some names ↔
        file.1 = dir ++ names := by
    refine ⟨eq_append_of_drop, fun heq => ?_⟩
    rw [heq, if_pos (List.isPrefixOf_iff_prefix.2 (List.prefix_append dir names)), List.drop_left]
  rw [sourceNames, List.mem_filter, List.mem_filterMap]
  simp only [place, ← FileTree.hasFile_iff, Bool.and_eq_true, Bool.not_eq_true', List.any_eq_false,
    Bool.not_eq_true, isHidden_eq_false, beq_iff_eq, getLast_hasSourceExtension_iff]
  constructor
  · rintro ⟨hfile, ⟨-, hvisible⟩, hext⟩
    exact ⟨hfile, hvisible, hext⟩
  · intro h
    exact ⟨h.file, ⟨by simpa using h.ne_nil, h.visible⟩, h.extension⟩

/-- A source below a directory : the directories that lead to it, and the stem of its name. -/
structure SourceBelow (tree : FileTree) (dir above : Location) (stem : String) : Prop where
  isStem : Path.IsStem stem
  file : ∃ file ∈ tree.files, file.1 = dir ++ (above ++ [stem ++ "." ++ sourceExtension])

theorem sourceBelow_of_mem {tree : FileTree} (hw : tree.WellFormed) {dir names : Location}
    (h : names ∈ sourceNames tree dir) : ∃ above stem,
      names = above ++ [stem ++ "." ++ sourceExtension] ∧ SourceBelow tree dir above stem := by
  have source := mem_sourceNames_iff.1 h
  obtain ⟨above, stem, hstem, rfl⟩ := source.extension
  have last : stem ++ "." ++ sourceExtension ∈ above ++ [stem ++ "." ++ sourceExtension] :=
    List.mem_append_right _ (List.mem_singleton_self _)
  refine ⟨above, stem, rfl, ⟨hstem, fun hhead => ?_, fun hslash => ?_⟩,
    FileTree.hasFile_iff.1 source.file⟩
  · exact source.visible _ last (by simp [hhead])
  · have isName := source.isFileName hw _ last
    exact (Path.isFileName_iff.1 isName).2.2.2 (by simp [hslash])

theorem nodup_sourceNames {tree : FileTree} (hw : tree.WellFormed) (dir : Location) :
    (sourceNames tree dir).Nodup := by
  refine List.Nodup.filter _ ?_
  change (tree.files.filterMap ((fun loc : Location =>
    if dir.isPrefixOf loc then some (loc.drop dir.length) else none) ∘ (·.1))).Nodup
  rw [← List.filterMap_map]
  refine List.Nodup.filterMap (fun loc loc' names h h' => ?_) hw.nodup
  rw [eq_append_of_drop h, eq_append_of_drop h']

namespace SourceBelow

variable {tree : FileTree} {dir above : Location} {stem : String}

theorem hasDir (h : SourceBelow tree dir above stem) (hw : tree.WellFormed) {k : Nat}
    (hk : k ≤ above.length) : tree.hasDir (dir ++ above.take k) = true := by
  obtain ⟨file, hfile, place⟩ := h.file
  have inside : dir.length + k < file.1.length := by
    rw [place]
    simp
    omega
  have directory := hw.hasDir_take hfile inside
  rwa [place, List.take_length_add_append, List.take_append_of_le_length hk] at directory

/-- The paths of the source, and of a file beside it with the same stem, lead to their places. -/
theorem resolve (h : SourceBelow tree dir above stem) (hw : tree.WellFormed) {root : String}
    (hroot : tree.resolve root = .ok dir) {ext : String} (hext : '/' ∉ ext.toList) :
    tree.resolve (Path.joinAll root (above ++ [stem ++ "." ++ ext])) =
      .ok (dir ++ (above ++ [stem ++ "." ++ ext])) := by
  refine FileTree.resolve_joinAll hw.similar.apart hroot (fun k hk => ?_) ?_
  · have short : k ≤ above.length := by
      simp at hk
      omega
    rw [List.take_append_of_le_length short]
    exact h.hasDir hw short
  · refine List.forall_mem_append.2 ⟨fun name hm => ?_, ?_⟩
    · obtain ⟨file, hfile, place⟩ := h.file
      exact hw.names file hfile name (by simp [place, hm])
    · rw [List.forall_mem_singleton]
      exact h.isStem.isFileName_dot hext

end SourceBelow

/-- The output of a source has the same stem and lies beside it. -/
theorem outputPath_joinAll (t : Translator) (hext : t.extension ≠ "") {root : String}
    (hroot : root ≠ "") (above : Location) {stem : String} (h : Path.IsStem stem) :
    t.outputPath (Path.joinAll root (above ++ [stem ++ "." ++ sourceExtension])) =
      Path.joinAll root (above ++ [stem ++ "." ++ t.extension]) := by
  rw [Path.joinAll_concat, Path.joinAll_concat]
  exact h.withExtension_join (Path.joinAll_ne_empty hroot above) hext

/-! ## Sources do not touch each other -/

theorem place_eq {tree : FileTree} {path : String} {loc : Location}
    (h : tree.resolve path = .ok loc) : tree.place path = loc := by
  rw [FileTree.place, h]

/-- Where a source and its output are. -/
structure SourcePlaces (t : Translator) (tree : FileTree) (root : String)
    (dir names above : Location) (stem : String) : Prop where
  isStem : Path.IsStem stem
  names_eq : names = above ++ [stem ++ "." ++ sourceExtension]
  input : tree.resolve (Path.joinAll root names) = .ok (dir ++ names)
  output : tree.resolve (t.outputPath (Path.joinAll root names)) =
    .ok (dir ++ (above ++ [stem ++ "." ++ t.extension]))
  changed : Path.same (t.outputPath (Path.joinAll root names)) (Path.joinAll root names) = false

theorem exists_sourcePlaces {t : Translator} (hext : IsOutputExtension t.extension)
    {tree : FileTree} (hw : tree.WellFormed) {root : String} {dir : Location}
    (hroot : tree.resolve root = .ok dir) {names : Location} (hm : names ∈ sourceNames tree dir) :
    ∃ above stem, SourcePlaces t tree root dir names above stem := by
  obtain ⟨above, stem, rfl, h⟩ := sourceBelow_of_mem hw hm
  have hne := FileTree.resolve_ne_empty hroot
  have output := outputPath_joinAll t hext.nonempty hne above h.isStem
  refine ⟨above, stem, h.isStem, rfl, h.resolve hw hroot (by decide), ?_, ?_⟩
  · rw [output]
    exact h.resolve hw hroot hext.noSlash
  · rw [output, Bool.eq_false_iff]
    intro hsame
    have name := Path.fileName?_of_same hsame
    rw [Path.joinAll_concat, Path.joinAll_concat,
      Path.fileName?_join (Path.joinAll_ne_empty hne above) (h.isStem.isFileName_dot hext.noSlash),
      Path.fileName?_join (Path.joinAll_ne_empty hne above) (h.isStem.isFileName_dot (by decide)),
      Option.some.injEq] at name
    exact hext.notSource (Path.dot_inj h.isStem.nonempty h.isStem.nonempty hext.noDot (by decide)
      name).2

/-- The sources below a directory and their outputs are all in different places. -/
theorem independent_sources {t : Translator} (hext : IsOutputExtension t.extension)
    {tree : FileTree} (hw : tree.WellFormed) {root : String} {dir : Location}
    (hroot : tree.resolve root = .ok dir) :
    t.Independent tree (((sourceNames tree dir).mergeSort precedes).map (Path.joinAll root)) := by
  have sorted := List.mergeSort_perm (sourceNames tree dir) precedes
  have spec : ∀ names ∈ (sourceNames tree dir).mergeSort precedes,
      ∃ above stem, SourcePlaces t tree root dir names above stem :=
    fun names hm => exists_sourcePlaces hext hw hroot (sorted.mem_iff.1 hm)
  constructor
  case input =>
    refine List.forall_mem_map.2 fun names hm => ?_
    obtain ⟨above, stem, h⟩ := spec names hm
    rw [place_eq h.input, h.input]
  case output =>
    refine List.forall_mem_map.2 fun names hm => ?_
    obtain ⟨above, stem, h⟩ := spec names hm
    rw [Translator.outputPlace, place_eq h.output, h.output]
  case changed =>
    refine List.forall_mem_map.2 fun names hm => ?_
    obtain ⟨above, stem, h⟩ := spec names hm
    exact h.changed
  case nodup =>
    rw [List.map_map]
    refine List.Nodup.map_on (fun names hm names' hm' heq => ?_)
      (sorted.nodup_iff.2 (nodup_sourceNames hw dir))
    obtain ⟨above, stem, h⟩ := spec names hm
    obtain ⟨above', stem', h'⟩ := spec names' hm'
    have places : dir ++ (above ++ [stem ++ "." ++ t.extension]) =
        dir ++ (above' ++ [stem' ++ "." ++ t.extension]) := by
      rw [← place_eq h.output, ← place_eq h'.output]
      exact heq
    rw [List.append_cancel_left_eq, List.append_singleton_inj] at places
    have stems := (Path.dot_inj h.isStem.nonempty h'.isStem.nonempty hext.noDot hext.noDot
      places.2).1
    rw [h.names_eq, h'.names_eq, places.1, stems]
  case apart =>
    refine List.forall_mem_map.2 fun names hm => List.forall_mem_map.2 fun names' hm' heq => ?_
    obtain ⟨above, stem, h⟩ := spec names hm
    obtain ⟨above', stem', h'⟩ := spec names' hm'
    rw [Translator.outputPlace, place_eq h.output, place_eq h'.input, h'.names_eq,
      List.append_cancel_left_eq, List.append_singleton_inj] at heq
    exact hext.notSource (Path.dot_inj h.isStem.nonempty h'.isStem.nonempty hext.noDot (by decide)
      heq.2).2

/-! ## Batches -/

theorem sourcesBelow_of_hasDir {tree : FileTree} {root : String} {dir : Location}
    (hroot : tree.resolve root = .ok dir) (hdir : tree.hasDir dir = true) :
    sourcesBelow tree root =
      .ok (((sourceNames tree dir).mergeSort precedes).map (Path.joinAll root)) := by
  rw [sourcesBelow, hroot]
  exact if_pos hdir

/-- What the translation of sources has done to a tree. -/
structure TranslatedAll (t : Translator) (tree : FileTree) (sources : List String)
    (reports : List Report) (final : FileTree) : Prop where
  /-- There is a report for each source, in the same order. -/
  inputs : reports.map (·.input) = sources
  /-- The outputs are in different places, and none is in the place of a source. -/
  distinct : (sources.map fun source => tree.resolve (t.outputPath source)).Nodup
  apart : ∀ source ∈ sources, ∀ other ∈ sources,
    tree.resolve (t.outputPath source) ≠ tree.resolve other
  /-- The sources are as before. -/
  kept : ∀ source ∈ sources, final.readBytes source = tree.readBytes source
  /-- The output of a source that was translated is its translation. -/
  translated : ∀ report ∈ reports, ∀ output, report.result = .ok output →
    output = t.outputPath report.input ∧ ∃ source target,
      tree.readText report.input = .ok source ∧ t.run source = .ok target ∧
        final.readBytes output = .ok target.toUTF8.toList
  /-- A source that was not translated has no output. -/
  failed : ∀ report ∈ reports, report.isError = true →
    final.isFile (t.outputPath report.input) = false
  /-- All other files, and the directories, are as before. -/
  others : ∀ loc, (∀ source ∈ sources, tree.resolve (t.outputPath source) ≠ .ok loc) →
    final.contents? loc = tree.contents? loc
  dirs : final.dirs = tree.dirs

theorem targetOf_eq_ok {t : Translator} {tree : FileTree} {input target : String}
    (h : t.targetOf tree input = .ok target) :
    ∃ source, tree.readText input = .ok source ∧ t.run source = .ok target := by
  rw [Translator.targetOf, bind_eq_ok] at h
  obtain ⟨source, hread, hrun⟩ := h
  exact ⟨source, mapError_eq_ok.1 hread, hrun⟩

theorem FileTree.eq_of_outcome_ok {tree : FileTree} {output path : String} {loc : Location}
    {result : Except Failure String} (h : (tree.outcome output loc result).1 = .ok path) :
    path = output ∧ ∃ text, result = .ok text ∧
      (tree.outcome output loc result).2 = some text.toUTF8.toList := by
  cases result with
  | error failure => cases h
  | ok text =>
    cases hdir : tree.hasDir loc with
    | true =>
      rw [outcome_of_hasDir hdir] at h
      cases h
    | false =>
      rw [outcome_of_not_hasDir hdir] at h ⊢
      cases h
      exact ⟨rfl, text, rfl, rfl⟩

theorem FileTree.outcome_of_isError {tree : FileTree} {input output : String} {loc : Location}
    {result : Except Failure String}
    (h : (Report.mk input (tree.outcome output loc result).1).isError = true) :
    (tree.outcome output loc result).2 = none := by
  cases result with
  | error failure => rfl
  | ok text =>
    cases hdir : tree.hasDir loc with
    | true => rw [outcome_of_hasDir hdir]
    | false =>
      rw [outcome_of_not_hasDir hdir] at h
      cases h

/-- A batch of files that do not touch each other has done its work when it is finished. -/
theorem Consistent.translatedAll {t : Translator} {tree : FileTree} {inputs : List String}
    (hi : t.Independent tree inputs) {b : Batch} (h : Consistent t tree inputs b)
    (hfinished : b.isFinished = true) : TranslatedAll t tree inputs b.reports b.tree := by
  have reports := h.reports_eq hfinished
  constructor
  case inputs =>
    rw [reports, List.map_map]
    exact List.map_id inputs
  case distinct =>
    have places : inputs.map (fun input => tree.resolve (t.outputPath input)) =
        (inputs.map (t.outputPlace tree)).map Except.ok := by
      rw [List.map_map]
      exact List.map_congr_left hi.output
    rw [places]
    exact hi.nodup.map fun _ _ => Except.ok.inj
  case apart =>
    intro source hs other ho heq
    rw [hi.output source hs, hi.input other ho] at heq
    exact hi.apart source hs other ho (Except.ok.inj heq)
  case kept =>
    intro source hs
    refine h.similar.readBytes (hi.input source hs) (h.others _ fun hm => ?_)
    obtain ⟨writer, hw, hplace⟩ := List.mem_map.1 hm
    exact hi.apart writer hw source hs hplace
  case translated =>
    rw [reports]
    refine List.forall_mem_map.2 fun input hinput output hok => ?_
    obtain ⟨rfl, target, htarget, hcontents⟩ := FileTree.eq_of_outcome_ok hok
    obtain ⟨source, hread, hrun⟩ := targetOf_eq_ok htarget
    have written := (h.output_eq hfinished input hinput).trans hcontents
    refine ⟨rfl, source, target, hread, hrun, ?_⟩
    rw [FileTree.readBytes_of_resolve (h.similar.resolve (hi.output input hinput)), written]
  case failed =>
    rw [reports]
    refine List.forall_mem_map.2 fun input hinput herror => ?_
    have removed := (h.output_eq hfinished input hinput).trans
      (FileTree.outcome_of_isError herror)
    rw [FileTree.isFile_of_resolve (h.similar.resolve (hi.output input hinput)), removed,
      Option.isSome_none]
  case others =>
    intro loc hloc
    refine h.others loc fun hm => ?_
    obtain ⟨writer, hw, hplace⟩ := List.mem_map.1 hm
    exact hloc writer hw (by rw [hi.output writer hw, hplace])
  case dirs => exact h.similar.dirs

/-- The order of the steps in which the sources below a directory are translated makes no
difference : every run can go on until it is finished, and then it has given the reports and the
tree that translating one source after the other gives. -/
theorem translatePath_order_independent {t : Translator} (hext : IsOutputExtension t.extension)
    {tree : FileTree} (hw : tree.WellFormed) {root : String} (hroot : tree.isDir root = true) :
    ∃ sources reports final, sourcesBelow tree root = .ok sources ∧
      t.translatePath root tree = (.ok reports, final) ∧
      TranslatedAll t tree sources reports final ∧
      ∀ b, Runs t (.start sources tree) b →
        (b.isFinished = true ∨ ∃ b', Step t b b') ∧
        (b.isFinished = true → b.reports = reports ∧ b.tree.Same final) := by
  obtain ⟨dir, hresolve, hdir⟩ : ∃ dir, tree.resolve root = .ok dir ∧ tree.hasDir dir = true := by
    unfold FileTree.isDir at hroot
    split at hroot
    · exact ⟨_, ‹_›, hroot⟩
    · cases hroot
  have hi := independent_sources hext hw hresolve
  have below := sourcesBelow_of_hasDir hresolve hdir
  generalize ((sourceNames tree dir).mergeSort precedes).map (Path.joinAll root) = sources at *
  have sequential : Runs t (.start sources tree)
      ⟨(t.translateAll sources tree).1.map Job.ofReport, (t.translateAll sources tree).2⟩ :=
    runs_translateAll t [] sources tree
  obtain ⟨hreports, hfinished⟩ :=
    reports_ofReport (t.translateAll sources tree).1 (t.translateAll sources tree).2
  have consistent := Consistent.runs hi hw.similar sequential
  have translated := consistent.translatedAll hi hfinished
  rw [hreports] at translated
  refine ⟨sources, (t.translateAll sources tree).1, (t.translateAll sources tree).2, below, ?_,
    translated, fun b hrun => ⟨isFinished_or_step t b, fun hover => ?_⟩⟩
  · rw [Translator.translatePath, if_pos hroot, below]
  · have other := Consistent.runs hi hw.similar hrun
    refine ⟨?_, other.same consistent hover hfinished⟩
    rw [other.reports_eq hover, ← consistent.reports_eq hfinished, hreports]

/-- Two sources, one of which cannot be read as a script and has an output from an earlier run. -/
theorem translatePath_order_independent_two_sources :
    let tree : FileTree := {
      dirs := [["d"]]
      files := [(["d", "a.py"], [120, 61, 49]), (["d", "b.py"], [40]), (["d", "b.be"], [49])] }
    let sources := ["d/a.py", "d/b.py"]
    sourcesBelow tree "d" = .ok sources ∧ ∃ reports final,
      Translator.translatePath {} "d" tree = (.ok reports, final) ∧
      TranslatedAll {} tree sources reports final ∧
      ∀ b, Runs {} (.start sources tree) b → b.isFinished = true →
        b.reports = reports ∧ b.tree.Same final := by
  intro tree sources
  have wellFormed : tree.WellFormed :=
    ⟨by decide, by decide, by decide, by decide, by decide⟩
  have extension : IsOutputExtension ({} : Translator).extension :=
    ⟨by decide, by decide, by decide, by decide⟩
  have isDir : tree.isDir "d" = true := by decide
  have below : sourcesBelow tree "d" = .ok sources := by
    have names : sourceNames tree ["d"] = [["a.py"], ["b.py"]] := by decide
    have sorted : [["a.py"], ["b.py"]].mergeSort precedes = [["a.py"], ["b.py"]] :=
      List.mergeSort_of_pairwise (by decide)
    have resolve : tree.resolve "d" = .ok ["d"] := by decide
    rw [sourcesBelow_of_hasDir resolve (by decide), names, sorted]
    decide
  obtain ⟨found, reports, final, hfound, hpath, hall, hruns⟩ :=
    translatePath_order_independent extension wellFormed isDir
  rw [below] at hfound
  cases hfound
  exact ⟨below, reports, final, hpath, hall, fun b hrun => (hruns b hrun).2⟩

end Berrify
