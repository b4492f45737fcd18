import Berrify.Proofs.Batch.Sources
import Berrify.Proofs.Text.Search

/-!
# Sources that outlive a batch

A step of a batch changes at most the place of the output of its file, whatever the extension of
outputs is (`Confined`, which every step keeps). So a source is as before, at every point of every
run, unless it is itself the output of another source.

The check of settings refuses the extension of sources, but not an extension that ends in it : with
`x.py` the output of `a.py` is `a.x.py`, which may be a source as well. `sources_survive` says that
this is the only danger. Settings that are accepted spare the sources of all directories exactly if
their extension does not end in that of sources.
-/

namespace Berrify

/-! ## Steps change only outputs -/

theorem FileTree.Similar.symm {tree other : FileTree} (h : tree.Similar other)
    (ha : tree.Apart) : other.Similar tree :=
  ⟨h.workDir.symm, h.dirs.symm, ha⟩

/-- A tree has changed at most in one place. -/
structure ChangedAt (tree cur next : FileTree) (output : String) : Prop where
  similar : tree.Similar next
  elsewhere : ∀ loc, tree.resolve output ≠ .ok loc → next.contents? loc = cur.contents? loc

theorem changedAt_refl {tree cur : FileTree} (h : tree.Similar cur) (output : String) :
    ChangedAt tree cur cur output :=
  ⟨h, fun _ _ => rfl⟩

/-- An output that belongs nowhere is neither written nor removed. -/
theorem exists_settle_of_error {tree : FileTree} {output : String} {e : AccessError}
    (h : tree.resolve output = .error e) (result : Except Failure String) :
    ∃ failure, Translator.settle output result tree = (.error failure, tree) := by
  cases result with
  | error failure => exact ⟨failure, by simp [Translator.settle, FileTree.removeFile, h]⟩
  | ok text =>
    exact ⟨.access output e, by simp [Translator.settle, FileTree.write, h, bind, Except.bind]⟩

/-- Settling a file changes at most the place of its output. -/
theorem changedAt_settle {tree cur : FileTree} (ha : tree.Apart) (h : tree.Similar cur)
    (output : String) (result : Except Failure String) :
    ChangedAt tree cur (Translator.settle output result cur).2 output := by
  cases hout : cur.resolve output with
  | ok place =>
    obtain ⟨-, changed⟩ := settle_spec h.apart hout result
    refine ⟨changed.similar h, fun loc hloc => changed.elsewhere loc ?_⟩
    rintro rfl
    exact hloc ((h.symm ha).resolve hout)
  | error e =>
    obtain ⟨failure, unchanged⟩ := exists_settle_of_error hout result
    rw [unchanged]
    exact changedAt_refl h output

/-- Only the places of outputs have changed in a batch. -/
structure Confined (t : Translator) (tree : FileTree) (inputs : List String) (b : Batch) :
    Prop where
  files : b.jobs.map (·.input) = inputs
  similar : tree.Similar b.tree
  others : ∀ loc, (∀ input ∈ inputs, tree.resolve (t.outputPath input) ≠ .ok loc) →
    b.tree.contents? loc = tree.contents? loc

namespace Confined

variable {t : Translator} {tree : FileTree} {inputs : List String}

theorem step (ha : tree.Apart) {b b' : Batch} (h : Confined t tree inputs b)
    (hstep : Step t b b') : Confined t tree inputs b' := by
  cases hstep with
  | @job before after input phase phase' cur next hadvance =>
    have changed : ChangedAt tree cur next (t.outputPath input) := by
      cases phase with
      | waiting =>
        rw [Translator.advance] at hadvance
        split at hadvance <;> cases hadvance <;> exact changedAt_refl h.similar _
      | translated result =>
        cases hadvance
        exact changedAt_settle ha h.similar _ result
      | settled result => cases hadvance
    have hinput : input ∈ inputs := by
      rw [← h.files]
      simp
    refine ⟨?_, changed.similar, fun loc hloc => ?_⟩
    · rw [← h.files]
      simp
    · exact (changed.elsewhere loc (hloc input hinput)).trans (h.others loc hloc)

theorem runs (hself : tree.Similar tree) {b : Batch} (hrun : Runs t (.start inputs tree) b) :
    Confined t tree inputs b := by
  induction hrun with
  | refl =>
    refine ⟨?_, hself, fun _ _ => rfl⟩
    rw [Batch.start, List.map_map]
    exact List.map_id inputs
  | tail _ hstep ih => exact ih.step hself.apart hstep

end Confined

/-! ## Sources and their outputs -/

/-- A file is there before and after, with the same contents. -/
def Kept (tree final : FileTree) (path : String) : Prop :=
  ∃ bytes, tree.readBytes path = .ok bytes ∧ final.readBytes path = .ok bytes

theorem Confined.kept {t : Translator} {tree : FileTree} {sources : List String} {b : Batch}
    (h : Confined t tree sources b) {source : String} {loc : Location}
    (hresolve : tree.resolve source = .ok loc) {bytes : List UInt8}
    (hread : tree.readBytes source = .ok bytes)
    (hapart : ∀ other ∈ sources, tree.resolve (t.outputPath other) ≠ tree.resolve source) :
    Kept tree b.tree source := by
  rw [hresolve] at hapart
  exact ⟨bytes, hread, (h.similar.readBytes hresolve (h.others loc hapart)).trans hread⟩

/-- An extension that ends in the extension of sources. -/
def EndsInSource (ext : String) : Prop :=
  ∃ front, ext = front ++ "." ++ sourceExtension

theorem isExtension_iff {ext : String} :
    Settings.isExtension ext = true ↔ ext ≠ "" ∧ '/' ∉ ext.toList ∧
      String.ofList (ext.toList.map Char.toLower) ≠ sourceExtension := by
  have slash : Text.occursIn "/" ext = false ↔ '/' ∉ ext.toList := by
    rw [Text.occursIn_eq_false_iff]
    exact not_congr (List.singleton_infix_iff _ _)
  simp [Settings.isExtension, slash, sourceExtension, and_assoc]

/-- The extension in settings that have been read from a file passes the check. -/
theorem isExtension_of_load {config : FileTree} {path : String} {settings : Settings}
    (h : Settings.load config path = .ok settings) :
    Settings.isExtension settings.extension = true := by
  rw [Settings.load, bind_eq_ok] at h
  obtain ⟨text, -, hparse⟩ := h
  have parsed : Settings.parse text = .ok settings := mapError_eq_ok.1 hparse
  unfold Settings.parse at parsed
  split at parsed
  · cases parsed
  · split at parsed
    · cases parsed
      assumption
    · cases parsed

/-- If an output has the name of a source, its extension is that of sources or ends in it. -/
theorem endsInSource_of_dot_eq {stem stem' ext : String} (hext : ext ≠ sourceExtension)
    (h : stem ++ "." ++ ext = stem' ++ "." ++ sourceExtension) : EndsInSource ext := by
  have texts : stem.toList ++ '.' :: ext.toList = stem'.toList ++ ['.', 'p', 'y'] := by
    simpa [sourceExtension] using congrArg String.toList h
  have output : '.' :: ext.toList <:+ stem'.toList ++ ['.', 'p', 'y'] := ⟨_, texts⟩
  have source : ['.', 'p', 'y'] <:+ stem'.toList ++ ['.', 'p', 'y'] := List.suffix_append _ _
  have other : ext.toList ≠ ['p', 'y'] := fun he => hext (String.toList_injective he)
  rcases List.suffix_or_suffix_of_suffix output source with hs | hs
  · -- No part of the ending but the whole of it starts with a dot.
    simp only [List.suffix_cons_iff, List.cons.injEq, List.suffix_nil] at hs
    simp_all
  · rcases List.suffix_cons_iff.1 hs with hs | ⟨front, hs⟩
    · simp_all
    · refine ⟨String.ofList front, String.toList_injective ?_⟩
      simpa [sourceExtension] using hs.symm

namespace SourceBelow

variable {tree : FileTree} {dir above : Location} {stem : String}

theorem exists_readBytes (h : SourceBelow tree dir above stem) (hw : tree.WellFormed)
    {root : String} (hroot : tree.resolve root = .ok dir) :
    ∃ bytes, tree.readBytes (Path.joinAll root (above ++ [stem ++ "." ++ sourceExtension])) =
      .ok bytes := by
  obtain ⟨file, hfile, place⟩ := h.file
  have found : (tree.contents? file.1).isSome = true := by
    rw [FileTree.contents?, Option.isSome_iff_ne_none, Ne, List.lookup_eq_none_iff]
    exact fun hnone => absurd (hnone file hfile) (by simp)
  obtain ⟨bytes, hbytes⟩ := Option.isSome_iff_exists.1 found
  refine ⟨bytes, ?_⟩
  rw [FileTree.readBytes_of_resolve (h.resolve hw hroot (by decide)), ← place, hbytes]

theorem resolve_outputPath (h : SourceBelow tree dir above stem) (hw : tree.WellFormed)
    {root : String} (hroot : tree.resolve root = .ok dir) {t : Translator}
    (hext : Settings.isExtension t.extension = true) :
    tree.resolve (t.outputPath (Path.joinAll root (above ++ [stem ++ "." ++ sourceExtension]))) =
      .ok (dir ++ (above ++ [stem ++ "." ++ t.extension])) := by
  obtain ⟨nonempty, noSlash, -⟩ := isExtension_iff.1 hext
  rw [outputPath_joinAll t nonempty (FileTree.resolve_ne_empty hroot) above h.isStem]
  exact h.resolve hw hroot noSlash

/-- No source is its own output. -/
theorem not_same_outputPath (h : SourceBelow tree dir above stem) {root : String}
    (hroot : root ≠ "") {t : Translator} (hext : Settings.isExtension t.extension = true) :
    Path.same (t.outputPath (Path.joinAll root (above ++ [stem ++ "." ++ sourceExtension])))
      (Path.joinAll root (above ++ [stem ++ "." ++ sourceExtension])) = false := by
  obtain ⟨nonempty, noSlash, notSource⟩ := isExtension_iff.1 hext
  have hdir := Path.joinAll_ne_empty hroot above
  rw [Bool.eq_false_iff, outputPath_joinAll t nonempty hroot above h.isStem]
  intro hsame
  have name := Path.fileName?_of_same hsame
  rw [Path.joinAll_concat, Path.joinAll_concat,
    Path.fileName?_join hdir (h.isStem.isFileName_dot noSlash),
    Path.fileName?_join hdir (h.isStem.isFileName_dot (by decide)), Option.some.injEq] at name
  have ext : t.extension = sourceExtension := by
    apply String.toList_injective
    simpa using congrArg String.toList name
  rw [ext] at notSource
  exact notSource (by decide)

end SourceBelow

/-! ## Batches that spare the sources -/

/-- Below every directory all sources outlive a batch, whatever the order of its steps. -/
def Translator.SparesSources (t : Translator) : Prop :=
  ∀ tree : FileTree, tree.WellFormed → ∀ root, tree.isDir root = true →
    ∃ sources reports final, sourcesBelow tree root = .ok sources ∧
      t.translatePath root tree = (.ok reports, final) ∧
      (∀ source ∈ sources, Kept tree final source) ∧
      ∀ b, Runs t (.start sources tree) b → ∀ source ∈ sources, Kept tree b.tree source

/-- Translating a directory is a run of the batch of its sources. -/
theorem runs_translatePath (t : Translator) {tree : FileTree} {root : String}
    (hroot : tree.isDir root = true) {sources : List String}
    (hsources : sourcesBelow tree root = .ok sources) :
    ∃ reports final, t.translatePath root tree = (.ok reports, final) ∧
      Runs t (.start sources tree) ⟨reports.map Job.ofReport, final⟩ := by
  refine ⟨_, _, ?_, runs_translateAll t [] sources tree⟩
  rw [Translator.translatePath, if_pos hroot, hsources]

/-- The sources below a directory, each with the directories that lead to it and its stem. -/
theorem exists_sourcesBelow {tree : FileTree} (hw : tree.WellFormed) {root : String}
    (hroot : tree.isDir root = true) :
    ∃ dir sources, tree.resolve root = .ok dir ∧ sourcesBelow tree root = .ok sources ∧
      (∀ source ∈ sources, ∃ above stem, SourceBelow tree dir above stem ∧
        source = Path.joinAll root (above ++ [stem ++ "." ++ sourceExtension])) ∧
      ∀ names ∈ sourceNames tree dir, Path.joinAll root names ∈ sources := by
  obtain ⟨dir, hresolve, hdir⟩ := FileTree.exists_dir_of_isDir hroot
  have sorted := List.mergeSort_perm (sourceNames tree dir) precedes
  refine ⟨dir, _, hresolve, sourcesBelow_of_hasDir hresolve hdir, ?_, fun names hm => ?_⟩
  · refine List.forall_mem_map.2 fun names hm => ?_
    obtain ⟨above, stem, rfl, h⟩ := sourceBelow_of_mem hw (sorted.mem_iff.1 hm)
    exact ⟨above, stem, h, rfl⟩
  · exact List.mem_map_of_mem (sorted.mem_iff.2 hm)

/-- A source that is not the output of another one outlives every run. -/
theorem kept_of_not_output {t : Translator} {tree : FileTree} (hw : tree.WellFormed) {root : String}
    (hroot : tree.isDir root = true) {sources : List String}
    (hsources : sourcesBelow tree root = .ok sources) {source : String} (hm : source ∈ sources)
    (hapart : ∀ other ∈ sources, tree.resolve (t.outputPath other) ≠ tree.resolve source)
    {b : Batch} (hrun : Runs t (.start sources tree) b) : Kept tree b.tree source := by
  obtain ⟨dir, found, hresolve, hfound, spec, -⟩ := exists_sourcesBelow hw hroot
  rw [hsources] at hfound
  cases hfound
  obtain ⟨above, stem, h, rfl⟩ := spec source hm
  obtain ⟨bytes, hread⟩ := h.exists_readBytes hw hresolve
  exact (Confined.runs hw.similar hrun).kept (h.resolve hw hresolve (by decide)) hread hapart

/-- Under an extension that does not end in that of sources, no output is a source. -/
theorem outputPath_ne_source {t : Translator} (hext : Settings.isExtension t.extension = true)
    (hends : ¬EndsInSource t.extension) {tree : FileTree} (hw : tree.WellFormed) {root : String}
    {dir : Location} (hroot : tree.resolve root = .ok dir) {above above' : Location}
    {stem stem' : String} (h : SourceBelow tree dir above stem)
    (h' : SourceBelow tree dir above' stem') :
    tree.resolve (t.outputPath (Path.joinAll root (above ++ [stem ++ "." ++ sourceExtension]))) ≠
      tree.resolve (Path.joinAll root (above' ++ [stem' ++ "." ++ sourceExtension])) := by
  rw [h.resolve_outputPath hw hroot hext, h'.resolve hw hroot (by decide)]
  intro heq
  rw [Except.ok.injEq, List.append_cancel_left_eq, List.append_singleton_inj] at heq
  refine hends (endsInSource_of_dot_eq (fun he => ?_) heq.2)
  rw [he] at hext
  exact absurd hext (by decide)

theorem sparesSources_of_not_endsInSource {t : Translator}
    (hext : Settings.isExtension t.extension = true) (hends : ¬EndsInSource t.extension) :
    t.SparesSources := by
  intro tree hw root hroot
  obtain ⟨dir, sources, hresolve, hsources, spec, -⟩ := exists_sourcesBelow hw hroot
  obtain ⟨reports, final, hpath, sequential⟩ := runs_translatePath t hroot hsources
  have apart : ∀ source ∈ sources, ∀ other ∈ sources,
      tree.resolve (t.outputPath other) ≠ tree.resolve source := by
    intro source hs other ho
    obtain ⟨above, stem, h, rfl⟩ := spec other ho
    obtain ⟨above', stem', h', rfl⟩ := spec source hs
    exact outputPath_ne_source hext hends hw hresolve h h'
  have kept (b : Batch) (hrun : Runs t (.start sources tree) b) :
      ∀ source ∈ sources, Kept tree b.tree source :=
    fun source hs => kept_of_not_output hw hroot hsources hs (apart source hs) hrun
  exact ⟨sources, reports, final, hsources, hpath, kept _ sequential, kept⟩

/-! ## Batches that do not -/

theorem changedAt_translateFile {tree cur : FileTree} (ha : tree.Apart) (h : tree.Similar cur)
    (t : Translator) (input : String) :
    ChangedAt tree cur (t.translateFile input cur).2 (t.outputPath input) := by
  rw [Translator.translateFile]
  split
  · exact changedAt_refl h _
  · exact changedAt_settle ha h _ _

/-- A source that is no text takes away the file in the place of its output. -/
theorem contents?_translateFile {tree cur : FileTree} (h : tree.Similar cur) {t : Translator}
    {source : String} (hsame : Path.same (t.outputPath source) source = false) {loc : Location}
    (hout : tree.resolve (t.outputPath source) = .ok loc) {e : AccessError}
    (hread : cur.readText source = .error e) :
    (t.translateFile source cur).2.contents? loc = none := by
  have failed : t.targetOf cur source = .error (.access source e) := by
    rw [Translator.targetOf, hread]
    rfl
  rw [Translator.translateFile, if_neg (by simp [hsame]), failed]
  exact (settle_spec h.apart (h.resolve hout) _).2.here

/-- The file in the place of the output of a source that is no text is gone at the end, unless it
is the output of another source. -/
theorem contents?_translateAll {t : Translator} {tree : FileTree} (ha : tree.Apart)
    {source : String} {place loc : Location} (hsource : tree.resolve source = .ok place)
    (hout : tree.resolve (t.outputPath source) = .ok loc)
    (hsame : Path.same (t.outputPath source) source = false) {e : AccessError}
    (hread : tree.readText source = .error e) {inputs : List String}
    (hplace : ∀ input ∈ inputs, tree.resolve (t.outputPath input) ≠ .ok place)
    (hloc : ∀ input ∈ inputs, input = source ∨ tree.resolve (t.outputPath input) ≠ .ok loc)
    {cur : FileTree} (hcur : tree.Similar cur) (hthere : cur.contents? place = tree.contents? place)
    (hm : source ∈ inputs ∨ cur.contents? loc = none) :
    (t.translateAll inputs cur).2.contents? loc = none := by
  induction inputs generalizing cur with
  | nil => exact hm.resolve_left (by simp)
  | cons input inputs ih =>
    obtain ⟨hplace₁, hplace₂⟩ := List.forall_mem_cons.1 hplace
    obtain ⟨hloc₁, hloc₂⟩ := List.forall_mem_cons.1 hloc
    have changed := changedAt_translateFile ha hcur t input
    have stays := (changed.elsewhere place hplace₁).trans hthere
    rw [translateAll_cons]
    refine ih hplace₂ hloc₂ changed.similar stays ?_
    by_cases heq : input = source
    · subst heq
      have unread : cur.readText input = .error e := by
        rw [FileTree.readText, hcur.readBytes hsource hthere]
        exact hread
      exact .inr (contents?_translateFile hcur hsame hout unread)
    · refine hm.imp (fun hm => (List.mem_cons.1 hm).resolve_left (Ne.symm heq)) fun hnone => ?_
      exact (changed.elsewhere loc (hloc₁.resolve_left heq)).trans hnone

/-- A source in the place of the output of one that is no text is lost, if no output takes the place
of the latter. -/
theorem not_kept_of_output {t : Translator} (hext : Settings.isExtension t.extension = true)
    {tree : FileTree} (hw : tree.WellFormed) {root : String} (hroot : tree.isDir root = true)
    {sources : List String} (hsources : sourcesBelow tree root = .ok sources)
    {source other : String} (hm : source ∈ sources) {e : AccessError}
    (hread : tree.readText source = .error e)
    (hfree : ∀ input ∈ sources, tree.resolve (t.outputPath input) ≠ tree.resolve source)
    (hother : tree.resolve other = tree.resolve (t.outputPath source)) :
    ¬Kept tree (t.translatePath root tree).2 other := by
  obtain ⟨dir, found, hresolve, hfound, spec, -⟩ := exists_sourcesBelow hw hroot
  rw [hsources] at hfound
  cases hfound
  obtain ⟨above, stem, h, rfl⟩ := spec source hm
  have place := h.resolve hw hresolve (by decide : '/' ∉ sourceExtension.toList)
  have output := h.resolve_outputPath hw hresolve hext
  rw [place] at hfree
  -- Sources with the same output have the same stem, and lie in the same directory.
  have alone : ∀ input ∈ sources,
      input = Path.joinAll root (above ++ [stem ++ "." ++ sourceExtension]) ∨
        tree.resolve (t.outputPath input) ≠
          .ok (dir ++ (above ++ [stem ++ "." ++ t.extension])) := by
    intro input hinput
    obtain ⟨above', stem', h', rfl⟩ := spec input hinput
    rw [or_iff_not_imp_right, not_not, h'.resolve_outputPath hw hresolve hext]
    intro heq
    rw [Except.ok.injEq, List.append_cancel_left_eq, List.append_singleton_inj,
      String.append_left_inj, String.append_left_inj] at heq
    rw [heq.1, heq.2]
  have unchanged := hw.similar
  have gone := contents?_translateAll unchanged.apart place output
    (h.not_same_outputPath (FileTree.resolve_ne_empty hresolve) hext) hread hfree alone unchanged
    rfl (.inl hm)
  rintro ⟨bytes, -, hlater⟩
  have similar : tree.Similar (t.translateAll sources tree).2 :=
    (Confined.runs unchanged (runs_translateAll t [] sources tree)).similar
  rw [Translator.translatePath, if_pos hroot, hsources] at hlater
  rw [FileTree.readBytes_of_resolve (similar.resolve (hother.trans output)), gone] at hlater
  cases hlater

theorem mem_sourceNames {tree : FileTree} {dir above : Location} {stem : String}
    {bytes : List UInt8} (hstem : stem ≠ "")
    (hfile : (dir ++ (above ++ [stem ++ "." ++ sourceExtension]), bytes) ∈ tree.files)
    (hvisible : (above ++ [stem ++ "." ++ sourceExtension]).any isHidden = false) :
    above ++ [stem ++ "." ++ sourceExtension] ∈ sourceNames tree dir := by
  refine mem_sourceNames_iff.2
    ⟨FileTree.hasFile_iff.2 ⟨_, hfile, rfl⟩, fun name hm => ?_, above, stem, hstem, rfl⟩
  rw [← isHidden_eq_false, ← Bool.not_eq_true]
  exact List.any_eq_false.1 hvisible name hm

/-- A source that is no text, and a second one in the place of its output. -/
def clashing (ext : String) : FileTree where
  dirs := [["d"]]
  files := [(["d", "a" ++ "." ++ sourceExtension], [0xFF]), (["d", "a" ++ "." ++ ext], [])]

theorem wellFormed_clashing {ext : String} (hslash : '/' ∉ ext.toList)
    (hext : ext ≠ sourceExtension) : (clashing ext).WellFormed := by
  have stem : Path.IsStem "a" := ⟨by decide, by decide, by decide⟩
  have dirs (name : String) : (clashing ext).hasDir ["d", name] = false := by
    simp [clashing, FileTree.hasDir]
  constructor
  case nodup =>
    have different : "a" ++ "." ++ sourceExtension ≠ "a" ++ "." ++ ext :=
      fun heq => hext (String.append_right_inj _ |>.1 heq).symm
    exact List.nodup_cons.2 ⟨by simpa [clashing] using different, by simp⟩
  case names =>
    refine List.forall_mem_cons.2 ⟨?_, List.forall_mem_singleton.2 ?_⟩
    · exact List.forall_mem_cons.2 ⟨by decide, List.forall_mem_singleton.2 (by decide)⟩
    · exact List.forall_mem_cons.2 ⟨by decide,
        List.forall_mem_singleton.2 (stem.isFileName_dot hslash)⟩
  case parents => exact List.forall_mem_cons.2 ⟨rfl, List.forall_mem_singleton.2 rfl⟩
  case above => exact List.forall_mem_singleton.2 rfl
  case apart =>
    exact List.forall_mem_cons.2 ⟨dirs _, List.forall_mem_singleton.2 (dirs _)⟩

/-- The second source is lost. -/
theorem exists_not_kept {t : Translator} (hext : Settings.isExtension t.extension = true)
    (hends : EndsInSource t.extension) :
    (clashing t.extension).WellFormed ∧
      ∃ sources, sourcesBelow (clashing t.extension) "d" = .ok sources ∧ ∃ source ∈ sources,
        ¬Kept (clashing t.extension) (t.translatePath "d" (clashing t.extension)).2 source := by
  obtain ⟨front, hfront⟩ := hends
  obtain ⟨-, noSlash, -⟩ := isExtension_iff.1 hext
  have other : t.extension ≠ sourceExtension := by
    intro he
    rw [he] at hext
    exact absurd hext (by decide)
  have hw := wellFormed_clashing noSlash other
  have isDir : (clashing t.extension).isDir "d" = true := rfl
  obtain ⟨dir, sources, hresolve, hsources, spec, listed⟩ := exists_sourcesBelow hw isDir
  obtain rfl : ["d"] = dir := Except.ok.inj hresolve
  have first : [] ++ ["a" ++ "." ++ sourceExtension] ∈ sourceNames (clashing t.extension) ["d"] :=
    mem_sourceNames (by decide) List.mem_cons_self (by decide)
  have second : [] ++ ["a" ++ "." ++ t.extension] ∈ sourceNames (clashing t.extension) ["d"] := by
    have shape : "a" ++ "." ++ t.extension = "a" ++ "." ++ front ++ "." ++ sourceExtension := by
      rw [hfront]
      simp only [String.append_assoc]
    have there : (["d"] ++ ([] ++ ["a" ++ "." ++ front ++ "." ++ sourceExtension]), []) ∈
        (clashing t.extension).files := by
      rw [← shape]
      exact List.mem_cons_of_mem _ List.mem_cons_self
    rw [shape]
    exact mem_sourceNames (by simp) there (by simp [isHidden])
  have below : SourceBelow (clashing t.extension) ["d"] [] "a" :=
    ⟨⟨by decide, by decide, by decide⟩, _, List.mem_cons_self, rfl⟩
  have place := below.resolve hw hresolve (by decide : '/' ∉ sourceExtension.toList)
  refine ⟨hw, sources, hsources, _, listed _ second,
    not_kept_of_output hext hw isDir hsources (listed _ first) (e := .notText) ?_ ?_ ?_⟩
  · have bytes : (clashing t.extension).readBytes
        (Path.joinAll "d" ([] ++ ["a" ++ "." ++ sourceExtension])) = .ok [0xFF] :=
      FileTree.readBytes_of_resolve place
    have none : String.fromUTF8? ⟨[0xFF].toArray⟩ = none := by decide +kernel
    rw [FileTree.readText, bytes]
    simp only [bind, Except.bind, none]
  · intro input hm heq
    obtain ⟨above, stem, h, rfl⟩ := spec input hm
    rw [h.resolve_outputPath hw hresolve hext, place, Except.ok.injEq,
      List.append_cancel_left_eq, List.append_singleton_inj, hfront] at heq
    have nonempty : stem.length ≠ 0 := fun hzero =>
      h.isStem.nonempty (String.length_eq_zero_iff.1 hzero)
    have lengths := congrArg String.length heq.2
    have dot : ".".length = 1 := rfl
    have one : "a".length = 1 := rfl
    simp only [String.length_append] at lengths
    omega
  · rw [below.resolve_outputPath hw hresolve hext]
    exact below.resolve hw hresolve noSlash

/-! ## Accepted settings -/

/-- Settings that are accepted spare all sources exactly if their extension does not end in that of
sources. Whatever their extension is, each source is as before at every point of a batch, unless it
is in the place of the output of another source. -/
theorem sources_survive {config : FileTree} {path : String} {settings : Settings}
    (h : Settings.load config path = .ok settings) :
    (settings.translator.SparesSources ↔ ¬EndsInSource settings.extension) ∧
    ∀ tree : FileTree, tree.WellFormed → ∀ root, tree.isDir root = true →
      ∃ sources reports final, sourcesBelow tree root = .ok sources ∧
        settings.translator.translatePath root tree = (.ok reports, final) ∧
        ∀ source ∈ sources,
          (∀ other ∈ sources,
            tree.resolve (settings.translator.outputPath other) ≠ tree.resolve source) →
          Kept tree final source ∧
            ∀ b, Runs settings.translator (.start sources tree) b → Kept tree b.tree source := by
  have hext : Settings.isExtension settings.translator.extension = true := isExtension_of_load h
  refine ⟨⟨fun spares hends => ?_, sparesSources_of_not_endsInSource hext⟩,
    fun tree hw root hroot => ?_⟩
  · obtain ⟨hw, found, hfound, source, hm, lost⟩ := exists_not_kept hext hends
    obtain ⟨sources, reports, final, hsources, hpath, kept, -⟩ := spares _ hw "d" rfl
    rw [hsources] at hfound
    cases hfound
    rw [hpath] at lost
    exact lost (kept source hm)
  · obtain ⟨-, sources, -, hsources, -, -⟩ := exists_sourcesBelow hw hroot
    obtain ⟨reports, final, hpath, sequential⟩ :=
      runs_translatePath settings.translator hroot hsources
    exact ⟨sources, reports, final, hsources, hpath, fun source hm hapart =>
      ⟨kept_of_not_output hw hroot hsources hm hapart sequential,
        fun b hrun => kept_of_not_output hw hroot hsources hm hapart hrun⟩⟩

/-- A settings file. -/
def settingsFile (text : String) : FileTree where
  files := [(["s"], text.toUTF8.data.toList)]

theorem load_settingsFile {text : String} {settings : Settings}
    (h : Settings.parse text = .ok settings) :
    Settings.load (settingsFile text) "s" = .ok settings := by
  have bytes : (settingsFile text).readBytes "s" = .ok text.toUTF8.data.toList := rfl
  have decoded : String.fromUTF8? text.toUTF8 = some text := by
    rw [String.fromUTF8?, dif_pos (show text.toUTF8.IsValidUTF8 from text.isValidUTF8)]
    rfl
  have read : (settingsFile text).readText "s" = .ok text := by
    simp only [FileTree.readText, bytes, bind, Except.bind, Array.toArray_toList, decoded]
    rfl
  rw [Settings.load, read]
  exact mapError_eq_ok.2 h

/-- An extension with a dot that does not end in that of sources. -/
theorem sources_survive_extension_with_dot :
    ∃ settings, Settings.load (settingsFile "[output]\nextension = 'py.be'") "s" = .ok settings ∧
      settings.extension = "py.be" ∧ settings.translator.SparesSources := by
  have loaded : Settings.load (settingsFile "[output]\nextension = 'py.be'") "s" =
      .ok { extension := "py.be" } := load_settingsFile rfl
  refine ⟨_, loaded, rfl, (sources_survive loaded).1.2 ?_⟩
  rintro ⟨front, hfront⟩
  have last := congrArg (·.toList.getLast?) hfront
  simp [sourceExtension] at last

/-- An extension that is accepted, and under which a source is lost. -/
theorem accepted_extension_loses_source :
    ∃ settings, Settings.load (settingsFile "[output]\nextension = 'x.py'") "s" = .ok settings ∧
      (clashing "x.py").WellFormed ∧ (clashing "x.py").isDir "d" = true ∧
      ∃ sources, sourcesBelow (clashing "x.py") "d" = .ok sources ∧ ∃ source ∈ sources,
        ¬Kept (clashing "x.py") (settings.translator.translatePath "d" (clashing "x.py")).2
          source := by
  have loaded : Settings.load (settingsFile "[output]\nextension = 'x.py'") "s" =
      .ok { extension := "x.py" } := load_settingsFile rfl
  let settings : Settings := { extension := "x.py" }
  have accepted : Settings.isExtension settings.translator.extension = true :=
    isExtension_of_load loaded
  obtain ⟨wellFormed, lost⟩ := exists_not_kept accepted ⟨"x", rfl⟩
  exact ⟨settings, loaded, wellFormed, rfl, lost⟩

end Berrify
