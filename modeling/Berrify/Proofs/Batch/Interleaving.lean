import Berrify.Batch
import Berrify.Proofs.FileTree
import Mathlib.Data.List.Nodup
import Mathlib.Logic.Relation

/-!
# Translating files at the same time

Each file of a batch is translated in two steps, one that reads and one that writes or removes its
output (`Translator.advance`). Files may be worked on at the same time, so that the steps of
different files come in any order (`Step`). Translating one file after the other is one such order
(`runs_translateAll`).

If every output has a place of its own, apart from all inputs (`Independent`), then no step sees
what the steps of another file do. At each point of a run every file is as far as it would be if it
were translated alone in the tree at the start (`Consistent`, which every step keeps), so all runs
that are finished give the same reports and the same tree.
-/

namespace Berrify

/-! ## Steps -/

/-- How far the translation of a file has come. -/
inductive Phase where
  | waiting
  /-- The source has been read and translated. -/
  | translated (result : Except Failure String)
  /-- The output has been written or removed. -/
  | settled (result : Except Failure String)

/-- A file of a batch. -/
structure Job where
  input : String
  phase : Phase := .waiting

namespace Job

/-- A file that has not been read. -/
def unread (input : String) : Job := { input }

/-- What is reported of a file when its translation is over. -/
def report? (job : Job) : Option Report :=
  match job.phase with
  | .settled result => some ⟨job.input, result⟩
  | _ => none

/-- The file of a report. -/
def ofReport (report : Report) : Job :=
  ⟨report.input, .settled report.result⟩

end Job

/-- Files that are being translated, and the tree as it is. -/
structure Batch where
  jobs : List Job
  tree : FileTree

namespace Batch

/-- A batch in which nothing has been done. -/
def start (inputs : List String) (tree : FileTree) : Batch :=
  ⟨inputs.map Job.unread, tree⟩

/-- The reports of the files whose translation is over, in the order of the batch. -/
def reports (b : Batch) : List Report :=
  b.jobs.filterMap Job.report?

/-- Whether all files have been translated. -/
def isFinished (b : Batch) : Bool :=
  b.jobs.all (·.report?.isSome)

end Batch

namespace Translator

/-- The next step of a file : to read and translate it, and then to write or remove its output. A
file that would be its own output is left alone. -/
def advance (t : Translator) (input : String) (tree : FileTree) : Phase → Option (Phase × FileTree)
  | .waiting =>
    if Path.same (t.outputPath input) input then
      some (.settled (.error (.access input .isInput)), tree)
    else some (.translated (t.targetOf tree input), tree)
  | .translated result =>
    let (reported, tree) := settle (t.outputPath input) result tree
    some (.settled reported, tree)
  | .settled _ => none

end Translator

/-- Any file of a batch takes its next step. -/
inductive Step (t : Translator) : Batch → Batch → Prop where
  | job {before after : List Job} {input : String} {phase phase' : Phase} {tree tree' : FileTree} :
      t.advance input tree phase = some (phase', tree') →
      Step t ⟨before ++ ⟨input, phase⟩ :: after, tree⟩ ⟨before ++ ⟨input, phase'⟩ :: after, tree'⟩

/-- Steps one after the other. -/
abbrev Runs (t : Translator) : Batch → Batch → Prop :=
  Relation.ReflTransGen (Step t)

/-- A batch that is not finished can take a step. -/
theorem isFinished_or_step (t : Translator) (b : Batch) :
    b.isFinished = true ∨ ∃ b', Step t b b' := by
  by_cases hall : ∀ job ∈ b.jobs, job.report?.isSome = true
  · exact .inl (List.all_eq_true.2 hall)
  · refine .inr ?_
    obtain ⟨job, hm, hopen⟩ : ∃ job ∈ b.jobs, job.report?.isSome ≠ true := by
      simpa using hall
    obtain ⟨before, after, hjobs⟩ := List.append_of_mem hm
    obtain ⟨jobs, tree⟩ := b
    obtain ⟨input, phase⟩ := job
    cases hjobs
    cases ha : t.advance input tree phase with
    | some next => exact ⟨_, .job ha⟩
    | none =>
      cases phase with
      | waiting =>
        cases hs : Path.same (t.outputPath input) input <;> simp [Translator.advance, hs] at ha
      | translated result => cases ha
      | settled result => exact absurd rfl hopen

/-! ## One file after the other -/

/-- Translating a file alone takes its steps. -/
theorem runs_translateFile (t : Translator) (before after : List Job) (input : String)
    (tree : FileTree) :
    Runs t ⟨before ++ .unread input :: after, tree⟩
      ⟨before ++ ⟨input, .settled (t.translateFile input tree).1⟩ :: after,
        (t.translateFile input tree).2⟩ := by
  cases hs : Path.same (t.outputPath input) input with
  | true =>
    have read : t.advance input tree .waiting =
        some (.settled (t.translateFile input tree).1, (t.translateFile input tree).2) := by
      simp [Translator.advance, Translator.translateFile, hs]
    exact .single (.job read)
  | false =>
    have read : t.advance input tree .waiting =
        some (.translated (t.targetOf tree input), tree) := by
      simp [Translator.advance, hs]
    have settle : t.advance input tree (.translated (t.targetOf tree input)) =
        some (.settled (t.translateFile input tree).1, (t.translateFile input tree).2) := by
      simp [Translator.advance, Translator.translateFile, hs]
    exact .tail (.single (.job read)) (.job settle)

theorem translateAll_cons (t : Translator) (input : String) (rest : List String) (tree : FileTree) :
    t.translateAll (input :: rest) tree =
      (⟨input, (t.translateFile input tree).1⟩ ::
        (t.translateAll rest (t.translateFile input tree).2).1,
      (t.translateAll rest (t.translateFile input tree).2).2) := by
  rw [Translator.translateAll]

/-- Translating one file after the other is a run. -/
theorem runs_translateAll (t : Translator) (before : List Job) (inputs : List String)
    (tree : FileTree) :
    Runs t ⟨before ++ inputs.map Job.unread, tree⟩
      ⟨before ++ (t.translateAll inputs tree).1.map Job.ofReport,
        (t.translateAll inputs tree).2⟩ := by
  induction inputs generalizing before tree with
  | nil => exact .refl
  | cons input rest ih =>
    have first := runs_translateFile t before (rest.map Job.unread) input tree
    have others := ih (before ++ [⟨input, .settled (t.translateFile input tree).1⟩])
      (t.translateFile input tree).2
    rw [List.append_assoc, List.append_assoc] at others
    rw [translateAll_cons]
    exact first.trans others

/-- The batch behind a list of reports is finished. -/
theorem reports_ofReport (reports : List Report) (tree : FileTree) :
    (Batch.mk (reports.map Job.ofReport) tree).reports = reports ∧
      (Batch.mk (reports.map Job.ofReport) tree).isFinished = true := by
  have report (r : Report) : (Job.ofReport r).report? = some r := rfl
  refine ⟨?_, ?_⟩
  · simp [Batch.reports, List.filterMap_map, report]
  · simp [Batch.isFinished, report]

/-! ## What settling does -/

namespace FileTree

/-- The place that a path leads to. -/
def place (tree : FileTree) (path : String) : Location :=
  match tree.resolve path with
  | .ok loc => loc
  | .error _ => []

/-- What is reported of an output that belongs in a place, and what is in that place then. -/
def outcome (tree : FileTree) (output : String) (loc : Location) :
    Except Failure String → Except Failure String × Option (List UInt8)
  | .error failure => (.error failure, none)
  | .ok text =>
    if tree.hasDir loc then (.error (.access output .isDirectory), none)
    else (.ok output, some text.toUTF8.toList)

theorem outcome_of_hasDir {tree : FileTree} {loc : Location} (h : tree.hasDir loc = true)
    (output text : String) :
    tree.outcome output loc (.ok text) = (.error (.access output .isDirectory), none) :=
  if_pos h

theorem outcome_of_not_hasDir {tree : FileTree} {loc : Location} (h : tree.hasDir loc = false)
    (output text : String) :
    tree.outcome output loc (.ok text) = (.ok output, some text.toUTF8.toList) :=
  if_neg (Bool.eq_false_iff.1 h)

/-- One place of a tree has got other contents. -/
structure Changed (tree tree' : FileTree) (loc : Location) (contents : Option (List UInt8)) :
    Prop where
  workDir : tree'.workDir = tree.workDir
  dirs : tree'.dirs = tree.dirs
  here : tree'.contents? loc = contents
  elsewhere : ∀ other, other ≠ loc → tree'.contents? other = tree.contents? other

end FileTree

theorem settle_spec {tree : FileTree} (h : tree.Apart) {output : String} {loc : Location}
    (hout : tree.resolve output = .ok loc) (result : Except Failure String) :
    (Translator.settle output result tree).1 = (tree.outcome output loc result).1 ∧
      tree.Changed (Translator.settle output result tree).2 loc
        (tree.outcome output loc result).2 := by
  cases result with
  | error failure =>
    have removed : (Translator.settle output (.error failure) tree).2 =
        { tree with files := tree.files.filter (·.1 != loc) } := by
      simp [Translator.settle, FileTree.removeFile, hout]
    rw [removed]
    refine ⟨rfl, rfl, rfl, ?_, fun other hne => ?_⟩
    · rw [FileTree.contents?, FileTree.lookup_filter_ne, if_pos rfl]
      rfl
    · rw [FileTree.contents?, FileTree.lookup_filter_ne, if_neg hne]
      rfl
  | ok text =>
    cases hdir : tree.hasDir loc with
    | true =>
      have refused : Translator.settle output (.ok text) tree =
          (.error (.access output .isDirectory), tree) := by
        simp [Translator.settle, FileTree.write, hout, hdir, bind, Except.bind]
      rw [refused, FileTree.outcome_of_hasDir hdir]
      exact ⟨rfl, rfl, rfl, h loc hdir, fun _ _ => rfl⟩
    | false =>
      have written : Translator.settle output (.ok text) tree =
          (.ok output, { tree with
            files := FileTree.putFile loc text.toUTF8.toList tree.files }) := by
        simp [Translator.settle, FileTree.write, hout, hdir, bind, Except.bind, pure, Except.pure]
      rw [written, FileTree.outcome_of_not_hasDir hdir]
      refine ⟨rfl, rfl, rfl, ?_, fun other hne => ?_⟩
      · rw [FileTree.contents?, FileTree.lookup_putFile, if_pos rfl]
      · rw [FileTree.contents?, FileTree.lookup_putFile, if_neg hne]
        rfl

theorem outcome_eq {tree other : FileTree} (h : tree.Similar other) (output : String)
    (loc : Location) (result : Except Failure String) :
    other.outcome output loc result = tree.outcome output loc result := by
  cases result with
  | error failure => rfl
  | ok text => rw [FileTree.outcome, FileTree.outcome, h.hasDir]

/-- The new contents of a place leave the directories apart from the files. -/
theorem FileTree.Changed.similar {tree other other' : FileTree} (h : tree.Similar other)
    {output : String} {loc : Location} {result : Except Failure String}
    (hc : other.Changed other' loc (other.outcome output loc result).2) : tree.Similar other' := by
  refine ⟨hc.workDir.trans h.workDir, hc.dirs.trans h.dirs, fun place hdir => ?_⟩
  have before : other.hasDir place = true := by
    rw [← hdir, hasDir, hasDir, hc.dirs]
  by_cases hp : place = loc
  · subst hp
    rw [hc.here]
    cases result with
    | error failure => rfl
    | ok text => rw [outcome_of_hasDir before]
  · rw [hc.elsewhere place hp]
    exact h.apart place before

/-! ## Files that do not touch each other -/

namespace Translator

/-- Where the output of a source belongs. -/
def outputPlace (t : Translator) (tree : FileTree) (input : String) : Location :=
  tree.place (t.outputPath input)

/-- What becomes of a file that is translated alone : its report, and the contents of its output. -/
def outcomeOf (t : Translator) (tree : FileTree) (input : String) :
    Except Failure String × Option (List UInt8) :=
  tree.outcome (t.outputPath input) (t.outputPlace tree input) (t.targetOf tree input)

/-- Every output has a place of its own, which is not that of an input. -/
structure Independent (t : Translator) (tree : FileTree) (inputs : List String) : Prop where
  input : ∀ input ∈ inputs, tree.resolve input = .ok (tree.place input)
  output : ∀ input ∈ inputs, tree.resolve (t.outputPath input) = .ok (t.outputPlace tree input)
  changed : ∀ input ∈ inputs, Path.same (t.outputPath input) input = false
  nodup : (inputs.map (t.outputPlace tree)).Nodup
  apart : ∀ input ∈ inputs, ∀ other ∈ inputs, t.outputPlace tree input ≠ tree.place other

end Translator

namespace Job

/-- A file is as far as it would be if it were translated alone. -/
def AsAlone (t : Translator) (tree : FileTree) (job : Job) : Prop :=
  match job.phase with
  | .waiting => True
  | .translated result => result = t.targetOf tree job.input
  | .settled result => result = (t.outcomeOf tree job.input).1

/-- The contents of the output when a file is as far as it is. -/
def contents? (t : Translator) (tree : FileTree) (job : Job) : Option (List UInt8) :=
  match job.phase with
  | .settled _ => (t.outcomeOf tree job.input).2
  | _ => tree.contents? (t.outputPlace tree job.input)

end Job

/-- A batch is such as if each of its files were translated alone in the tree at the start. -/
structure Consistent (t : Translator) (tree : FileTree) (inputs : List String) (b : Batch) :
    Prop where
  files : b.jobs.map (·.input) = inputs
  similar : tree.Similar b.tree
  jobs : ∀ job ∈ b.jobs, job.AsAlone t tree ∧
    b.tree.contents? (t.outputPlace tree job.input) = job.contents? t tree
  others : ∀ loc, loc ∉ inputs.map (t.outputPlace tree) →
    b.tree.contents? loc = tree.contents? loc

theorem consistent_start (t : Translator) {tree : FileTree} (h : tree.Similar tree)
    (inputs : List String) : Consistent t tree inputs (.start inputs tree) := by
  refine ⟨?_, h, ?_, fun _ _ => rfl⟩
  · rw [Batch.start, List.map_map]
    exact List.map_id inputs
  · rw [Batch.start, List.forall_mem_map]
    exact fun _ _ => ⟨trivial, rfl⟩

namespace Consistent

variable {t : Translator} {tree : FileTree} {inputs : List String}

/-- A file goes on, and only the place of its output changes. -/
theorem replace (hi : t.Independent tree inputs) {before after : List Job} {job job' : Job}
    {cur next : FileTree} (h : Consistent t tree inputs ⟨before ++ job :: after, cur⟩)
    (hinput : job'.input = job.input) (hsimilar : tree.Similar next) (halone : job'.AsAlone t tree)
    (hhere : next.contents? (t.outputPlace tree job'.input) = job'.contents? t tree)
    (helse : ∀ loc, loc ≠ t.outputPlace tree job.input →
      next.contents? loc = cur.contents? loc) :
    Consistent t tree inputs ⟨before ++ job' :: after, next⟩ := by
  have files := h.files
  rw [List.map_append, List.map_cons] at files
  have nodup := hi.nodup
  rw [← files, List.map_append, List.map_cons, List.nodup_middle, List.nodup_cons,
    ← List.map_append, ← List.map_append, List.map_map] at nodup
  have other : ∀ j ∈ before ++ after, j.AsAlone t tree ∧
      next.contents? (t.outputPlace tree j.input) = j.contents? t tree := by
    intro j hm
    have hj := h.jobs j (by
      rcases List.mem_append.1 hm with hm | hm
      · exact List.mem_append_left _ hm
      · exact List.mem_append_right _ (List.mem_cons_of_mem _ hm))
    have hne : t.outputPlace tree j.input ≠ t.outputPlace tree job.input := by
      intro heq
      exact nodup.1 (heq ▸ List.mem_map_of_mem hm)
    exact ⟨hj.1, (helse _ hne).trans hj.2⟩
  obtain ⟨hbefore, hafter⟩ := List.forall_mem_append.1 other
  refine ⟨?_, hsimilar, ?_, fun loc hloc => ?_⟩
  · rw [List.map_append, List.map_cons, hinput, files]
  · exact List.forall_mem_append.2 ⟨hbefore, List.forall_mem_cons.2 ⟨⟨halone, hhere⟩, hafter⟩⟩
  · refine (helse loc fun heq => hloc ?_).trans (h.others loc hloc)
    rw [heq, ← files]
    exact List.mem_map_of_mem (List.mem_append_right _ List.mem_cons_self)

/-- A step keeps a batch as if each of its files were translated alone. -/
theorem step (hi : t.Independent tree inputs) {b b' : Batch}
    (h : Consistent t tree inputs b) (hstep : Step t b b') : Consistent t tree inputs b' := by
  cases hstep with
  | @job before after input phase phase' cur next ha =>
    have hinput : input ∈ inputs := by
      rw [← h.files]
      simp
    obtain ⟨halone, hhere⟩ := h.jobs ⟨input, phase⟩ (by simp)
    cases phase with
    | waiting =>
      rw [Translator.advance, hi.changed input hinput, if_neg Bool.false_ne_true] at ha
      cases ha
      -- The input is not the output of any file, so it is still what it was.
      have unread : cur.contents? (tree.place input) = tree.contents? (tree.place input) := by
        refine h.others _ fun hm => ?_
        obtain ⟨writer, hw, hplace⟩ := List.mem_map.1 hm
        exact hi.apart writer hw input hinput hplace
      have target : t.targetOf cur input = t.targetOf tree input := by
        rw [Translator.targetOf, Translator.targetOf, FileTree.readText, FileTree.readText,
          h.similar.readBytes (hi.input input hinput) unread]
      exact h.replace hi rfl h.similar target hhere fun _ _ => rfl
    | translated result =>
      obtain rfl : result = t.targetOf tree input := halone
      obtain ⟨reported, changed⟩ := settle_spec h.similar.apart
        (h.similar.resolve (hi.output input hinput)) (t.targetOf tree input)
      have similar := changed.similar h.similar
      rw [outcome_eq h.similar] at reported changed
      cases ha
      exact h.replace hi rfl similar reported changed.here changed.elsewhere
    | settled result => cases ha

theorem runs (hi : t.Independent tree inputs) (hself : tree.Similar tree) {b : Batch}
    (hrun : Runs t (.start inputs tree) b) : Consistent t tree inputs b := by
  induction hrun with
  | refl => exact consistent_start t hself inputs
  | tail _ hstep ih => exact ih.step hi hstep

/-! ## Finished batches -/

/-- In a finished batch every file has been settled as it would be alone. -/
theorem settled {b : Batch} (h : Consistent t tree inputs b) (hfinished : b.isFinished = true) :
    ∀ job ∈ b.jobs, job.report? = some ⟨job.input, (t.outcomeOf tree job.input).1⟩ ∧
      b.tree.contents? (t.outputPlace tree job.input) = (t.outcomeOf tree job.input).2 := by
  intro job hm
  obtain ⟨halone, hhere⟩ := h.jobs job hm
  have isOver := List.all_eq_true.1 hfinished job hm
  obtain ⟨input, phase⟩ := job
  cases phase with
  | waiting => cases isOver
  | translated result => cases isOver
  | settled result =>
    obtain rfl : result = (t.outcomeOf tree input).1 := halone
    exact ⟨rfl, hhere⟩

theorem reports_eq {b : Batch} (h : Consistent t tree inputs b) (hfinished : b.isFinished = true) :
    b.reports = inputs.map fun input => ⟨input, (t.outcomeOf tree input).1⟩ := by
  have all : b.reports =
      b.jobs.filterMap fun job => some ⟨job.input, (t.outcomeOf tree job.input).1⟩ :=
    List.filterMap_congr fun job hm => (h.settled hfinished job hm).1
  rw [all, List.filterMap_eq_map', ← h.files, List.map_map]
  rfl

theorem output_eq {b : Batch} (h : Consistent t tree inputs b) (hfinished : b.isFinished = true) :
    ∀ input ∈ inputs,
      b.tree.contents? (t.outputPlace tree input) = (t.outcomeOf tree input).2 := by
  rw [← h.files, List.forall_mem_map]
  exact fun job hm => (h.settled hfinished job hm).2

/-- Finished batches have the same trees. -/
theorem same {b b' : Batch} (h : Consistent t tree inputs b) (h' : Consistent t tree inputs b')
    (hfinished : b.isFinished = true) (hfinished' : b'.isFinished = true) :
    b.tree.Same b'.tree := by
  refine ⟨?_, ?_, fun loc => ?_⟩
  · rw [h.similar.workDir, h'.similar.workDir]
  · rw [h.similar.dirs, h'.similar.dirs]
  · by_cases hm : loc ∈ inputs.map (t.outputPlace tree)
    · obtain ⟨input, hinput, rfl⟩ := List.mem_map.1 hm
      rw [h.output_eq hfinished input hinput, h'.output_eq hfinished' input hinput]
    · rw [h.others loc hm, h'.others loc hm]

end Consistent

end Berrify
