import Berrify.Scope

/-!
# The frames of a scope are a stack

A scope is changed in six ways (`Change`), and by any sequence of them, closings without an opening
included, the frame of the script stays at the bottom (`IsStack.changeAll`).

With one frame for each body, a body that is opened and closed again leaves the frames around it
alone. There is one exception : fields are recorded in the frame of the nearest class, which may lie
around the body. So a body, and all that is opened and closed inside of it, `Restores` the frames up
to the kinds of fields in that one frame, and no field is declared there. The invariant of the proof
is `Inside`, which says this of the frames around the current one : `change_inside` is the step and
`Matched.inside` the run.
-/

namespace Berrify

/-- What can be done to a scope. -/
inductive Change where
  | push (kind : FrameKind)
  | pop
  | assign (target : Expr) (kind : Container)
  | declare (name : String) (kind : Container)
  | record (path : String) (kind : Container)
  | define (name : String)

/-- Whether a change opens or closes a body. -/
def Change.isFraming : Change → Bool
  | push _ => true
  | pop => true
  | _ => false

/-- Changes in which every body that is opened is closed, and no other. -/
inductive Matched : List Change → Prop where
  | nil : Matched []
  | step {c : Change} {rest : List Change} :
      c.isFraming = false → Matched rest → Matched (c :: rest)
  | body (kind : FrameKind) {inner rest : List Change} :
      Matched inner → Matched rest → Matched (.push kind :: (inner ++ .pop :: rest))

namespace Scope

/-- The scope behind a change. -/
def change (s : Scope) : Change → Scope
  | .push kind => s.push kind
  | .pop => s.pop
  | .assign target kind => (s.assign target kind).1
  | .declare name kind => s.declare name kind
  | .record path kind => s.recordKind path kind
  | .define name => s.define name

/-- The scope behind a list of changes. -/
def changeAll (s : Scope) (changes : List Change) : Scope :=
  changes.foldl change s

@[simp] theorem changeAll_nil (s : Scope) : s.changeAll [] = s := rfl

@[simp] theorem changeAll_cons (s : Scope) (c : Change) (rest : List Change) :
    s.changeAll (c :: rest) = (s.change c).changeAll rest := rfl

@[simp] theorem changeAll_append (s : Scope) (changes others : List Change) :
    s.changeAll (changes ++ others) = (s.changeAll changes).changeAll others :=
  List.foldl_append

/-- The frames of a scope, the innermost first. -/
def frames (s : Scope) : List Frame :=
  s.current :: s.outer

theorem frames_push {s : Scope} (hmode : s.mode = .lexical) (kind : FrameKind) :
    (s.push kind).frames = { kind } :: s.frames := by
  rw [push, hmode]
  rfl

theorem frames_pop {s : Scope} (hmode : s.mode = .lexical) {fs : List Frame} (h : s.outer = fs)
    (hne : fs ≠ []) : s.pop.frames = fs := by
  obtain ⟨f, fs, rfl⟩ := List.exists_cons_of_ne_nil hne
  rw [pop, hmode, h]
  rfl

theorem mode_push (s : Scope) (kind : FrameKind) : (s.push kind).mode = s.mode := by
  unfold push
  split <;> rfl

theorem mode_pop (s : Scope) : s.pop.mode = s.mode := by
  unfold pop
  split <;> rfl

end Scope

/-! ## Frames in which fields were recorded -/

/-- The same frame, but that fields may have been added undeclared, and the kinds of fields may have
changed. -/
structure Frame.Recorded (f g : Frame) : Prop where
  kind : g.kind = f.kind
  bindings : ∀ path, g.bindings.get? path = f.bindings.get? path ∨
    Scope.isField path = true ∧
      ∃ kind, g.bindings.get? path = some { (f.bindings.get? path).getD {} with kind }

namespace Frame.Recorded

variable {f g h : Frame}

theorem refl (f : Frame) : f.Recorded f :=
  ⟨rfl, fun _ => .inl rfl⟩

theorem trans (hfg : f.Recorded g) (hgh : g.Recorded h) : f.Recorded h := by
  refine ⟨hgh.kind.trans hfg.kind, fun path => ?_⟩
  rcases hgh.bindings path with same | ⟨hfield, kind, recorded⟩
  · rw [same]
    exact hfg.bindings path
  · refine .inr ⟨hfield, kind, ?_⟩
    rcases hfg.bindings path with same | ⟨-, _, before⟩
    · rw [recorded, same]
    · rw [recorded, before]
      rfl

theorem recordKind (f : Frame) {path : String} (hfield : Scope.isField path = true)
    (kind : Container) : f.Recorded (f.recordKind path kind) := by
  refine ⟨rfl, fun other => ?_⟩
  rw [Frame.recordKind, NameMap.get?_put]
  split
  · rename_i h
    rw [beq_iff_eq] at h
    subst h
    exact .inr ⟨hfield, kind, rfl⟩
  · exact .inl rfl

end Frame.Recorded

/-- The same frames, but for fields that were recorded in the first of them that is a class. -/
inductive RecordedInClass : List Frame → List Frame → Prop where
  | nil : RecordedInClass [] []
  | here {f g : Frame} {fs : List Frame} :
      f.kind = .classBody → f.Recorded g → RecordedInClass (f :: fs) (g :: fs)
  | further {f : Frame} {fs gs : List Frame} :
      f.kind ≠ .classBody → RecordedInClass fs gs → RecordedInClass (f :: fs) (f :: gs)

namespace RecordedInClass

variable {fs gs hs : List Frame}

theorem refl (fs : List Frame) : RecordedInClass fs fs := by
  induction fs with
  | nil => exact .nil
  | cons f fs ih =>
    by_cases h : f.kind = .classBody
    · exact .here h (.refl f)
    · exact .further h ih

theorem trans (hfg : RecordedInClass fs gs) (hgh : RecordedInClass gs hs) :
    RecordedInClass fs hs := by
  induction hfg generalizing hs with
  | nil => exact hgh
  | here hclass hrecorded =>
    cases hgh with
    | here _ hrecorded' => exact .here hclass (hrecorded.trans hrecorded')
    | further hother _ => exact absurd (hrecorded.kind.trans hclass) hother
  | further hother _ ih =>
    cases hgh with
    | here hclass _ => exact absurd hclass hother
    | further _ hgh => exact .further hother (ih hgh)

theorem recordInClass? {path : String} (hfield : Scope.isField path = true) {kind : Container}
    (h : Scope.recordInClass? path kind fs = some gs) : RecordedInClass fs gs := by
  induction fs generalizing gs with
  | nil => cases h
  | cons f fs ih =>
    rw [Scope.recordInClass?] at h
    split at h
    · cases h
      exact .here ‹_› (.recordKind f hfield kind)
    · obtain ⟨rest, hrest, rfl⟩ := Option.map_eq_some_iff.1 h
      exact .further ‹_› (ih hrest)

theorem kinds (h : RecordedInClass fs gs) : gs.map (·.kind) = fs.map (·.kind) := by
  induction h with
  | nil => rfl
  | here _ hrecorded => rw [List.map_cons, List.map_cons, hrecorded.kind]
  | further _ _ ih => rw [List.map_cons, List.map_cons, ih]

/-- Without a class nothing has been recorded. -/
theorem eq_of_no_class (h : RecordedInClass fs gs) (hfs : ∀ f ∈ fs, f.kind ≠ .classBody) :
    gs = fs := by
  induction h with
  | nil => rfl
  | here hclass _ => exact absurd hclass (hfs _ List.mem_cons_self)
  | further _ _ ih => rw [ih (List.forall_mem_cons.1 hfs).2]

theorem exists_frame (h : RecordedInClass fs gs) {newer older : List Frame} {f : Frame}
    (hfs : fs = newer ++ f :: older) (hnewer : ∀ f ∈ newer, f.kind ≠ .classBody)
    (hclass : f.kind = .classBody) : ∃ g, gs = newer ++ g :: older ∧ f.Recorded g := by
  induction h generalizing newer with
  | nil => cases newer <;> cases hfs
  | here hclass' hrecorded =>
    cases newer with
    | nil =>
      cases hfs
      exact ⟨_, rfl, hrecorded⟩
    | cons first newer =>
      cases hfs
      exact absurd hclass' (hnewer _ List.mem_cons_self)
  | further hother _ ih =>
    cases newer with
    | nil =>
      cases hfs
      exact absurd hclass hother
    | cons first newer =>
      cases hfs
      obtain ⟨g, rfl, hrecorded⟩ := ih rfl (List.forall_mem_cons.1 hnewer).2
      exact ⟨g, rfl, hrecorded⟩

/-- A path that is no field is found where it was. -/
theorem findSome?_eq (h : RecordedInClass fs gs) {path : String}
    (hpath : Scope.isField path = false) :
    gs.findSome? (·.bindings.get? path) = fs.findSome? (·.bindings.get? path) := by
  induction h with
  | nil => rfl
  | here _ hrecorded =>
    rcases hrecorded.bindings path with same | ⟨hfield, -⟩
    · rw [List.findSome?_cons, List.findSome?_cons, same]
    · rw [hpath] at hfield
      cases hfield
  | further _ _ ih => rw [List.findSome?_cons, List.findSome?_cons, ih]

end RecordedInClass

/-! ## Inside of a body -/

namespace Scope

/-- A later state of the same body. Behind the frame of a class nothing has changed, and behind any
other frame only fields have been recorded. -/
structure Inside (s t : Scope) : Prop where
  mode : t.mode = s.mode
  kind : t.current.kind = s.current.kind
  sealed : s.current.kind = .classBody → t.outer = s.outer
  exposed : s.current.kind ≠ .classBody → RecordedInClass s.outer t.outer
  known : ∀ name, s.knows name = true → t.knows name = true

namespace Inside

variable {s t u : Scope}

/-- Only the innermost frame has changed, and it is of the same kind. -/
theorem of_current (hmode : t.mode = s.mode) (hkind : t.current.kind = s.current.kind)
    (houter : t.outer = s.outer) (hknown : ∀ name, s.knows name = true → t.knows name = true) :
    s.Inside t :=
  ⟨hmode, hkind, fun _ => houter, fun _ => houter ▸ .refl s.outer, hknown⟩

theorem refl (s : Scope) : s.Inside s :=
  of_current rfl rfl rfl fun _ h => h

theorem trans (h : s.Inside t) (h' : t.Inside u) : s.Inside u where
  mode := h'.mode.trans h.mode
  kind := h'.kind.trans h.kind
  sealed hclass := (h'.sealed (h.kind.trans hclass)).trans (h.sealed hclass)
  exposed hother := (h.exposed hother).trans (h'.exposed fun hclass => hother (h.kind ▸ hclass))
  known name hname := h'.known name (h.known name hname)

/-- Seen from the frames of a body, the fields of its class may have been recorded. -/
theorem of_frames (hmode : t.mode = s.mode) (hframes : RecordedInClass s.frames t.frames)
    (hknown : ∀ name, s.knows name = true → t.knows name = true) : s.Inside t := by
  obtain ⟨mode, current, outer, functions⟩ := t
  cases hframes with
  | here hclass hrecorded =>
    exact ⟨hmode, hrecorded.kind, fun _ => rfl, fun hother => absurd hclass hother, hknown⟩
  | further hother houter =>
    exact ⟨hmode, rfl, fun hclass => absurd hclass hother, fun _ => houter, hknown⟩

end Inside

theorem recordKind_inside (s : Scope) (path : String) (kind : Container) :
    s.Inside (s.recordKind path kind) := by
  have here : s.Inside (s.recordHere path kind) := .of_current rfl rfl rfl fun _ h => h
  unfold recordKind
  split
  · rename_i hfield
    unfold recordField
    split
    · exact here
    · rename_i hother
      split
      · rename_i outer houter
        exact ⟨rfl, rfl, fun hclass => absurd hclass hother,
          fun _ => .recordInClass? hfield houter, fun _ h => h⟩
      · exact here
  · exact here

/-- A change inside of a body. -/
theorem change_inside (s : Scope) {c : Change} (h : c.isFraming = false) :
    s.Inside (s.change c) := by
  cases c with
  | push kind => cases h
  | pop => cases h
  | declare name kind => exact .of_current rfl rfl rfl fun _ h => h
  | record path kind => exact s.recordKind_inside path kind
  | define name =>
    refine .of_current rfl rfl rfl fun other hknown => ?_
    simp only [change, define, knows, List.contains_cons, Bool.or_eq_true] at hknown ⊢
    exact .inr hknown
  | assign target kind =>
    change s.Inside (s.assign target kind).1
    unfold assign
    split
    · exact .of_current rfl rfl rfl fun _ h => h
    · split
      · exact s.recordKind_inside _ kind
      · exact .refl s
    · exact .refl s

/-- A body that is closed again leaves the frames around it, up to fields if it is not a class. -/
theorem Inside.closed {s t : Scope} (hmode : s.mode = .lexical) {kind : FrameKind}
    (h : (s.push kind).Inside t) :
    (kind = .classBody → t.pop.frames = s.frames) ∧ RecordedInClass s.frames t.pop.frames := by
  have hmode' : t.mode = .lexical := (h.mode.trans (s.mode_push kind)).trans hmode
  obtain ⟨hcurrent, houter⟩ :
      (s.push kind).current = { kind } ∧ (s.push kind).outer = s.frames := by
    rw [push, hmode]
    exact ⟨rfl, rfl⟩
  have hclosed : RecordedInClass s.frames t.outer := by
    by_cases hclass : kind = .classBody
    · rw [h.sealed (by rw [hcurrent, hclass]), houter]
      exact .refl s.frames
    · have hexposed := h.exposed (by rw [hcurrent]; exact hclass)
      rwa [houter] at hexposed
  have hne : t.outer ≠ [] := by
    intro hnil
    rw [hnil] at hclosed
    cases hclosed
  rw [frames_pop hmode' rfl hne]
  exact ⟨fun hclass => (h.sealed (by rw [hcurrent, hclass])).trans houter, hclosed⟩

theorem Inside.pop {s t : Scope} (hmode : s.mode = .lexical) {kind : FrameKind}
    (h : (s.push kind).Inside t) : s.Inside t.pop := by
  refine .of_frames ?_ (h.closed hmode).2 fun name hname => ?_
  · rw [mode_pop, h.mode, mode_push]
  · have pushed : (s.push kind).knows name = true := by
      rw [push, hmode]
      exact hname
    have kept := h.known name pushed
    unfold Scope.pop
    split <;> exact kept

end Scope

/-- Changes that close what they open stay inside of the body. -/
theorem Matched.inside {changes : List Change} (h : Matched changes) {s : Scope}
    (hmode : s.mode = .lexical) : s.Inside (s.changeAll changes) := by
  induction h generalizing s with
  | nil => exact .refl s
  | step hc _ ih =>
    have first := s.change_inside hc
    exact first.trans (ih (first.mode.trans hmode))
  | @body kind inner rest _ _ ih₁ ih₂ =>
    have opened : (s.push kind).mode = .lexical := (s.mode_push kind).trans hmode
    have closed := (ih₁ opened).pop hmode
    rw [Scope.changeAll_cons, Scope.changeAll_append, Scope.changeAll_cons]
    exact closed.trans (ih₂ (closed.mode.trans hmode))

/-! ## The stack -/

namespace Scope

/-- The frame of the script is at the bottom, and alone if there is one frame for all. -/
structure IsStack (mode : ScopeMode) (s : Scope) : Prop where
  mode_eq : s.mode = mode
  bottom : ∃ upper script, s.frames = upper ++ [script] ∧ script.kind = .script
  single : mode = .flat → s.frames.length = 1

theorem isStack_start (mode : ScopeMode) : (start mode).IsStack mode :=
  ⟨rfl, ⟨[], _, rfl, rfl⟩, fun _ => rfl⟩

theorem Inside.kinds {s t : Scope} (h : s.Inside t) :
    t.frames.map (·.kind) = s.frames.map (·.kind) := by
  have outer : t.outer.map (·.kind) = s.outer.map (·.kind) := by
    by_cases hclass : s.current.kind = .classBody
    · rw [h.sealed hclass]
    · exact (h.exposed hclass).kinds
  rw [frames, frames, List.map_cons, List.map_cons, h.kind, outer]

namespace IsStack

variable {mode : ScopeMode} {s t : Scope}

/-- A later state of a body has frames of the same kinds. -/
theorem inside (h : s.IsStack mode) (hinside : s.Inside t) : t.IsStack mode := by
  obtain ⟨hmode, ⟨upper, script, hframes, hscript⟩, hsingle⟩ := h
  have hkinds := hinside.kinds
  refine ⟨hinside.mode.trans hmode, ?_, fun hflat => ?_⟩
  · rw [hframes, List.map_append, List.map_eq_append_iff] at hkinds
    obtain ⟨upper', last, hframes', -, hlast⟩ := hkinds
    obtain ⟨script', rfl, hscript'⟩ := List.map_eq_singleton_iff.1 hlast
    exact ⟨upper', script', hframes', hscript'.trans hscript⟩
  · have hlength := congrArg List.length hkinds
    rw [List.length_map, List.length_map] at hlength
    exact hlength.trans (hsingle hflat)

theorem push (h : s.IsStack .lexical) (kind : FrameKind) : (s.push kind).IsStack .lexical := by
  obtain ⟨hmode, ⟨upper, script, hframes, hscript⟩, -⟩ := h
  refine ⟨(s.mode_push kind).trans hmode, ⟨{ kind } :: upper, script, ?_, hscript⟩, nofun⟩
  rw [frames_push hmode, hframes, List.cons_append]

/-- The frame of the script is not closed. -/
theorem pop (h : s.IsStack .lexical) : s.pop.IsStack .lexical := by
  obtain ⟨hmode, ⟨upper, script, hframes, hscript⟩, -⟩ := id h
  cases upper with
  | nil =>
    have houter : s.outer = [] := (List.cons.inj hframes).2
    have same : s.pop = s := by
      rw [Scope.pop, hmode, houter]
    rwa [same]
  | cons first upper =>
    have houter : s.outer = upper ++ [script] := (List.cons.inj hframes).2
    refine ⟨s.mode_pop.trans hmode, ⟨upper, script, ?_, hscript⟩, nofun⟩
    rw [frames_pop hmode houter (by simp)]

theorem change (h : s.IsStack mode) (c : Change) : (s.change c).IsStack mode := by
  cases hframing : c.isFraming with
  | false => exact h.inside (s.change_inside hframing)
  | true =>
    cases mode with
    | flat =>
      have same : s.change c = s := by
        cases c with
        | push kind => rw [Scope.change, Scope.push, h.mode_eq]
        | pop => rw [Scope.change, Scope.pop, h.mode_eq]
        | _ => cases hframing
      rwa [same]
    | lexical =>
      cases c with
      | push kind => exact h.push kind
      | pop => exact h.pop
      | _ => cases hframing

theorem changeAll (h : s.IsStack mode) (changes : List Change) :
    (s.changeAll changes).IsStack mode := by
  induction changes generalizing s with
  | nil => exact h
  | cons c rest ih => exact ih (h.change c)

end IsStack

/-- What a body of a certain kind leaves behind when it is closed. -/
structure Restores (kind : FrameKind) (s t : Scope) : Prop where
  /-- A class body, and any body without a class around it, leaves all frames as they were. -/
  frames : (kind = .classBody ∨ ∀ f ∈ s.frames, f.kind ≠ .classBody) → t.frames = s.frames
  /-- Else fields may have been recorded in the frame of the nearest class. -/
  fields : ∀ newer f older, s.frames = newer ++ f :: older →
    (∀ g ∈ newer, g.kind ≠ .classBody) → f.kind = .classBody →
      ∃ g, t.frames = newer ++ g :: older ∧ f.Recorded g
  lookup : ∀ path, isField path = false → t.lookup? path = s.lookup? path
  known : ∀ name, s.knows name = true → t.knows name = true

theorem restores_of_matched {s : Scope} (hmode : s.mode = .lexical) (kind : FrameKind)
    {inner : List Change} (h : Matched inner) :
    Restores kind s (s.changeAll (.push kind :: (inner ++ [.pop]))) := by
  have opened : (s.push kind).mode = .lexical := (s.mode_push kind).trans hmode
  have inside := h.inside opened
  obtain ⟨sealed, recorded⟩ := inside.closed hmode
  rw [changeAll_cons, changeAll_append]
  change Restores kind s ((s.push kind).changeAll inner).pop
  exact {
    frames := fun hkind => hkind.elim sealed recorded.eq_of_no_class
    fields := fun _ _ _ => recorded.exists_frame
    lookup := fun _ => recorded.findSome?_eq
    known := (inside.pop hmode).known }

/-- The frames of a scope are a stack with the frame of the script at the bottom, whatever was done
to the scope, and there is no other frame if there is one for all. With one frame for each body, a
body that is opened and closed again restores the frames. -/
theorem frames_are_stack (mode : ScopeMode) (before : List Change) :
    ((start mode).changeAll before).IsStack mode ∧
      (mode = .lexical → ∀ (kind : FrameKind) (inner : List Change), Matched inner →
        Restores kind ((start mode).changeAll before)
          ((start mode).changeAll (before ++ .push kind :: (inner ++ [.pop])))) := by
  have stack := (isStack_start mode).changeAll before
  refine ⟨stack, fun hmode kind inner h => ?_⟩
  rw [changeAll_append]
  exact restores_of_matched (stack.mode_eq.trans hmode) kind h

/-- A method records a field of its class, and a function inside of it a name of its own. -/
theorem frames_are_stack_of_method :
    let before : List Change := [.push .classBody, .declare "x" .unknown]
    let inner : List Change := [.record "self.queue" .sequence, .push .functionBody,
      .assign (.name "x") .mapping, .pop, .define "f"]
    let s := (start .lexical).changeAll before
    let t := (start .lexical).changeAll (before ++ .push .functionBody :: (inner ++ [.pop]))
    s.IsStack .lexical ∧ Matched inner ∧ Restores .functionBody s t ∧
      s.lookup? "self.queue" = none ∧ t.lookup? "self.queue" = some ⟨false, .sequence⟩ ∧
      t.lookup? "x" = some ⟨true, .unknown⟩ := by
  intro before inner s t
  have matched : Matched inner :=
    .step rfl (.body .functionBody (.step rfl .nil) (.step rfl .nil))
  obtain ⟨stack, restores⟩ := frames_are_stack .lexical before
  exact ⟨stack, matched, restores rfl .functionBody inner matched, rfl, rfl, rfl⟩

end Scope

end Berrify
