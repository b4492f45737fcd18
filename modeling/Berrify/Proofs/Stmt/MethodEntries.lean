import Berrify.Proofs.Scope.Stack
import Berrify.Proofs.Stmt.Events
import Berrify.Proofs.Stmt.Kinds

/-!
# Configured methods take effect

A table of names may give a container type of the source a class of the target, and methods of that
class other names. `method_entries_take_effect` says when such an entry shows in the text of a
script : a name is bound to a new container of that type, the methods of the class are told apart
(`Container.className?`), and the binding is still seen where the method is called. It also says
that the entries for all other classes never show : tables that differ in these only
(`Naming.SameEntries`) agree on every kind that can occur, so that each script is emitted alike.

Whether it is seen is read off the operations in between (`stillBound`) : no body that is open at
the call has bound the name again since. This is a matter of that one name, so the proof follows the
bindings that the frames have of it (`Scope.column`). The invariant `Sees` says which of them are
known, `Sees.perform` is the step and `Sees.performAll` the run.
-/

namespace Berrify

/-! ## Bodies that bind a name again -/

namespace Operation

/-- Whether an operation binds a name again in its body. The flags say this of the bodies around,
outwards up to the one that bound the name : there the name is declared, so that a declaration
without a value changes nothing, and a `global` line takes over what is seen around. -/
def rebinds (x : String) (around : List Bool) : Operation → Bool
  | parameter name _ => name == x
  | introduce name => name == x
  | share names => names.contains x && around.any id
  | assign (.name id) _ => id == x
  | annotate (.name id) _ => id == x && !around.isEmpty
  | _ => false

/-- Behind an operation, of every body that is open whether it has bound a name again, the innermost
first and the one that bound it last. There are none once that one is closed. -/
def track (x : String) (op : Operation) : List Bool → List Bool
  | [] => []
  | here :: around =>
    match op with
    | push _ => false :: here :: around
    | pop => around
    | op => (here || op.rebinds x around) :: around

end Operation

/-- Whether a name that a body has bound is still seen with that binding behind operations : the
body is still open, and no body that is open has bound the name again. -/
def stillBound (x : String) (ops : List Operation) : Bool :=
  let rebound := ops.foldl (fun rebound op => op.track x rebound) [false]
  !rebound.isEmpty && !rebound.any id

/-! ## The bindings of one name -/

namespace Scope

/-- The bindings that the frames have of a name, the innermost first. -/
def column (s : Scope) (x : String) : List (Option Binding) :=
  s.frames.map (·.bindings.get? x)

variable {x : String}

theorem column_eq (s : Scope) (x : String) :
    s.column x = s.current.bindings.get? x :: s.outer.map (·.bindings.get? x) := rfl

theorem lookup?_eq_column (s : Scope) (x : String) :
    s.lookup? x = (s.column x).findSome? id := by
  rw [column, List.findSome?_map]
  rfl

theorem column_push {s : Scope} (hmode : s.mode = .lexical) (kind : FrameKind) :
    (s.push kind).column x = none :: s.column x := by
  rw [column, frames_push hmode]
  rfl

theorem column_pop {s : Scope} (hmode : s.mode = .lexical) (houter : s.outer ≠ []) :
    s.column x = s.current.bindings.get? x :: s.pop.column x := by
  rw [column, column, frames_pop hmode rfl houter]
  rfl

theorem column_declare (s : Scope) (kind : Container) :
    (s.declare x kind).column x = some ⟨true, kind⟩ :: (s.column x).tail := by
  have here : (s.current.declare x kind).bindings.get? x = some ⟨true, kind⟩ :=
    NameMap.get?_put_self _ _ _
  rw [column_eq, column_eq, declare, here, List.tail_cons]

theorem column_declare_of_ne (s : Scope) {name : String} (h : name ≠ x) (kind : Container) :
    (s.declare name kind).column x = s.column x := by
  have here : (s.current.declare name kind).bindings.get? x = s.current.bindings.get? x := by
    rw [Frame.declare, NameMap.get?_put, if_neg (by simpa using h.symm)]
  rw [column_eq, column_eq, declare, here]

theorem get?_recordKind_of_ne (f : Frame) {path : String} (h : path ≠ x) (kind : Container) :
    (f.recordKind path kind).bindings.get? x = f.bindings.get? x := by
  rw [Frame.recordKind, NameMap.get?_put, if_neg (by simpa using h.symm)]

theorem column_recordInClass? {path : String} (h : path ≠ x) {kind : Container} :
    ∀ {fs gs : List Frame}, recordInClass? path kind fs = some gs →
      gs.map (·.bindings.get? x) = fs.map (·.bindings.get? x)
  | [], gs, hr => by cases hr
  | f :: fs, gs, hr => by
    unfold recordInClass? at hr
    split at hr
    · cases hr
      rw [List.map_cons, List.map_cons, get?_recordKind_of_ne f h]
    · obtain ⟨rest, hrest, rfl⟩ := Option.map_eq_some_iff.1 hr
      rw [List.map_cons, List.map_cons, column_recordInClass? h hrest]

theorem column_recordKind (s : Scope) {path : String} (h : path ≠ x) (kind : Container) :
    (s.recordKind path kind).column x = s.column x := by
  have here : (s.recordHere path kind).column x = s.column x := by
    rw [column_eq, column_eq, recordHere, get?_recordKind_of_ne s.current h]
  unfold recordKind recordField
  split
  · split
    · exact here
    · split
      · rw [column_eq, column_eq, column_recordInClass? h ‹_›]
      · exact here
  · exact here

/-- The path of an attribute is no name. -/
theorem ne_of_dottedPath? {value : Expr} {attr path : String} (hx : '.' ∉ x.toList)
    (h : (Expr.attribute value attr).dottedPath? = some path) : path ≠ x := by
  obtain ⟨front, -, rfl⟩ := Option.map_eq_some_iff.1 h
  rintro rfl
  exact hx (by simp [String.toList_append])

/-- An assignment to something else than a name leaves the bindings of names alone. -/
theorem column_assign (hx : '.' ∉ x.toList) (s : Scope) {target : Expr}
    (h : isBareName target = false) (kind : Container) :
    (s.assign target kind).1.column x = s.column x := by
  unfold assign
  split
  · cases h
  · split
    · exact s.column_recordKind (ne_of_dottedPath? hx ‹_›) kind
    · rfl
  · rfl

theorem declaresHere_of_column {s : Scope} {kind : Container} {rest : List (Option Binding)}
    (h : s.column x = some ⟨true, kind⟩ :: rest) : s.declaresHere x = true := by
  have here : s.current.bindings.get? x = some ⟨true, kind⟩ := (List.cons.inj h).1
  rw [declaresHere, Frame.declares, here]
  rfl

theorem mode_perform (s : Scope) (op : Operation) : (s.perform op).mode = s.mode := by
  cases h : op.isFraming with
  | false => exact (s.perform_keeps h).mode
  | true =>
    cases op with
    | push kind => exact s.mode_push kind
    | pop => exact s.mode_pop
    | _ => cases h

theorem mode_performAll (s : Scope) (ops : List Operation) :
    (s.performAll ops).mode = s.mode := by
  induction ops generalizing s with
  | nil => rfl
  | cons op ops ih => exact (ih _).trans (s.mode_perform op)

end Scope

/-! ## What is known of the bindings -/

/-- The bindings of a name from the innermost frame out to that of a body that bound it to a value
of a certain kind : a body that has not bound it again, as the flags say, has none or takes over
that kind. Nothing is known once the body is closed. -/
inductive Sees (kind : Container) : List Bool → List (Option Binding) → Prop where
  | closed (column : List (Option Binding)) : Sees kind [] column
  | own {here : Bool} {binding : Option Binding} {column : List (Option Binding)} :
      (here = false → binding = some ⟨true, kind⟩) → Sees kind [here] (binding :: column)
  | inner {here next : Bool} {around : List Bool} {binding : Option Binding}
      {column : List (Option Binding)} :
      (here = false → ∀ found, binding = some found → found.kind = kind) →
      Sees kind (next :: around) column → Sees kind (here :: next :: around) (binding :: column)

namespace Sees

variable {kind : Container} {here : Bool} {around rebound : List Bool} {x : String} {s : Scope}
  {binding : Option Binding} {column : List (Option Binding)}

/-- With a flag set, the innermost binding does not matter. -/
theorem hidden (h : Sees kind (here :: around) column) (other : Option Binding) :
    Sees kind (true :: around) (other :: column.tail) := by
  cases h with
  | own _ => exact .own nofun
  | inner _ houter => exact .inner nofun houter

theorem flag (h : Sees kind (here :: around) column) (more : Bool) :
    Sees kind ((here || more) :: around) column := by
  cases more with
  | false => rwa [Bool.or_false]
  | true =>
    rw [Bool.or_true]
    match column, h with
    | binding :: _, h => exact h.hidden binding

/-- Where no flag is set, the innermost binding is of the kind. -/
theorem lookup (h : Sees kind (here :: around) column) (hflags : (here :: around).any id = false) :
    ∃ found, column.findSome? id = some found ∧ found.kind = kind := by
  induction around generalizing here column with
  | nil =>
    cases h with
    | own hbinding =>
      obtain rfl := hbinding (by simpa using hflags)
      exact ⟨_, rfl, rfl⟩
  | cons next around ih =>
    cases h with
    | @inner _ _ _ binding _ hbinding houter =>
      obtain ⟨hhere, hrest⟩ : here = false ∧ (next :: around).any id = false := by
        simpa using hflags
      cases binding with
      | none => simpa using ih houter hrest
      | some found => exact ⟨found, rfl, hbinding hhere found rfl⟩

theorem kindOf (h : Sees kind (here :: around) (s.column x))
    (hflags : (here :: around).any id = false) : s.kindOf x = kind := by
  obtain ⟨found, hfound, rfl⟩ := h.lookup hflags
  rw [Scope.kindOf, s.lookup?_eq_column, hfound]
  rfl

/-- The name is declared in the innermost body. -/
theorem declare (h : Sees kind (here :: around) (s.column x)) (new : Container) :
    Sees kind (true :: around) ((s.declare x new).column x) := by
  rw [s.column_declare]
  exact h.hidden _

/-- Some name is declared in the innermost body. -/
theorem declareName (h : Sees kind (here :: around) (s.column x)) (name : String)
    (new : Container) :
    Sees kind ((here || name == x) :: around) ((s.declare name new).column x) := by
  by_cases hname : name = x
  · subst hname
    simpa using h.declare new
  · rw [s.column_declare_of_ne hname]
    exact h.flag _

/-- A name that takes over the kind that is seen is seen with that kind. -/
theorem declareSeen (h : Sees kind (here :: around) (s.column x)) (name : String) :
    Sees kind ((here || name == x && around.any id) :: around)
      ((s.declare name (s.kindOf name)).column x) := by
  cases hflags : (here :: around).any id with
  | true =>
    -- a flag is set already, and so is that of the innermost body
    have named := h.declareName name (s.kindOf name)
    cases here with
    | true => simpa using named
    | false =>
      have outer : around.any id = true := by simpa using hflags
      rwa [outer, Bool.and_true]
  | false =>
    obtain ⟨rfl, outer⟩ : here = false ∧ around.any id = false := by simpa using hflags
    rw [outer, Bool.and_false, Bool.or_false]
    by_cases hname : name = x
    · subst hname
      rw [h.kindOf hflags, s.column_declare]
      cases h with
      | own _ => exact .own fun _ => rfl
      | inner _ houter => exact .inner (fun _ _ hfound => by cases hfound; rfl) houter
    · rwa [s.column_declare_of_ne hname]

theorem share (h : Sees kind (here :: around) (s.column x)) (names : List String) :
    Sees kind ((here || names.contains x && around.any id) :: around)
      ((declareGlobals names s).column x) := by
  induction names generalizing here s with
  | nil => simpa [declareGlobals] using h
  | cons name names ih =>
    have rest := ih (h.declareSeen name)
    rwa [Bool.or_assoc, ← Bool.and_or_distrib_right, Bool.beq_comm, ← List.contains_cons] at rest

/-- A declaration without a value changes nothing in the body that bound the name. -/
theorem annotateName (h : Sees kind (here :: around) (s.column x)) (name : String)
    (new : Container) :
    Sees kind ((here || name == x && !around.isEmpty) :: around)
      ((s.annotate (.name name) new).column x) := by
  change Sees kind _ ((if s.declaresHere name then s else s.declare name new).column x)
  split
  · exact h.flag _
  · rename_i hnot
    by_cases hname : name = x
    · subst hname
      cases around with
      | cons next around => simpa using h.declare new
      | nil =>
        cases here with
        | true => exact h.declare new
        | false =>
          have declared : s.declaresHere name = true := by
            rw [Scope.column_eq] at h
            cases h with
            | own hbinding =>
              exact Scope.declaresHere_of_column (by rw [Scope.column_eq, hbinding rfl])
          exact absurd declared hnot
    · rw [s.column_declare_of_ne hname]
      exact h.flag _

/-- The flags follow what an operation does to the bindings of a name. -/
theorem perform (hx : '.' ∉ x.toList) (hmode : s.mode = .lexical)
    (h : Sees kind rebound (s.column x)) (op : Operation) :
    Sees kind (op.track x rebound) ((s.perform op).column x) := by
  cases rebound with
  | nil => exact .closed _
  | cons here around =>
    have field {target : Expr} (hb : isBareName target = false) (new : Container) :
        Sees kind ((here || false) :: around) ((s.assign target new).1.column x) := by
      rw [s.column_assign hx hb]
      exact h.flag false
    cases op with
    | push frame =>
      rw [Scope.perform, Scope.column_push hmode]
      exact .inner (fun _ _ hfound => by cases hfound) h
    | pop =>
      cases around with
      | nil => exact .closed _
      | cons next around =>
        have houter : s.outer ≠ [] := by
          intro hnil
          rw [Scope.column_eq, hnil] at h
          cases h with
          | inner _ hpopped => cases hpopped
        rw [Scope.column_pop hmode houter] at h
        cases h with
        | inner _ hpopped => exact hpopped
    | define name => exact h.flag false
    | parameter name new => exact h.declareName name new
    | introduce name => exact h.declareName name .unknown
    | share names => exact h.share names
    | assign target new =>
      cases hb : isBareName target with
      | true =>
        obtain ⟨id, rfl⟩ := exists_of_isBareName hb
        exact h.declareName id new
      | false =>
        have same := field hb new
        cases target <;> first | exact same | cases hb
    | annotate target new =>
      cases hb : isBareName target with
      | true =>
        obtain ⟨id, rfl⟩ := exists_of_isBareName hb
        exact h.annotateName id new
      | false =>
        have same := field hb new
        cases target <;> first | exact same | cases hb

theorem performAll (hx : '.' ∉ x.toList) (hmode : s.mode = .lexical)
    (h : Sees kind rebound (s.column x)) (ops : List Operation) :
    Sees kind (ops.foldl (fun rebound op => op.track x rebound) rebound)
      ((s.performAll ops).column x) := by
  induction ops generalizing rebound s with
  | nil => exact h
  | cons op ops ih => exact ih ((s.mode_perform op).trans hmode) (h.perform hx hmode op)

end Sees

/-- A name is of the kind that its body bound it to as long as that binding is seen. -/
theorem kindOf_of_stillBound {x : String} (hx : '.' ∉ x.toList) {s : Scope}
    (hmode : s.mode = .lexical) (kind : Container) {ops : List Operation}
    (h : stillBound x ops = true) :
    ((s.perform (.assign (.name x) kind)).performAll ops).kindOf x = kind := by
  have bound : Sees kind [false] ((s.perform (.assign (.name x) kind)).column x) := by
    change Sees kind [false] ((s.declare x kind).column x)
    rw [s.column_declare]
    exact .own fun _ => rfl
  have behind := bound.performAll hx (s := s.perform _) ((s.mode_perform _).trans hmode) ops
  unfold stillBound at h
  cases hrebound : ops.foldl (fun rebound op => op.track x rebound) [false] with
  | nil => simp [hrebound] at h
  | cons here around =>
    rw [hrebound] at h behind
    exact behind.kindOf (by simpa using h)

/-! ## Calls in an expression -/

namespace Expr

variable {view : View} {e : Expr} {x method renamed : String}

/-- A text is the call of a method on a name with certain arguments. -/
def IsCallText (view : View) (x method : String) (args : List Expr) (text : String) : Prop :=
  ∃ texts, writeArguments view args = .ok texts ∧
    x ++ "." ++ method ++ "(" ++ commaSeparated texts ++ ")" = text

/-- In a tagged text of an expression, what is tagged as a call of a method on a name has another
name for the method, and every such call is there that is not left out. -/
def CallsRenamed (view : View) (e : Expr) (x method renamed : String) (m : Tagged) : Prop :=
  ∀ a args keywords, e.at? a = some (.call (.attribute (.name x) method) args keywords) →
    m.Stretches (fun b text => b = a → IsCallText view x renamed args text) ∧
    (e.isLeftOut a = false → 0 < m.count a)

theorem isCallText_of_write {args : List Expr} {keywords : List (Keyword Expr)} {pos : Position}
    {text : String}
    (h : (Expr.call (.attribute (.name x) method) args keywords).write view pos = .ok text) :
    IsCallText view x (view.methodName (.name x) method) args text := by
  obtain ⟨called, hc, -, texts, ht, rfl⟩ := write_call_eq_ok.1 h
  obtain rfl : x ++ "." ++ view.methodName (.name x) method = called := by
    simpa [callee, write, pure_eq_ok] using hc
  exact ⟨texts, ht, rfl⟩

/-- The tagged text of an expression in a position. -/
def tagAt (view : View) (e : Expr) (pos : Position) : Tagged :=
  placed pos e (e.tag view)

theorem text_tagAt {pos : Position} {written : String} (h : e.write view pos = .ok written) :
    (e.tagAt view pos).text = written :=
  (tagsRight view e pos written h).text

theorem count_tagAt (view : View) (e : Expr) (pos : Position) (a : Address) :
    (e.tagAt view pos).count a = e.copies a := by
  rw [← count_tag view]
  unfold tagAt placed
  split
  · exact count_enclosed a e _
  · rfl

/-- Calls of a method are written under its name in the view. -/
theorem callsRenamed (hname : view.methodName (.name x) method = renamed) {pos : Position}
    {written : String} (h : e.write view pos = .ok written) :
    e.CallsRenamed view x method renamed (e.tagAt view pos) := by
  intro a args keywords ha
  have named : ∀ b text, CallText view e b text → b = a → IsCallText view x renamed args text := by
    rintro b text ⟨call, hb, -, hw⟩ rfl
    obtain rfl := Option.some.inj (ha.symm.trans hb)
    exact hname ▸ isCallText_of_write hw
  refine ⟨((tagsRight view e pos written h).mono named).stretches, fun hout => ?_⟩
  rw [count_tagAt]
  exact copies_pos ha rfl hout

end Expr

/-! ## The entries of a table -/

/-- The classes of the target whose methods are told apart. -/
theorem className?_ofClass {target : String} (h : target ∈ ["list", "map", "bytes"]) :
    (Container.ofClass target).className? = some target := by
  simp only [List.mem_cons, List.not_mem_nil, or_false] at h
  rcases h with rfl | rfl | rfl <;> rfl

/-- A method entry takes effect on a name that a class entry gives the class to. -/
theorem methodName_of_entries {naming : Naming} {c target method renamed x : String}
    (hclass : naming.classes.get? c = some target) (htarget : target ∈ ["list", "map", "bytes"])
    (hmethod : (naming.methods.get? target).bind (·.get? method) = some renamed)
    {args : List Expr} {keywords : List (Keyword Expr)} {s : Scope}
    (hx : s.kindOf x = .ofValue naming (.call (.name c) args keywords)) :
    View.methodName ⟨naming, s⟩ (.name x) method = renamed := by
  have made : Container.ofValue naming (.call (.name c) args keywords) = .ofClass target := by
    simp [Container.ofValue, Naming.isContainer, NameMap.contains, Naming.className, hclass]
  have received : View.receiverKind ⟨naming, s⟩ (.name x) = .ofClass target := hx.trans made
  rw [View.methodName, received, className?_ofClass htarget]
  simp [Naming.methodName, hmethod]

/-- The view of an expression that a script writes behind events as of some operations ago. -/
def viewBehind (style : Style) (events : List Event) (back : Nat) : View :=
  ⟨style.naming, (Scope.start style.scopeMode).performAll ((operationsOf events).rdrop back)⟩

/-- A name that has been bound, and is still seen with that binding, is of the kind of its value. -/
theorem kindOf_viewBehind {style : Style} (hmode : style.scopeMode = .lexical) {x : String}
    (hx : '.' ∉ x.toList) {events : List Event} {back : Nat} {before between : List Operation}
    {kind : Container}
    (hassigned : (operationsOf events).rdrop back = before ++ .assign (.name x) kind :: between)
    (hbound : stillBound x between = true) :
    (viewBehind style events back).scope.kindOf x = kind := by
  rw [viewBehind, hassigned, Scope.performAll_append, Scope.performAll_cons]
  exact kindOf_of_stillBound hx ((Scope.mode_performAll _ _).trans hmode) kind hbound

/-! ## Entries of other classes -/

/-- Two name tables have the same names but for the methods of classes that are no list, map or
byte buffer. -/
structure Naming.SameEntries (n m : Naming) : Prop where
  names : n.SameNames m
  methods : ∀ target ∈ ["list", "map", "bytes"], ∀ method,
    (n.methods.get? target).bind (·.get? method) = (m.methods.get? target).bind (·.get? method)

theorem mem_of_className? {kind : Container} {target : String} (h : target ∈ kind.className?) :
    target ∈ ["list", "map", "bytes"] := by
  cases kind <;> cases h <;> decide

namespace Naming

/-- Whatever the kind of a receiver is, its class is one of those whose entries are the same. -/
theorem SameEntries.agreesOn {n m : Naming} (h : n.SameEntries m) :
    n.AgreesOn (fun _ => True) m := by
  refine ⟨h.names, fun kind _ target htarget method => ?_⟩
  rw [Naming.methodName, Naming.methodName, h.methods target (mem_of_className? htarget)]

theorem get?_foldl_addMethods {target : String} {entries : List (String × NameMap String)}
    (h : ∀ entry ∈ entries, entry.1 ≠ target) (methods : NameMap (NameMap String)) :
    (entries.foldl addMethods methods).get? target = methods.get? target := by
  induction entries generalizing methods with
  | nil => rfl
  | cons entry entries ih =>
    obtain ⟨hentry, hentries⟩ := List.forall_mem_cons.1 h
    rw [List.foldl_cons, ih hentries, addMethods, NameMap.get?_put,
      if_neg (by simpa using hentry.symm)]

/-- Added methods of other classes leave the entries of lists, maps and byte buffers alone. -/
theorem sameEntries_extend (n : Naming) {methods : NameMap (NameMap String)}
    (h : ∀ entry ∈ methods.entries, entry.1 ∉ ["list", "map", "bytes"]) :
    n.SameEntries (n.extend .empty methods) := by
  refine ⟨⟨fun _ => rfl, fun _ => rfl⟩, fun target htarget method => ?_⟩
  have other : ∀ entry ∈ methods.entries, entry.1 ≠ target :=
    fun entry hm heq => h entry hm (heq ▸ htarget)
  rw [extend, get?_foldl_addMethods other]

end Naming

/-- A script is emitted alike, or refused alike, with any two tables that differ in the methods of
other classes only. -/
theorem emitScript_of_sameEntries {style : Style} {naming' : Naming}
    (h : style.naming.SameEntries naming') (script : Block) :
    emitScript style script = emitScript { style with naming := naming' } script := by
  have allKinds : BlockKindsIn (fun _ => True) style.naming script :=
    fun _ _ => ⟨fun _ _ => Expr.everywhere_of_forall fun _ => trivial, fun _ _ => trivial⟩
  exact emitScript_alike (K := fun _ => True) trivial h.agreesOn allKinds style

/-! ## Entries in a script -/

/-- With one frame for each body, let a name be bound to a new container of a type that has an entry
for a class of the target, and let that class be a list, a map or a byte buffer and have an entry
for a method. Wherever the script writes an expression and this binding is still seen, every call of
the method on the name in that expression is written under the configured name. Of the entries for
all other classes none is ever used : in either scope mode, tables that differ in these only lead to
the same end for every script. -/
theorem method_entries_take_effect :
    (∀ {style : Style}, style.scopeMode = .lexical →
      ∀ {script : Block} {text : String}, emitScript style script = .ok text →
      ∀ {c target method renamed : String}, style.naming.classes.get? c = some target →
      target ∈ ["list", "map", "bytes"] →
      (style.naming.methods.get? target).bind (·.get? method) = some renamed →
      ∀ {x : String}, '.' ∉ x.toList →
      ∀ {events after : List Event} {e : Expr} {back : Nat} {before between : List Operation}
        {args : List Expr} {keywords : List (Keyword Expr)},
      blockEvents style.naming false script = events ++ .write e back :: after →
      (operationsOf events).rdrop back = before ++
        .assign (.name x) (.ofValue style.naming (.call (.name c) args keywords)) :: between →
      stillBound x between = true →
      ∃ pos front behind,
        front ++ (e.tagAt (viewBehind style events back) pos).text ++ behind = text ∧
        Yields style.naming (.start style.scopeMode) [] events front ∧
        Yields style.naming (.start style.scopeMode) (operationsOf events) after behind ∧
        e.write (viewBehind style events back) pos =
          .ok (e.tagAt (viewBehind style events back) pos).text ∧
        e.CallsRenamed (viewBehind style events back) x method renamed
          (e.tagAt (viewBehind style events back) pos)) ∧
    ∀ {style : Style} {naming' : Naming}, style.naming.SameEntries naming' →
      ∀ script, emitScript style script = emitScript { style with naming := naming' } script := by
  refine ⟨?shown, emitScript_of_sameEntries⟩
  case shown =>
    intro style hmode script text h c target method renamed hclass htarget hmethod x hx events after
      e back before between args keywords hevents hassigned hbound
    have yielded := emitScript_yields h
    rw [hevents] at yielded
    obtain ⟨first, rest, rfl, hfirst, hrest⟩ := yielded.split
    have kind := kindOf_viewBehind hmode hx hassigned hbound
    cases hrest with
    | @write _ _ _ _ pos front written behind hw hbehind =>
      have spelled : (e.tagAt (viewBehind style events back) pos).text = written :=
        Expr.text_tagAt hw
      refine ⟨pos, first ++ front, behind, ?_, hfirst.before front, hbehind, ?_, ?_⟩
      · rw [spelled]
        simp [String.append_assoc]
      · rw [spelled]
        exact hw
      · exact Expr.callsRenamed (methodName_of_entries hclass htarget hmethod kind) hw

/-- A name of the script is seen in a function. Its method is called there under the new name, for
the second target of an assignment as well. More entries, for a class that is no container and for
one whose name only sounds like that of a list, change nothing. -/
theorem method_entries_take_effect_in_function :
    let naming : Naming := Naming.builtin.extend (.ofList [("deque", "list")])
      (.ofList [("list", .ofList [("appendleft", "insert")])])
    let style : Style := { naming }
    let more : NameMap (NameMap String) := .ofList
      [("deque", .ofList [("appendleft", "push")]), ("List", .ofList [("appendleft", "add")])]
    let call : Expr := .call (.attribute (.name "x") "appendleft") [.name "y"] []
    let script : Block := [⟨1, .assign [.name "x"] (.call (.name "deque") [] [])⟩,
      ⟨2, .functionDef "f" [{ name := "y" }] [] [⟨3, .assign [.name "x", .name "y"] call⟩]⟩]
    let between : List Operation := [.define "f", .push .functionBody, .parameter "y" .unknown]
    let events : List Event := writes [.name "x", .call (.name "deque") [] []] ++
      .perform (.assign (.name "x") .sequence) :: between.map .perform ++
      writes [.name "x", call] ++ .perform (.assign (.name "x") .unknown) :: writes [.name "y"]
    let after : List Event := [.perform (.assign (.name "y") .unknown), .perform .pop]
    let text := "var x = list()\ndef f(y)\n    var x = x.insert(y)\n    y = x.insert(y)\nend\n"
    emitScript style script = .ok text ∧
      blockEvents naming false script = events ++ .write call 1 :: after ∧
      stillBound "x" between = true ∧
      (∃ pos front behind,
        front ++ (call.tagAt (viewBehind style events 1) pos).text ++ behind = text ∧
        call.CallsRenamed (viewBehind style events 1) "x" "appendleft" "insert"
          (call.tagAt (viewBehind style events 1) pos)) ∧
      naming.SameEntries (naming.extend .empty more) ∧
      emitScript { style with naming := naming.extend .empty more } script = .ok text := by
  intro naming style more call script between events after text
  have run : emitScript style script = .ok text := rfl
  have written : blockEvents naming false script = events ++ .write call 1 :: after := rfl
  have assigned : (operationsOf events).rdrop 1 = [] ++
      .assign (.name "x") (.ofValue naming (.call (.name "deque") [] [])) :: between := rfl
  obtain ⟨pos, front, behind, htext, -, -, -, renamed⟩ :=
    method_entries_take_effect.1 rfl run
      (show naming.classes.get? "deque" = some "list" from rfl) (by decide)
      (show (naming.methods.get? "list").bind (·.get? "appendleft") = some "insert" from rfl)
      (by decide) written assigned rfl
  have same : naming.SameEntries (naming.extend .empty more) :=
    naming.sameEntries_extend (by decide)
  have alike : emitScript style script =
      emitScript { style with naming := naming.extend .empty more } script :=
    method_entries_take_effect.2 same script
  exact ⟨run, written, rfl, ⟨pos, front, behind, htext, renamed⟩, same, alike.symm.trans run⟩

/-- A type with a class that is no list, map or byte buffer, and an entry for a method of that class
under which a call of the method is not written. -/
theorem entries_of_other_class_unread :
    let naming : Naming := Naming.builtin.extend (.ofList [("deque", "deque")])
      (.ofList [("deque", .ofList [("append", "push")])])
    let style : Style := { naming }
    let call : Expr := .call (.attribute (.name "x") "append") [.constant (.int "1")] []
    let script : Block := [⟨1, .assign [.name "x"] (.call (.name "deque") [] [])⟩,
      ⟨2, .expr call⟩]
    let bound : Operation :=
      .assign (.name "x") (.ofValue naming (.call (.name "deque") [] []))
    let events : List Event :=
      writes [.name "x", .call (.name "deque") [] []] ++ [.perform bound]
    naming.classes.get? "deque" = some "deque" ∧
      (naming.methods.get? "deque").bind (·.get? "append") = some "push" ∧
      blockEvents naming false script = events ++ writes [call] ∧
      operationsOf events = [bound] ∧ stillBound "x" [] = true ∧
      emitScript style script = .ok "var x = deque()\nx.append(1)\n" ∧
      call.write (viewBehind style events 0) .whole = .ok "x.append(1)" ∧
      ¬call.CallsRenamed (viewBehind style events 0) "x" "append" "push"
        (call.tagAt (viewBehind style events 0) .whole) := by
  intro naming style call script bound events
  have written : call.write (viewBehind style events 0) .whole = .ok "x.append(1)" := rfl
  refine ⟨rfl, rfl, rfl, rfl, rfl, rfl, written, fun renamed => ?_⟩
  have tagged := Expr.tag_eq (viewBehind style events 0) call
  have text := Expr.text_tagAt written
  obtain ⟨stretches, -⟩ := renamed [] [.constant (.int "1")] [] rfl
  rw [Expr.tagAt, Expr.placed, if_neg (by decide), tagged] at stretches text
  -- the whole expression is the call, so its text would have the new name
  obtain ⟨texts, ht, same⟩ := stretches.1 rfl
  obtain rfl : ["1"] = texts := Except.ok.inj ht
  exact absurd (text.symm.trans same.symm) (by decide)

end Berrify
