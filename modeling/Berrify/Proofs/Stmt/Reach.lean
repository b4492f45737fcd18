import Berrify.Proofs.Stmt.Declarations

/-!
# How far a declaration reaches

A scope has one frame for each body, while the lines of a body stand in nested blocks.
`Outline.placed` gives the lines of a body with the blocks around each of them; a `var` line reaches
the lines behind it in its own block and in the blocks inside of that one (`InReach`).

Since all blocks of a body share a frame, the `var` line for a name is the first line of the body
that declares or assigns to it, in whatever block that line stands, and there is no other. So an
assignment is in reach of a declaration of its name if and only if the block of this first line is
around it (`DeclaredFirst`, `declaredFirst_of_obeys`). The second of two branches is where it is not
(`assignment_out_of_reach`).
-/

namespace Berrify

/-! ## Lines with the blocks around them -/

/-- A line of a body with the blocks of the body around it, the outermost first. A block is given by
its position among those of the block around it. -/
structure PlacedLine where
  path : List Nat
  text : String
  role : Role

/-- The lines of a body without those of the bodies inside of it, in a block some of whose blocks
were counted already. -/
def Outline.placed (path : List Nat) (counted : Nat) : Outline → List PlacedLine
  | nil => []
  | line text role rest => ⟨path, text, role⟩ :: rest.placed path counted
  | block inner rest => inner.placed (path ++ [counted]) 0 ++ rest.placed path (counted + 1)
  | body _ _ rest => rest.placed path counted

/-- The placed lines are the lines of the body. -/
theorem Outline.map_placed (o : Outline) (path : List Nat) (counted : Nat) :
    (o.placed path counted).map (fun line => (line.text, line.role)) = o.own := by
  induction o generalizing path counted with
  | nil => rfl
  | line text role rest ih => rw [placed, List.map_cons, ih, own]
  | block inner rest ih₁ ih₂ => rw [placed, List.map_append, ih₁, ih₂, own]
  | body params inner rest _ ih => exact ih path counted

namespace Role

/-- Whether a line declares a name or assigns to it. -/
def writes (x : String) : Role → Bool
  | declares y => y == x
  | assigns (.name y) => y == x
  | _ => false

/-- Whether a loop, handler or `global` line introduces a name. -/
def isIntroductionOf (x : String) : Role → Bool
  | introduces names => names.contains x
  | _ => false

theorem provides_eq (x : String) (role : Role) :
    role.provides x = (role.isDeclarationOf x || role.isIntroductionOf x) := by
  cases role <;> simp [provides, isDeclarationOf, isIntroductionOf]

theorem isDeclarationOf_eq_true {x : String} {role : Role} :
    role.isDeclarationOf x = true ↔ role = .declares x := by
  cases role <;> simp [isDeclarationOf]

/-- A line that writes a name declares it or assigns to it. -/
theorem writes_eq_true {x : String} {role : Role} :
    role.writes x = true ↔ role = .declares x ∨ role = .assigns (.name x) := by
  cases role with
  | declares y => simp [writes]
  | assigns target => cases target <;> simp [writes]
  | introduces names => simp [writes]
  | other => simp [writes]

end Role

/-! ## Reach -/

/-- One of the lines before declares a name, in the block at a path or in one around it. -/
def InReach (x : String) (before : List PlacedLine) (path : List Nat) : Prop :=
  ∃ line ∈ before, line.role = .declares x ∧ line.path <+: path

/-- A line of a body assigns to a name without `var`, and the name is no parameter of the body and
none that a loop, handler or `global` line of the body introduces. -/
structure PlainAssignment (params : List String) (lines before : List PlacedLine)
    (line : PlacedLine) (behind : List PlacedLine) (x : String) : Prop where
  place : lines = before ++ line :: behind
  assigns : line.role = .assigns (.name x)
  parameter : x ∉ params
  introduced : ∀ other ∈ lines, other.role.isIntroductionOf x = false

/-- Every such assignment is in reach of a declaration of its name. -/
def AlwaysInReach (params : List String) (lines : List PlacedLine) : Prop :=
  ∀ before line behind x, PlainAssignment params lines before line behind x →
    InReach x before line.path

/-- The first of the lines that write a name declares it, no other line does, and a line behind it
is in reach of a declaration if and only if it stands in the block of that first line or inside of
this block. -/
structure DeclaredFirst (x : String) (front : List PlacedLine) (declaration : PlacedLine)
    (between : List PlacedLine) (line : PlacedLine) (behind : List PlacedLine) : Prop where
  declares : declaration.role = .declares x
  first : ∀ other ∈ front, other.role.writes x = false
  only : ∀ other ∈ between ++ line :: behind, other.role.isDeclarationOf x = false
  reach : InReach x (front ++ declaration :: between) line.path ↔ declaration.path <+: line.path

/-- Where a name is not declared yet and nothing introduces it, the first line that writes it
declares it, and no line behind that does. -/
theorem exists_first_of_obeys {x : String} {lines : List PlacedLine} {declared : String → Bool}
    (h : Obeys declared (lines.map (·.role))) (hx : declared x = false)
    (hintroduced : ∀ line ∈ lines, line.role.isIntroductionOf x = false)
    (hwrites : ∃ line ∈ lines, line.role.writes x = true) :
    ∃ front declaration behind, lines = front ++ declaration :: behind ∧
      declaration.role = .declares x ∧ (∀ other ∈ front, other.role.writes x = false) ∧
      ∀ other ∈ behind, other.role.isDeclarationOf x = false := by
  induction lines generalizing declared with
  | nil => simp at hwrites
  | cons line lines ih =>
    have later := after_eq declared line.role x
    rw [hx, Bool.or_false, Role.provides_eq, hintroduced line List.mem_cons_self,
      Bool.or_false] at later
    cases hw : line.role.writes x with
    | true =>
      have declares : line.role = .declares x := by
        refine (Role.writes_eq_true.1 hw).resolve_right fun assigns => ?_
        have allowed : line.role.Allowed declared := h.1
        rw [assigns] at allowed
        exact Bool.false_ne_true (hx.symm.trans allowed)
      rw [Role.isDeclarationOf_eq_true.2 declares] at later
      have alone := not_declares_of_obeys h.2 later
      exact ⟨[], line, lines, rfl, declares, by simp, fun other hm =>
        alone other.role (List.mem_map_of_mem hm)⟩
    | false =>
      have silent : line.role.isDeclarationOf x = false := by
        refine Bool.eq_false_iff.2 fun declares => ?_
        rw [Role.isDeclarationOf_eq_true.1 declares, Role.writes, beq_self_eq_true] at hw
        cases hw
      rw [silent] at later
      obtain ⟨other, hm, ho⟩ := hwrites
      have rest : other ∈ lines := by
        refine (List.mem_cons.1 hm).resolve_left ?_
        rintro rfl
        exact Bool.false_ne_true (hw.symm.trans ho)
      obtain ⟨front, declaration, behind, rfl, hd, hf, hb⟩ := ih h.2 later
        (fun l hl => hintroduced l (List.mem_cons_of_mem line hl)) ⟨other, rest, ho⟩
      exact ⟨line :: front, declaration, behind, rfl, hd, List.forall_mem_cons.2 ⟨hw, hf⟩, hb⟩

/-- The only declaration of a name decides what is in its reach. -/
theorem inReach_iff {x : String} {front between : List PlacedLine} {declaration : PlacedLine}
    {path : List Nat} (hd : declaration.role = .declares x)
    (hfront : ∀ other ∈ front, other.role.writes x = false)
    (hbetween : ∀ other ∈ between, other.role.isDeclarationOf x = false) :
    InReach x (front ++ declaration :: between) path ↔ declaration.path <+: path := by
  refine ⟨?_, fun h => ⟨declaration, by simp, hd, h⟩⟩
  rintro ⟨line, hm, declares, h⟩
  rcases List.mem_append.1 hm with hm | hm
  · have silent := hfront line hm
    rw [declares, Role.writes, beq_self_eq_true] at silent
    cases silent
  · rcases List.mem_cons.1 hm with rfl | hm
    · exact h
    · have silent := hbetween line hm
      rw [Role.isDeclarationOf_eq_true.2 declares] at silent
      cases silent

/-- In a body that obeys, a name is declared by the first line that writes it. -/
theorem PlainAssignment.declaredFirst {params : List String} {lines before behind : List PlacedLine}
    {line : PlacedLine} {x : String} (h : PlainAssignment params lines before line behind x)
    (hobeys : Obeys params.contains (lines.map (·.role))) :
    ∃ front declaration between, before = front ++ declaration :: between ∧
      DeclaredFirst x front declaration between line behind := by
  have unknown : params.contains x = false := by
    rw [Bool.eq_false_iff, Ne, List.contains_iff_mem]
    exact h.parameter
  have introduced : ∀ other ∈ before, other.role.isIntroductionOf x = false := fun other hm =>
    h.introduced other (by simp [h.place, hm])
  rw [h.place, List.map_append, List.map_cons, obeys_append, Obeys, h.assigns] at hobeys
  obtain ⟨hbefore, known, hbehind⟩ := hobeys
  have writer : ∃ other ∈ before, other.role.writes x = true := by
    have provided : declaredAfter params.contains (before.map (·.role)) x = true := known
    rw [declaredAfter_eq, unknown, Bool.or_false, List.any_map, List.any_eq_true] at provided
    obtain ⟨other, hm, hp⟩ := provided
    rw [Function.comp_apply, Role.provides_eq, introduced other hm, Bool.or_false] at hp
    exact ⟨other, hm, Role.writes_eq_true.2 (.inl (Role.isDeclarationOf_eq_true.1 hp))⟩
  obtain ⟨front, declaration, between, rfl, hd, hfront, hbetween⟩ :=
    exists_first_of_obeys hbefore unknown introduced writer
  have alone := not_declares_of_obeys hbehind (x := x) known
  refine ⟨front, declaration, between, rfl, hd, hfront, fun other hm => ?_,
    inReach_iff hd hfront hbetween⟩
  rcases List.mem_append.1 hm with hm | hm
  · exact hbetween other hm
  · rcases List.mem_cons.1 hm with rfl | hm
    · rw [h.assigns]
      rfl
    · exact alone other.role (List.mem_map_of_mem hm)

/-! ## Scripts -/

/-- What holds of all lines of an outline holds of those of each of its bodies. -/
theorem Outline.All.of_body {p : String → Role → Prop} {o : Outline} (h : o.All p)
    {body : List String × Outline} (hm : body ∈ ([], o) :: o.bodies) : body.2.All p := by
  rcases List.mem_cons.1 hm with rfl | hm
  · exact h
  · exact h.bodies body hm

/-- An assignment without `var` to a name that only assignments introduce stands behind exactly one
`var` line of its body for the name, which is the first line of the body that writes the name. It is
in reach of a declaration if and only if that line stands in the block of the assignment or in one
around it, so in particular if that line stands in no block of the body. -/
theorem assignment_behind_declaration {style : Style} {script : Block} {text : String}
    (hmode : style.scopeMode = .lexical) (hmembers : style.declareMembers = false)
    (h : emitScript style script = .ok text) :
    ∃ s o, Emits ⟨style, .script⟩ (.block script) (.start style.scopeMode) s o ∧
      text = Line.joinAll o.lines ∧
      ∀ body ∈ ([], o) :: o.bodies,
        (∀ line ∈ body.2.placed [] 0, Shaped line.text line.role) ∧
        (style.naming.WellNamed → BlockWellNamed script → ReadsAsDeclared body.2.own) ∧
        ∀ before line behind x,
          PlainAssignment body.1 (body.2.placed [] 0) before line behind x →
          ∃ front declaration between, before = front ++ declaration :: between ∧
            DeclaredFirst x front declaration between line behind := by
  obtain ⟨s, o, ho, htext⟩ := emitScript_eq_ok h
  refine ⟨s, o, ho, htext, fun body hm => ?_⟩
  have obedient := ho.obedient hmode
  have obeys : Obeys body.1.contains body.2.roles := by
    rcases List.mem_cons.1 hm with rfl | hm
    · exact obedient.obeys
    · exact obedient.bodies body hm
  have shaped := (ho.shaped.of_body hm).own
  refine ⟨fun line hl => ?_, fun hn hw => ?_, ?_⟩
  · refine shaped (line.text, line.role) ?_
    rw [← body.2.map_placed [] 0]
    exact List.mem_map_of_mem (f := fun line => (line.text, line.role)) hl
  · have honest := ((ho.honest hn hmembers hw).of_body hm).own
    exact readsAsDeclared_of_honest shaped honest (declaresOnce_of_obeys obeys).once
  · rw [Outline.roles, ← body.2.map_placed [] 0, List.map_map] at obeys
    exact fun before line behind x assignment => assignment.declaredFirst obeys

/-- A function that assigns to a name twice, the second time in a branch. -/
theorem assignment_behind_declaration_of_function :
    let one : Expr := .constant (.int "1")
    let script : Block := [⟨1, .functionDef "f" [] [] [⟨2, .assign [.name "x"] one⟩,
      ⟨3, .branch (.name "a") [⟨4, .assign [.name "x"] (.name "a")⟩] []⟩]⟩]
    ∃ text, emitScript {} script = .ok text ∧ ∃ o : Outline, text = Line.joinAll o.lines ∧
      ∀ body ∈ ([], o) :: o.bodies, ∀ before line behind,
        PlainAssignment body.1 (body.2.placed [] 0) before line behind "x" →
        ∃ front declaration between, before = front ++ declaration :: between ∧
          DeclaredFirst "x" front declaration between line behind := by
  intro one script
  obtain ⟨text, run⟩ : ∃ text, emitScript {} script = .ok text := ⟨_, rfl⟩
  obtain ⟨-, o, -, htext, hbodies⟩ := assignment_behind_declaration rfl rfl run
  exact ⟨text, run, o, htext, fun body hm before line behind assignment =>
    (hbodies body hm).2.2 before line behind "x" assignment⟩

/-- Two branches that assign to the same name : the `var` line stands in the first of them, and the
second is out of its reach. -/
theorem assignment_out_of_reach :
    let script : Block := [⟨1, .branch (.name "a") [⟨2, .assign [.name "x"] (.constant (.int "1"))⟩]
      [⟨4, .assign [.name "x"] (.constant (.int "2"))⟩]⟩]
    emitScript {} script = .ok "if a\n    var x = 1\nelse\n    x = 2\nend\n" ∧
      ∃ s o, Emits ⟨{}, .script⟩ (.block script) (.start .lexical) s o ∧
        "if a\n    var x = 1\nelse\n    x = 2\nend\n" = Line.joinAll o.lines ∧
        ¬ AlwaysInReach [] (o.placed [] 0) := by
  intro script
  refine ⟨rfl, _, _, .blockCons (.branch rfl
    (.blockCons (.assign rfl (.targetsCons rfl .targetsNil)) .blockNil)
    (.otherwiseElse rfl (.clauseCons (by simp)
      (.blockCons (.assign rfl (.targetsCons rfl .targetsNil)) .blockNil)))) .blockNil,
    rfl, fun always => ?_⟩
  have assignment : PlainAssignment [] _ [⟨[], "if a", .other⟩, ⟨[0], "var x = 1", .declares "x"⟩,
      ⟨[], "else", .other⟩] ⟨[1], "x = 2", .assigns (.name "x")⟩ [⟨[], "end", .other⟩] "x" :=
    ⟨rfl, rfl, by simp, by simp [Role.isIntroductionOf]⟩
  obtain ⟨line, hm, declares, reach⟩ := always _ _ _ _ assignment
  simp only [List.mem_cons, List.not_mem_nil, or_false] at hm
  rcases hm with rfl | rfl | rfl
  · cases declares
  · exact absurd reach (by decide)
  · cases declares

end Berrify
