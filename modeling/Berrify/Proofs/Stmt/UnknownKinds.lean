import Berrify.Proofs.Stmt.Kinds

/-!
# Receivers of unknown kind

Methods are renamed on receivers of known kind only. In a script that makes no containers and has no
type hints that name one (`BlockUnkinded`), no kind but the unknown one occurs, and it has no
methods. So the tables of methods are never looked into, and two runs that differ in these tables
only come to the same end (`emission_ignores_methods`).
-/

namespace Berrify

/-! ## Expressions that make no containers -/

namespace Expr

/-- Whether an expression makes a container : a literal of a list, a map or a byte buffer, or the
call of a container type by its name. -/
def makesContainer (naming : Naming) : Expr → Bool
  | .list _ => true
  | .dict _ => true
  | .constant (.bytes _) => true
  | .call (.name id) _ _ => naming.isContainer id
  | _ => false

/-- No container is made, neither by an expression nor by anything in it. -/
def Unkinded (naming : Naming) (e : Expr) : Prop :=
  Everywhere (fun part => part.makesContainer naming = false) e

theorem ofValue_of_not_makesContainer {naming : Naming} {e : Expr}
    (h : e.makesContainer naming = false) : Container.ofValue naming e = .unknown := by
  unfold makesContainer at h
  split at h
  · cases h
  · cases h
  · cases h
  · rw [Container.ofValue, h, if_neg Bool.false_ne_true]
  · unfold Container.ofValue
    split <;> first | rfl | simp_all

end Expr

/-! ## Scripts that make no containers -/

namespace Stmt

/-- No expression of a statement makes a container, and no hint names one. -/
structure Unkinded (naming : Naming) (stmt : Stmt) : Prop where
  values : ∀ e ∈ stmt.values, e.Unkinded naming
  hints : ∀ hint ∈ stmt.hints, Container.ofHint naming hint = .unknown

end Stmt

/-- No statement in a block makes a container or has a hint that names one. -/
def BlockUnkinded (naming : Naming) (block : Block) : Prop :=
  ∀ stmt, Nested Stmt.blocks stmt block → stmt.node.Unkinded naming

theorem blockUnkinded_cons {naming : Naming} {stmt : Located Stmt} {rest : Block} :
    BlockUnkinded naming (stmt :: rest) ↔
      (stmt.node.Unkinded naming ∧ ∀ block ∈ stmt.node.blocks, BlockUnkinded naming block) ∧
        BlockUnkinded naming rest :=
  forall_nested_cons

/-- No kind is known in a script that makes no containers. -/
theorem BlockUnkinded.kindsIn {naming : Naming} {block : Block} (h : BlockUnkinded naming block) :
    BlockKindsIn (· = .unknown) naming block := by
  intro stmt hstmt
  obtain ⟨values, hints⟩ := h stmt hstmt
  exact ⟨fun e he => (values e he).mono fun _ => Expr.ofValue_of_not_makesContainer, hints⟩

/-- A script that makes no containers and has no type hints that name one is emitted alike, or
refused alike, with any two tables of methods. -/
theorem emission_ignores_methods {naming naming' : Naming} (h : naming.SameNames naming')
    {script : Block} (hscript : BlockUnkinded naming script) (style : Style) :
    emitScript { style with naming } script =
      emitScript { style with naming := naming' } script := by
  have agrees : naming.AgreesOn (· = .unknown) naming' :=
    ⟨h, fun kind hk target htarget => by cases hk; cases htarget⟩
  exact emitScript_alike (K := (· = .unknown)) rfl agrees hscript.kindsIn style

/-- A method of a list called on what a function gave back, with the tables in use and without. -/
theorem emission_ignores_methods_of_call :
    let script : Block := [⟨1, .assign [.name "x"] (.call (.name "f") [] [])⟩,
      ⟨2, .expr (.call (.attribute (.name "x") "append") [.constant (.int "1")] [])⟩]
    emitScript {} script =
        emitScript { naming := { Naming.builtin with methods := .empty } } script ∧
      emitScript {} script = .ok "var x = f()\nx.append(1)\n" := by
  intro script
  have kept : BlockUnkinded Naming.builtin script := by
    refine blockUnkinded_cons.2 ⟨⟨⟨fun e he => ?_, by simp [Stmt.hints]⟩, by simp [Stmt.blocks]⟩,
      blockUnkinded_cons.2 ⟨⟨⟨fun e he => ?_, by simp [Stmt.hints]⟩, by simp [Stmt.blocks]⟩,
        fun stmt hs => absurd hs (not_nested_nil stmt)⟩⟩
    · rcases List.mem_pair.1 he with rfl | rfl
      · exact .leaf rfl rfl
      · exact .node (by decide) fun part hm => List.mem_singleton.1 hm ▸ .leaf rfl rfl
    · obtain rfl := List.mem_singleton.1 he
      refine .node rfl fun part hm => ?_
      rcases List.mem_pair.1 hm with rfl | rfl
      · exact .node rfl fun part hm => List.mem_singleton.1 hm ▸ .leaf rfl rfl
      · exact .leaf rfl rfl
  have same : Naming.SameNames .builtin { Naming.builtin with methods := .empty } :=
    ⟨fun _ => rfl, fun _ => rfl⟩
  exact ⟨emission_ignores_methods same kept {}, rfl⟩

end Berrify
