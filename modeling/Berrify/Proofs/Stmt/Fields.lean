import Berrify.Proofs.Concrete.Shape
import Berrify.Proofs.Stmt.Blocks

/-!
# The member list

A place in a tree is the path that leads there, and paths in lexicographic order are the order of
the source. `Stmt.AssignsAt` says where a statement assigns to a field of `self`, and
`MethodAssignsAt` where a method in a class body does, by the shape of the tree alone.

The fields that a statement assigns to are the names at these places from first to last
(`listed_assignedFields`, by induction on blocks, with one lemma for the places in a list of parts).
From this comes `memberFields_exact` : the member list has each of the names once, in the order of
their first places.
-/

namespace Berrify

/-! ## Places -/

/-- Names at places, listed in the order of the places. -/
def Listed (occurs : List Nat → String → Prop) (names : List String) : Prop :=
  ∃ entries : List (List Nat × String), entries.Pairwise (·.1 < ·.1) ∧
    entries.map (·.2) = names ∧ ∀ place name, (place, name) ∈ entries ↔ occurs place name

theorem Listed.congr {occurs others : List Nat → String → Prop} {names : List String}
    (h : Listed occurs names) (same : ∀ place name, occurs place name ↔ others place name) :
    Listed others names := by
  obtain ⟨entries, sorted, hnames, hmem⟩ := h
  exact ⟨entries, sorted, hnames, fun place name => (hmem place name).trans (same place name)⟩

theorem Listed.nil {occurs : List Nat → String → Prop} (h : ∀ place name, ¬occurs place name) :
    Listed occurs [] :=
  ⟨[], .nil, rfl, fun place name => by simpa using h place name⟩

theorem Listed.mem_iff {occurs : List Nat → String → Prop} {names : List String}
    (h : Listed occurs names) (name : String) : name ∈ names ↔ ∃ place, occurs place name := by
  obtain ⟨entries, -, rfl, hmem⟩ := h
  simp [← hmem]

/-- Places in the parts of a list, from the part with number `start` on. -/
theorem Listed.flatMap_from {α : Type} {names : α → List String}
    {occurs : α → List Nat → String → Prop} {items : List α}
    (h : ∀ item ∈ items, Listed (occurs item) (names item)) (start : Nat) :
    Listed (fun place name => ∃ i item rest, items[i]? = some item ∧ place = (start + i) :: rest ∧
      occurs item rest name) (items.flatMap names) := by
  induction items generalizing start with
  | nil => exact .nil (by simp)
  | cons first items ih =>
    obtain ⟨here, hsorted, hnames, hmem⟩ := h first List.mem_cons_self
    obtain ⟨later, lsorted, lnames, lmem⟩ :=
      ih (fun item hm => h item (List.mem_cons_of_mem _ hm)) (start + 1)
    refine ⟨here.map (fun entry => (start :: entry.1, entry.2)) ++ later, ?_, ?_, ?_⟩
    · rw [List.pairwise_append, List.pairwise_map]
      refine ⟨hsorted.imp fun h => by simpa using h, lsorted, ?_⟩
      rintro _ hm ⟨place, name⟩ hl
      obtain ⟨entry, -, rfl⟩ := List.mem_map.1 hm
      obtain ⟨i, item, rest, -, rfl, -⟩ := (lmem _ _).1 hl
      rw [List.cons_lt_cons_iff]
      exact .inl (by omega)
    · rw [List.map_append, List.map_map, lnames, List.flatMap_cons, ← hnames]
      rfl
    · intro place name
      simp only [List.mem_append, List.mem_map, Prod.mk.injEq, Prod.exists, lmem, hmem]
      constructor
      · rintro (⟨rest, _, ho, rfl, rfl⟩ | ⟨i, item, rest, hi, rfl, ho⟩)
        · exact ⟨0, first, rest, rfl, rfl, ho⟩
        · exact ⟨i + 1, item, rest, hi, by rw [Nat.add_right_comm, Nat.add_assoc], ho⟩
      · rintro ⟨_ | i, item, rest, hi, rfl, ho⟩
        · cases hi
          exact .inl ⟨rest, name, ho, rfl, rfl⟩
        · exact .inr ⟨i, item, rest, hi, by rw [Nat.add_right_comm, Nat.add_assoc], ho⟩

/-- Places in the parts of a list : the number of the part, and the place in it. -/
theorem Listed.flatMap {α : Type} {names : α → List String}
    {occurs : α → List Nat → String → Prop} {items : List α}
    (h : ∀ item ∈ items, Listed (occurs item) (names item)) :
    Listed (fun place name => ∃ i item rest, items[i]? = some item ∧ place = i :: rest ∧
      occurs item rest name) (items.flatMap names) := by
  simpa using Listed.flatMap_from h 0

/-! ## First occurrences -/

theorem mem_firstOccurrences {name : String} {names : List String} :
    name ∈ firstOccurrences names ↔ name ∈ names := by
  refine ⟨mem_of_mem_firstOccurrences, fun h => ?_⟩
  induction names with
  | nil => cases h
  | cons first names ih =>
    rw [firstOccurrences, List.mem_cons, List.mem_filter]
    by_cases he : name = first
    · exact .inl he
    · exact .inr ⟨ih ((List.mem_cons.1 h).resolve_left he), by simpa using he⟩

theorem nodup_firstOccurrences (names : List String) : (firstOccurrences names).Nodup := by
  induction names with
  | nil => exact .nil
  | cons first names ih =>
    rw [firstOccurrences, List.nodup_cons]
    exact ⟨by simp, ih.filter _⟩

/-- First occurrences stand in the order of their places. -/
theorem pairwise_firstOccurrences {entries : List (List Nat × String)}
    (sorted : entries.Pairwise (·.1 < ·.1)) :
    (firstOccurrences (entries.map (·.2))).Pairwise fun f g =>
      ∃ place, (place, f) ∈ entries ∧ ∀ other, (other, g) ∈ entries → place < other := by
  induction entries with
  | nil => exact .nil
  | cons first entries ih =>
    obtain ⟨before, sorted⟩ := List.pairwise_cons.1 sorted
    -- A name that is not the first one has the places that it has behind the first entry.
    have later {name : String} {other : List Nat} (hne : name ≠ first.2)
        (hm : (other, name) ∈ first :: entries) : (other, name) ∈ entries :=
      (List.mem_cons.1 hm).resolve_left fun he => hne (by rw [← he])
    rw [List.map_cons, firstOccurrences, List.pairwise_cons]
    constructor
    · intro name hm
      have hne : name ≠ first.2 := by simpa using (List.mem_filter.1 hm).2
      exact ⟨first.1, List.mem_cons_self, fun other ho => before _ (later hne ho)⟩
    · refine ((ih sorted).filter _).imp_of_mem ?_
      rintro f g - hg ⟨place, hp, hlt⟩
      have hne : g ≠ first.2 := by simpa using (List.mem_filter.1 hg).2
      exact ⟨place, List.mem_cons_of_mem _ hp, fun other ho => hlt other (later hne ho)⟩

/-! ## Assignments to fields -/

namespace Stmt

/-- The targets that a statement assigns to, from left to right. -/
def targets : Stmt → List Expr
  | .assign targets _ => targets
  | .declare target _ _ => [target]
  | .update target _ _ => [target]
  | _ => []

/-- The blocks of a statement that belong to the method in which it stands. -/
def methodBlocks : Stmt → List Block
  | .classDef .. => []
  | stmt => stmt.blocks

theorem mem_blocks_of_mem_methodBlocks {stmt : Stmt} {block : Block}
    (h : block ∈ stmt.methodBlocks) : block ∈ stmt.blocks := by
  unfold methodBlocks at h
  split at h
  · cases h
  · exact h

/-- Where a statement assigns to a field of `self` : at a target of its own, or at a place in a
statement in one of its blocks. -/
inductive AssignsAt (field : String) : Stmt → List Nat → Prop where
  | here {stmt : Stmt} {i : Nat} :
      stmt.targets[i]? = some (.attribute (.name "self") field) → AssignsAt field stmt [i]
  | inside {stmt : Stmt} {i j : Nat} {block : Block} {inner : Located Stmt} {place : List Nat} :
      stmt.methodBlocks[i]? = some block → block[j]? = some inner →
      AssignsAt field inner.node place → AssignsAt field stmt (i :: j :: place)

theorem sizeOf_lt_of_mem_block {stmt : Located Stmt} {block : Block} (h : stmt ∈ block) :
    sizeOf stmt.node < sizeOf block := by
  have := List.sizeOf_lt_of_mem h
  obtain ⟨line, node⟩ := stmt
  simp only [Located.mk.sizeOf_spec] at this
  simp only
  omega

theorem sizeOf_lt_of_mem_handlers {handlers : List (Handler Block)} {handler : Handler Block}
    (h : handler ∈ handlers) : sizeOf handler.body < sizeOf handlers := by
  have := List.sizeOf_lt_of_mem h
  obtain ⟨caught, name, body⟩ := handler
  simp only [Handler.mk.sizeOf_spec] at this
  simp only
  omega

/-- A block of a statement is smaller than the statement. -/
theorem sizeOf_lt_of_mem_blocks {stmt : Stmt} {block : Block} (h : block ∈ stmt.blocks) :
    sizeOf block < sizeOf stmt := by
  cases stmt with
  | attempt body handlers orelse cleanup =>
    simp only [blocks, List.cons_append, List.mem_cons, List.mem_append, List.mem_map,
      List.not_mem_nil, or_false] at h
    simp only [attempt.sizeOf_spec]
    rcases h with rfl | ⟨handler, hm, rfl⟩ | rfl | rfl
    · omega
    · have := sizeOf_lt_of_mem_handlers hm
      omega
    · omega
    · omega
  | _ =>
    simp only [blocks, List.mem_cons, List.not_mem_nil, or_false] at h <;>
      rcases h with rfl | rfl <;> simp <;> omega

/-- What follows for a statement from the statements in its blocks holds for every statement. -/
theorem induction_on_blocks {P : Stmt → Prop}
    (step : ∀ stmt : Stmt, (∀ block ∈ stmt.blocks, ∀ inner ∈ block, P inner.node) → P stmt)
    (stmt : Stmt) : P stmt :=
  step stmt fun _ _ inner _ => induction_on_blocks step inner.node
termination_by sizeOf stmt
decreasing_by exact (sizeOf_lt_of_mem_block ‹_›).trans (sizeOf_lt_of_mem_blocks ‹_›)

end Stmt

theorem assignedFieldsIn_eq (block : Block) :
    assignedFieldsIn block = block.flatMap (·.node.assignedFields) := by
  induction block with
  | nil => rfl
  | cons stmt block ih => rw [assignedFieldsIn, ih, List.flatMap_cons]

theorem assignedFieldsInHandlers_eq (handlers : List (Handler Block)) :
    assignedFieldsInHandlers handlers = (handlers.map (·.body)).flatMap assignedFieldsIn := by
  induction handlers with
  | nil => rfl
  | cons handler handlers ih =>
    rw [assignedFieldsInHandlers, ih, List.map_cons, List.flatMap_cons]

/-- A statement has targets or blocks, and the fields that it assigns to come from them. -/
theorem assignedFields_cases (stmt : Stmt) :
    stmt.methodBlocks = [] ∧ stmt.assignedFields = stmt.targets.flatMap fieldOf ∨
      stmt.targets = [] ∧ stmt.assignedFields = stmt.methodBlocks.flatMap assignedFieldsIn := by
  cases stmt <;>
    simp [Stmt.methodBlocks, Stmt.blocks, Stmt.targets, Stmt.assignedFields,
      assignedFieldsInHandlers_eq]

theorem listed_fieldOf (target : Expr) :
    Listed (fun place name => place = [] ∧ target = .attribute (.name "self") name)
      (fieldOf target) := by
  unfold fieldOf
  split
  · refine ⟨[([], _)], by simp, rfl, fun place name => ?_⟩
    simp [eq_comm]
  · rename_i hne
    exact .nil fun place name h => hne name h.2

/-- The fields that a statement assigns to are listed in the order of the source. -/
theorem listed_assignedFields (stmt : Stmt) :
    Listed (fun place field => stmt.AssignsAt field place) stmt.assignedFields := by
  induction stmt using Stmt.induction_on_blocks with
  | step stmt ih =>
    rcases assignedFields_cases stmt with ⟨leaf, heq⟩ | ⟨inner, heq⟩
    · rw [heq]
      refine (Listed.flatMap fun target _ => listed_fieldOf target).congr fun place field => ?_
      constructor
      · rintro ⟨i, target, rest, hi, rfl, rfl, rfl⟩
        exact .here hi
      · intro h
        cases h with
        | here hi => exact ⟨_, _, _, hi, rfl, rfl, rfl⟩
        | inside hb => simp [leaf] at hb
    · have lists : ∀ block ∈ stmt.methodBlocks, Listed (fun place field => ∃ j one rest,
          block[j]? = some one ∧ place = j :: rest ∧ one.node.AssignsAt field rest)
          (assignedFieldsIn block) := by
        intro block hb
        rw [assignedFieldsIn_eq]
        exact Listed.flatMap (ih block (Stmt.mem_blocks_of_mem_methodBlocks hb))
      rw [heq]
      refine (Listed.flatMap lists).congr fun place field => ?_
      constructor
      · rintro ⟨i, block, _, hb, rfl, j, one, rest, ho, rfl, h⟩
        exact .inside hb ho h
      · intro h
        cases h with
        | here hi => simp [inner] at hi
        | inside hb ho h => exact ⟨_, _, _, hb, rfl, _, _, _, ho, rfl, h⟩

/-! ## Methods -/

/-- Where a function that stands directly in a class body assigns to a field of `self` in its
body. -/
inductive MethodAssignsAt (field : String) (body : Block) : List Nat → Prop where
  | mk {i j line : Nat} {name : String} {params : List Param} {decorators : List Expr}
      {inner : Block} {stmt : Located Stmt} {place : List Nat} :
      body[i]? = some ⟨line, .functionDef name params decorators inner⟩ → inner[j]? = some stmt →
      stmt.node.AssignsAt field place → MethodAssignsAt field body (i :: j :: place)

/-- The body of a function. -/
def Stmt.methodBody : Stmt → Block
  | .functionDef _ _ _ body => body
  | _ => []

theorem methodFields_eq (body : Block) :
    methodFields body = body.flatMap fun stmt =>
      stmt.node.methodBody.flatMap (·.node.assignedFields) := by
  fun_induction methodFields body with
  | case1 => rfl
  | case2 line name params decorators inner rest ih =>
    rw [List.flatMap_cons, ih, assignedFieldsIn_eq, Stmt.methodBody]
  | case3 stmt rest hne ih =>
    have none : stmt.node.methodBody = [] := by
      unfold Stmt.methodBody
      split
      · rename_i he
        exact absurd (congrArg (Located.mk stmt.line) he) (hne _ _ _ _ _)
      · rfl
    rw [List.flatMap_cons, none, ih, List.flatMap_nil, List.nil_append]

theorem listed_methodFields (body : Block) :
    Listed (fun place field => MethodAssignsAt field body place) (methodFields body) := by
  rw [methodFields_eq]
  refine (Listed.flatMap fun stmt _ => Listed.flatMap fun inner _ =>
    listed_assignedFields inner.node).congr fun place field => ?_
  constructor
  · rintro ⟨i, ⟨line, stmt⟩, _, hi, rfl, j, inner, place, hj, rfl, h⟩
    cases stmt with
    | functionDef => exact .mk hi hj h
    | _ => cases hj
  · rintro ⟨hi, hj, h⟩
    exact ⟨_, _, _, hi, rfl, _, _, _, hj, rfl, h⟩

/-- The member list is exact. It has no name twice, and its names are the fields of `self` that a
function directly in the class body assigns to, at any depth of its body without nested classes. A
name stands before another one only if it has a place before all places of that one. -/
theorem memberFields_exact (body : Block) :
    (memberFields body).Nodup ∧
    (∀ field, field ∈ memberFields body ↔ ∃ place, MethodAssignsAt field body place) ∧
    (memberFields body).Pairwise fun field later =>
      ∃ place, MethodAssignsAt field body place ∧
        ∀ other, MethodAssignsAt later body other → place < other := by
  have listed := listed_methodFields body
  refine ⟨nodup_firstOccurrences _,
    fun field => mem_firstOccurrences.trans (listed.mem_iff field), ?_⟩
  obtain ⟨entries, sorted, hnames, hmem⟩ := listed
  simpa only [memberFields, ← hnames, hmem] using pairwise_firstOccurrences sorted

end Berrify
