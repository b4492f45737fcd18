import Berrify.Proofs.Path
import Berrify.Proofs.Text.ByteOrder

/-!
# The order of paths

Paths are compared component by component : the root, a dot and two dots come before names, and
names are compared by their bytes (`Path.Before`). A name that is joined to a path is one more
component of it (`components_join`), so paths below one directory are in the order of the names that
lead to them (`before_joinAll`).
-/

namespace Berrify.Path

/-! ## Components of joined paths -/

theorem segments_ne_nil (path : String) : segments path ≠ [] := by
  rw [segments, Ne, List.map_eq_nil_iff]
  exact List.splitOn_ne_nil _ _

/-- Segments at the end, of which only a name counts, add this name to the components. -/
theorem components_of_segments {dir path name : String} {blank : List String}
    (habsolute : isAbsolute path = isAbsolute dir) {above : List String} (hne : above ≠ [])
    (hdir : segments dir = above ++ blank) (hblank : ∀ part ∈ blank, part = "")
    (hpath : segments path = above ++ [name]) (hname : isFileName name = true) :
    components path = components dir ++ [.name name] := by
  obtain ⟨hempty, hdot, hup, -⟩ := isFileName_iff.1 hname
  have nothing : blank.filter (fun part => part != "" && part != ".") = [] :=
    List.filter_eq_nil_iff.2 fun part hm => by simp [hblank part hm]
  have first (others : List String) : (above ++ others).head? = above.head? := by
    cases above with
    | nil => exact absurd rfl hne
    | cons part above => rfl
  simp only [components, habsolute, hdir, hpath, first, List.filter_append, nothing]
  simp [hempty, hdot, hup]

theorem components_join {dir : String} (hdir : dir ≠ "") {name : String}
    (h : isFileName name = true) : components (join dir name) = components dir ++ [.name name] := by
  obtain ⟨above, habove, hjoin⟩ := exists_join hdir
  obtain ⟨-, -, -, hslash⟩ := isFileName_iff.1 h
  have path : segments (join dir name) = segments above ++ [name] := by
    rw [hjoin, segments_below above hslash]
  rcases habove with rfl | rfl
  · refine components_of_segments ?_ (segments_ne_nil dir) (List.append_nil _).symm (by simp) path h
    rw [hjoin, String.append_assoc, isAbsolute_append hdir]
  · refine components_of_segments ?_ (segments_ne_nil above) (segments_directory above) (by simp)
      path h
    rw [hjoin, isAbsolute_append hdir]

theorem components_joinAll {dir : String} (hdir : dir ≠ "") {names : List String}
    (h : ∀ name ∈ names, isFileName name = true) :
    components (joinAll dir names) = components dir ++ names.map .name := by
  induction names generalizing dir with
  | nil => rw [List.map_nil, List.append_nil, joinAll, List.foldl_nil]
  | cons name names ih =>
    obtain ⟨first, others⟩ := List.forall_mem_cons.1 h
    have inner := ih (join_ne_empty hdir name) others
    rw [components_join hdir first, List.append_assoc] at inner
    exact inner

/-- The path that names lead to tells the names. -/
theorem joinAll_injective {dir : String} (hdir : dir ≠ "") {names names' : List String}
    (h : ∀ name ∈ names, isFileName name = true) (h' : ∀ name ∈ names', isFileName name = true)
    (heq : joinAll dir names = joinAll dir names') : names = names' := by
  have parts := congrArg components heq
  rw [components_joinAll hdir h, components_joinAll hdir h', List.append_cancel_left_eq] at parts
  exact List.map_injective_iff.2 (fun _ _ => Component.name.inj) parts

/-! ## Order -/

/-- What a component is compared by : its kind, and the bytes of a name. -/
def Component.key : Component → List UInt8
  | root => [0]
  | here => [1]
  | up => [2]
  | name text => 3 :: Text.bytes text

/-- What a path is compared by. -/
def key (path : String) : List (List UInt8) :=
  (components path).map Component.key

/-- A path comes before another : it does at the first component in which they differ, or the other
one goes on where it ends. -/
def Before (p q : String) : Prop :=
  key p < key q

/-- Whether a path does not come after another. -/
def notAfter (p q : String) : Bool :=
  key p ≤ key q

theorem notAfter_iff {p q : String} : notAfter p q = true ↔ key p ≤ key q :=
  decide_eq_true_iff

theorem notAfter_trans (p q r : String) (h : notAfter p q = true) (h' : notAfter q r = true) :
    notAfter p r = true :=
  notAfter_iff.2 (List.le_trans (notAfter_iff.1 h) (notAfter_iff.1 h'))

theorem notAfter_total (p q : String) : (notAfter p q || notAfter q p) = true := by
  rw [Bool.or_eq_true, notAfter_iff, notAfter_iff]
  exact List.le_total (key p) (key q)

theorem Before.notAfter {p q : String} (h : Before p q) : notAfter p q = true :=
  notAfter_iff.2 (List.le_of_lt h)

theorem Before.key_ne {p q : String} (h : Before p q) : key p ≠ key q := by
  intro heq
  rw [Before, heq] at h
  exact List.lt_irrefl (key q) h

theorem before_joinAll {dir : String} (hdir : dir ≠ "") {names names' : List String}
    (h : ∀ name ∈ names, isFileName name = true) (h' : ∀ name ∈ names', isFileName name = true)
    (hlt : names < names') : Before (joinAll dir names) (joinAll dir names') := by
  have ordered (a b : String) (hab : a < b) :
      Component.key (.name a) < Component.key (.name b) :=
    List.cons_lt_cons_iff.2 (.inr ⟨rfl, Text.bytes_lt hab⟩)
  rw [Before, key, key, components_joinAll hdir h, components_joinAll hdir h', List.map_append,
    List.map_append, List.map_map, List.map_map]
  exact List.append_left_lt (List.map_lt ordered hlt)

end Berrify.Path
