import Berrify.Stmt.Emit

/-!
# What a successful computation was made of

The emitter and the writer of expressions are written in the monad of refusals. A computation in
it that succeeds has steps that all succeed : `bind_eq_ok`, `map_eq_ok` and their companions take it
apart, and `orRefuse_eq_ok` and `locate_eq_ok` see through the two ways in which a cause becomes a
refusal with a line.
-/

namespace Berrify

variable {ε α β : Type}

theorem bind_eq_ok {x : Except ε α} {f : α → Except ε β} {b : β} :
    x >>= f = .ok b ↔ ∃ a, x = .ok a ∧ f a = .ok b := by
  cases x <;> simp [bind, Except.bind]

/-- Equal computations that both succeed have the same value. -/
theorem ok_unique {x y : Except ε α} (h : x = y) {a b : α} (hx : x = .ok a) (hy : y = .ok b) :
    a = b := by
  rw [h, hy] at hx
  exact (Except.ok.inj hx).symm

theorem pure_eq_ok {a b : α} : (pure a : Except ε α) = .ok b ↔ a = b := by
  simp [pure, Except.pure]

theorem throw_eq_ok {e : ε} {b : α} : (throw e : Except ε α) = .ok b ↔ False := by
  simp [throw, throwThe, MonadExceptOf.throw]

theorem map_eq_ok {x : Except ε α} {f : α → β} {b : β} :
    x.map f = .ok b ↔ ∃ a, x = .ok a ∧ f a = b := by
  cases x <;> simp [Except.map]

theorem mapError_eq_ok {ε' : Type} {x : Except ε α} {f : ε → ε'} {a : α} :
    x.mapError f = .ok a ↔ x = .ok a := by
  cases x with
  | ok b =>
    have kept : (Except.ok b : Except ε α).mapError f = .ok b := rfl
    rw [kept, Except.ok.injEq, Except.ok.injEq]
  | error e =>
    have failed : (Except.error e : Except ε α).mapError f = .error (f e) := rfl
    rw [failed]
    exact iff_of_false nofun nofun

theorem map_of_bind {γ : Type} (x : Except ε α) (f : α → Except ε β) (g : β → γ) :
    (x >>= f).map g = x >>= fun a => (f a).map g := by
  cases x <;> rfl

theorem bind_of_map {γ : Type} (x : Except ε α) (g : α → β) (f : β → Except ε γ) :
    x.map g >>= f = x >>= fun a => f (g a) := by
  cases x <;> rfl

theorem refuse_eq_ok {cause : Cause} {a : α} : refuse cause = .ok a ↔ False := by
  simp [refuse]

theorem orRefuse_eq_ok {x : Except Cause α} {a : α} : orRefuse x = .ok a ↔ x = .ok a := by
  cases x <;> simp [orRefuse, refuse]

theorem locate_eq_ok {line : Nat} {x : Except Refusal α} {a : α} :
    locate line x = .ok a ↔ x = .ok a := by
  cases x <;> simp [locate]

end Berrify
