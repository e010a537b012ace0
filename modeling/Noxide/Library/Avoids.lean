import Noxide.Library.Checked

/-!
# Failures that never occur

A computation avoids a kind of failure when no failure it can stop with is of that kind.  The
rules follow the shape of a computation, so a check that is known to pass needs no other excuse
than that, and every other check only has to name a failure of another kind.

Main results:

- Theorem {lit}`Avoids.bind`: a sequence avoids what both parts avoid.
- Theorem {lit}`Avoids.run_bind`: the same for computations with a state.
-/

namespace Checked

variable {ε α β : Type} {bad : ε → Bool}

/-- Whatever failure the computation stops with is not of the kind. -/
def Avoids (bad : ε → Bool) (x : Except ε α) : Prop :=
  ∀ e, x = .error e → bad e = false

theorem Avoids.ok (a : α) : Avoids bad (.ok a : Except ε α) := by
  intro e h
  cases h

theorem Avoids.error {e : ε} (other : bad e = false) : Avoids bad (.error e : Except ε α) := by
  intro e' h
  cases h
  exact other

theorem Avoids.ensure {e : ε} {condition : Prop} [Decidable condition] (other : bad e = false) :
    Avoids bad (ensure e condition) := by
  intro e' h
  rw [← (ensure_eq_error.mp h).2]
  exact other

/-- A check that passes fails with nothing. -/
theorem Avoids.ensure_pos {e : ε} {condition : Prop} [Decidable condition] (h : condition) :
    Avoids bad (Checked.ensure e condition) := by
  rw [Checked.ensure_pos h]
  exact .ok ()

theorem Avoids.context {e : ε} {x : Option α} (other : bad e = false) :
    Avoids bad (context e x) := by
  cases x with
  | none => exact .error other
  | some a => exact .ok a

/-- A sequence avoids what its first part avoids, if the second does for every value of the
first. -/
theorem Avoids.bind {x : Except ε α} {f : α → Except ε β} (first : Avoids bad x)
    (second : ∀ a, x = .ok a → Avoids bad (f a)) : Avoids bad (x >>= f) := by
  intro e h
  rcases bind_eq_error.mp h with h | ⟨a, ha, h⟩
  · exact first e h
  · exact second a ha e h

theorem Avoids.ite {condition : Prop} [Decidable condition] {x y : Except ε α}
    (yes : condition → Avoids bad x) (no : ¬ condition → Avoids bad y) :
    Avoids bad (if condition then x else y) := by
  split
  · next h => exact yes h
  · next h => exact no h

/-- Renamed failures are of the kind their new names are of. -/
theorem Avoids.mapError {ε' : Type} {x : Except ε' α} {f : ε' → ε}
    (h : Avoids (fun e => bad (f e)) x) : Avoids bad (x.mapError f) := by
  cases x with
  | ok a => exact .ok a
  | error e => exact .error (h e rfl)

theorem Avoids.forM {xs : List α} {f : α → Except ε Unit} (h : ∀ x ∈ xs, Avoids bad (f x)) :
    Avoids bad (xs.forM f) := by
  induction xs with
  | nil => exact .ok ()
  | cons x xs ih =>
      refine Avoids.bind (h x List.mem_cons_self) fun _ _ => ?_
      exact ih fun y member => h y (List.mem_cons_of_mem x member)

theorem Avoids.mapM {xs : List α} {f : α → Except ε β} (h : ∀ x ∈ xs, Avoids bad (f x)) :
    Avoids bad (xs.mapM f) := by
  induction xs with
  | nil => exact .ok []
  | cons x xs ih =>
      rw [List.mapM_cons]
      refine Avoids.bind (h x List.mem_cons_self) fun y _ => ?_
      refine Avoids.bind (ih fun y member => h y (List.mem_cons_of_mem x member)) fun ys _ => ?_
      exact .ok (y :: ys)

/-! ## Computations with a state -/

section State

variable {σ : Type} {s : σ}

theorem Avoids.run_bind {x : StateT σ (Except ε) α} {f : α → StateT σ (Except ε) β}
    (first : Avoids bad (x s)) (second : ∀ a s', x s = .ok (a, s') → Avoids bad (f a s')) :
    Avoids bad ((x >>= f) s) :=
  Avoids.bind first fun result h => second result.1 result.2 h

theorem Avoids.run_lift {x : Except ε α} (h : Avoids bad x) :
    Avoids bad ((StateT.lift x : StateT σ (Except ε) α) s) :=
  Avoids.bind h fun a _ => .ok (a, s)

theorem Avoids.run_pure (a : α) : Avoids bad ((pure a : StateT σ (Except ε) α) s) :=
  .ok (a, s)

theorem Avoids.run_mapM {xs : List α} {f : α → StateT σ (Except ε) β}
    (h : ∀ x ∈ xs, ∀ s, Avoids bad (f x s)) : Avoids bad (xs.mapM f s) := by
  induction xs generalizing s with
  | nil => exact .run_pure []
  | cons x xs ih =>
      rw [List.mapM_cons]
      refine Avoids.run_bind (h x List.mem_cons_self s) fun y s' _ => ?_
      refine Avoids.run_bind (ih fun y member => h y (List.mem_cons_of_mem x member))
        fun ys s'' _ => ?_
      exact .run_pure (y :: ys)

end State

end Checked
