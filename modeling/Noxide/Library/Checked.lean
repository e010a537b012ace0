import Mathlib.Data.List.Forall2

/-!
# Checked computations

A checked computation either returns a value or stops with the first failed
check.  This module fixes the vocabulary (`ensure`, `context`) and the
inversion rules by which a proof takes a successful computation apart into the
checks it passed.

Main results:

- Theorem {lit}`bind_eq_ok`: a sequence succeeds exactly when both parts do.
- Theorem {lit}`forM_eq_ok`: a loop of checks succeeds exactly when every
  element passes.
- Theorem {lit}`mapM_eq_ok`: a checked map succeeds exactly when it produces a
  result for every element, in order.
-/

namespace Checked

variable {ε α β : Type}

/-- Stop with {lit}`error` unless the condition holds. -/
def ensure (error : ε) (condition : Prop) [Decidable condition] : Except ε Unit :=
  if condition then .ok () else .error error

/-- Stop with {lit}`error` where a value is absent. -/
def context (error : ε) : Option α → Except ε α
  | some value => .ok value
  | none => .error error

@[simp]
theorem ensure_eq_ok {error : ε} {condition : Prop} [Decidable condition] {u : Unit} :
    ensure error condition = .ok u ↔ condition := by
  unfold ensure
  split <;> simp_all

/-- A check that holds is a no-op. -/
theorem ensure_pos {error : ε} {condition : Prop} [Decidable condition] (h : condition) :
    ensure error condition = .ok () :=
  ensure_eq_ok.mpr h

/-- A check that fails stops with its error. -/
theorem ensure_neg {error : ε} {condition : Prop} [Decidable condition] (h : ¬ condition) :
    ensure error condition = .error error :=
  if_neg h

@[simp]
theorem ensure_eq_error {error e : ε} {condition : Prop} [Decidable condition] :
    ensure error condition = .error e ↔ ¬ condition ∧ error = e := by
  unfold ensure
  split <;> simp_all

@[simp]
theorem context_eq_ok {error : ε} {x : Option α} {a : α} :
    context error x = .ok a ↔ x = some a := by
  cases x <;> simp [context]

/-- Renaming the failure keeps the successes. -/
@[simp]
theorem mapError_eq_ok {ε' : Type} {x : Except ε α} {f : ε → ε'} {a : α} :
    x.mapError f = .ok a ↔ x = .ok a := by
  cases x <;> simp [Except.mapError]

/-- A finished part hands its value on. -/
@[simp]
theorem bind_ok {a : α} {f : α → Except ε β} : ((.ok a : Except ε α) >>= f) = f a :=
  rfl

/-- A sequence succeeds exactly when both parts do. -/
theorem bind_eq_ok {x : Except ε α} {f : α → Except ε β} {b : β} :
    (x >>= f) = .ok b ↔ ∃ a, x = .ok a ∧ f a = .ok b := by
  cases x with
  | error e => simp [bind, Except.bind]
  | ok a => simp [bind, Except.bind]

/-- A sequence fails where its first part does, or else where its second does. -/
theorem bind_eq_error {x : Except ε α} {f : α → Except ε β} {e : ε} :
    (x >>= f) = .error e ↔ x = .error e ∨ ∃ a, x = .ok a ∧ f a = .error e := by
  cases x with
  | error e' => simp [bind, Except.bind]
  | ok a => simp [bind, Except.bind]

theorem map_eq_ok {x : Except ε α} {f : α → β} {b : β} :
    (f <$> x) = .ok b ↔ ∃ a, x = .ok a ∧ f a = b := by
  cases x with
  | error e => simp [Functor.map, Except.map]
  | ok a => simp [Functor.map, Except.map]

/-- A loop of checks succeeds exactly when every element passes. -/
theorem forM_eq_ok {xs : List α} {f : α → Except ε Unit} {u : Unit} :
    xs.forM f = .ok u ↔ ∀ x ∈ xs, f x = .ok () := by
  induction xs with
  | nil => simp [pure, Except.pure]
  | cons x xs ih =>
      have hstep : (x :: xs).forM f = (f x >>= fun _ => xs.forM f) := rfl
      rw [hstep, bind_eq_ok]
      constructor
      · rintro ⟨_, hx, hxs⟩ y hy
        rcases List.mem_cons.mp hy with rfl | hy
        · exact hx
        · exact ih.mp hxs y hy
      · intro h
        exact ⟨(), h x (by simp), ih.mpr fun y hy => h y (by simp [hy])⟩

/-- Related lists relate each element to one. -/
theorem forall₂_mem_left {relation : α → β → Prop} {xs : List α} {ys : List β}
    (h : List.Forall₂ relation xs ys) {x : α} (member : x ∈ xs) : ∃ y ∈ ys, relation x y := by
  induction h with
  | nil => cases member
  | cons first _ ih =>
      rcases List.mem_cons.mp member with rfl | member
      · exact ⟨_, List.mem_cons_self, first⟩
      · rcases ih member with ⟨y, here, related⟩
        exact ⟨y, List.mem_cons_of_mem _ here, related⟩

/-- A checked map succeeds exactly when every element has a result, in order. -/
theorem mapM_eq_ok {xs : List α} {f : α → Except ε β} {ys : List β} :
    xs.mapM f = .ok ys ↔ List.Forall₂ (fun x y => f x = .ok y) xs ys := by
  induction xs generalizing ys with
  | nil =>
      simp only [List.mapM_nil, List.forall₂_nil_left_iff]
      constructor
      · intro h
        exact (Except.ok.inj h).symm
      · rintro rfl
        rfl
  | cons x xs ih =>
      simp only [List.mapM_cons, bind_eq_ok]
      constructor
      · rintro ⟨y, hy, rest, hrest, hys⟩
        obtain rfl := Except.ok.inj hys
        exact .cons hy (ih.mp hrest)
      · intro h
        cases h with
        | cons hy hrest => exact ⟨_, hy, _, ih.mpr hrest, rfl⟩

/-- A checked map whose results determine their elements. -/
theorem mapM_map_eq {xs : List α} {f : α → Except ε β} {g : β → α} {ys : List β}
    (h : xs.mapM f = .ok ys) (hf : ∀ x y, f x = .ok y → g y = x) : ys.map g = xs := by
  have hpaired := mapM_eq_ok.mp h
  clear h
  induction hpaired with
  | nil => rfl
  | cons hxy _ ih => rw [List.map_cons, hf _ _ hxy, ih]

/-- Every result of a checked map comes from an element. -/
theorem mapM_mem {xs : List α} {f : α → Except ε β} {ys : List β}
    (h : xs.mapM f = .ok ys) {y : β} (hy : y ∈ ys) : ∃ x ∈ xs, f x = .ok y := by
  have hpaired := mapM_eq_ok.mp h
  clear h
  induction hpaired with
  | nil => simp at hy
  | cons hxy _ ih =>
      rcases List.mem_cons.mp hy with rfl | hy
      · exact ⟨_, by simp, hxy⟩
      · obtain ⟨x, hx, hfx⟩ := ih hy
        exact ⟨x, by simp [hx], hfx⟩

/-- A function of elements and their results that only depends on the elements
maps the paired list to the image of the elements. -/
theorem zip_map_eq {γ : Type} {R : α → β → Prop} {xs : List α} {ys : List β}
    (h : List.Forall₂ R xs ys) {F : α × β → γ} {G : α → γ}
    (hF : ∀ x y, (x, y) ∈ xs.zip ys → R x y → F (x, y) = G x) :
    (xs.zip ys).map F = xs.map G := by
  induction h with
  | nil => rfl
  | cons hxy _ ih =>
      rw [List.zip_cons_cons, List.map_cons, List.map_cons, hF _ _ (by simp) hxy]
      rw [ih fun x y hmem hR => hF x y (by simp [hmem]) hR]

/-- A checked map without failing elements is an ordinary map. -/
theorem mapM_eq_map {xs : List α} {f : α → Except ε β} {g : α → β}
    (h : ∀ x ∈ xs, f x = .ok (g x)) : xs.mapM f = .ok (xs.map g) := by
  rw [mapM_eq_ok, List.forall₂_map_right_iff, List.forall₂_same]
  exact h

/-! ## Checked computations with a state -/

section State

variable {σ : Type} {s s' : σ}

/-- A stateful sequence succeeds exactly when both parts do, one after the
other. -/
theorem run_bind_eq_ok {x : StateT σ (Except ε) α} {f : α → StateT σ (Except ε) β}
    {b : β} : (x >>= f) s = .ok (b, s') ↔
      ∃ a middle, x s = .ok (a, middle) ∧ f a middle = .ok (b, s') := by
  refine bind_eq_ok.trans ?_
  constructor
  · rintro ⟨⟨a, middle⟩, hx, hf⟩
    exact ⟨a, middle, hx, hf⟩
  · rintro ⟨a, middle, hx, hf⟩
    exact ⟨(a, middle), hx, hf⟩

theorem run_pure_eq_ok {a b : α} :
    (pure a : StateT σ (Except ε) α) s = .ok (b, s') ↔ a = b ∧ s = s' := by
  constructor
  · intro h
    exact Prod.mk.inj (Except.ok.inj h)
  · rintro ⟨rfl, rfl⟩
    rfl

theorem run_lift_eq_ok {x : Except ε α} {a : α} :
    (StateT.lift x : StateT σ (Except ε) α) s = .ok (a, s') ↔ x = .ok a ∧ s = s' := by
  constructor
  · intro h
    obtain ⟨b, hx, hb⟩ := bind_eq_ok.mp h
    obtain ⟨rfl, rfl⟩ := Prod.mk.inj (Except.ok.inj hb)
    exact ⟨hx, rfl⟩
  · rintro ⟨rfl, rfl⟩
    rfl

theorem run_get_eq_ok {a : σ} :
    (get : StateT σ (Except ε) σ) s = .ok (a, s') ↔ s = a ∧ s = s' := by
  constructor
  · intro h
    exact Prod.mk.inj (Except.ok.inj h)
  · rintro ⟨rfl, rfl⟩
    rfl

theorem run_set_eq_ok {next : σ} {u : PUnit} :
    (set next : StateT σ (Except ε) PUnit) s = .ok (u, s') ↔ next = s' := by
  constructor
  · intro h
    exact (Prod.mk.inj (Except.ok.inj h)).2
  · rintro rfl
    rfl

theorem run_modify_eq_ok {f : σ → σ} {u : PUnit} :
    (modify f : StateT σ (Except ε) PUnit) s = .ok (u, s') ↔ f s = s' := by
  constructor
  · intro h
    exact (Prod.mk.inj (Except.ok.inj h)).2
  · rintro rfl
    rfl

end State

end Checked
