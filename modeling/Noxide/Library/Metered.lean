import Mathlib.Tactic.Linarith

/-!
# Metered programs

Programs that spend single units of a reservation, ask for units of a shared pool, and wait for
answers of their environment.  A bound on what a program spends holds on every branch, whatever the
pool and the environment answer.

Main results:

- Theorem {lit}`Program.Within.bind`: bounds add up along a sequence.
- Theorem {lit}`Costs.bind`: the same for programs that may fail.
-/

namespace Metered

/-! ## Programs -/

/-- A program: it ends, spends a unit of its reservation, takes a unit of the pool, or waits. -/
inductive Program (ω α : Type) where
  | done (a : α)
  | spend (next : Bool → Program ω α)
  | work (next : Bool → Program ω α)
  | ask (next : ω → Program ω α)

namespace Program

variable {ω α β : Type}

def bind : Program ω α → (α → Program ω β) → Program ω β
  | done a, f => f a
  | spend next, f => spend fun granted => (next granted).bind f
  | work next, f => work fun granted => (next granted).bind f
  | ask next, f => ask fun answer => (next answer).bind f

instance : Monad (Program ω) where
  pure := done
  bind := bind

/-- Where every unit spent is granted, the program spends at most so many and ends as described. -/
def Within (ends : α → Prop) : Program ω α → Nat → Prop
  | done a, _ => ends a
  | spend next, n => 0 < n ∧ (next true).Within ends (n - 1)
  | work next, n => ∀ granted, (next granted).Within ends n
  | ask next, n => ∀ answer, (next answer).Within ends n

theorem Within.mono {ends ends' : α → Prop} {p : Program ω α} {n m : Nat} (within : p.Within ends n)
    (le : n ≤ m) (weaker : ∀ a, ends a → ends' a) : p.Within ends' m := by
  induction p generalizing n m with
  | done a => exact weaker a within
  | spend next ih =>
      exact ⟨lt_of_lt_of_le within.1 le, ih true within.2 (Nat.sub_le_sub_right le 1)⟩
  | work next ih => exact fun granted => ih granted (within granted) le
  | ask next ih => exact fun answer => ih answer (within answer) le

theorem Within.bind {ends : α → Prop} {ends' : β → Prop} {p : Program ω α} {f : α → Program ω β}
    {n m : Nat} (within : p.Within ends n) (rest : ∀ a, ends a → (f a).Within ends' m) :
    (p.bind f).Within ends' (n + m) := by
  induction p generalizing n with
  | done a => exact (rest a within).mono (Nat.le_add_left m n) fun _ => id
  | spend next ih =>
      refine ⟨Nat.add_pos_left within.1 m, ?_⟩
      have tail := ih true within.2
      have amount : n - 1 + m = n + m - 1 := by
        have positive := within.1
        omega
      rw [amount] at tail
      exact tail
  | work next ih => exact fun granted => ih granted (within granted)
  | ask next ih => exact fun answer => ih answer (within answer)

end Program

/-! ## Programs that fail -/

/-- A program that ends with a value or a failure. -/
abbrev Fallible (ω ε α : Type) := ExceptT ε (Program ω) α

section Fallible

variable {ω ε α β : Type} {fine : ε → Prop}

/-- Spend one unit, or fail. -/
def charge (error : ε) : Fallible ω ε Unit :=
  ExceptT.mk (.spend fun granted => .done (if granted then .ok () else .error error))

/-- Wait for an answer, which may be a failure. -/
def wait (f : ω → Except ε α) : Fallible ω ε α :=
  ExceptT.mk (.ask fun answer => .done (f answer))

/-- Run a part and go on after its failures, apart from those that pass. -/
def attempt (passes : ε → Bool) (x : Fallible ω ε α) : Fallible ω ε (Option α) :=
  ExceptT.mk (x.run.bind fun result =>
    match result with
    | .ok a => .done (.ok (some a))
    | .error e => .done (if passes e then .error e else .ok none))

/-- Where every unit is granted, the program spends at most so many units, and fails in the
described ways only. -/
def Costs (fine : ε → Prop) (n : Nat) (x : Fallible ω ε α) : Prop :=
  x.run.Within (fun result => ∀ e, result = .error e → fine e) n

theorem Costs.mono {x : Fallible ω ε α} {n m : Nat} (costs : Costs fine n x) (le : n ≤ m) :
    Costs fine m x :=
  Program.Within.mono costs le fun _ => id

theorem costs_pure (a : α) : Costs fine 0 (pure a : Fallible ω ε α) :=
  fun e h => by cases h

theorem costs_throw {e : ε} (expected : fine e) : Costs fine 0 (throw e : Fallible ω ε α) := by
  intro e' same
  rw [← Except.error.inj same]
  exact expected

theorem costs_charge (error : ε) : Costs fine 1 (charge error : Fallible ω ε Unit) :=
  ⟨Nat.one_pos, fun e h => by cases h⟩

theorem costs_wait {f : ω → Except ε α} (expected : ∀ answer e, f answer = .error e → fine e) :
    Costs fine 0 (wait f) :=
  expected

theorem Costs.bind {x : Fallible ω ε α} {f : α → Fallible ω ε β} {n m : Nat}
    (first : Costs fine n x) (rest : ∀ a, Costs fine m (f a)) : Costs fine (n + m) (x >>= f) := by
  refine Program.Within.bind first fun result expected => ?_
  cases result with
  | ok a => exact rest a
  | error e =>
      intro e' same
      rw [← Except.error.inj same]
      exact expected e rfl

theorem Costs.attempt {x : Fallible ω ε α} {n : Nat} (costs : Costs fine n x) (passes : ε → Bool) :
    Costs fine n (attempt passes x) := by
  refine Program.Within.bind (m := 0) costs fun result expected => ?_
  cases result with
  | ok a => exact fun e h => by cases h
  | error e =>
      by_cases kept : passes e = true
      · simp only [if_pos kept]
        intro e' same
        rw [← Except.error.inj same]
        exact expected e rfl
      · simp only [if_neg kept]
        exact fun e h => by cases h

end Fallible

end Metered
