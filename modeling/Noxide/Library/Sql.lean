import Mathlib.Logic.Basic
import Noxide.Library.Checked

/-!
# Parameterized query conditions

Conditions over the columns of one row, with numbered parameters, in the
three-valued logic of the query language: a comparison with an absent value is
neither true nor false, and a row is selected only where its condition is true.

A condition is built while its parameters are pushed onto a growing list, and
is evaluated against the final list.  The rules about {lit}`Builds` say that
a clause keeps its meaning whatever is pushed after it, so a proof composes the
meaning of a filter from the meanings of its clauses.

Main results:

- Theorems {lit}`accepts_and` and {lit}`accepts_or`: selection is compositional
  although the truth values are not Boolean.
- Theorem {lit}`Builds.mapM`: a list of clauses means what its members mean.
-/

namespace Sql

open Checked

/-! ## Truth values -/

/-- The truth of a condition; {lit}`none` is neither true nor false. -/
abbrev Truth := Option Bool

namespace Truth

def conj : Truth → Truth → Truth
  | some false, _ => some false
  | _, some false => some false
  | some true, some true => some true
  | _, _ => none

def disj : Truth → Truth → Truth
  | some true, _ => some true
  | _, some true => some true
  | some false, some false => some false
  | _, _ => none

/-- Only a true condition selects its row. -/
def accepts (t : Truth) : Bool := t == some true

theorem accepts_conj (s t : Truth) : accepts (conj s t) = (accepts s && accepts t) := by
  rcases s with _ | _ | _ <;> rcases t with _ | _ | _ <;> rfl

theorem accepts_disj (s t : Truth) : accepts (disj s t) = (accepts s || accepts t) := by
  rcases s with _ | _ | _ <;> rcases t with _ | _ | _ <;> rfl

end Truth

/-! ## Conditions -/

/-- A stored or bound value. -/
inductive Datum where
  | text (value : String)
  | number (value : Int)
  deriving DecidableEq, Repr

/-- Conditions over the columns and the subqueries of a table.  Parameters are
numbered from one. -/
inductive Condition (Column Subquery : Type) where
  | constant (value : Bool)
  | equals (column : Column) (param : Nat)
  | greater (column : Column) (param : Nat)
  | satisfied (query : Subquery)
  | and (left right : Condition Column Subquery)
  | or (left right : Condition Column Subquery)

/-- What a condition can see of one row. -/
structure View (Column Subquery : Type) where
  column : Column → Option Datum
  subquery : List Datum → Subquery → Bool

variable {Column Subquery : Type}

/-- The parameter bound at a number. -/
def bound (params : List Datum) (param : Nat) : Option Datum :=
  if param = 0 then none else params[param - 1]?

def isEqual : Option Datum → Option Datum → Truth
  | some a, some b => some (a == b)
  | _, _ => none

def isGreater : Option Datum → Option Datum → Truth
  | some (.number a), some (.number b) => some (decide (b < a))
  | some (.text a), some (.text b) => some (decide (b < a))
  | _, _ => none

def Condition.eval (view : View Column Subquery) (params : List Datum) :
    Condition Column Subquery → Truth
  | .constant value => some value
  | .equals column param => isEqual (view.column column) (bound params param)
  | .greater column param => isGreater (view.column column) (bound params param)
  | .satisfied query => some (view.subquery params query)
  | .and left right => (left.eval view params).conj (right.eval view params)
  | .or left right => (left.eval view params).disj (right.eval view params)

/-- Whether the condition selects the row. -/
def Condition.accepts (view : View Column Subquery) (params : List Datum)
    (c : Condition Column Subquery) : Bool :=
  (c.eval view params).accepts

@[simp]
theorem accepts_constant (view : View Column Subquery) (params : List Datum) (b : Bool) :
    (Condition.constant b).accepts view params = b := by
  cases b <;> rfl

@[simp]
theorem accepts_satisfied (view : View Column Subquery) (params : List Datum)
    (q : Subquery) :
    (Condition.satisfied q).accepts view params = view.subquery params q := by
  unfold Condition.accepts Condition.eval Truth.accepts
  cases view.subquery params q <;> rfl

@[simp]
theorem accepts_and (view : View Column Subquery) (params : List Datum)
    (l r : Condition Column Subquery) :
    (l.and r).accepts view params = (l.accepts view params && r.accepts view params) :=
  Truth.accepts_conj _ _

@[simp]
theorem accepts_or (view : View Column Subquery) (params : List Datum)
    (l r : Condition Column Subquery) :
    (l.or r).accepts view params = (l.accepts view params || r.accepts view params) :=
  Truth.accepts_disj _ _

theorem accepts_equals (view : View Column Subquery) (params : List Datum)
    (column : Column) (param : Nat) {value : Datum} (h : bound params param = some value) :
    (Condition.equals column param).accepts view params =
      decide (view.column column = some value) := by
  unfold Condition.accepts Condition.eval Truth.accepts
  rw [h]
  cases view.column column with
  | none => simp [isEqual]
  | some stored =>
      by_cases heq : stored = value
      · simp [isEqual, heq]
      · simp [isEqual, heq]

theorem accepts_greater (view : View Column Subquery) (params : List Datum)
    (column : Column) (param : Nat) {value stored : Int}
    (hbound : bound params param = some (.number value))
    (hcolumn : view.column column = some (.number stored)) :
    (Condition.greater column param).accepts view params = decide (value < stored) := by
  unfold Condition.accepts Condition.eval Truth.accepts
  rw [hbound, hcolumn]
  by_cases hlt : value < stored
  · simp [isGreater, hlt]
  · simp [isGreater, hlt]

/-! ## Joined clauses -/

/-- Clauses joined by AND; the join of no clause is never built. -/
def joinAnd : List (Condition Column Subquery) → Condition Column Subquery
  | [] => .constant true
  | [c] => c
  | c :: rest => c.and (joinAnd rest)

/-- Clauses joined by OR. -/
def joinOr : List (Condition Column Subquery) → Condition Column Subquery
  | [] => .constant false
  | [c] => c
  | c :: rest => c.or (joinOr rest)

@[simp]
theorem accepts_joinAnd (view : View Column Subquery) (params : List Datum)
    (cs : List (Condition Column Subquery)) :
    (joinAnd cs).accepts view params = cs.all fun c => c.accepts view params := by
  fun_induction joinAnd cs with
  | case1 => simp
  | case2 c => simp
  | case3 c rest _ ih => simp [ih]

@[simp]
theorem accepts_joinOr (view : View Column Subquery) (params : List Datum)
    (cs : List (Condition Column Subquery)) :
    (joinOr cs).accepts view params = cs.any fun c => c.accepts view params := by
  fun_induction joinOr cs with
  | case1 => simp
  | case2 c => simp
  | case3 c rest _ ih => simp [ih]

/-! ## Building a condition -/

/-- A computation that pushes parameters and may fail. -/
abbrev Build (ε α : Type) := StateT (List Datum) (Except ε) α

/-- Push one parameter and return its number. -/
def push {ε : Type} (value : Datum) : Build ε Nat := fun params =>
  .ok (params.length + 1, params ++ [value])

variable {ε α β : Type}

/-- A built value has the property whatever is pushed after it, and the
parameters pushed before it stay where they are. -/
def Builds (x : Build ε α) (params : List Datum) (P : List Datum → α → Prop) : Prop :=
  ∀ a final, x params = .ok (a, final) →
    (∃ pushed, final = params ++ pushed) ∧ ∀ later, P (final ++ later) a

theorem bound_push (params later : List Datum) (value : Datum) :
    bound (params ++ [value] ++ later) (params.length + 1) = some value := by
  simp [bound]

theorem Builds.pure {a : α} {params : List Datum} {P : List Datum → α → Prop}
    (h : ∀ later, P (params ++ later) a) :
    Builds (Pure.pure a : Build ε α) params P := by
  intro b final hrun
  obtain ⟨rfl, rfl⟩ := Prod.mk.inj (Except.ok.inj hrun)
  exact ⟨⟨[], by simp⟩, h⟩

theorem Builds.push {value : Datum} {params : List Datum} :
    Builds (Sql.push value : Build ε Nat) params
      fun final n => bound final n = some value := by
  intro n final hrun
  obtain ⟨rfl, rfl⟩ := Prod.mk.inj (Except.ok.inj hrun)
  exact ⟨⟨[value], rfl⟩, fun later => bound_push params later value⟩

/-- Sequencing: the second part may use what the first part established. -/
theorem Builds.bind {x : Build ε α} {f : α → Build ε β} {params : List Datum}
    {P : List Datum → α → Prop} {Q : List Datum → β → Prop}
    (hx : Builds x params P)
    (hf : ∀ a pushed, (∀ later, P (params ++ pushed ++ later) a) →
      Builds (f a) (params ++ pushed) Q) :
    Builds (x >>= f) params Q := by
  intro b final hrun
  obtain ⟨⟨a, middle⟩, hfirst, hsecond⟩ := bind_eq_ok.mp hrun
  obtain ⟨⟨first, rfl⟩, hP⟩ := hx a middle hfirst
  obtain ⟨⟨second, rfl⟩, hQ⟩ := hf a first hP b final hsecond
  exact ⟨⟨first ++ second, by simp⟩, hQ⟩

theorem Builds.mono {x : Build ε α} {params : List Datum} {P Q : List Datum → α → Prop}
    (h : Builds x params P) (hPQ : ∀ final a, P final a → Q final a) :
    Builds x params Q := by
  intro a final hrun
  obtain ⟨hpushed, hP⟩ := h a final hrun
  exact ⟨hpushed, fun later => hPQ _ _ (hP later)⟩

/-- A failing computation builds nothing. -/
theorem Builds.throw {e : ε} {params : List Datum} {P : List Datum → α → Prop} :
    Builds (fun _ => .error e : Build ε α) params P := by
  intro a final hrun
  cases hrun

/-- A check that pushes nothing. -/
theorem Builds.lift {x : Except ε α} {params : List Datum} {P : List Datum → α → Prop}
    (h : ∀ a, x = .ok a → ∀ later, P (params ++ later) a) :
    Builds (StateT.lift x : Build ε α) params P := by
  intro a final hrun
  obtain ⟨b, hx, hb⟩ := bind_eq_ok.mp hrun
  obtain ⟨rfl, rfl⟩ := Prod.mk.inj (Except.ok.inj hb)
  exact ⟨⟨[], by simp⟩, h b hx⟩

/-- A list of clauses means what its members mean. -/
theorem Builds.mapM {xs : List α} {f : α → Build ε β} {params : List Datum}
    {R : List Datum → α → β → Prop}
    (h : ∀ x ∈ xs, ∀ start, Builds (f x) start fun final y => R final x y) :
    Builds (xs.mapM f) params fun final ys => List.Forall₂ (R final) xs ys := by
  induction xs generalizing params with
  | nil =>
      rw [List.mapM_nil]
      exact Builds.pure fun _ => List.Forall₂.nil
  | cons x xs ih =>
      rw [List.mapM_cons]
      apply Builds.bind (h x (by simp) params)
      intro y first hy
      have htail : Builds (xs.mapM f) (params ++ first) fun final ys =>
          List.Forall₂ (R final) xs ys := ih fun z hz => h z (by simp [hz])
      intro ys final hrun
      obtain ⟨⟨rest, final'⟩, hrest, hpure⟩ := bind_eq_ok.mp hrun
      obtain ⟨rfl, rfl⟩ := Prod.mk.inj (Except.ok.inj hpure)
      obtain ⟨⟨pushed, rfl⟩, hR⟩ := htail rest final' hrest
      refine ⟨⟨pushed, rfl⟩, fun later => ?_⟩
      refine List.Forall₂.cons ?_ (hR later)
      simpa using hy (pushed ++ later)

/-! ## Builds that cannot fail -/

/-- The computation succeeds whatever was pushed before it. -/
def Total (x : Build ε α) : Prop := ∀ params, ∃ a final, x params = .ok (a, final)

theorem Total.pure (a : α) : Total (Pure.pure a : Build ε α) := fun params =>
  ⟨a, params, rfl⟩

theorem Total.push (value : Datum) : Total (Sql.push value : Build ε Nat) := fun params =>
  ⟨params.length + 1, params ++ [value], rfl⟩

theorem Total.bind {x : Build ε α} {f : α → Build ε β} (hx : Total x)
    (hf : ∀ a, Total (f a)) : Total (x >>= f) := by
  intro params
  obtain ⟨a, middle, hfirst⟩ := hx params
  obtain ⟨b, final, hsecond⟩ := hf a middle
  exact ⟨b, final, run_bind_eq_ok.mpr ⟨a, middle, hfirst, hsecond⟩⟩

theorem Total.mapM {xs : List α} {f : α → Build ε β} (h : ∀ x ∈ xs, Total (f x)) :
    Total (xs.mapM f) := by
  induction xs with
  | nil =>
      rw [List.mapM_nil]
      exact Total.pure []
  | cons x xs ih =>
      rw [List.mapM_cons]
      apply Total.bind (h x (by simp))
      intro y
      apply Total.bind (ih fun z hz => h z (by simp [hz]))
      intro ys
      exact Total.pure _

/-! ## Lists of tests -/

/-- Boolean tests related member by member agree on the whole list. -/
theorem all_eq_of_forall₂ {f : α → Bool} {g : β → Bool} {xs : List α} {ys : List β}
    (h : List.Forall₂ (fun x y => g y = f x) xs ys) : ys.all g = xs.all f := by
  induction h with
  | nil => rfl
  | cons hxy _ ih => simp [hxy, ih]

theorem any_eq_of_forall₂ {f : α → Bool} {g : β → Bool} {xs : List α} {ys : List β}
    (h : List.Forall₂ (fun x y => g y = f x) xs ys) : ys.any g = xs.any f := by
  induction h with
  | nil => rfl
  | cons hxy _ ih => simp [hxy, ih]

end Sql
