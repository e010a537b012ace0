import Mathlib.Logic.Relation

/-!
# Transition systems

A system is a set of initial states and a step relation.  An invariant holds of
every reachable state; a stable property, once true, stays true along every
further run.  A property of single steps thus becomes a property of whole runs.

Main results:

- Theorem {lit}`System.Invariant.holds`: an invariant holds of every reachable
  state.
- Theorem {lit}`System.Stable.along`: a stable property survives every run that
  starts in a reachable state.
-/

/-- Initial states and one-step transitions over a state type. -/
structure System (State : Type) where
  initial : State → Prop
  step : State → State → Prop

namespace System

variable {State : Type} (system : System State)

/-- Any number of steps. -/
def Run : State → State → Prop :=
  Relation.ReflTransGen system.step

def Reachable (state : State) : Prop :=
  ∃ start, system.initial start ∧ system.Run start state

variable {system}

theorem Run.refl (state : State) : system.Run state state :=
  Relation.ReflTransGen.refl

theorem Run.tail {first second third : State} (run : system.Run first second)
    (step : system.step second third) : system.Run first third :=
  Relation.ReflTransGen.tail run step

theorem Reachable.start {state : State} (h : system.initial state) : system.Reachable state :=
  ⟨state, h, Run.refl state⟩

theorem Reachable.next {state next : State} (h : system.Reachable state)
    (step : system.step state next) : system.Reachable next := by
  rcases h with ⟨start, initial, run⟩
  exact ⟨start, initial, run.tail step⟩

theorem Reachable.run {state later : State} (h : system.Reachable state)
    (run : system.Run state later) : system.Reachable later := by
  rcases h with ⟨start, initial, before⟩
  exact ⟨start, initial, Relation.ReflTransGen.trans before run⟩

/-- A system with more steps reaches more. -/
theorem Reachable.mono {other : System State} {state : State}
    (initial : ∀ state, system.initial state → other.initial state)
    (step : ∀ state next, system.step state next → other.step state next)
    (h : system.Reachable state) : other.Reachable state := by
  rcases h with ⟨start, first, run⟩
  refine ⟨start, initial start first, ?_⟩
  induction run with
  | refl => exact Relation.ReflTransGen.refl
  | tail _ last ih => exact ih.tail (step _ _ last)

/-! ## Properties of runs -/

/-- True initially and kept by every step from a reachable state. -/
structure Invariant (system : System State) (property : State → Prop) : Prop where
  initial : ∀ state, system.initial state → property state
  step : ∀ state next, system.Reachable state → property state →
    system.step state next → property next

/-- Kept by every step from a reachable state. -/
def Stable (system : System State) (property : State → Prop) : Prop :=
  ∀ state next, system.Reachable state → property state →
    system.step state next → property next

/-- A stable property that holds of a reachable state holds after every run
from it. -/
theorem Stable.along {property : State → Prop} (stable : system.Stable property)
    {state later : State} (reachable : system.Reachable state) (now : property state)
    (run : system.Run state later) : property later := by
  induction run with
  | refl => exact now
  | tail before step ih => exact stable _ _ (reachable.run before) ih step

/-- An invariant holds of every reachable state. -/
theorem Invariant.holds {property : State → Prop} (invariant : system.Invariant property)
    {state : State} (reachable : system.Reachable state) : property state := by
  rcases reachable with ⟨start, initial, run⟩
  exact Stable.along invariant.step (Reachable.start initial)
    (invariant.initial start initial) run

end System
