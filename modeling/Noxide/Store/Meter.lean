import Mathlib.Algebra.BigOperators.Group.List.Basic
import Mathlib.Tactic.Linarith

/-!
# The statement meter

The meter of a request counts the statements that its transactions send.  A transaction reserves
units for its cleanup; they stay reserved until the cleanup spends them or the end of the provider
is confirmed.  A reservation that is dropped unconfirmed is lost.

Main results:

- Theorem {lit}`Meter.Sound.apply`: what one call of the meter does, whichever call comes.
- Theorem {lit}`Meter.run_promises`: what every interleaving of calls does.
-/

namespace Noxide

/-! ## Meters -/

/-- The cleanup reservation of a provider, and whether its last handle is gone. -/
structure Cleanup where
  remaining : Nat
  dropped : Bool
  deriving DecidableEq, Repr

structure Meter where
  free : Nat
  reserved : Nat
  spent : Nat
  cleanups : List Cleanup
  deriving DecidableEq, Repr

/-- The largest statement limit of a request. -/
def maxStatementLimit : Nat := 256

/-- A limit outside the approved bound is a panic. -/
def Meter.new (limit : Nat) : Option Meter :=
  if 1 ≤ limit ∧ limit ≤ maxStatementLimit then some ⟨limit, 0, 0, []⟩ else none

/-- Addition of 16-bit counters; an overflow is a panic. -/
def checkedAdd (a b : Nat) : Option Nat := if a + b < 2 ^ 16 then some (a + b) else none

/-- Subtraction of 16-bit counters; an underflow is a panic. -/
def checkedSub (a b : Nat) : Option Nat := if b ≤ a then some (a - b) else none

/-- The reservation of a live handle. -/
def Meter.live (m : Meter) (id : Nat) : Option Cleanup :=
  (m.cleanups[id]?).filter fun cleanup => !cleanup.dropped

/-- A call by some transaction of the request. -/
inductive MeterCall where
  | charge (statements : Nat)
  | reserve (statements : Nat)
  | cleanupCharge (id statements : Nat)
  | confirmed (id : Nat)
  | dropped (id : Nat)
  deriving DecidableEq, Repr

namespace Meter

def charge (m : Meter) (statements : Nat) : Option (Bool × Meter) :=
  if m.free < statements then some (false, m)
  else do
    let free ← checkedSub m.free statements
    let spent ← checkedAdd m.spent statements
    return (true, { m with free := free, spent := spent })

def reserve (m : Meter) (statements : Nat) : Option (Bool × Meter) :=
  if m.free < statements then some (false, m)
  else do
    let free ← checkedSub m.free statements
    let reserved ← checkedAdd m.reserved statements
    return (true, { m with
      free := free
      reserved := reserved
      cleanups := m.cleanups ++ [⟨statements, false⟩] })

/-- The source's {lit}`Cleanup::charge`. -/
def cleanupCharge (m : Meter) (id : Nat) (cleanup : Cleanup) (statements : Nat) :
    Option (Bool × Meter) :=
  if cleanup.remaining < statements then some (false, m)
  else do
    let remaining ← checkedSub cleanup.remaining statements
    let reserved ← checkedSub m.reserved statements
    let spent ← checkedAdd m.spent statements
    return (true, { m with
      reserved := reserved
      spent := spent
      cleanups := m.cleanups.set id { cleanup with remaining := remaining } })

/-- The source's {lit}`Cleanup::confirmed`. -/
def confirmed (m : Meter) (id : Nat) (cleanup : Cleanup) : Option (Bool × Meter) := do
  let free ← checkedAdd m.free cleanup.remaining
  let reserved ← checkedSub m.reserved cleanup.remaining
  return (true, { m with
    free := free
    reserved := reserved
    cleanups := m.cleanups.set id { cleanup with remaining := 0 } })

/-- One call: whether it was granted, and the meter after it.  Nobody calls through a handle that
is gone. -/
def apply (m : Meter) : MeterCall → Option (Bool × Meter)
  | .charge statements => m.charge statements
  | .reserve statements => m.reserve statements
  | .cleanupCharge id statements =>
      match m.live id with
      | some cleanup => m.cleanupCharge id cleanup statements
      | none => some (false, m)
  | .confirmed id =>
      match m.live id with
      | some cleanup => m.confirmed id cleanup
      | none => some (false, m)
  | .dropped id =>
      match m.live id with
      | some cleanup => some (true, { m with cleanups := m.cleanups.set id { cleanup with dropped := true } })
      | none => some (false, m)

/-- The meter after an interleaving of calls. -/
def run (m : Meter) : List MeterCall → Option Meter
  | [] => some m
  | call :: rest => do
      let (_, m) ← m.apply call
      m.run rest

/-! ## Conservation -/

def reservations (m : Meter) : Nat := (m.cleanups.map Cleanup.remaining).sum

/-- The three pools hold the limit, and the reserved pool is what the reservations hold. -/
structure Sound (m : Meter) (limit : Nat) : Prop where
  total : m.free + m.reserved + m.spent = limit
  reserved : m.reserved = m.reservations
  small : limit ≤ maxStatementLimit

/-- What one call does to a meter. -/
structure Step (m : Meter) (call : MeterCall) (granted : Bool) (next : Meter) : Prop where
  /-- A refused call changes nothing. -/
  refused : granted = false → next = m
  /-- What is spent stays spent. -/
  spent : m.spent ≤ next.spent
  /-- A confirmation returns what its reservation still holds, and leaves nothing to return. -/
  returned : ∀ id, call = .confirmed id → ∀ cleanup ∈ m.live id,
    next.free = m.free + cleanup.remaining ∧ next.spent = m.spent ∧
      next.cleanups[id]? = some { cleanup with remaining := 0 }
  /-- Nothing else returns units. -/
  kept : (∀ id, call = .confirmed id → m.live id = none) → next.free ≤ m.free
  /-- A reservation only ever shrinks, and one that was dropped stays as it is. -/
  shrinks : ∀ (id : Nat) (cleanup : Cleanup), m.cleanups[id]? = some cleanup → ∃ cleanup' : Cleanup,
    next.cleanups[id]? = some cleanup' ∧ cleanup'.remaining ≤ cleanup.remaining ∧
      (cleanup.dropped = true → cleanup' = cleanup)
  /-- A charge of a live reservation is granted exactly when the reservation covers it. -/
  covers : ∀ id statements, call = .cleanupCharge id statements → ∀ cleanup ∈ m.live id,
    granted = decide (statements ≤ cleanup.remaining) ∧ (granted = true →
      next.cleanups[id]? = some { cleanup with remaining := cleanup.remaining - statements })
  /-- A granted reservation is a new one, with all its units. -/
  opens : ∀ statements, call = .reserve statements → granted = true →
    next.cleanups = m.cleanups ++ [⟨statements, false⟩]
  /-- The other reservations stay as they are. -/
  others : ∀ other, (∀ id, call = .confirmed id ∨ call = .dropped id ∨
    (∃ statements, call = .cleanupCharge id statements) → id ≠ other) →
      ∀ cleanup, m.cleanups[other]? = some cleanup → next.cleanups[other]? = some cleanup

/-! ## One call -/

theorem sum_set {cleanups : List Cleanup} {id : Nat} {cleanup : Cleanup}
    (found : cleanups[id]? = some cleanup) (cleanup' : Cleanup) :
    ((cleanups.set id cleanup').map Cleanup.remaining).sum + cleanup.remaining =
      (cleanups.map Cleanup.remaining).sum + cleanup'.remaining := by
  induction cleanups generalizing id with
  | nil => cases found
  | cons first rest ih =>
      cases id with
      | zero =>
          cases found
          simp only [List.set_cons_zero, List.map_cons, List.sum_cons]
          omega
      | succ id =>
          have tail := ih found
          simp only [List.set_cons_succ, List.map_cons, List.sum_cons]
          omega

theorem remaining_le_sum {cleanups : List Cleanup} {id : Nat} {cleanup : Cleanup}
    (found : cleanups[id]? = some cleanup) :
    cleanup.remaining ≤ (cleanups.map Cleanup.remaining).sum := by
  have change := sum_set found { cleanup with remaining := 0 }
  simp only at change
  omega

theorem live_eq_some {m : Meter} {id : Nat} {cleanup : Cleanup} :
    m.live id = some cleanup ↔ m.cleanups[id]? = some cleanup ∧ cleanup.dropped = false := by
  simp [live, Option.filter_eq_some_iff]

theorem checkedAdd_eq {a b : Nat} (small : a + b ≤ maxStatementLimit) : checkedAdd a b = some (a + b) :=
  if_pos (lt_of_le_of_lt small (by decide))

theorem checkedSub_eq {a b : Nat} (le : b ≤ a) : checkedSub a b = some (a - b) := if_pos le

/-- A call that leaves the meter as it is. -/
theorem Step.same {m : Meter} {call : MeterCall}
    (idle : ∀ id, call = .confirmed id → m.live id = none)
    (short : ∀ id statements, call = .cleanupCharge id statements → ∀ cleanup ∈ m.live id,
      cleanup.remaining < statements) : m.Step call false m where
  refused := fun _ => rfl
  spent := le_refl _
  returned := by
    intro id same cleanup found
    rw [idle id same] at found
    cases found
  kept := fun _ => le_refl _
  shrinks := fun id cleanup found => ⟨cleanup, found, le_refl _, fun _ => rfl⟩
  covers := by
    intro id statements same cleanup found
    refine ⟨(decide_eq_false (Nat.not_le.mpr (short id statements same cleanup found))).symm, fun h => ?_⟩
    cases h
  opens := fun _ _ h => by cases h
  others := fun _ _ _ found => found

/-- A live reservation that gives way to a smaller one. -/
theorem shrinks_set {m : Meter} {id : Nat} {cleanup cleanup' : Cleanup}
    (found : m.live id = some cleanup) (less : cleanup'.remaining ≤ cleanup.remaining) (other : Nat)
    (old : Cleanup) (here : m.cleanups[other]? = some old) :
    ∃ new : Cleanup, (m.cleanups.set id cleanup')[other]? = some new ∧ new.remaining ≤ old.remaining ∧
      (old.dropped = true → new = old) := by
  rcases live_eq_some.mp found with ⟨there, alive⟩
  by_cases same : id = other
  · subst same
    rw [there] at here
    cases here
    have inside := (List.getElem?_eq_some_iff.mp there).1
    refine ⟨cleanup', List.getElem?_set_self inside, less, fun gone => ?_⟩
    rw [alive] at gone
    cases gone
  · exact ⟨old, by rw [List.getElem?_set_ne same, here], le_refl _, fun _ => rfl⟩

theorem getElem?_set_live {m : Meter} {id : Nat} {cleanup cleanup' : Cleanup}
    (found : m.live id = some cleanup) : (m.cleanups.set id cleanup')[id]? = some cleanup' :=
  List.getElem?_set_self (List.getElem?_eq_some_iff.mp (live_eq_some.mp found).1).1

section Calls

variable {m : Meter} {limit : Nat}

/-- The pools bound each other. -/
theorem Sound.bounds (sound : m.Sound limit) :
    m.free + m.reserved + m.spent ≤ maxStatementLimit ∧ m.reserved = m.reservations :=
  ⟨sound.total.trans_le sound.small, sound.reserved⟩

theorem Sound.charge (sound : m.Sound limit) (statements : Nat) :
    ∃ granted next, m.apply (.charge statements) = some (granted, next) ∧ next.Sound limit ∧
      m.Step (.charge statements) granted next := by
  rcases sound.bounds with ⟨small, _⟩
  simp only [apply, Meter.charge]
  split
  · exact ⟨false, m, rfl, sound, Step.same (fun id h => by cases h) (fun id n h => by cases h)⟩
  · next enough =>
    rw [checkedSub_eq (by omega), checkedAdd_eq (by omega)]
    refine ⟨true, _, rfl, ⟨?_, sound.reserved, sound.small⟩, ?_⟩
    · have total := sound.total
      simp only
      omega
    · refine ⟨fun h => (by cases h), Nat.le_add_right _ _, fun id h => (by cases h), fun _ => ?_,
        fun id cleanup found => ⟨cleanup, found, le_refl _, fun _ => rfl⟩, fun id n h => (by cases h),
        fun n h => (by cases h), fun _ _ _ found => found⟩
      exact Nat.sub_le _ _

theorem Sound.reserve (sound : m.Sound limit) (statements : Nat) :
    ∃ granted next, m.apply (.reserve statements) = some (granted, next) ∧ next.Sound limit ∧
      m.Step (.reserve statements) granted next := by
  rcases sound.bounds with ⟨small, whole⟩
  simp only [apply, Meter.reserve]
  split
  · exact ⟨false, m, rfl, sound, Step.same (fun id h => by cases h) (fun id n h => by cases h)⟩
  · next enough =>
    rw [checkedSub_eq (by omega), checkedAdd_eq (by omega)]
    refine ⟨true, _, rfl, ⟨?_, ?_, sound.small⟩, ?_⟩
    · have total := sound.total
      simp only
      omega
    · simp only [reservations, List.map_append, List.map_cons, List.map_nil, List.sum_append,
        List.sum_singleton]
      rw [whole, reservations]
    · have kept : ∀ (id : Nat) (cleanup : Cleanup), m.cleanups[id]? = some cleanup →
          (m.cleanups ++ [⟨statements, false⟩])[id]? = some cleanup := by
        intro id cleanup found
        rw [List.getElem?_append_left (List.getElem?_eq_some_iff.mp found).1, found]
      refine ⟨fun h => (by cases h), le_refl _, fun id h => (by cases h), fun _ => ?_,
        fun id cleanup found => ⟨cleanup, kept id cleanup found, le_refl _, fun _ => rfl⟩,
        fun id n h => (by cases h), fun n h _ => (by cases h; rfl),
        fun other _ cleanup found => kept other cleanup found⟩
      exact Nat.sub_le _ _

theorem Sound.cleanupCharge (sound : m.Sound limit) (id statements : Nat) :
    ∃ granted next, m.apply (.cleanupCharge id statements) = some (granted, next) ∧
      next.Sound limit ∧ m.Step (.cleanupCharge id statements) granted next := by
  rcases sound.bounds with ⟨small, whole⟩
  simp only [apply]
  cases found : m.live id with
  | none =>
      refine ⟨false, m, rfl, sound, Step.same (fun id h => by cases h) fun other n h cleanup here => ?_⟩
      cases h
      rw [found] at here
      cases here
  | some cleanup =>
      simp only [Meter.cleanupCharge]
      split
      · next short =>
        refine ⟨false, m, rfl, sound, Step.same (fun id h => by cases h) fun other n h cleanup' here => ?_⟩
        cases h
        rw [found] at here
        cases here
        exact short
      · next enough =>
        have there := (live_eq_some.mp found).1
        have inside := remaining_le_sum there
        have change := sum_set there { cleanup with remaining := cleanup.remaining - statements }
        rw [reservations] at whole
        rw [checkedSub_eq (by omega), checkedSub_eq (by omega), checkedAdd_eq (by omega)]
        refine ⟨true, _, rfl, ⟨?_, ?_, sound.small⟩, ?_⟩
        · have total := sound.total
          simp only
          omega
        · simp only [reservations] at change ⊢
          omega
        · refine ⟨fun h => (by cases h), Nat.le_add_right _ _, fun id h => (by cases h), fun _ => le_refl _,
            shrinks_set found (Nat.sub_le _ _), fun other n h cleanup' here => ?_,
            fun n h => (by cases h), fun other different cleanup' here => ?_⟩
          · cases h
            rw [found] at here
            cases here
            exact ⟨(decide_eq_true (Nat.not_lt.mp enough)).symm, fun _ => getElem?_set_live found⟩
          · have apart := different id (.inr (.inr ⟨statements, rfl⟩))
            rw [List.getElem?_set_ne apart, here]

theorem Sound.confirmed (sound : m.Sound limit) (id : Nat) :
    ∃ granted next, m.apply (.confirmed id) = some (granted, next) ∧ next.Sound limit ∧
      m.Step (.confirmed id) granted next := by
  rcases sound.bounds with ⟨small, whole⟩
  simp only [apply]
  cases found : m.live id with
  | none =>
      refine ⟨false, m, rfl, sound, Step.same (fun other h => ?_) (fun id n h => by cases h)⟩
      cases h
      exact found
  | some cleanup =>
      have there := (live_eq_some.mp found).1
      have inside := remaining_le_sum there
      have change := sum_set there { cleanup with remaining := 0 }
      rw [reservations] at whole
      simp only [Meter.confirmed]
      rw [checkedSub_eq (by omega), checkedAdd_eq (by omega)]
      refine ⟨true, _, rfl, ⟨?_, ?_, sound.small⟩, ?_⟩
      · have total := sound.total
        simp only
        omega
      · simp only [reservations] at change ⊢
        omega
      · refine ⟨fun h => (by cases h), le_refl _, fun other h cleanup' here => ?_, fun idle => ?_,
          shrinks_set found (Nat.zero_le _), fun id n h => (by cases h), fun n h => (by cases h),
          fun other different cleanup' here => ?_⟩
        · cases h
          rw [found] at here
          cases here
          exact ⟨rfl, rfl, getElem?_set_live found⟩
        · rw [idle id rfl] at found
          cases found
        · have apart := different id (.inl rfl)
          rw [List.getElem?_set_ne apart, here]

theorem Sound.dropped (sound : m.Sound limit) (id : Nat) :
    ∃ granted next, m.apply (.dropped id) = some (granted, next) ∧ next.Sound limit ∧
      m.Step (.dropped id) granted next := by
  simp only [apply]
  cases found : m.live id with
  | none =>
      exact ⟨false, m, rfl, sound, Step.same (fun id h => by cases h) (fun id n h => by cases h)⟩
  | some cleanup =>
      have there := (live_eq_some.mp found).1
      have change := sum_set there { cleanup with dropped := true }
      refine ⟨true, _, rfl, ⟨sound.total, ?_, sound.small⟩, ?_⟩
      · have whole := sound.reserved
        simp only [reservations] at change whole ⊢
        omega
      · refine ⟨fun h => (by cases h), le_refl _, fun id h => (by cases h), fun _ => le_refl _,
          shrinks_set found (le_refl _), fun id n h => (by cases h), fun n h => (by cases h),
          fun other different cleanup' here => ?_⟩
        have apart := different id (.inr (.inl rfl))
        rw [List.getElem?_set_ne apart, here]

/-- No call panics, and every call keeps the pools together. -/
theorem Sound.apply (sound : m.Sound limit) (call : MeterCall) :
    ∃ granted next, m.apply call = some (granted, next) ∧ next.Sound limit ∧
      m.Step call granted next := by
  cases call with
  | charge statements => exact sound.charge statements
  | reserve statements => exact sound.reserve statements
  | cleanupCharge id statements => exact sound.cleanupCharge id statements
  | confirmed id => exact sound.confirmed id
  | dropped id => exact sound.dropped id

end Calls

/-! ## Interleavings -/

/-- What a whole interleaving of calls does. -/
structure Run (m : Meter) (last : Meter) : Prop where
  spent : m.spent ≤ last.spent
  shrinks : ∀ (id : Nat) (cleanup : Cleanup), m.cleanups[id]? = some cleanup → ∃ cleanup' : Cleanup,
    last.cleanups[id]? = some cleanup' ∧ cleanup'.remaining ≤ cleanup.remaining ∧
      (cleanup.dropped = true → cleanup' = cleanup)

theorem Run.refl (m : Meter) : m.Run m :=
  ⟨le_refl _, fun _ cleanup found => ⟨cleanup, found, le_refl _, fun _ => rfl⟩⟩

theorem Run.step {m next last : Meter} {call : MeterCall} {granted : Bool}
    (first : m.Step call granted next) (rest : next.Run last) : m.Run last := by
  refine ⟨le_trans first.spent rest.spent, fun id cleanup found => ?_⟩
  rcases first.shrinks id cleanup found with ⟨middle, there, less, fixed⟩
  rcases rest.shrinks id middle there with ⟨after, here, less', fixed'⟩
  refine ⟨after, here, le_trans less' less, fun gone => ?_⟩
  have same := fixed gone
  rw [same] at fixed'
  exact fixed' gone

theorem Sound.run {m : Meter} {limit : Nat} (sound : m.Sound limit) (calls : List MeterCall) :
    ∃ last, m.run calls = some last ∧ last.Sound limit ∧ m.Run last := by
  induction calls generalizing m with
  | nil => exact ⟨m, rfl, sound, Run.refl m⟩
  | cons call calls ih =>
      rcases sound.apply call with ⟨granted, next, applied, sound', step⟩
      rcases ih sound' with ⟨last, ran, sound'', rest⟩
      refine ⟨last, ?_, sound'', Run.step step rest⟩
      simp only [Meter.run, applied, Option.bind_eq_bind, Option.bind_some]
      exact ran

theorem new_sound {limit : Nat} {m : Meter} (made : new limit = some m) : m.Sound limit := by
  unfold new at made
  split at made
  · next inside =>
    cases made
    exact ⟨rfl, rfl, inside.2⟩
  · cases made

/-- The promises of a meter: whatever calls came before, no call panics, the pools hold the limit,
and the next call and all further ones spend and return what they should. -/
structure Promises (start : Meter) (limit : Nat) : Prop where
  conserved : ∀ before, ∃ m, start.run before = some m ∧ m.Sound limit
  next : ∀ before m, start.run before = some m → ∀ call, ∃ granted next,
    m.apply call = some (granted, next) ∧ m.Step call granted next
  later : ∀ before m, start.run before = some m → ∀ calls, ∃ last,
    m.run calls = some last ∧ m.Run last

theorem run_promises {limit : Nat} {m : Meter} (made : new limit = some m) : m.Promises limit := by
  have start := new_sound made
  have reached : ∀ before middle, m.run before = some middle → middle.Sound limit := by
    intro before middle ran
    rcases start.run before with ⟨other, ran', sound, _⟩
    rw [ran] at ran'
    cases ran'
    exact sound
  refine ⟨fun before => ?_, fun before middle ran call => ?_, fun before middle ran calls => ?_⟩
  · rcases start.run before with ⟨last, ran, sound, _⟩
    exact ⟨last, ran, sound⟩
  · rcases (reached before middle ran).apply call with ⟨granted, next, applied, _, step⟩
    exact ⟨granted, next, applied, step⟩
  · rcases (reached before middle ran).run calls with ⟨last, ran', _, rest⟩
    exact ⟨last, ran', rest⟩

end Meter

end Noxide
