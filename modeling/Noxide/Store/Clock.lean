import Noxide.Protocol.Scalar

/-!
# The credential clock

Seconds of credential time.  The store keeps a persisted mark, every process
keeps a mark in memory, and each observation returns the highest of the sampled
wall clock and both marks.  A small correction backwards may delay expiry but
never revives an expired credential.

Main results:

- Theorem {lit}`observeClockWrite_spec`: an accepted observation never lowers
  the persisted mark and returns a time at or above it.
- Theorem {lit}`observeClock_spec`: an unbounded observation persists exactly
  the time it returns.
-/

namespace Noxide

open Checked

/-- The source's {lit}`CLOCK_ROLLBACK_TOLERANCE`. -/
def clockRollbackTolerance : Int := 60

/-- The source's {lit}`CLOCK_PERSIST_LAG`. -/
def clockPersistLag : Int := 2

def clockMovedBackwards : String :=
  "clock moved backwards beyond tolerance; use recover-clock with a fresh host key"

/-- An accepted observation: the persisted mark it leaves and the effective
time it returns. -/
structure Observed where
  persisted : Int
  effective : Int
  deriving DecidableEq, Repr

/-! ## Observations -/

/-- Observe and persist.  Both times are checked nonnegative first, so the
saturating subtraction of the source is exact. -/
def observeClock (previous now : Int) : Result Observed := do
  check "invalid clock" (0 ≤ now ∧ 0 ≤ previous)
  check clockMovedBackwards (previous - now ≤ clockRollbackTolerance)
  return { persisted := if previous < now then now else previous, effective := max now previous }

/-- Observe without persisting.  The first component is the process memory
afterwards: {lit}`fetch_max` takes effect even when the rollback check then
refuses the observation. -/
def observeClockRead (previous now memory : Int) : Int × Result Int :=
  if 0 ≤ now ∧ 0 ≤ previous then
    let high := max previous memory
    (max memory now, do
      check clockMovedBackwards (high - now ≤ clockRollbackTolerance)
      return max now high)
  else
    (memory, .error (.message "invalid clock"))

/-- Persist only when the mark lags by more than {lit}`clockPersistLag`. -/
def observeClockBounded (persisted now memory : Int) : Int × Result Observed :=
  let (memory, read) := observeClockRead persisted now memory
  (memory, do
    let effective ← read
    if clockPersistLag < effective - persisted then
      observeClock persisted effective
    else
      return { persisted := persisted, effective := effective })

/-- The request path: the effective time also raises the process memory. -/
def observeClockWrite (persisted now memory : Int) : Int × Result Observed :=
  match observeClockBounded persisted now memory with
  | (memory, .ok observed) => (max memory observed.effective, .ok observed)
  | (memory, .error e) => (memory, .error e)

/-- The maintenance tick: a read observation whose result is then persisted. -/
def tickClock (persisted now memory : Int) : Int × Result Observed :=
  let (memory, read) := observeClockRead persisted now memory
  (memory, do
    let seconds ← read
    observeClock persisted seconds)

/-! ## What an accepted observation guarantees -/

/-- The common guarantee of every observation that may persist. -/
structure Observed.Advances (observed : Observed) (previous now : Int) : Prop where
  keeps : previous ≤ observed.persisted
  covers : observed.persisted ≤ observed.effective
  current : now ≤ observed.effective

theorem observeClock_spec {previous now : Int} {observed : Observed}
    (h : observeClock previous now = .ok observed) :
    observed.Advances previous now ∧ observed.persisted = observed.effective := by
  simp only [observeClock, bind_eq_ok, ensure_eq_ok] at h
  rcases h with ⟨_, valid, _, tolerated, result⟩
  cases result
  have same : (if previous < now then now else previous) = max now previous := by
    split <;> omega
  rw [same]
  exact ⟨⟨le_max_right now previous, le_refl _, le_max_left now previous⟩, rfl⟩

theorem observeClockRead_spec {previous now memory effective : Int}
    (h : (observeClockRead previous now memory).2 = .ok effective) :
    previous ≤ effective ∧ now ≤ effective := by
  unfold observeClockRead at h
  split at h
  · simp only [bind_eq_ok, ensure_eq_ok] at h
    rcases h with ⟨_, tolerated, result⟩
    cases result
    omega
  · cases h

theorem observeClockBounded_spec {persisted now memory : Int} {observed : Observed}
    (h : (observeClockBounded persisted now memory).2 = .ok observed) :
    observed.Advances persisted now := by
  simp only [observeClockBounded, bind_eq_ok] at h
  rcases h with ⟨effective, read, result⟩
  have bounds := observeClockRead_spec read
  split at result
  · have inner := (observeClock_spec result).1
    exact ⟨inner.keeps, inner.covers, le_trans bounds.2 inner.current⟩
  · cases result
    exact ⟨le_refl persisted, bounds.1, bounds.2⟩

/-- An accepted request observation never lowers the persisted mark, and its
effective time is at or above both the mark it leaves and the wall sample. -/
theorem observeClockWrite_spec {persisted now memory : Int} {observed : Observed}
    (h : (observeClockWrite persisted now memory).2 = .ok observed) :
    observed.Advances persisted now := by
  unfold observeClockWrite at h
  split at h
  · next memory' result bounded =>
    cases h
    have same : (observeClockBounded persisted now memory).2 = .ok observed := by rw [bounded]
    exact observeClockBounded_spec same
  · cases h

theorem tickClock_spec {persisted now memory : Int} {observed : Observed}
    (h : (tickClock persisted now memory).2 = .ok observed) :
    observed.Advances persisted now := by
  simp only [tickClock, bind_eq_ok] at h
  rcases h with ⟨seconds, read, result⟩
  have inner := (observeClock_spec result).1
  exact ⟨inner.keeps, inner.covers, le_trans (observeClockRead_spec read).2 inner.current⟩

/-- Exactly the 60 seconds of tolerance separate an accepted correction from a
refused one. -/
example : (observeClock 100 40).isOk = true ∧ (observeClock 100 39).isOk = false := by decide

end Noxide
