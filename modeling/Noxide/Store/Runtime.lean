import Noxide.Protocol.Scalar

/-!
# The shared runtime

Jobs and effects run under one runtime row, which names the deployment, the approved
contract and the epoch.  This module fixes how its columns and those of the two queues
are read: opaque identities, nonnegative integers and lifecycle times in milliseconds.

Main results:

- Theorem {lit}`lockedRuntime_ok`: a runtime that was read belongs to the current
  deployment and names an opaque contract and epoch.
-/

namespace Noxide

open Checked

/-! ## Columns -/

/-- A bounded text without NUL. -/
def opaqueText (value : String) : Bool :=
  value != "" && decide (value.utf8ByteSize ≤ 64) && !value.toList.contains '\x00'

/-- The source's {lit}`integer`, of a column cast to text: the text of a number is
canonical, so only its sign is checked. -/
def integerColumn (text : String) (value : Int) : Result Int := do
  check text (0 ≤ value)
  return value

def maxI64 : Int := 9223372036854775807

/-- The source's {lit}`Timestamp::from_unix_millis`. -/
def fromUnixMillis (value : Int) : Result Int := do
  check "lifecycle time cannot be negative" (0 ≤ value)
  return value

/-- The source's {lit}`Timestamp::checked_add`. -/
def laterBy (time duration : Int) : Result Int := do
  check "lifecycle time overflow" (time + duration ≤ maxI64)
  fromUnixMillis (time + duration)

theorem integerColumn_ok {text : String} {value result : Int} :
    integerColumn text value = .ok result ↔ 0 ≤ value ∧ result = value := by
  simp only [integerColumn, bind_eq_ok, ensure_eq_ok]
  constructor
  · rintro ⟨_, nonneg, h⟩
    cases h
    exact ⟨nonneg, rfl⟩
  · rintro ⟨nonneg, rfl⟩
    exact ⟨(), nonneg, rfl⟩

theorem fromUnixMillis_ok {value result : Int} :
    fromUnixMillis value = .ok result ↔ 0 ≤ value ∧ result = value := by
  simp only [fromUnixMillis, bind_eq_ok, ensure_eq_ok]
  constructor
  · rintro ⟨_, nonneg, h⟩
    cases h
    exact ⟨nonneg, rfl⟩
  · rintro ⟨nonneg, rfl⟩
    exact ⟨(), nonneg, rfl⟩

theorem laterBy_ok {time duration result : Int} : laterBy time duration = .ok result ↔
    time + duration ≤ maxI64 ∧ 0 ≤ time + duration ∧ result = time + duration := by
  simp only [laterBy, bind_eq_ok, ensure_eq_ok, fromUnixMillis_ok]
  constructor
  · rintro ⟨_, small, nonneg, h⟩
    exact ⟨small, nonneg, h⟩
  · rintro ⟨small, nonneg, h⟩
    exact ⟨(), small, nonneg, h⟩

/-! ## The runtime row -/

inductive RuntimeState where
  | active
  | paused
  deriving DecidableEq, Repr

structure RuntimeRow where
  deployment : String
  contract : String
  epoch : String
  state : RuntimeState
  deriving DecidableEq

/-- The runtime row and the generation of the current deployment. -/
structure RuntimeTables where
  generation : Option String
  runtime : Option RuntimeRow
  deriving DecidableEq

/-- The runtime, where it belongs to the current deployment. -/
def RuntimeTables.current (t : RuntimeTables) : Option RuntimeRow :=
  t.runtime.filter fun row => t.generation = some row.deployment

/-- The source's {lit}`locked_runtime` and the identity check that follows it. -/
def lockedRuntime (unavailable invalid : String) (t : RuntimeTables) : Result RuntimeRow := do
  let row ← need unavailable t.current
  check invalid (opaqueText row.contract = true ∧ opaqueText row.epoch = true)
  return row

theorem lockedRuntime_ok {unavailable invalid : String} {t : RuntimeTables} {row : RuntimeRow} :
    lockedRuntime unavailable invalid t = .ok row ↔ t.runtime = some row
      ∧ t.generation = some row.deployment
      ∧ opaqueText row.contract = true ∧ opaqueText row.epoch = true := by
  simp only [lockedRuntime, RuntimeTables.current, need, bind_eq_ok, ensure_eq_ok, context_eq_ok,
    Option.filter_eq_some_iff, decide_eq_true_eq]
  constructor
  · rintro ⟨found, ⟨stored, owned⟩, _, valid, h⟩
    cases h
    exact ⟨stored, owned, valid⟩
  · rintro ⟨stored, owned, valid⟩
    exact ⟨row, ⟨stored, owned⟩, (), valid, rfl⟩

end Noxide
