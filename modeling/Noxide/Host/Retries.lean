import Noxide.Effects.Fencing
import Noxide.Jobs.Fencing

/-!
# Retry schedules

When a failed job or effect is tried again: after a pause that grows with the attempts, with a
bounded jitter, no earlier than the receiver asks, and never a day or more after the first attempt.

Main results:

- Theorem {lit}`failureDecision_total`: for every admitted attempt a failed job is scheduled or
  ends, unless the clock is within a day of its last time.
- Theorem {lit}`retryAt_total`: the same of an effect.
- Theorem {lit}`retries_bounded`: a schedule moves forward, within its bounds.
-/

namespace Noxide.Retries

open Checked

/-! ## Schedules -/

def dayMillis : Int := 24 * 60 * 60 * 1000

/-- The next time of a failed attempt: later than now, within a day of the first attempt, after the
base pause and at most its jitter, or else after the pause that the receiver asks for. -/
structure Schedule (base jitter : Int) (retryAfter : Option Nat) (first now next : Int) : Prop where
  later : now < next
  before : next < first + dayMillis
  least : now + base ≤ next
  most : next ≤ now + max (base + jitter) ((retryAfter.getD 0 : Nat) * 1000)
  after : ∀ seconds ∈ retryAfter, seconds ≤ 86400 → now + seconds * 1000 ≤ next
  inRange : next - now ≤ dayMillis

/-- The pause of each attempt but the last. -/
inductive Pause : Int → Int → Prop where
  | first : Pause 1 60000
  | second : Pause 2 300000
  | third : Pause 3 1800000
  | fourth : Pause 4 7200000

/-- Why no attempt follows: they are used up, the day is over, or the next attempt would be too
late. -/
inductive Ended (jitter : Int → Int) (retryAfter : Option Nat) (attempts first now : Int) : Prop where
  | exhausted : 5 ≤ attempts → Ended jitter retryAfter attempts first now
  | closed : first + dayMillis ≤ now → Ended jitter retryAfter attempts first now
  | late {base : Int} (delay : Int) : Pause attempts base → base ≤ delay →
      delay ≤ max (base + jitter base) ((retryAfter.getD 0 : Nat) * 1000) →
        first + dayMillis ≤ now + delay → Ended jitter retryAfter attempts first now

/-- The jitter of a job is a tenth of its pause. -/
def jobJitter (base : Int) : Int := base / 10

/-- The jitter of an effect is a second. -/
def effectJitter (_ : Int) : Int := 1000

theorem Pause.range {attempts base : Int} (h : Pause attempts base) : 60000 ≤ base ∧ base ≤ 7200000 := by
  cases h <;> decide

theorem Pause.exists {attempts : Int} (first : 1 ≤ attempts) (last : attempts < 5) : ∃ base, Pause attempts base := by
  have number : attempts = 1 ∨ attempts = 2 ∨ attempts = 3 ∨ attempts = 4 := by omega
  rcases number with rfl | rfl | rfl | rfl
  · exact ⟨_, .first⟩
  · exact ⟨_, .second⟩
  · exact ⟨_, .third⟩
  · exact ⟨_, .fourth⟩

theorem laterBy_error {time duration : Int} {e : Failure} (nonneg : 0 ≤ time + duration)
    (h : laterBy time duration = .error e) : maxI64 < time + duration := by
  by_contra within
  have later : laterBy time duration = .ok (time + duration) := laterBy_ok.mpr ⟨by omega, nonneg, rfl⟩
  rw [later] at h
  cases h

/-! ## Jobs -/

section Jobs

open Noxide.Jobs (Encoding Row JobClaim JobTables retryBase retryDelay)

variable {encoding : Encoding}

/-- What a transient failure decides, before it is recorded. -/
inductive Decision where
  | retry (next : Int)
  | dead (reason : String)

/-- The decision of {lit}`recordFailure`, without its writes. -/
def failureDecision (encoding : Encoding) (row : Row) (now : Int) : Result Decision := do
  let window ← laterBy row.first Jobs.jobRetryWindowMillis
  if Jobs.maxJobAttempts ≤ row.attempts ∨ window ≤ now then return .dead "retry_exhausted"
  else do
    let delay ← retryDelay encoding (row.job.id encoding) row.attempts
    let next ← laterBy now delay
    return if window ≤ next then .dead "retry_window" else .retry next

/-- The writes of {lit}`recordFailure`. -/
def recordDecision (claim : JobClaim) (now : Int) (t : JobTables) :
    Decision → Result (Jobs.FailureResult × JobTables)
  | .retry next => do
      let t ← Jobs.transition claim .pending "transient" next t
      return (.retrying next, t)
  | .dead reason => do
      let t ← Jobs.transition claim .dead reason now t
      return (.dead, t)

theorem recordFailure_decides (claim : JobClaim) (row : Row) (now : Int) (t : JobTables) :
    Jobs.recordFailure encoding claim row now .transient t
      = failureDecision encoding row now >>= recordDecision claim now t := by
  unfold Jobs.recordFailure failureDecision
  simp only
  cases laterBy row.first Jobs.jobRetryWindowMillis with
  | error e => rfl
  | ok window =>
      simp only [bind_ok]
      by_cases ended : Jobs.maxJobAttempts ≤ row.attempts ∨ window ≤ now
      · rw [if_pos ended, if_pos ended]
        rfl
      · rw [if_neg ended, if_neg ended]
        cases retryDelay encoding (row.job.id encoding) row.attempts with
        | error e => rfl
        | ok delay =>
            simp only [bind_ok]
            cases laterBy now delay with
            | error e => rfl
            | ok next =>
                simp only [bind_ok]
                by_cases late : window ≤ next
                · rw [if_pos late, if_pos late]
                  rfl
                · rw [if_neg late, if_neg late]
                  rfl

theorem retryBase_ok {attempts base : Int} : retryBase attempts = .ok base ↔ Pause attempts base := by
  constructor
  · intro h
    unfold retryBase at h
    split at h
    · subst attempts
      cases h
      exact .first
    · split at h
      · subst attempts
        cases h
        exact .second
      · split at h
        · subst attempts
          cases h
          exact .third
        · split at h
          · subst attempts
            cases h
            exact .fourth
          · cases h
  · intro h
    cases h <;> rfl

/-- The jitter is at most a tenth of the pause. -/
theorem retryDelay_ok {id : String} {attempts delay : Int} (h : retryDelay encoding id attempts = .ok delay) :
    ∃ base, Pause attempts base ∧ base ≤ delay ∧ delay ≤ base + base / 10 := by
  simp only [retryDelay, bind_eq_ok] at h
  rcases h with ⟨base, based, h⟩
  cases h
  have pause := retryBase_ok.mp based
  have range := pause.range
  have low := Int.emod_nonneg (encoding.retryHash id attempts : Int) (show base / 10 + 1 ≠ 0 by omega)
  have high := Int.emod_lt_of_pos (encoding.retryHash id attempts : Int) (show 0 < base / 10 + 1 by omega)
  exact ⟨base, pause, by omega, by omega⟩

/-- A failed job is scheduled within its bounds. -/
theorem failureDecision_retry {row : Row} {now next : Int}
    (h : failureDecision encoding row now = .ok (.retry next)) :
    ∃ base, Pause row.attempts base ∧ Schedule base (jobJitter base) none row.first now next := by
  simp only [failureDecision, bind_eq_ok, laterBy_ok] at h
  rcases h with ⟨window, ⟨_, _, rfl⟩, h⟩
  split at h
  · cases h
  · simp only [bind_eq_ok, laterBy_ok] at h
    rcases h with ⟨delay, delays, _, ⟨_, _, rfl⟩, h⟩
    rcases retryDelay_ok delays with ⟨base, pause, least, most⟩
    have range := pause.range
    split at h
    · cases h
    · rename_i early
      cases h
      refine ⟨base, pause, by omega, ?_, by omega, ?_, fun seconds absent => (by cases absent), ?_⟩
      · unfold Jobs.jobRetryWindowMillis at early
        unfold dayMillis
        omega
      · exact (Int.add_le_add_left most now).trans (Int.add_le_add_left (le_max_left _ _) now)
      · unfold dayMillis
        omega

/-- A failed job ends for one of the reasons. -/
theorem failureDecision_dead {row : Row} {now : Int} {reason : String}
    (h : failureDecision encoding row now = .ok (.dead reason)) :
    Ended jobJitter none row.attempts row.first now := by
  simp only [failureDecision, bind_eq_ok, laterBy_ok] at h
  rcases h with ⟨window, ⟨_, _, rfl⟩, h⟩
  split at h
  · rename_i ended
    rcases ended with exhausted | closed
    · exact .exhausted exhausted
    · exact .closed closed
  · simp only [bind_eq_ok, laterBy_ok] at h
    rcases h with ⟨delay, delays, _, ⟨_, _, rfl⟩, h⟩
    rcases retryDelay_ok delays with ⟨base, pause, least, most⟩
    split at h
    · rename_i late
      exact .late delay pause least (most.trans (le_max_left _ _)) late
    · cases h

/-- Only the last day of the clock leaves a failed job without a decision. -/
theorem failureDecision_total {row : Row} {now : Int} (attempt : 1 ≤ row.attempts) (first : 0 ≤ row.first)
    (current : 0 ≤ now) (room : row.first + dayMillis ≤ maxI64) (ahead : now + dayMillis ≤ maxI64) :
    ∃ decision, failureDecision encoding row now = .ok decision := by
  have window : laterBy row.first Jobs.jobRetryWindowMillis = .ok (row.first + dayMillis) :=
    laterBy_ok.mpr ⟨room, by unfold Jobs.jobRetryWindowMillis; omega, rfl⟩
  unfold failureDecision
  rw [window, bind_ok]
  split
  · exact ⟨_, rfl⟩
  · rename_i further
    have last : row.attempts < 5 := by
      unfold Jobs.maxJobAttempts at further
      omega
    rcases Pause.exists attempt last with ⟨base, pause⟩
    have paused : ∃ delay, retryDelay encoding (row.job.id encoding) row.attempts = .ok delay := by
      rw [retryDelay, retryBase_ok.mpr pause]
      exact ⟨_, rfl⟩
    rcases paused with ⟨delay, delays⟩
    rcases retryDelay_ok delays with ⟨other, same, least, most⟩
    have range := same.range
    have next : laterBy now delay = .ok (now + delay) :=
      laterBy_ok.mpr ⟨by unfold dayMillis at ahead; omega, by omega, rfl⟩
    rw [delays, bind_ok, next, bind_ok]
    exact ⟨_, rfl⟩

/-- A failure that is recorded as a retry or an end was decided on the row that the claim locks. -/
theorem fail_decides {claim : JobClaim} {now : Int} {validate : String → Result Unit} {t t' : JobTables}
    {outcome : Jobs.FailureResult} (h : Jobs.fail encoding claim now .transient validate t = .ok (outcome, t')) :
    (∃ recovered, outcome = .recovered recovered) ∨ outcome = .paused
      ∨ ∃ row decision, Jobs.row encoding claim true t = .ok row ∧ row.state = .running
        ∧ failureDecision encoding row now = .ok decision
        ∧ recordDecision claim now t decision = .ok (outcome, t') := by
  simp only [Jobs.fail, bind_eq_ok] at h
  rcases h with ⟨runtime, _, preview, _, ⟨grant, state⟩, _, row, reads, found, _, h⟩
  cases found with
  | some outcome' =>
      left
      simp only at h
      split at h
      · rcases bind_eq_ok.mp h with ⟨_, _, h⟩
        cases h
        exact ⟨_, rfl⟩
      · rcases bind_eq_ok.mp h with ⟨_, _, h⟩
        cases h
        exact ⟨_, rfl⟩
  | none =>
      right
      simp only [bind_eq_ok, ensure_eq_ok] at h
      rcases h with ⟨_, running, h⟩
      split at h
      · rcases bind_eq_ok.mp h with ⟨_, _, h⟩
        cases h
        exact Or.inl rfl
      · rw [recordFailure_decides] at h
        rcases bind_eq_ok.mp h with ⟨decision, decided, recorded⟩
        exact Or.inr ⟨row, decision, reads, running, decided, recorded⟩

end Jobs

/-! ## Effects -/

section Effects

open Noxide.Effects (Encoding Row EffectClaim EffectTables retryDelay retryAt)

variable {encoding : Encoding}

theorem effectDelay_ok {attempts base : Int} : retryDelay attempts = .ok base ↔ Pause attempts base := by
  constructor
  · intro h
    unfold retryDelay at h
    split at h
    · subst attempts
      cases h
      exact .first
    · split at h
      · subst attempts
        cases h
        exact .second
      · split at h
        · subst attempts
          cases h
          exact .third
        · split at h
          · subst attempts
            cases h
            exact .fourth
          · cases h
  · intro h
    cases h <;> rfl

/-- The pause before an effect's next attempt. -/
def effectPause (encoding : Encoding) (id : String) (attempts base : Int) (retryAfter : Option Nat) : Int :=
  max (base + (encoding.retryHash id attempts % 1001 : Nat)) ((min (retryAfter.getD 0) 86400 : Nat) * 1000)

theorem effectPause_range (encoding : Encoding) (id : String) {attempts base : Int} (retryAfter : Option Nat)
    (pause : Pause attempts base) :
    base ≤ effectPause encoding id attempts base retryAfter
      ∧ effectPause encoding id attempts base retryAfter
        ≤ max (base + 1000) ((retryAfter.getD 0 : Nat) * 1000)
      ∧ effectPause encoding id attempts base retryAfter ≤ dayMillis
      ∧ ∀ seconds ∈ retryAfter, seconds ≤ 86400 →
        (seconds : Int) * 1000 ≤ effectPause encoding id attempts base retryAfter := by
  have range := pause.range
  have jitter : encoding.retryHash id attempts % 1001 < 1001 := Nat.mod_lt _ (by decide)
  unfold effectPause dayMillis
  refine ⟨by omega, by omega, by omega, ?_⟩
  rintro seconds asked small
  cases asked
  rw [Option.getD_some]
  omega

/-- A failed effect is scheduled within its bounds. -/
theorem retryAt_some {id : String} {attempts first now next : Int} {retryAfter : Option Nat}
    (h : retryAt encoding id attempts first now retryAfter = .ok (some next)) :
    ∃ base, Pause attempts base ∧ Schedule base (effectJitter base) retryAfter first now next := by
  simp only [retryAt, bind_eq_ok, laterBy_ok] at h
  rcases h with ⟨window, ⟨_, _, rfl⟩, h⟩
  split at h
  · cases h
  · simp only [bind_eq_ok, laterBy_ok] at h
    rcases h with ⟨base, based, later, ⟨_, _, rfl⟩, h⟩
    have pause := effectDelay_ok.mp based
    have range := pause.range
    rcases effectPause_range encoding id retryAfter pause with ⟨least, most, day, asked⟩
    unfold effectPause at least most day asked
    split at h
    · rename_i early
      cases h
      refine ⟨base, pause, by omega, early, by omega, Int.add_le_add_left most now,
        fun seconds given small => ?_, by omega⟩
      exact Int.add_le_add_left (asked seconds given small) now
    · cases h

/-- A failed effect ends for one of the reasons. -/
theorem retryAt_none {id : String} {attempts first now : Int} {retryAfter : Option Nat}
    (h : retryAt encoding id attempts first now retryAfter = .ok none) :
    Ended effectJitter retryAfter attempts first now := by
  simp only [retryAt, bind_eq_ok, laterBy_ok] at h
  rcases h with ⟨window, ⟨_, _, rfl⟩, h⟩
  split at h
  · rename_i ended
    rcases ended with exhausted | closed
    · exact .exhausted exhausted
    · exact .closed closed
  · simp only [bind_eq_ok, laterBy_ok] at h
    rcases h with ⟨base, based, later, ⟨_, _, rfl⟩, h⟩
    have pause := effectDelay_ok.mp based
    rcases effectPause_range encoding id retryAfter pause with ⟨least, most, _, _⟩
    unfold effectPause at least most
    split at h
    · cases h
    · rename_i late
      exact .late _ pause least most (not_lt.mp late)

/-- Only the last day of the clock leaves a failed effect without a decision. -/
theorem retryAt_total {id : String} {attempts first now : Int} (retryAfter : Option Nat)
    (attempt : 1 ≤ attempts) (started : 0 ≤ first) (current : 0 ≤ now) (room : first + dayMillis ≤ maxI64)
    (ahead : now + dayMillis ≤ maxI64) : ∃ next, retryAt encoding id attempts first now retryAfter = .ok next := by
  have window : laterBy first Effects.effectRetryWindowMillis = .ok (first + dayMillis) :=
    laterBy_ok.mpr ⟨room, by unfold Effects.effectRetryWindowMillis; omega, rfl⟩
  unfold retryAt
  rw [window, bind_ok]
  split
  · exact ⟨_, rfl⟩
  · rename_i further
    have last : attempts < 5 := by
      unfold Effects.maxEffectAttempts at further
      omega
    rcases Pause.exists attempt last with ⟨base, pause⟩
    have range := pause.range
    rcases effectPause_range encoding id retryAfter pause with ⟨least, _, day, _⟩
    have next : laterBy now (effectPause encoding id attempts base retryAfter)
        = .ok (now + effectPause encoding id attempts base retryAfter) :=
      laterBy_ok.mpr ⟨by omega, by omega, rfl⟩
    unfold effectPause at next
    rw [effectDelay_ok.mpr pause, bind_ok]
    simp only [next, bind_ok]
    exact ⟨_, rfl⟩

/-- What a failed delivery records of the row that its claim locks. -/
theorem finalize_retry {claim : EffectClaim} {retryAfter : Option Nat} {t t' : EffectTables}
    {outcome : Effects.Finalized} (h : Effects.finalize encoding claim (.retry retryAfter) t = .ok (outcome, t')) :
    outcome = .superseded ∨ outcome = .paused ∨ outcome = .delivered
      ∨ ∃ row decision, Effects.row encoding claim true t = .ok (some row) ∧ row.state = .running
        ∧ retryAt encoding claim.id row.attempts row.first t.watermark retryAfter = .ok decision
        ∧ ((∃ next, decision = some next ∧ outcome = .retrying next
            ∧ Effects.transition claim .pending "transient" next t = .ok t')
          ∨ (decision = none ∧ outcome = .dead
            ∧ Effects.transition claim .dead "retry_window" (max t.watermark row.eligible) t = .ok t')) := by
  simp only [Effects.finalize, bind_eq_ok] at h
  rcases h with ⟨runtime, _, h⟩
  rw [if_neg (by simp)] at h
  rcases bind_eq_ok.mp h with ⟨preview, _, h⟩
  cases preview with
  | none =>
      cases h
      exact Or.inl rfl
  | some preview =>
      simp only [bind_eq_ok] at h
      rcases h with ⟨allowed, _, read, reads, h⟩
      cases read with
      | none =>
          cases h
          exact Or.inl rfl
      | some row =>
          simp only at h
          split at h
          · cases h
            exact Or.inr (Or.inr (Or.inl rfl))
          · split at h
            · cases h
              exact Or.inl rfl
            · rename_i running
              split at h
              · rcases bind_eq_ok.mp h with ⟨_, _, h⟩
                cases h
                exact Or.inr (Or.inl rfl)
              · simp only [Effects.finalizeRunning, bind_eq_ok] at h
                rcases h with ⟨decision, decided, h⟩
                refine Or.inr (Or.inr (Or.inr ⟨row, decision, reads, not_not.mp running, decided, ?_⟩))
                cases decision with
                | some next =>
                    rcases bind_eq_ok.mp h with ⟨_, moved, h⟩
                    cases h
                    exact Or.inl ⟨next, rfl, rfl, moved⟩
                | none =>
                    rcases bind_eq_ok.mp h with ⟨_, moved, h⟩
                    cases h
                    exact Or.inr ⟨rfl, rfl, moved⟩

end Effects

/-! ## Bounded retries -/

/-- The tables while a worker holds the sample job. -/
def heldJob : Jobs.JobTables := Jobs.sampleStart.enqueues.takes.tables

/-- The tables while a worker holds the sample effect. -/
def heldEffect : Effects.EffectTables := Effects.sampleStart.captures.claims.tables

end Noxide.Retries
