import Noxide.Jobs.Moves

/-!
# What transactions leave alone

The transactions of workers change rows of {lit}`nx_jobs` only, and the installation of
grants changes grants only.  Limits, tenants and the claim sequence stay as they were.

Main results:

- Theorems {lit}`lockExecution_onlyJobs`, {lit}`succeed_onlyJobs` and {lit}`fail_onlyJobs`:
  a worker with a claim writes rows of jobs.
- Theorem {lit}`installGrants_onlyGrants`: an installation writes grants.
-/

namespace Noxide.Jobs

open Checked

/-- The transaction wrote rows of {lit}`nx_jobs` only. -/
def OnlyJobs (t t' : JobTables) : Prop :=
  t' = { t with jobs := t'.jobs }

/-- The transaction wrote rows of {lit}`nx_job_grants` only. -/
def OnlyGrants (t t' : JobTables) : Prop :=
  t' = { t with grants := t'.grants }

section Frames

variable {encoding : Encoding} {t t' t'' : JobTables} {claim : JobClaim} {now : Int}

theorem OnlyJobs.refl (t : JobTables) : OnlyJobs t t := rfl

theorem OnlyGrants.refl (t : JobTables) : OnlyGrants t t := rfl

theorem OnlyGrants.trans (first : OnlyGrants t t') (second : OnlyGrants t' t'') : OnlyGrants t t'' := by
  unfold OnlyGrants at first second ⊢
  rw [second, first]

theorem OnlyJobs.runtime (h : OnlyJobs t t') : t'.runtime = t.runtime := by
  rw [h]

theorem OnlyJobs.tenants (h : OnlyJobs t t') : t'.tenants = t.tenants := by
  rw [h]

theorem OnlyJobs.queue (h : OnlyJobs t t') : t'.queue = t.queue := by
  rw [h]

theorem OnlyGrants.runtime (h : OnlyGrants t t') : t'.runtime = t.runtime := by
  rw [h]

theorem OnlyGrants.tenants (h : OnlyGrants t t') : t'.tenants = t.tenants := by
  rw [h]

theorem OnlyGrants.queue (h : OnlyGrants t t') : t'.queue = t.queue := by
  rw [h]

/-! ## Workers -/

theorem updateJobs_onlyJobs {condition : JobRow → Bool} {change : JobRow → JobRow} {n : Nat}
    (h : updateJobs condition change t = .ok (n, t')) : OnlyJobs t t' := by
  rcases updateJobs_ok.mp h with ⟨_, _, rfl⟩
  rfl

theorem transition_onlyJobs {state : JobState} {reason : String} {eligible : Int}
    (h : transition claim state reason eligible t = .ok t') : OnlyJobs t t' := by
  simp only [transition, bind_eq_ok] at h
  rcases h with ⟨⟨changed, t₁⟩, updated, _, _, h⟩
  cases h
  exact updateJobs_onlyJobs updated

theorem lockExecution_onlyJobs {sampleTime : Result Int} {validate : CapturedJob → String → Result Unit}
    {job : CapturedJob} {execution : Execution}
    (h : lockExecution encoding claim sampleTime validate t = .ok (job, execution, t')) :
    OnlyJobs t t' := by
  simp only [lockExecution, bind_eq_ok] at h
  rcases h with ⟨runtime, _, preview, _, ⟨grant, state⟩, _, read, _, found, _, h⟩
  cases found with
  | some outcome =>
      simp only at h
      split at h
      · rcases bind_eq_ok.mp h with ⟨t₁, ended, h⟩
        cases h
        exact transition_onlyJobs ended
      · rcases bind_eq_ok.mp h with ⟨_, _, h⟩
        cases h
        rfl
  | none =>
      simp only [bind_eq_ok] at h
      rcases h with ⟨time, _, _, _, h⟩
      split at h
      · rcases bind_eq_ok.mp h with ⟨t₁, ended, h⟩
        cases h
        exact transition_onlyJobs ended
      · rcases bind_eq_ok.mp h with ⟨window, _, h⟩
        split at h
        · rcases bind_eq_ok.mp h with ⟨t₁, ended, h⟩
          cases h
          exact transition_onlyJobs ended
        · rcases bind_eq_ok.mp h with ⟨_, _, h⟩
          cases h
          rfl

theorem succeed_onlyJobs {verified : VerifiedJob} {validate : String → Result Unit}
    (h : succeed encoding verified validate t = .ok t') : OnlyJobs t t' := by
  simp only [succeed, bind_eq_ok] at h
  rcases h with ⟨runtime, _, ⟨grant, state⟩, _, _, _, _, _, read, _, _, _, found, _, _, _, h⟩
  exact transition_onlyJobs h

theorem recordFailure_onlyJobs {row : Row} {failure : Failure} {result : FailureResult}
    (h : recordFailure encoding claim row now failure t = .ok (result, t')) : OnlyJobs t t' := by
  cases failure with
  | rejected =>
      rcases bind_eq_ok.mp h with ⟨t₁, ended, h⟩
      cases h
      exact transition_onlyJobs ended
  | businessRejected action stored =>
      simp only [recordFailure, bind_eq_ok] at h
      rcases h with ⟨_, _, t₁, ended, h⟩
      cases h
      exact transition_onlyJobs ended
  | transient =>
      simp only [recordFailure, bind_eq_ok] at h
      rcases h with ⟨window, _, h⟩
      split at h
      · rcases bind_eq_ok.mp h with ⟨t₁, ended, h⟩
        cases h
        exact transition_onlyJobs ended
      · simp only [bind_eq_ok] at h
        rcases h with ⟨delay, _, next, _, h⟩
        split at h
        · rcases bind_eq_ok.mp h with ⟨t₁, ended, h⟩
          cases h
          exact transition_onlyJobs ended
        · rcases bind_eq_ok.mp h with ⟨t₁, ended, h⟩
          cases h
          exact transition_onlyJobs ended

theorem fail_onlyJobs {failure : Failure} {result : FailureResult} {validate : String → Result Unit}
    (h : fail encoding claim now failure validate t = .ok (result, t')) : OnlyJobs t t' := by
  simp only [fail, bind_eq_ok] at h
  rcases h with ⟨runtime, _, preview, _, ⟨grant, state⟩, _, read, _, found, _, h⟩
  cases found with
  | some outcome =>
      simp only at h
      split at h
      · rcases bind_eq_ok.mp h with ⟨t₁, ended, h⟩
        cases h
        exact transition_onlyJobs ended
      · rcases bind_eq_ok.mp h with ⟨_, _, h⟩
        cases h
        rfl
  | none =>
      simp only [bind_eq_ok] at h
      rcases h with ⟨_, _, h⟩
      split at h
      · rcases bind_eq_ok.mp h with ⟨t₁, ended, h⟩
        cases h
        exact transition_onlyJobs ended
      · exact recordFailure_onlyJobs h

/-! ## Operators -/

theorem pauseJobs_onlyJobs {condition : JobRow → Bool} {reason : String}
    (h : pauseJobs condition reason t = .ok t') : OnlyJobs t t' := by
  simp only [pauseJobs, bind_eq_ok] at h
  rcases h with ⟨⟨changed, t₁⟩, updated, h⟩
  cases h
  exact updateJobs_onlyJobs updated

theorem upsertGrant_onlyGrants (row : GrantRow) : OnlyGrants t (upsertGrant row t) := by
  unfold upsertGrant
  split <;> rfl

theorem installGrant_onlyGrants {generation contract epoch : String} {changed : Bool} {state : GrantState}
    {configured : EffectiveJobGrant}
    (h : installGrant generation contract epoch changed state configured t = .ok t') :
    OnlyGrants t t' := by
  simp only [installGrant, bind_eq_ok] at h
  rcases h with ⟨_, _, h⟩
  split at h
  · rcases bind_eq_ok.mp h with ⟨_, _, h⟩
    cases h
    exact upsertGrant_onlyGrants _
  · split at h
    · simp only [bind_eq_ok] at h
      rcases h with ⟨_, _, _, _, _, _, h⟩
      cases h
      exact upsertGrant_onlyGrants _
    · simp only [bind_eq_ok] at h
      rcases h with ⟨_, _, _, _, _, _, h⟩
      cases h
      rfl

theorem installGrants_onlyGrants {generation contract epoch : String} {changed : Bool} {state : GrantState}
    {grants : List EffectiveJobGrant}
    (h : installGrants generation contract epoch changed state grants t = .ok t') :
    OnlyGrants t t' := by
  induction grants generalizing t with
  | nil =>
      cases h
      rfl
  | cons configured rest ih =>
      rcases bind_eq_ok.mp h with ⟨t₁, first, others⟩
      exact (installGrant_onlyGrants first).trans (ih others)

end Frames

end Noxide.Jobs
