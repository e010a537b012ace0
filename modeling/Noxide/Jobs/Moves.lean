import Noxide.Jobs.Operations

/-!
# What queue transactions do

Every transaction of the queue leaves the rows alone, adds a capture, pauses rows, or moves
one row: a claim, the end of a claim, or a rejection by the operator.

Main results:

- Theorems {lit}`claim_moves`, {lit}`lockExecution_moves`, {lit}`succeed_moves`,
  {lit}`fail_moves`, {lit}`cancel_moves` and {lit}`reconcile_moves`: the one row that each
  transaction moves, and how.
- Theorem {lit}`activateJobs_pauses`: an activation at most pauses.
-/

namespace Noxide.Jobs

open Checked

/-! ## Moves -/

inductive Move where
  | claim (claim : JobClaim)
  | finish (claim : JobClaim) (state : JobState)
  | reject

/-- The moves of one row at a time. -/
inductive RowMove (now : Int) : Move → JobRow → JobRow → Prop where
  /-- A due row, or one whose lease ran out, starts under the next fence. -/
  | claim (claim : JobClaim) (r : JobRow) (id : claim.id = r.id)
      (scope : claim.scope = ⟨r.deployment, r.tenant⟩)
      (due : r.state = .pending ∧ r.eligible ≤ now ∨ r.state = .running ∧ r.lease ≤ now)
      (fence : claim.fence = r.fence + 1) (lease : claim.leaseUntil = now + jobLeaseMillis)
      (exhausted : claim.exhausted = decide (maxJobAttempts ≤ r.attempts)) :
      RowMove now (.claim claim) r (r.claimed claim.fence claim.leaseUntil
        (if r.attempts < maxJobAttempts then r.attempts + 1 else r.attempts))
  /-- A running row leaves its claim. -/
  | finish (claim : JobClaim) (r : JobRow) (state : JobState) (reason : String) (eligible : Int)
      (current : claim.Current r) (running : r.state = .running) (stopped : state ≠ .running)
      (later : eligible = r.first ∨ eligible = r.lease ∨ now ≤ eligible)
      (retried : state = .pending → r.attempts < maxJobAttempts) :
      RowMove now (.finish claim state) r (r.finished state reason eligible)
  /-- A cancellation, or the end of a reconciled source. -/
  | reject (r : JobRow) (reason : String) (unsettled : r.state ≠ .succeeded) :
      RowMove now .reject r (r.reject reason)

/-- Exactly one row moves; the clock, the receipts and the grants stay and the constraints
hold afterwards. -/
structure Moved (now : Int) (move : Move) (r r' : JobRow) (t t' : JobTables) : Prop where
  row : RowMove now move r r'
  replaced : Table.Replaced r r' t.jobs t'.jobs
  watermark : t'.watermark = t.watermark
  receipts : t'.receipts = t.receipts
  grants : t'.grants = t.grants
  constrained : Constrained t'.jobs

/-- The receipt of a job was written. -/
def Receipted (t : JobTables) (id : String) : Prop :=
  (t.receipts.find? id).isSome = true

/-! ## Statements -/

section Statements

variable {t t' : JobTables}

theorem withJobs_ok {jobs : List JobRow} :
    t.withJobs jobs = .ok t' ↔ Constrained jobs ∧ t' = { t with jobs := jobs } := by
  simp only [JobTables.withJobs, check, bind_eq_ok, ensure_eq_ok]
  constructor
  · rintro ⟨_, constrained, h⟩
    cases h
    exact ⟨constrained, rfl⟩
  · rintro ⟨constrained, rfl⟩
    exact ⟨(), constrained, rfl⟩

theorem updateJobs_ok {condition : JobRow → Bool} {change : JobRow → JobRow} {n : Nat} :
    updateJobs condition change t = .ok (n, t') ↔ Constrained (Table.update condition change t.jobs)
      ∧ n = t.jobs.countP condition ∧ t' = { t with jobs := Table.update condition change t.jobs } := by
  simp only [updateJobs, bind_eq_ok, withJobs_ok]
  constructor
  · rintro ⟨_, ⟨constrained, rfl⟩, h⟩
    cases h
    exact ⟨constrained, rfl, rfl⟩
  · rintro ⟨constrained, rfl, rfl⟩
    exact ⟨_, ⟨constrained, rfl⟩, rfl⟩

/-- A statement that changed one row replaced one row that satisfies its condition. -/
theorem updateJobs_one {condition : JobRow → Bool} {change : JobRow → JobRow} {n : Nat}
    (h : updateJobs condition change t = .ok (n, t')) (one : n = 1) :
    ∃ r, condition r = true ∧ Table.Replaced r (change r) t.jobs t'.jobs
      ∧ t' = { t with jobs := t'.jobs } ∧ Constrained t'.jobs := by
  rcases updateJobs_ok.mp h with ⟨constrained, rfl, rfl⟩
  rcases Table.update_one one with ⟨r, holds, replaced⟩
  exact ⟨r, holds, replaced, rfl, constrained⟩

/-- Rows of one identity are the same row. -/
theorem same_row (constrained : Constrained t.jobs) {r r' : JobRow} (member : r ∈ t.jobs)
    (member' : r' ∈ t.jobs) (same : r.id = r'.id) : r = r' :=
  Table.eq_of_key (·.id) constrained.ids member member' same

/-- A condition that one row satisfies and that fixes its identity counts one row. -/
theorem countP_one (constrained : Constrained t.jobs) {condition : JobRow → Bool} {r : JobRow}
    (member : r ∈ t.jobs) (holds : condition r = true) (named : ∀ x, condition x = true → x.id = r.id) :
    t.jobs.countP condition = 1 := by
  have bounded : t.jobs.countP condition ≤ (t.jobs.map (·.id)).count r.id := by
    rw [List.count, List.countP_map]
    refine List.countP_mono_left fun x _ chosen => ?_
    simpa using named x chosen
  have unique := List.nodup_iff_count_le_one.mp constrained.ids r.id
  have present : 0 < t.jobs.countP condition := List.countP_pos_iff.mpr ⟨r, member, holds⟩
  omega

end Statements

section Reading

variable {encoding : Encoding} {t t' : JobTables} {claim : JobClaim} {lock : Bool}

/-- What a worker reads is the row of its claim, which is the row's latest. -/
theorem row_ok {read : Row} (constrained : Constrained t.jobs)
    (h : row encoding claim lock t = .ok read) :
    ∃ r ∈ t.jobs, claim.Current r ∧ read = r.read ∧ r.Captured encoding := by
  simp only [row, bind_eq_ok, need, context_eq_ok] at h
  rcases h with ⟨_, _, columns, found, read⟩
  have member := List.mem_of_find?_eq_some found
  rcases (readRow_ok encoding (constrained.rows columns member) (List.find?_some found)).mp read with
    ⟨captured, _, current, same⟩
  exact ⟨columns, member, current, same, captured⟩

theorem JobClaim.Current.holds {r : JobRow} (h : claim.Current r) : claim.holds r = true := by
  simp only [JobClaim.holds, JobClaim.selects, Bool.and_eq_true, decide_eq_true_eq]
  rw [h.scope]
  exact ⟨⟨h.id, rfl, rfl⟩, h.fence⟩

/-- The latest claim of a row that stores its capture in order reads the row. -/
theorem row_current {r : JobRow} (constrained : Constrained t.jobs) (member : r ∈ t.jobs)
    (current : claim.Current r) (captured : r.Captured encoding) (ordered : r.Ordered) :
    row encoding claim lock t = .ok r.read := by
  have holds := current.holds
  have selected : claim.selects r = true := by
    rw [JobClaim.holds, Bool.and_eq_true] at holds
    exact holds.1
  have named : ∀ x, claim.selects x = true → x.id = r.id := by
    intro x selects
    simp only [JobClaim.selects, decide_eq_true_eq] at selects
    exact selects.1.trans current.id.symm
  have locked : t.jobs.countP claim.holds = 1 := by
    refine countP_one constrained member holds fun x chosen => ?_
    rw [JobClaim.holds, Bool.and_eq_true] at chosen
    exact named x chosen.1
  have found : t.jobs.find? claim.selects = some r := by
    cases search : t.jobs.find? claim.selects with
    | none => exact absurd selected (List.find?_eq_none.mp search r member)
    | some x =>
        have chosen := named x (List.find?_some search)
        rw [same_row constrained (List.mem_of_find?_eq_some search) member chosen]
  have reads := (readRow_ok encoding (constrained.rows r member) selected).mpr
    ⟨captured, ordered, current, rfl⟩
  simp only [row, check, need, bind_eq_ok, ensure_eq_ok, context_eq_ok]
  exact ⟨(), fun _ => locked, r, found, reads⟩

/-- A claim below the fence of its row reads nothing. -/
theorem row_superseded {read : Row} (constrained : Constrained t.jobs)
    (stale : ∀ r ∈ t.jobs, r.id = claim.id → r.fence ≠ claim.fence) :
    row encoding claim lock t ≠ .ok read := by
  intro h
  rcases row_ok constrained h with ⟨r, member, current, _⟩
  exact stale r member current.id current.fence

theorem transition_moves {state : JobState} {reason : String} {eligible now : Int} {r : JobRow}
    (constrained : Constrained t.jobs) (member : r ∈ t.jobs) (current : claim.Current r)
    (h : transition claim state reason eligible t = .ok t') (stopped : state ≠ .running)
    (later : eligible = r.first ∨ eligible = r.lease ∨ now ≤ eligible)
    (retried : state = .pending → r.attempts < maxJobAttempts) :
    Moved now (.finish claim state) r (r.finished state reason eligible) t t' := by
  simp only [transition, check, bind_eq_ok, ensure_eq_ok] at h
  rcases h with ⟨⟨changed, t₁⟩, updated, _, one, h⟩
  cases h
  rcases updateJobs_one updated one with ⟨other, holds, replaced, same, ok⟩
  simp only [JobClaim.holds, JobClaim.selects, Bool.and_eq_true, decide_eq_true_eq] at holds
  have chosen : other = r := same_row constrained replaced.mem_before member
    (holds.1.1.1.trans current.id.symm)
  subst chosen
  exact ⟨RowMove.finish claim other state reason eligible current holds.2 stopped later retried, replaced,
    by rw [same], by rw [same], by rw [same], ok⟩

end Reading

/-! ## Claims -/

theorem nextClaimable_some {deployment : String} {now : Int} {capacity : Bool} {skipped : List String}
    {t : JobTables} {r : JobRow} (h : nextClaimable deployment now capacity skipped t = some r) :
    r ∈ t.jobs ∧ r.claimable deployment now capacity = true := by
  have member := List.mem_of_mem_head? h
  rw [List.mem_mergeSort, List.mem_filter] at member
  simp only [decide_eq_true_eq] at member
  exact ⟨member.1, member.2.1⟩

theorem advanceClaims_ok {deployment : String} {t t' : JobTables}
    (h : advanceClaims deployment t = .ok t') :
    t'.jobs = t.jobs ∧ t'.watermark = t.watermark ∧ t'.receipts = t.receipts ∧ t'.grants = t.grants := by
  simp only [advanceClaims, bind_eq_ok] at h
  rcases h with ⟨sequence, _, runtime, _, h⟩
  cases h
  exact ⟨rfl, rfl, rfl, rfl⟩

/-- A claim that finds no row leaves the rows; another moves the row it names. -/
theorem claim_moves {deployment : String} {now : Int} {skipped : List String} {t t' : JobTables}
    {found : Option JobClaim} (constrained : Constrained t.jobs)
    (h : claim deployment now skipped t = .ok (found, t')) :
    found = none ∧ t'.jobs = t.jobs ∧ t'.watermark = t.watermark ∧ t'.receipts = t.receipts
      ∧ t'.grants = t.grants
    ∨ ∃ taken r, found = some taken ∧ Moved now (.claim taken) r (r.claimed taken.fence taken.leaseUntil
        (if r.attempts < maxJobAttempts then r.attempts + 1 else r.attempts)) t t' := by
  simp only [claim, bind_eq_ok] at h
  rcases h with ⟨_, _, runtime, _, _, _, t₁, advanced, h⟩
  have advances := advanceClaims_ok advanced
  cases next : nextClaimable deployment now
      (decide ((((t₁.jobs.filter fun row => row.state = .running).take 3).length : Int)
        < runtime.concurrency)) skipped t₁ with
  | none =>
      rw [next] at h
      cases h
      exact Or.inl ⟨rfl, advances⟩
  | some row =>
      rw [next] at h
      simp only [check, bind_eq_ok, jobInteger, integerColumn_ok, ensure_eq_ok, laterBy_ok] at h
      rcases h with ⟨_, ⟨_, rfl⟩, _, _, _, ⟨_, rfl⟩, _, _, _, ⟨_, _, rfl⟩, ⟨changed, t₂⟩, updated, _, one, h⟩
      cases h
      rcases nextClaimable_some next with ⟨member, claimable⟩
      rcases updateJobs_one updated one with ⟨r, holds, replaced, same, ok⟩
      rw [advances.1] at replaced member
      simp only [decide_eq_true_eq] at holds
      have chosen : r = row := same_row constrained replaced.mem_before member holds.1
      subst chosen
      simp only [JobRow.claimable, decide_eq_true_eq] at claimable
      have after : t₂.watermark = t.watermark ∧ t₂.receipts = t.receipts ∧ t₂.grants = t.grants := by
        rw [same]
        exact advances.2
      refine Or.inr ⟨_, r, rfl, ⟨?_, replaced, after.1, after.2.1, after.2.2, ok⟩⟩
      refine RowMove.claim _ r rfl ?_ ?_ rfl rfl rfl
      · rw [claimable.1]
      · rcases claimable.2 with running | ⟨pending, due, _⟩
        · exact Or.inr running
        · exact Or.inl ⟨pending, due⟩

/-! ## The end of a claim -/

/-- What a worker's transaction does at the end of its claim: it changes nothing, or ends the
claim of the running row, as succeeded exactly where the job has a receipt. -/
inductive Finishing (claim : JobClaim) (now : Int) (t : JobTables) : JobTables → Prop where
  | unchanged : Finishing claim now t t
  | finished (r : JobRow) (state : JobState) (reason : String) (eligible : Int) (t' : JobTables)
      (moved : Moved now (.finish claim state) r (r.finished state reason eligible) t t')
      (receipt : state = .succeeded ↔ Receipted t r.id) : Finishing claim now t t'

/-- What the execution lock does: it ends the claim, or hands out authority over a running
row without a receipt and changes nothing. -/
inductive Locked (claim : JobClaim) (now : Int) (t : JobTables) : Execution → JobTables → Prop where
  | finishing (execution : Execution) (t' : JobTables) (ends : Finishing claim now t t')
      (done : ∀ verified, execution ≠ .ready verified) : Locked claim now t execution t'
  | ready (r : JobRow) (grant : Grant) (member : r ∈ t.jobs) (current : claim.Current r)
      (running : r.state = .running) (live : now < r.lease) (unreceipted : ¬ Receipted t r.id) :
      Locked claim now t (.ready ⟨claim, r.payload, grant⟩) t

section Ends

variable {encoding : Encoding} {t t' : JobTables} {claim : JobClaim}

theorem receipt_some {r : JobRow} {validate : String → Result Unit} {outcome : String}
    (captured : r.Captured encoding) (h : receipt encoding r.read validate t = .ok (some outcome)) :
    Receipted t r.id := by
  have id : r.read.job.id encoding = r.id := captured.id
  unfold receipt at h
  rw [id] at h
  unfold Receipted
  cases found : t.receipts.find? r.id with
  | none =>
      rw [found] at h
      cases h
  | some stored => rfl

theorem receipt_none {r : JobRow} {validate : String → Result Unit}
    (captured : r.Captured encoding) (h : receipt encoding r.read validate t = .ok none) :
    ¬ Receipted t r.id := by
  have id : r.read.job.id encoding = r.id := captured.id
  unfold receipt at h
  rw [id] at h
  unfold Receipted
  cases found : t.receipts.find? r.id with
  | none => simp
  | some stored =>
      rw [found] at h
      simp only [bind_eq_ok] at h
      rcases h with ⟨_, _, _, _, _, _, _, _, h⟩
      cases h

/-- A transition without a receipt ends the claim, but not as succeeded. -/
theorem finishes {now eligible : Int} {state : JobState} {reason : String} {r : JobRow}
    (constrained : Constrained t.jobs) (member : r ∈ t.jobs) (current : claim.Current r)
    (unreceipted : ¬ Receipted t r.id) (h : transition claim state reason eligible t = .ok t')
    (stopped : state ≠ .running ∧ state ≠ .succeeded) (later : now ≤ eligible)
    (retried : state = .pending → r.attempts < maxJobAttempts) : Finishing claim now t t' :=
  Finishing.finished r state reason eligible t'
    (transition_moves constrained member current h stopped.1 (Or.inr (Or.inr later)) retried)
    ⟨fun same => absurd same stopped.2, fun receipted => absurd receipted unreceipted⟩

/-- The recovery of a receipt settles the row. -/
theorem recovers {now eligible : Int} {r : JobRow} (constrained : Constrained t.jobs)
    (member : r ∈ t.jobs) (current : claim.Current r) (receipted : Receipted t r.id)
    (h : transition claim .succeeded "" eligible t = .ok t')
    (later : eligible = r.first ∨ eligible = r.lease ∨ now ≤ eligible) : Finishing claim now t t' :=
  Finishing.finished r .succeeded "" eligible t'
    (transition_moves constrained member current h (by simp) later fun same => by cases same)
    ⟨fun _ => receipted, fun _ => rfl⟩

theorem lockExecution_moves {sampleTime : Result Int} {validate : CapturedJob → String → Result Unit}
    {job : CapturedJob} {execution : Execution} {now : Int} (constrained : Constrained t.jobs)
    (sampled : ∀ time, sampleTime = .ok time → time = now)
    (h : lockExecution encoding claim sampleTime validate t = .ok (job, execution, t')) :
    Locked claim now t execution t' := by
  simp only [lockExecution, bind_eq_ok] at h
  rcases h with ⟨runtime, _, preview, _, ⟨grant, state⟩, _, read, reads, found, receipts, h⟩
  rcases row_ok constrained reads with ⟨r, member, current, rfl, captured⟩
  cases found with
  | some outcome =>
      have receipted := receipt_some captured receipts
      simp only at h
      split at h
      · rcases bind_eq_ok.mp h with ⟨t₁, ended, h⟩
        cases h
        exact Locked.finishing _ _ (recovers constrained member current receipted ended (Or.inl rfl))
          fun verified same => by cases same
      · rcases bind_eq_ok.mp h with ⟨_, _, h⟩
        cases h
        exact Locked.finishing _ _ Finishing.unchanged fun verified same => by cases same
  | none =>
      have unreceipted := receipt_none captured receipts
      rcases bind_eq_ok.mp h with ⟨time, sample, live⟩
      have time_now := sampled time sample
      subst time_now
      rcases bind_eq_ok.mp live with ⟨_, running, answered⟩
      clear h live
      have live := ensure_eq_ok.mp running
      split at answered
      · rcases bind_eq_ok.mp answered with ⟨t₁, ended, h⟩
        cases h
        exact Locked.finishing _ _ (finishes constrained member current unreceipted ended (by simp)
          (le_refl _) fun same => by cases same) fun verified same => by cases same
      · rcases bind_eq_ok.mp answered with ⟨window, _, h⟩
        split at h
        · rcases bind_eq_ok.mp h with ⟨t₁, ended, h⟩
          cases h
          exact Locked.finishing _ _ (finishes constrained member current unreceipted ended (by simp)
            (le_refl _) fun same => by cases same) fun verified same => by cases same
        · rcases bind_eq_ok.mp h with ⟨_, _, h⟩
          cases h
          exact Locked.ready r grant member current live.1 live.2 unreceipted

theorem succeed_moves (now : Int) {verified : VerifiedJob} {validate : String → Result Unit}
    (constrained : Constrained t.jobs) (h : succeed encoding verified validate t = .ok t') :
    ∃ r reason eligible, r.payload = verified.job ∧ Receipted t r.id
      ∧ Moved now (.finish verified.claim .succeeded) r (r.finished .succeeded reason eligible) t t' := by
  simp only [succeed, bind_eq_ok] at h
  rcases h with ⟨runtime, _, ⟨grant, state⟩, _, _, _, _, _, read, reads, _, same, found, receipts, _,
    some, h⟩
  rcases row_ok constrained reads with ⟨r, member, current, rfl, captured⟩
  have job := ensure_eq_ok.mp same
  have present := ensure_eq_ok.mp some
  cases found with
  | none => cases present
  | some outcome =>
      exact ⟨r, "", r.lease, job.2, receipt_some captured receipts,
        transition_moves constrained member current h (by simp) (Or.inr (Or.inl rfl)) fun same => by cases same⟩

theorem retryBase_nonneg {attempts base : Int} (h : retryBase attempts = .ok base) : 0 ≤ base := by
  unfold retryBase at h
  split at h
  · cases h
    decide
  · split at h
    · cases h
      decide
    · split at h
      · cases h
        decide
      · split at h
        · cases h
          decide
        · cases h

theorem retryDelay_nonneg {id : String} {attempts delay : Int}
    (h : retryDelay encoding id attempts = .ok delay) : 0 ≤ delay := by
  simp only [retryDelay, bind_eq_ok] at h
  rcases h with ⟨base, based, h⟩
  cases h
  have positive := retryBase_nonneg based
  have jitter := Int.emod_nonneg (encoding.retryHash id attempts : Int)
    (show base / 10 + 1 ≠ 0 by omega)
  omega

theorem recordFailure_moves {failure : Failure} {result : FailureResult} {now : Int} {r : JobRow}
    (constrained : Constrained t.jobs) (member : r ∈ t.jobs) (current : claim.Current r)
    (unreceipted : ¬ Receipted t r.id)
    (h : recordFailure encoding claim r.read now failure t = .ok (result, t')) :
    Finishing claim now t t' := by
  cases failure with
  | rejected =>
      rcases bind_eq_ok.mp h with ⟨t₁, ended, h⟩
      cases h
      exact finishes constrained member current unreceipted ended (by simp) (le_refl _)
        fun same => by cases same
  | businessRejected action stored =>
      simp only [recordFailure, bind_eq_ok] at h
      rcases h with ⟨_, _, t₁, ended, h⟩
      cases h
      exact finishes constrained member current unreceipted ended (by simp) (le_refl _)
        fun same => by cases same
  | transient =>
      simp only [recordFailure, bind_eq_ok] at h
      rcases h with ⟨window, _, h⟩
      split at h
      · rcases bind_eq_ok.mp h with ⟨t₁, ended, h⟩
        cases h
        exact finishes constrained member current unreceipted ended (by simp) (le_refl _)
          fun same => by cases same
      · rename_i open_window
        rw [not_or, not_le, not_le] at open_window
        simp only [bind_eq_ok, laterBy_ok] at h
        rcases h with ⟨delay, delays, _, ⟨_, _, rfl⟩, h⟩
        have nonneg := retryDelay_nonneg delays
        split at h
        · rcases bind_eq_ok.mp h with ⟨t₁, ended, h⟩
          cases h
          exact finishes constrained member current unreceipted ended (by simp) (le_refl _)
            fun same => by cases same
        · rcases bind_eq_ok.mp h with ⟨t₁, ended, h⟩
          cases h
          exact finishes constrained member current unreceipted ended (by simp) (by omega)
            fun _ => open_window.1

theorem fail_moves {failure : Failure} {result : FailureResult} {validate : String → Result Unit}
    {now : Int} (constrained : Constrained t.jobs)
    (h : fail encoding claim now failure validate t = .ok (result, t')) : Finishing claim now t t' := by
  simp only [fail, bind_eq_ok] at h
  rcases h with ⟨runtime, _, preview, _, ⟨grant, state⟩, _, read, reads, found, receipts, h⟩
  rcases row_ok constrained reads with ⟨r, member, current, rfl, captured⟩
  cases found with
  | some outcome =>
      have receipted := receipt_some captured receipts
      simp only at h
      split at h
      · rcases bind_eq_ok.mp h with ⟨t₁, ended, h⟩
        cases h
        exact recovers constrained member current receipted ended (Or.inr (Or.inr (le_refl _)))
      · rcases bind_eq_ok.mp h with ⟨_, _, h⟩
        cases h
        exact Finishing.unchanged
  | none =>
      have unreceipted := receipt_none captured receipts
      rcases bind_eq_ok.mp h with ⟨_, _, answered⟩
      clear h
      split at answered
      · rcases bind_eq_ok.mp answered with ⟨t₁, ended, h⟩
        cases h
        exact finishes constrained member current unreceipted ended (by simp) (le_refl _)
          fun same => by cases same
      · exact recordFailure_moves constrained member current unreceipted answered

end Ends

/-! ## Captures -/

/-- One capture is added. -/
structure Added (encoding : Encoding) (job : CapturedJob) (now : Int) (t t' : JobTables) : Prop where
  jobs : t'.jobs = t.jobs ++ [job.row encoding now]
  watermark : t'.watermark = t.watermark
  receipts : t'.receipts = t.receipts
  grants : t'.grants = t.grants
  constrained : Constrained t'.jobs
  valid : job.validate encoding = .ok ()
  fresh : ∀ r ∈ t.jobs, r.id ≠ job.id encoding

theorem ensureTenant_frame (deployment tenant : String) (t : JobTables) :
    (ensureTenant deployment tenant t).jobs = t.jobs
      ∧ (ensureTenant deployment tenant t).watermark = t.watermark
      ∧ (ensureTenant deployment tenant t).receipts = t.receipts
      ∧ (ensureTenant deployment tenant t).grants = t.grants := by
  unfold ensureTenant
  split <;> exact ⟨rfl, rfl, rfl, rfl⟩

/-- Admission adds the capture, or finds the row that has its identity. -/
theorem enqueue_adds {encoding : Encoding} {job : CapturedJob} {now tenantLimit : Int}
    {t t' : JobTables} {inserted : Bool} (h : enqueue encoding job now tenantLimit t = .ok (inserted, t')) :
    t' = t ∧ (∃ r ∈ t.jobs, r.id = job.id encoding) ∨ Added encoding job now t t' := by
  simp only [enqueue, bind_eq_ok] at h
  rcases h with ⟨_, valid, _, _, horizon, _, _, _, runtime, _, _, _, _, _, ⟨grant, state⟩, _, _, _, _, _, h⟩
  cases found : t.jobs.find? fun row => row.id = job.id encoding with
  | some stored =>
      rw [found] at h
      simp only [bind_eq_ok] at h
      rcases h with ⟨_, _, h⟩
      cases h
      have here := List.find?_some found
      exact Or.inl ⟨rfl, stored, List.mem_of_find?_eq_some found, by simpa using here⟩
  | none =>
      rw [found] at h
      simp only [bind_eq_ok, withJobs_ok] at h
      rcases h with ⟨_, _, t₁, ⟨constrained, rfl⟩, h⟩
      cases h
      rcases ensureTenant_frame job.scope.deployment job.scope.tenant t with
        ⟨jobs, watermark, receipts, grants⟩
      rw [jobs] at constrained
      refine Or.inr ⟨?_, watermark, receipts, grants, ?_, valid, fun r member => ?_⟩
      · change (ensureTenant job.scope.deployment job.scope.tenant t).jobs ++ _ = _
        rw [jobs]
      · change Constrained ((ensureTenant job.scope.deployment job.scope.tenant t).jobs ++ _)
        rw [jobs]
        exact constrained
      · have missing := List.find?_eq_none.mp found r member
        simpa using missing

/-! ## Operator commands -/

theorem cancel_moves (now : Int) {generation id : String} {t t' : JobTables}
    (h : cancelJob generation id t = .ok t') :
    ∃ r, r.id = id ∧ Moved now .reject r (r.reject "operator_cancelled") t t' := by
  simp only [cancelJob, bind_eq_ok] at h
  rcases h with ⟨_, _, _, _, ⟨changed, t₁⟩, updated, _, one, h⟩
  cases h
  rcases updateJobs_one updated (ensure_eq_ok.mp one) with ⟨r, holds, replaced, same, ok⟩
  simp only [Bool.and_eq_true, decide_eq_true_eq] at holds
  refine ⟨r, holds.1, RowMove.reject r _ fun done => ?_, replaced, by rw [same],
    by rw [same], by rw [same], ok⟩
  rw [JobRow.cancellable, done] at holds
  cases holds.2

theorem reviewed_unsettled {state : JobState} (h : state.reviewed = true) : state ≠ .succeeded := by
  rintro rfl
  cases h

/-- What a reconciliation does: its source is rejected and, unless the row of the fresh
capture exists, that row is added. -/
theorem reconcile_moves {encoding : Encoding} {previous : CapturedJob} {current : Grant}
    {actionVersion : Nat} {now tenantLimit : Int} {input : Fields} {targets : List (String × SealedTarget)}
    {t t' : JobTables} {id : String} (constrained : Constrained t.jobs)
    (h : enqueueReconciled encoding previous current actionVersion now input targets tenantLimit t
      = .ok (id, t')) :
    ∃ r job t₁, r.id = previous.id encoding ∧ r.state.reviewed = true
      ∧ Moved now .reject r (r.reject "operator_reconciled") t t₁
      ∧ CapturedJob.reconcile encoding previous current actionVersion now input targets = .ok job
      ∧ id = job.id encoding
      ∧ (t' = t₁ ∧ (∃ r ∈ t₁.jobs, r.id = id) ∨ Added encoding job now t₁ t') := by
  simp only [enqueueReconciled, bind_eq_ok] at h
  rcases h with ⟨_, locked, job, reconciled, ⟨changed, t₁⟩, updated, ⟨inserted, t₂⟩, admitted, h⟩
  cases h
  rcases @Table.update_one _ _ (fun row : JobRow => row) _ (ensure_eq_ok.mp locked) with ⟨r, holds, there⟩
  simp only [Bool.and_eq_true, decide_eq_true_eq] at holds
  have member := there.mem_before
  have alone : t.jobs.countP (fun row => decide (row.id = previous.id encoding
      ∧ row.deployment = previous.scope.deployment)) = 1 := by
    refine countP_one constrained member (by simpa using ⟨holds.1.2.1, holds.1.1⟩) fun x named => ?_
    simp only [decide_eq_true_eq] at named
    exact named.1.trans holds.1.2.1.symm
  have counted := (updateJobs_ok.mp updated).2.1
  rcases updateJobs_one updated (counted.trans alone) with ⟨x, named, replaced, same, ok⟩
  simp only [decide_eq_true_eq] at named
  have chosen : x = r := same_row constrained replaced.mem_before member (named.1.trans holds.1.2.1.symm)
  subst chosen
  refine ⟨x, job, t₁, named.1, holds.2, ⟨RowMove.reject x _ (reviewed_unsettled holds.2), replaced,
    by rw [same], by rw [same], by rw [same], ok⟩, reconciled, rfl, ?_⟩
  exact enqueue_adds admitted

/-! ## Pauses -/

/-- A row stays, or is paused out of a state that may be claimed. -/
inductive Paused : JobRow → JobRow → Prop where
  | same (r : JobRow) : Paused r r
  | paused (r : JobRow) (reason : String) (pausable : r.pausable = true) : Paused r (r.pause reason)

/-- Every row stays or is paused; the clock and the receipts stay. -/
structure Pauses (t t' : JobTables) : Prop where
  rows : List.Forall₂ Paused t.jobs t'.jobs
  watermark : t'.watermark = t.watermark
  receipts : t'.receipts = t.receipts
  constrained : Constrained t'.jobs

theorem Pauses.refl {t t' : JobTables} (constrained : Constrained t.jobs) (jobs : t'.jobs = t.jobs)
    (watermark : t'.watermark = t.watermark) (receipts : t'.receipts = t.receipts) : Pauses t t' := by
  refine ⟨?_, watermark, receipts, ?_⟩
  · rw [jobs]
    exact List.forall₂_same.mpr fun r _ => Paused.same r
  · rw [jobs]
    exact constrained

/-- A pause statement between changes of other tables. -/
theorem pauseJobs_pauses {condition : JobRow → Bool} {reason : String} {start t t' : JobTables}
    (h : pauseJobs condition reason t = .ok t') (jobs : t.jobs = start.jobs)
    (watermark : t.watermark = start.watermark) (receipts : t.receipts = start.receipts) :
    Pauses start t' := by
  simp only [pauseJobs, bind_eq_ok] at h
  rcases h with ⟨⟨changed, t₁⟩, updated, h⟩
  cases h
  rcases updateJobs_ok.mp updated with ⟨constrained, _, rfl⟩
  refine ⟨?_, watermark, receipts, constrained⟩
  change List.Forall₂ Paused start.jobs (t.jobs.map fun r =>
    if (condition r && r.pausable) then r.pause reason else r)
  rw [jobs, List.forall₂_map_right_iff, List.forall₂_same]
  intro r _
  split
  · rename_i chosen
    rw [Bool.and_eq_true] at chosen
    exact Paused.paused r reason chosen.2
  · exact Paused.same r

theorem revokeJobGrant_pauses {generation tenant worker : String} {t t' : JobTables}
    (h : revokeJobGrant generation tenant worker t = .ok t') : Pauses t t' := by
  simp only [revokeJobGrant, bind_eq_ok] at h
  rcases h with ⟨_, _, _, _, _, _, _, _, h⟩
  exact pauseJobs_pauses h rfl rfl rfl

theorem grantJobService_pauses {generation contract : String} {approved : EffectiveJobGrant}
    {t t' : JobTables} (h : grantJobService generation contract approved t = .ok t') : Pauses t t' := by
  simp only [grantJobService, bind_eq_ok] at h
  rcases h with ⟨_, _, _, _, _, _, _, _, _, _, _, _, _, _, t₁, paused, h⟩
  cases h
  have pauses := pauseJobs_pauses paused rfl rfl rfl
  exact ⟨pauses.rows, pauses.watermark, pauses.receipts, pauses.constrained⟩

theorem applyJobFork_pauses {generation epoch : String} {t t' : JobTables}
    (h : applyJobFork generation epoch t = .ok t') : Pauses t t' :=
  pauseJobs_pauses h rfl rfl rfl

theorem forkJobRuntime_pauses {generation epoch : String} {t t' : JobTables}
    (h : forkJobRuntime generation epoch t = .ok t') : Pauses t t' := by
  simp only [forkJobRuntime, bind_eq_ok] at h
  rcases h with ⟨_, _, h⟩
  exact applyJobFork_pauses h

theorem recoverClock_pauses {epoch generation : String} {t t' : JobTables}
    (h : recoverClock epoch generation t = .ok t') : Pauses t t' := by
  simp only [recoverClock, bind_eq_ok] at h
  rcases h with ⟨_, _, t₁, paused, h⟩
  cases h
  have pauses := pauseJobs_pauses paused rfl rfl rfl
  exact ⟨pauses.rows, pauses.watermark, pauses.receipts, pauses.constrained⟩

theorem installGrant_frame {generation contract epoch : String} {changed : Bool} {state : GrantState}
    {configured : EffectiveJobGrant} {t t' : JobTables}
    (h : installGrant generation contract epoch changed state configured t = .ok t') :
    t'.jobs = t.jobs ∧ t'.watermark = t.watermark ∧ t'.receipts = t.receipts := by
  have upserted : ∀ row, (upsertGrant row t).jobs = t.jobs ∧ (upsertGrant row t).watermark = t.watermark
      ∧ (upsertGrant row t).receipts = t.receipts := by
    intro row
    unfold upsertGrant
    split <;> exact ⟨rfl, rfl, rfl⟩
  simp only [installGrant, bind_eq_ok] at h
  rcases h with ⟨_, _, h⟩
  split at h
  · rcases bind_eq_ok.mp h with ⟨_, _, h⟩
    cases h
    exact upserted _
  · split at h
    · simp only [bind_eq_ok] at h
      rcases h with ⟨_, _, _, _, _, _, h⟩
      cases h
      exact upserted _
    · simp only [bind_eq_ok] at h
      rcases h with ⟨_, _, _, _, _, _, h⟩
      cases h
      exact ⟨rfl, rfl, rfl⟩

theorem installGrants_frame {generation contract epoch : String} {changed : Bool} {state : GrantState}
    {grants : List EffectiveJobGrant} {t t' : JobTables}
    (h : installGrants generation contract epoch changed state grants t = .ok t') :
    t'.jobs = t.jobs ∧ t'.watermark = t.watermark ∧ t'.receipts = t.receipts := by
  induction grants generalizing t with
  | nil =>
      cases h
      exact ⟨rfl, rfl, rfl⟩
  | cons configured rest ih =>
      rcases bind_eq_ok.mp h with ⟨t₁, first, others⟩
      have head := installGrant_frame first
      have tail := ih others
      exact ⟨tail.1.trans head.1, tail.2.1.trans head.2.1, tail.2.2.trans head.2.2⟩

theorem changeApproval_pauses {changed : Bool} {runtime : JobRuntimeRow} {start t t' : JobTables}
    (constrained : Constrained start.jobs) (h : changeApproval changed runtime t = .ok t')
    (jobs : t.jobs = start.jobs) (watermark : t.watermark = start.watermark)
    (receipts : t.receipts = start.receipts) : Pauses start t' := by
  unfold changeApproval at h
  split at h
  · rcases bind_eq_ok.mp h with ⟨t₁, paused, h⟩
    cases h
    have pauses := pauseJobs_pauses paused jobs watermark receipts
    exact ⟨pauses.rows, pauses.watermark, pauses.receipts, pauses.constrained⟩
  · cases h
    exact Pauses.refl constrained jobs watermark receipts

/-- An activation at most pauses: with the same approval it leaves every row. -/
theorem activateJobs_pauses {generation contract first second : String}
    {effective : Option EffectiveJobDeployment} {effectsEnabled : Bool} {t t' : JobTables}
    (constrained : Constrained t.jobs)
    (h : activateJobs generation contract first second effective effectsEnabled t = .ok t') :
    Pauses t t' := by
  simp only [activateJobs, bind_eq_ok] at h
  rcases h with ⟨_, _, _, _, _, _, t₁, approved, h⟩
  have pauses : Pauses t t₁ := changeApproval_pauses constrained approved rfl rfl rfl
  cases effective with
  | none =>
      cases h
      exact ⟨pauses.rows, pauses.watermark, pauses.receipts, pauses.constrained⟩
  | some effective =>
      rcases installGrants_frame h with ⟨jobs, watermark, receipts⟩
      refine ⟨?_, watermark.trans pauses.watermark, receipts.trans pauses.receipts, ?_⟩
      · rw [jobs]
        exact pauses.rows
      · rw [jobs]
        exact pauses.constrained

end Noxide.Jobs
