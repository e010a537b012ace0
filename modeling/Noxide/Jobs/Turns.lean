import Noxide.Jobs.Bounds
import Noxide.Library.Turns
import Mathlib.Data.Prod.Lex
import Mathlib.Data.String.Basic

/-!
# Tenants take turns

A claim stamps its tenant with a new claim sequence and takes a row of the tenant whose stamp is
the oldest.  Every other transaction keeps the stamps of the tenants and the sequence of the
queue; a new tenant starts at zero.

Main results:

- Theorem {lit}`claim_takes`: what a claim takes, from whom and with which stamp.
- Theorem {lit}`Step.tally`: every step of the queue is a step of its tally.
- Theorem {lit}`job_claims_fair`: tenants take turns in every serial run.
-/

namespace Noxide.Jobs

open Checked

/-! ## Stamps -/

/-- The columns of a row that name its tenant. -/
def JobRow.scope (row : JobRow) : JobScope := ⟨row.deployment, row.tenant⟩

/-- The sequence of the queue and the stamps of its tenants. -/
def JobTables.tally (t : JobTables) : Tally JobScope where
  counter := t.queue.getD 0
  stamp scope := (t.tenants.find? fun tenant =>
    tenant.deployment = scope.deployment ∧ tenant.tenant = scope.tenant).map (·.claimSeq)

/-- Every row has its tenant, and no tenant is stamped ahead of the queue. -/
structure Stamped (t : JobTables) : Prop where
  joined : ∀ row ∈ t.jobs, (t.tally.stamp row.scope).isSome = true
  sound : t.tally.Sound

/-- Every row is of a tenant that has a row in {lit}`nx_job_tenants`, or was there before. -/
def Joins (t t' : JobTables) : Prop :=
  ∀ row ∈ t'.jobs, (t'.tally.stamp row.scope).isSome = true ∨ ∃ old ∈ t.jobs, old.scope = row.scope

/-- A transaction that claims nothing. -/
structure Passes (t t' : JobTables) : Prop where
  tally : Tally.Evolves none t.tally t'.tally
  rows : Joins t t'

section Stamps

variable {encoding : Encoding} {t t' t'' : JobTables} {claim : JobClaim} {now : Int}

theorem Stamped.joins {served : Option JobScope} (h : Stamped t)
    (tally : Tally.Evolves served t.tally t'.tally) (rows : Joins t t') : Stamped t' := by
  refine ⟨fun row member => ?_, h.sound.evolves tally⟩
  rcases rows row member with joined | ⟨old, here, same⟩
  · exact joined
  · exact tally.isSome (same ▸ h.joined old here)

theorem Passes.refl (t : JobTables) : Passes t t :=
  ⟨Tally.Evolves.refl _, fun row member => Or.inr ⟨row, member, rfl⟩⟩

theorem Passes.trans (first : Passes t t') (second : Passes t' t'') : Passes t t'' := by
  refine ⟨first.tally.trans second.tally, fun row member => ?_⟩
  rcases second.rows row member with joined | ⟨middle, here, same⟩
  · exact Or.inl joined
  · rcases first.rows middle here with joined | ⟨old, there, same'⟩
    · exact Or.inl (second.tally.isSome (same ▸ joined))
    · exact Or.inr ⟨old, there, same'.trans same⟩

/-- Neither the tenants nor the queue change, and no row changes its tenant. -/
theorem Passes.of_same (tenants : t'.tenants = t.tenants) (queue : t'.queue.getD 0 = t.queue.getD 0)
    (rows : ∀ row ∈ t'.jobs, ∃ old ∈ t.jobs, old.scope = row.scope) : Passes t t' := by
  have same : t'.tally = t.tally := by
    rw [JobTables.tally, JobTables.tally, tenants, queue]
  refine ⟨?_, fun row member => Or.inr (rows row member)⟩
  rw [same]
  exact Tally.Evolves.refl _

theorem RowMove.scope {move : Move} {r r' : JobRow} (h : RowMove now move r r') : r'.scope = r.scope := by
  cases h with
  | claim claim _ id scope due fence lease exhausted => rfl
  | finish claim _ state reason eligible current running stopped later retried => rfl
  | reject _ reason unsettled => rfl

theorem Moved.scopes {move : Move} {r r' : JobRow} (h : Moved now move r r' t t') :
    ∀ row ∈ t'.jobs, ∃ old ∈ t.jobs, old.scope = row.scope := by
  intro row member
  rcases h.replaced.mem member with rfl | before
  · exact ⟨r, h.replaced.mem_before, h.row.scope.symm⟩
  · exact ⟨row, before, rfl⟩

theorem Pauses.scopes (h : Pauses t t') : ∀ row ∈ t'.jobs, ∃ old ∈ t.jobs, old.scope = row.scope := by
  intro row member
  rcases forall₂_mem_left h.rows.flip member with ⟨old, here, related⟩
  refine ⟨old, here, ?_⟩
  cases related with
  | same => rfl
  | paused reason pausable => rfl

theorem Finishing.scopes (h : Finishing claim now t t') :
    ∀ row ∈ t'.jobs, ∃ old ∈ t.jobs, old.scope = row.scope := by
  cases h with
  | unchanged => exact fun row member => ⟨row, member, rfl⟩
  | finished r state reason eligible _ moved receipt => exact moved.scopes

theorem Locked.scopes {execution : Execution} (h : Locked claim now t execution t') :
    ∀ row ∈ t'.jobs, ∃ old ∈ t.jobs, old.scope = row.scope := by
  cases h with
  | finishing _ _ ends done => exact ends.scopes
  | ready r grant member current running live unreceipted => exact fun row member => ⟨row, member, rfl⟩

theorem OnlyJobs.passes (h : OnlyJobs t t')
    (rows : ∀ row ∈ t'.jobs, ∃ old ∈ t.jobs, old.scope = row.scope) : Passes t t' :=
  Passes.of_same h.tenants (by rw [h.queue]) rows

/-! ## Admission -/

/-- A tenant gets a row of its own, with the stamp zero, where it has none. -/
theorem ensureTenant_passes (deployment tenant : String) (t : JobTables) :
    Passes t (ensureTenant deployment tenant t)
      ∧ ((ensureTenant deployment tenant t).tally.stamp ⟨deployment, tenant⟩).isSome = true := by
  unfold ensureTenant
  split
  · rename_i there
    refine ⟨Passes.refl t, ?_⟩
    rw [JobTables.tally, Option.isSome_map, List.find?_isSome]
    simpa only [List.any_eq_true] using there
  · rename_i absent
    have stamps : ∀ scope : JobScope,
        ({ t with tenants := t.tenants ++ [⟨deployment, tenant, 0⟩] } : JobTables).tally.stamp scope
          = (t.tally.stamp scope).or (if deployment = scope.deployment ∧ tenant = scope.tenant then some 0
            else none) := by
      intro scope
      simp only [JobTables.tally, List.find?_append, List.find?_cons, List.find?_nil]
      cases t.tenants.find? fun row => decide (row.deployment = scope.deployment ∧ row.tenant = scope.tenant) with
      | some row => rfl
      | none =>
          by_cases named : deployment = scope.deployment ∧ tenant = scope.tenant
          · simp [named]
          · simp [named]
    refine ⟨⟨⟨le_refl _, fun _ idle => (by cases idle), fun scope _ => ?_⟩, fun row member =>
      Or.inr ⟨row, member, rfl⟩⟩, ?_⟩
    · rw [stamps]
      cases stamp : t.tally.stamp scope with
      | some value => exact Or.inl rfl
      | none =>
          by_cases named : deployment = scope.deployment ∧ tenant = scope.tenant
          · rw [if_pos named]
            exact Or.inr ⟨rfl, rfl⟩
          · rw [if_neg named]
            exact Or.inl rfl
    · rw [stamps, if_pos ⟨rfl, rfl⟩]
      cases t.tally.stamp ⟨deployment, tenant⟩ with
      | some value => rfl
      | none => rfl

theorem enqueue_passes {job : CapturedJob} {tenantLimit : Int} {inserted : Bool}
    (h : enqueue encoding job now tenantLimit t = .ok (inserted, t')) : Passes t t' := by
  simp only [enqueue, bind_eq_ok] at h
  rcases h with ⟨_, _, _, _, horizon, _, _, _, runtime, snapshot, _, _, _, _, ⟨grant, state⟩, _, _, _, _, _, h⟩
  cases found : t.jobs.find? fun row => row.id = job.id encoding with
  | some stored =>
      rw [found] at h
      simp only [bind_eq_ok] at h
      rcases h with ⟨_, _, h⟩
      cases h
      exact Passes.refl _
  | none =>
      rw [found] at h
      simp only [bind_eq_ok, withJobs_ok] at h
      rcases h with ⟨_, quota, t₁, ⟨_, rfl⟩, h⟩
      cases h
      rcases ensureTenant_passes job.scope.deployment job.scope.tenant t with ⟨passes, joined⟩
      refine ⟨passes.tally, fun row member => ?_⟩
      rcases List.mem_append.mp member with before | added
      · exact passes.rows row before
      · rw [List.mem_singleton] at added
        subst added
        exact Or.inl joined

theorem enqueueJobs_passes {jobs : List CapturedJob} (h : enqueueJobs encoding now jobs t = .ok t') :
    Passes t t' := by
  induction jobs generalizing t with
  | nil =>
      cases h
      exact Passes.refl _
  | cons job rest ih =>
      rcases bind_eq_ok.mp h with ⟨⟨inserted, t₁⟩, admitted, others⟩
      exact (enqueue_passes admitted).trans (ih others)

/-! ## Workers and operators -/

/-- Rows, tenants and queue stay. -/
theorem Passes.of_jobs (jobs : t'.jobs = t.jobs) (tenants : t'.tenants = t.tenants)
    (queue : t'.queue.getD 0 = t.queue.getD 0) : Passes t t' :=
  Passes.of_same tenants queue fun row member => ⟨row, jobs ▸ member, rfl⟩

/-- The same before a transaction that claims nothing. -/
theorem Passes.after (second : Passes t' t'') (jobs : t'.jobs = t.jobs) (tenants : t'.tenants = t.tenants)
    (queue : t'.queue.getD 0 = t.queue.getD 0) : Passes t t'' :=
  (Passes.of_jobs jobs tenants queue).trans second

theorem updateJobs_passes {condition : JobRow → Bool} {change : JobRow → JobRow} {n : Nat}
    (h : updateJobs condition change t = .ok (n, t')) (same : ∀ row, (change row).scope = row.scope) :
    Passes t t' := by
  refine (updateJobs_onlyJobs h).passes fun row member => ?_
  rcases updateJobs_ok.mp h with ⟨_, _, rfl⟩
  rcases List.mem_map.mp member with ⟨old, here, rfl⟩
  refine ⟨old, here, ?_⟩
  split
  · exact (same old).symm
  · rfl

theorem pauseJobs_passes {condition : JobRow → Bool} {reason : String}
    (h : pauseJobs condition reason t = .ok t') : Passes t t' := by
  simp only [pauseJobs, bind_eq_ok] at h
  rcases h with ⟨⟨changed, t₁⟩, updated, h⟩
  cases h
  exact updateJobs_passes updated fun _ => rfl

theorem OnlyGrants.passes (h : OnlyGrants t t') : Passes t t' := by
  refine Passes.of_jobs ?_ h.tenants (by rw [h.queue])
  rw [h]

theorem changeApproval_passes {changed : Bool} {runtime : JobRuntimeRow}
    (h : changeApproval changed runtime t = .ok t') : Passes t t' := by
  cases changed with
  | false =>
      cases h
      exact Passes.refl _
  | true =>
      rcases bind_eq_ok.mp h with ⟨t₁, paused, written⟩
      cases written
      exact (pauseJobs_passes paused).trans (Passes.of_jobs rfl rfl rfl)

theorem activateJobs_passes {generation contract first second : String}
    {effective : Option EffectiveJobDeployment} {effectsEnabled : Bool}
    (h : activateJobs generation contract first second effective effectsEnabled t = .ok t') :
    Passes t t' := by
  simp only [activateJobs, bind_eq_ok] at h
  rcases h with ⟨_, _, _, _, _, _, t₁, approved, h⟩
  have before : Passes t t₁ := (changeApproval_passes approved).after rfl rfl rfl
  have queued : Passes t { t₁ with queue := some (t₁.queue.getD 0) } :=
    before.trans (Passes.of_jobs rfl rfl rfl)
  cases effective with
  | none =>
      cases h
      exact queued
  | some effective => exact queued.trans (installGrants_onlyGrants h).passes

theorem applyJobFork_passes {generation epoch : String} (h : applyJobFork generation epoch t = .ok t') :
    Passes t t' :=
  (pauseJobs_passes h).after rfl rfl rfl

theorem Command.passes {command : Command} (h : command.run t = .ok t') : Passes t t' := by
  cases command with
  | cancel generation id =>
      simp only [Command.run, cancelJob, bind_eq_ok] at h
      rcases h with ⟨_, _, _, _, ⟨changed, t₁⟩, updated, _, _, h⟩
      cases h
      exact updateJobs_passes updated fun _ => rfl
  | revoke generation tenant worker =>
      simp only [Command.run, revokeJobGrant, bind_eq_ok] at h
      rcases h with ⟨_, _, _, _, _, _, _, _, paused⟩
      exact (pauseJobs_passes paused).after rfl rfl rfl
  | grant generation contract approved =>
      simp only [Command.run, grantJobService, bind_eq_ok] at h
      rcases h with ⟨runtime, _, _, _, _, _, stored, _, version, _, _, _, _, _, t₁, paused, h⟩
      cases h
      have stopped : Passes t t₁ := (pauseJobs_passes paused).after rfl rfl rfl
      exact stopped.trans (Passes.of_jobs rfl rfl rfl)
  | activate generation contract first second effective effectsEnabled => exact activateJobs_passes h
  | fork generation epoch =>
      simp only [Command.run, forkJobRuntime, bind_eq_ok] at h
      rcases h with ⟨_, _, forked⟩
      exact applyJobFork_passes forked
  | restoreFork generation epoch => exact applyJobFork_passes h
  | recoverClock epoch generation =>
      simp only [Command.run, Jobs.recoverClock, bind_eq_ok] at h
      rcases h with ⟨_, _, t₁, paused, written⟩
      cases written
      have stopped : Passes t t₁ := (pauseJobs_passes paused).after rfl rfl rfl
      exact stopped.trans (Passes.of_jobs rfl rfl rfl)
  | deploy generation =>
      cases h
      exact Passes.of_jobs rfl rfl rfl

theorem reconcileJob_passes {request : Reconciliation} {grant : Grant} {id : String}
    (h : request.run encoding now t = .ok ((grant, id), t')) : Passes t t' := by
  simp only [Reconciliation.run, reconcileJob, bind_eq_ok] at h
  rcases h with ⟨previous, _, current, _, ⟨fresh, t₁⟩, enqueued, h⟩
  cases h
  simp only [enqueueReconciled, bind_eq_ok] at enqueued
  rcases enqueued with ⟨_, _, job, _, ⟨changed, t₂⟩, updated, ⟨inserted, t₃⟩, admitted, done⟩
  cases done
  exact (updateJobs_passes updated fun _ => rfl).trans (enqueue_passes admitted)

theorem succeed_passes {verified : VerifiedJob} {validate : String → Result Unit}
    (constrained : Constrained t.jobs) (h : succeed encoding verified validate t = .ok t') :
    Passes t t' := by
  rcases succeed_moves 0 constrained h with ⟨r, reason, eligible, _, _, moved⟩
  exact (succeed_onlyJobs h).passes moved.scopes

theorem attemptJob_passes {validate : CapturedJob → String → Result Unit} {outcome : String}
    {scheduled : List CapturedJob} {attempt : Attempt} (constrained : Constrained t.jobs)
    (timely : claim.leaseUntil ≤ now + jobLeaseMillis)
    (h : attemptJob encoding claim now validate outcome scheduled t = .ok (attempt, t')) : Passes t t' := by
  simp only [attemptJob, bind_eq_ok] at h
  rcases h with ⟨⟨job, execution, t₁⟩, locks, h⟩
  have locked := lockExecution_moves constrained (fun time same => (by cases same; rfl)) locks
  have first : Passes t t₁ := (lockExecution_onlyJobs locks).passes locked.scopes
  have constrained₁ := (locked.changes timely : Changes encoding t t₁).constrained constrained
  cases execution with
  | recovered outcome =>
      cases h
      exact first
  | paused =>
      cases h
      exact first
  | dead =>
      cases h
      exact first
  | ready verified =>
      simp only at h
      split at h
      · simp only [bind_eq_ok] at h
        rcases h with ⟨stored, _, _, _, t₂, completed, h⟩
        cases h
        exact first.trans (succeed_passes constrained₁ completed)
      · simp only [bind_eq_ok] at h
        rcases h with ⟨t₂, schedules, _, _, t₃, completed, h⟩
        cases h
        have claimed : Passes t { t₁ with receipts := (t₁.receipts.claim (job.receiptRow encoding)).2 } :=
          first.trans (Passes.of_jobs rfl rfl rfl)
        have constrained₂ := (enqueueJobs_changes schedules).constrained constrained₁
        have written : Passes t { t₂ with receipts := t₂.receipts.setOutcome outcome (job.id encoding) } :=
          (claimed.trans (enqueueJobs_passes schedules)).trans (Passes.of_jobs rfl rfl rfl)
        exact written.trans (succeed_passes constrained₂ completed)

/-! ## Claims -/

/-- A claim stamps its tenant with the sequence of the queue, and no other tenant. -/
theorem recordTenantClaim_stamp {deployment tenant : String} {sequence : Int} (queue : t.queue = some sequence)
    (scope : JobScope) : (recordTenantClaim deployment tenant t).tally.stamp scope
      = if scope = ⟨deployment, tenant⟩ then (t.tally.stamp scope).map fun _ => sequence
        else t.tally.stamp scope := by
  simp only [recordTenantClaim, JobTables.tally, List.find?_map, queue, Option.getD_some, Option.map_map]
  have unnamed : ((fun row : TenantRow => decide (row.deployment = scope.deployment ∧ row.tenant = scope.tenant))
      ∘ fun row => if row.deployment = deployment ∧ row.tenant = tenant then { row with claimSeq := sequence }
        else row) = fun row => decide (row.deployment = scope.deployment ∧ row.tenant = scope.tenant) := by
    funext row
    simp only [Function.comp_apply]
    split <;> rfl
  rw [unnamed]
  cases found : t.tenants.find? fun row => decide (row.deployment = scope.deployment ∧ row.tenant = scope.tenant) with
  | none => split <;> rfl
  | some row =>
      have named := List.find?_some found
      simp only [decide_eq_true_eq] at named
      by_cases same : scope = ⟨deployment, tenant⟩
      · subst same
        simp [named]
      · have apart : ¬(row.deployment = deployment ∧ row.tenant = tenant) := by
          rintro ⟨rfl, rfl⟩
          exact same (by rw [JobScope.mk.injEq]; exact ⟨named.1.symm, named.2.symm⟩)
        simp [same, apart]

/-- The rank of a row that {lit}`next_claimable` orders by. -/
def JobRow.rank (t : JobTables) (row : JobRow) : Int ×ₗ (Int ×ₗ String) :=
  toLex ((row.claimSeq t).getD 0, toLex (row.eligible, row.id))

theorem claimOrder_rank {a b : JobRow} (first : (a.claimSeq t).isSome = true)
    (second : (b.claimSeq t).isSome = true) : claimOrder t a b = decide (a.rank t ≤ b.rank t) := by
  rcases Option.isSome_iff_exists.mp first with ⟨x, hx⟩
  rcases Option.isSome_iff_exists.mp second with ⟨y, hy⟩
  simp [claimOrder, JobRow.rank, hx, hy, Prod.Lex.toLex_le_toLex]

/-- No row that could be taken is of a tenant with an older stamp. -/
theorem nextClaimable_oldest {deployment : String} {capacity : Bool} {skipped : List String}
    {row other : JobRow} (joined : ∀ row ∈ t.jobs, (row.claimSeq t).isSome = true)
    (h : nextClaimable deployment now capacity skipped t = some row) (member : other ∈ t.jobs)
    (claimable : other.claimable deployment now capacity = true) (free : other.id ∉ skipped) :
    ∃ x y, row.claimSeq t = some x ∧ other.claimSeq t = some y ∧ x ≤ y := by
  have here := (nextClaimable_some h).1
  have listed : other ∈ t.jobs.filter fun row => row.claimable deployment now capacity
      ∧ (row.claimSeq t).isSome = true ∧ row.id ∉ skipped := by
    rw [List.mem_filter]
    exact ⟨member, by simp [claimable, joined other member, free]⟩
  have least := Table.mergeSort_least (JobRow.rank t) (fun a ha b hb =>
    claimOrder_rank (joined a (List.mem_filter.mp ha).1) (joined b (List.mem_filter.mp hb).1)) h other listed
  rcases Option.isSome_iff_exists.mp (joined row here) with ⟨x, hx⟩
  rcases Option.isSome_iff_exists.mp (joined other member) with ⟨y, hy⟩
  rw [JobRow.rank, JobRow.rank, hx, hy, Prod.Lex.toLex_le_toLex] at least
  refine ⟨x, y, hx, hy, ?_⟩
  rcases least with less | ⟨same, _⟩
  · exact le_of_lt less
  · exact le_of_eq same

/-- The rows of the current deployment that a claim may take, where {lit}`capacity` says
whether it may take a pending one. -/
def JobTables.offers (t : JobTables) (capacity : Bool) (scope : JobScope) : Prop :=
  ∃ runtime ∈ t.current, ∃ row ∈ t.jobs, row.scope = scope
    ∧ row.claimable runtime.deployment t.watermark capacity = true

/-- Fewer jobs run than the configured concurrency. -/
def JobTables.capacity (t : JobTables) : Bool :=
  match t.current with
  | none => false
  | some runtime => decide ((t.running.length : Int) < runtime.concurrency)

/-- What a claim takes: a row that is due or whose lease ran out, of a tenant whose stamp is
the oldest. -/
structure Takes (deployment : String) (now : Int) (skipped : List String) (taken : JobClaim)
    (t : JobTables) : Prop where
  current : ∃ runtime, t.current = some runtime ∧ runtime.deployment = deployment
  row : ∃ row ∈ t.jobs, row.id = taken.id ∧ row.scope = taken.scope
    ∧ row.claimable deployment now t.capacity = true
  oldest : ∀ other ∈ t.jobs, other.claimable deployment now t.capacity = true → other.id ∉ skipped →
    ∃ x y, t.tally.stamp taken.scope = some x ∧ t.tally.stamp other.scope = some y ∧ x ≤ y

theorem advanceClaims_tally {deployment : String} {t₁ : JobTables}
    (h : advanceClaims deployment t = .ok t₁) : ∃ sequence runtime, t.queue = some sequence
      ∧ t.current = some runtime ∧ runtime.deployment = deployment
      ∧ t₁ = { t with queue := some (sequence + 1) } := by
  simp only [advanceClaims, bind_eq_ok, need, context_eq_ok] at h
  rcases h with ⟨sequence, counted, runtime, found, h⟩
  cases h
  have active := (Option.filter_eq_some_iff.mp found).2
  simp only [decide_eq_true_eq] at active
  exact ⟨sequence, runtime, (Option.filter_eq_some_iff.mp counted).1, (Option.filter_eq_some_iff.mp found).1,
    active.1, rfl⟩

/-- The bounded count of running rows decides whether there is capacity. -/
theorem capacity_counted {scope : JobScope} {snapshot : RuntimeSnapshot} {runtime : JobRuntimeRow}
    (read : runtimeSnapshot scope t = .ok snapshot) (here : t.current = some runtime) :
    decide (((t.running.take 3).length : Int) < snapshot.concurrency) = t.capacity := by
  rcases runtimeSnapshot_limits read with ⟨limits, _, workers⟩
  have row : t.runtime = some runtime := (Option.filter_eq_some_iff.mp here).1
  have same : runtime.concurrency = snapshot.concurrency := by
    rw [JobTables.limits, row, Option.map_some, JobRuntimeRow.limits, Option.some.injEq,
      QueueLimits.mk.injEq] at limits
    exact limits.2.2
  unfold maxWorkersPerApp at workers
  rw [JobTables.capacity, here, decide_eq_decide, same, List.length_take]
  omega

/-- An empty poll advances the sequence only; a claim stamps the tenant that it takes a row of. -/
theorem claim_takes {deployment : String} {skipped : List String} {found : Option JobClaim}
    (constrained : Constrained t.jobs) (stamped : Stamped t)
    (h : Jobs.claim deployment now skipped t = .ok (found, t')) :
    Tally.Evolves (found.map (·.scope)) t.tally t'.tally ∧ Joins t t'
      ∧ ∀ taken, found = some taken → Takes deployment now skipped taken t := by
  have moves := claim_moves constrained h
  simp only [Jobs.claim, bind_eq_ok] at h
  rcases h with ⟨_, _, snapshot, read, _, _, t₁, advanced, h⟩
  rcases advanceClaims_tally advanced with ⟨sequence, runtime, queue, current, deployed, rfl⟩
  have counter : t.tally.counter = sequence := by
    rw [JobTables.tally, queue]
    rfl
  have capacity := capacity_counted read current
  have room : decide ((((t.jobs.filter fun row => row.state = .running).take 3).length : Int)
      < snapshot.concurrency) = t.capacity := capacity
  rw [room] at h
  cases next : nextClaimable deployment now t.capacity skipped { t with queue := some (sequence + 1) } with
  | none =>
      rw [next] at h
      cases h
      refine ⟨⟨?_, fun _ idle => (by cases idle), fun _ _ => Or.inl rfl⟩,
        fun row member => Or.inr ⟨row, member, rfl⟩, fun taken same => by cases same⟩
      rw [counter]
      change sequence ≤ sequence + 1
      omega
  | some row =>
      rw [next] at h
      simp only [check, bind_eq_ok, jobInteger, integerColumn_ok, ensure_eq_ok, laterBy_ok] at h
      rcases h with ⟨_, ⟨_, rfl⟩, _, _, _, ⟨_, rfl⟩, _, _, _, ⟨_, _, rfl⟩, ⟨changed, t₂⟩, updated, _, one, h⟩
      cases h
      rcases nextClaimable_some next with ⟨member, claimable⟩
      have scope : row.scope = ⟨deployment, row.tenant⟩ := by
        simp only [JobRow.claimable, decide_eq_true_eq] at claimable
        rw [JobRow.scope, claimable.1]
      have rows : Joins t (recordTenantClaim deployment row.tenant t₂) := by
        rcases moves with ⟨none, _⟩ | ⟨taken, r, _, moved⟩
        · cases none
        · exact fun x here => Or.inr (moved.scopes x here)
      have written := updateJobs_onlyJobs updated
      have advanced : t₂.queue = some (sequence + 1) := written.queue
      have stamps : t₂.tally.stamp = t.tally.stamp := by
        funext scope
        rw [JobTables.tally, written.tenants]
        rfl
      have latest : (recordTenantClaim deployment row.tenant t₂).tally.counter = sequence + 1 := by
        change t₂.queue.getD 0 = sequence + 1
        rw [advanced, Option.getD_some]
      refine ⟨⟨?_, fun client served => ?_, fun client past => Or.inl ?_⟩, rows, fun taken same => ?_⟩
      · rw [counter]
        change sequence ≤ (recordTenantClaim deployment row.tenant t₂).tally.counter
        omega
      · rw [Option.map_some, Option.some.injEq] at served
        rw [latest, counter, recordTenantClaim_stamp advanced, if_pos served.symm, stamps, ← served, ← scope]
        rcases Option.isSome_iff_exists.mp (stamped.joined row member) with ⟨old, here⟩
        rw [here]
        exact ⟨by omega, rfl⟩
      · rw [recordTenantClaim_stamp advanced, stamps]
        exact if_neg fun same => past (by rw [same]; rfl)
      · cases same
        refine ⟨⟨runtime, current, deployed⟩, ⟨row, member, rfl, scope, claimable⟩,
          fun other here offered free => ?_⟩
        rw [← scope]
        exact nextClaimable_oldest stamped.joined next here offered free

end Stamps

/-! ## Serial runs -/

/-- The tenant that an operation claims a row of. -/
def Operation.serves (w : World) : Operation → Option JobScope
  | .claim deployment skipped =>
      match Jobs.claim deployment w.tables.watermark skipped w.tables with
      | .ok (found, _) => found.map (·.scope)
      | .error _ => none
  | _ => none

/-- No other transaction holds a row locked. -/
def Operation.serial : Operation → Prop
  | .claim _ skipped => skipped = []
  | _ => True

/-- The serial runs of the queue, from any rows of any number of tenants. -/
def jobTurns (encoding : Encoding) : Turns Operation World JobScope where
  initial w := Tracked encoding w ∧ Stamped w.tables
  step operation w w' := operation.serial ∧ Step encoding operation w w'
  serves operation w := operation.serves w

/-- What the claims of a serial run do for the tenants. -/
structure ClaimsFair (encoding : Encoding) : Prop where
  /-- No tenant is claimed twice while another, of which the second claim could have taken a
  row, was not claimed in between. -/
  turns : (jobTurns encoding).Fair (fun _ _ => True) fun _ w scope => w.tables.offers w.tables.capacity scope
  /-- The sequences that claims stamp never repeat. -/
  stamps : (jobTurns encoding).StampsRise fun w => w.tables.tally
  /-- A claimed row is due or its lease ran out, and a pending one is claimed only while fewer
  jobs run than the configured concurrency. -/
  due : ∀ w deployment skipped taken t, (jobTurns encoding).system.Reachable w →
    Jobs.claim deployment w.tables.watermark skipped w.tables = .ok (some taken, t) →
    ∃ row ∈ w.tables.jobs, row.id = taken.id ∧ row.scope = taken.scope
      ∧ (row.state = .running ∧ row.lease ≤ w.tables.watermark
        ∨ row.state = .pending ∧ row.eligible ≤ w.tables.watermark
          ∧ ∃ runtime ∈ w.tables.current, (w.tables.running.length : Int) < runtime.concurrency)

section Turns

variable {encoding : Encoding} {w w' : World}

/-- Every step stamps the tenant that it claims a row of, and no other. -/
theorem Step.tally {operation : Operation} (tracked : Tracked encoding w) (stamped : Stamped w.tables)
    (h : Step encoding operation w w') :
    Tally.Evolves (operation.serves w) w.tables.tally w'.tables.tally ∧ Joins w.tables w'.tables := by
  have constrained := tracked.constrained
  have passes : Passes w.tables w'.tables →
      Tally.Evolves none w.tables.tally w'.tables.tally ∧ Joins w.tables w'.tables :=
    fun passes => ⟨passes.tally, passes.rows⟩
  cases h with
  | enqueue job tenantLimit _ inserted t ran => exact passes (enqueue_passes ran)
  | claimed deployment skipped _ claim t ran =>
      rcases claim_takes constrained stamped ran with ⟨tally, rows, _⟩
      refine ⟨?_, rows⟩
      rw [Operation.serves, ran]
      exact tally
  | unclaimed deployment skipped _ found t ran =>
      rcases claim_takes constrained stamped ran with ⟨tally, rows, _⟩
      refine ⟨?_, rows⟩
      rw [Operation.serves, ran]
      exact tally
  | locked claim _ sampleTime validate job execution t handed sampled ran =>
      exact passes ((lockExecution_onlyJobs ran).passes (lockExecution_moves constrained sampled ran).scopes)
  | attempted claim scheduled _ validate outcome attempt t handed ran =>
      have attempted := attemptJob_passes constrained (tracked.claims claim handed).taken ran
      refine passes ?_
      split
      · exact attempted
      · exact attempted
  | succeeded verified _ validate t handed ran => exact passes (succeed_passes constrained ran)
  | failed claim failure _ now validate result t handed ran =>
      exact passes ((fail_onlyJobs ran).passes (fail_moves constrained ran).scopes)
  | command command _ t ran => exact passes (Command.passes ran)
  | reconcile request _ grant id t ran => exact passes (reconcileJob_passes ran)
  | receive receipts _ => exact passes (Passes.of_jobs rfl rfl rfl)
  | maintain observed _ bounded => exact passes (Passes.of_jobs rfl rfl rfl)
  | tick _ wall later => exact passes (Passes.of_jobs rfl rfl rfl)

theorem stamped_invariant :
    (jobTurns encoding).system.Invariant fun w => Tracked encoding w ∧ Stamped w.tables where
  initial _ start := start
  step w w' _ holds step := by
    rcases step with ⟨operation, _, step⟩
    rcases step.tally holds.1 holds.2 with ⟨tally, rows⟩
    exact ⟨holds.1.progress (step.progress holds.1), holds.2.joins tally rows⟩

theorem jobs_stamping : (jobTurns encoding).Stamping fun w => w.tables.tally where
  sound _ start := start.2.sound
  evolves w w' operation reachable step := by
    rcases stamped_invariant.holds reachable with ⟨tracked, stamped⟩
    exact (step.2.tally tracked stamped).1

/-- A claim that serves a tenant took a row of it. -/
theorem serves_claim {operation : Operation} {scope : JobScope} (serial : operation.serial)
    (h : operation.serves w = some scope) : ∃ deployment taken t, operation = .claim deployment []
      ∧ Jobs.claim deployment w.tables.watermark [] w.tables = .ok (some taken, t) ∧ taken.scope = scope := by
  cases operation with
  | claim deployment skipped =>
      cases serial
      cases ran : Jobs.claim deployment w.tables.watermark [] w.tables with
      | error failure =>
          rw [Operation.serves, ran] at h
          cases h
      | ok result =>
          rcases result with ⟨found, t⟩
          rw [Operation.serves, ran] at h
          rcases Option.map_eq_some_iff.mp h with ⟨taken, rfl, same⟩
          exact ⟨deployment, taken, t, rfl, ran, same⟩
  | _ => cases h

theorem job_claims_fair (encoding : Encoding) : ClaimsFair encoding where
  turns := by
    refine jobs_stamping.fair fun w w' operation scope other reachable step serves waits => ?_
    rcases stamped_invariant.holds reachable with ⟨tracked, stamped⟩
    rcases serves_claim step.1 serves with ⟨deployment, taken, t, rfl, ran, rfl⟩
    have takes := (claim_takes tracked.constrained stamped ran).2.2 taken rfl
    rcases takes.current with ⟨runtime, current, deployed⟩
    rcases waits with ⟨runtime', current', row, member, same, claimable⟩
    rw [Option.mem_def, current] at current'
    cases current'
    rw [deployed] at claimable
    rcases takes.oldest row member claimable List.not_mem_nil with ⟨x, y, stamp, stamp', le⟩
    refine ⟨y, same ▸ stamp', fun latest here => ?_⟩
    rw [stamp] at here
    cases here
    exact le
  stamps := jobs_stamping.stamps_rise
  due := by
    intro w deployment skipped taken t reachable ran
    rcases stamped_invariant.holds reachable with ⟨tracked, stamped⟩
    have takes := (claim_takes tracked.constrained stamped ran).2.2 taken rfl
    rcases takes.row with ⟨row, member, id, scope, claimable⟩
    simp only [JobRow.claimable, decide_eq_true_eq] at claimable
    refine ⟨row, member, id, scope, ?_⟩
    rcases claimable.2 with running | ⟨pending, due, free⟩
    · exact Or.inl running
    · refine Or.inr ⟨pending, due, ?_⟩
      rcases takes.current with ⟨runtime, current, _⟩
      rw [JobTables.capacity, current, decide_eq_true_eq] at free
      exact ⟨runtime, current, free⟩

end Turns

/-! ## A full worker -/

/-- The values of the digests for the captures of two tenants. -/
def northEncoding : Encoding where
  identityDigest deployment origin ordinal :=
    if origin = "o2" then "4K3TRcwrLmEcWNwDIpdOepI4LqLUWW5eDf3J8jleGIM"
    else sampleEncoding.identityDigest deployment origin ordinal
  invocationDigest job :=
    if job.origin = "o2" then "nNYqxNyXaD5tymwQWtc7madGVHcbeux62VxSWVczD00"
    else sampleEncoding.invocationDigest job
  subjectDigest scope worker :=
    if scope.tenant = "north" then "1Ha_g6vN9jqmISDK-fxgAYI1VjhtVXzvIhcIIXivhnQ"
    else sampleEncoding.subjectDigest scope worker
  originDigest parent scope contract epoch version :=
    if scope.tenant = "north" then "EJmGzl5W7YxZOftFzvPHymzstVkfbPJ9IVr9-_Pv-xo"
    else sampleEncoding.originDigest parent scope contract epoch version
  captureBytes job := if job.scope.tenant = "north" then 217 else 212
  retryHash id attempts :=
    if id = "j1_4K3TRcwrLmEcWNwDIpdOepI4LqLUWW5eDf3J8jleGIM" then
      if attempts = 1 then 37429 else if attempts = 2 then 30454 else if attempts = 3 then 36386 else 40219
    else sampleEncoding.retryHash id attempts

def northScope : JobScope := ⟨"g1", "north"⟩

def northGrant : Grant := { sampleGrant with scope := northScope }

def northJob : CapturedJob := { sampleJob with scope := northScope, origin := "o2" }

/-- Two tenants and one worker. -/
def northStart : World :=
  { sampleStart with tables := { sampleStart.tables with
      runtime := some ⟨⟨"g1", "c1", "e1", .active⟩, 1000, 1000, 1⟩
      grants := [⟨"g1", "", "keeper", 1, "c1", "e1", .active, sampleGrant⟩,
        ⟨"g1", "north", "keeper", 1, "c1", "e1", .active, northGrant⟩] } }

def World.admits (job : CapturedJob) (w : World) : World :=
  match enqueue northEncoding job w.tables.watermark 1000 w.tables with
  | .ok (_, t) => w.commit t
  | .error _ => w

/-- The lease of the one running job ran out before the other tenant's job is admitted. -/
def northExpired : World :=
  (northStart.admits northJob).takes.waits.admits sampleJob

theorem admits_reachable {job : CapturedJob} {w : World} (h : (jobTurns northEncoding).system.Reachable w) :
    (jobTurns northEncoding).system.Reachable (w.admits job) := by
  unfold World.admits
  split
  · rename_i inserted t ran
    exact h.next ⟨.enqueue job 1000, trivial, Step.enqueue job 1000 w inserted t ran⟩
  · exact h

theorem takes_step {w : World} {scope : JobScope}
    (h : Operation.serves w (.claim "g1" []) = some scope) :
    (jobTurns northEncoding).step (.claim "g1" []) w w.takes := by
  have serial : Operation.serial (.claim "g1" []) := rfl
  rcases serves_claim serial h with ⟨deployment, taken, t, same, ran, _⟩
  cases same
  refine ⟨rfl, ?_⟩
  unfold World.takes
  rw [ran]
  exact Step.claimed "g1" [] w taken t ran

theorem waits_step (w : World) : (jobTurns northEncoding).step .tick w w.waits := by
  refine ⟨trivial, Step.tick w _ ?_⟩
  unfold jobLeaseMillis
  omega

theorem northStart_reachable : (jobTurns northEncoding).system.Reachable northStart := by
  refine System.Reachable.start ⟨(tracked_invariant fun _ _ => True).initial northStart
    ⟨rfl, rfl, rfl, rfl, rfl⟩, fun row member => ?_, le_refl _, fun client stamp here => ?_⟩
  · cases member
  · cases here

instance (t : JobTables) (capacity : Bool) (scope : JobScope) : Decidable (t.offers capacity scope) :=
  inferInstanceAs (Decidable (∃ runtime ∈ t.current, ∃ row ∈ t.jobs, row.scope = scope
    ∧ row.claimable runtime.deployment t.watermark capacity = true))

/-- Every claim serves the job in front, and the other tenant's job is due throughout. -/
theorem northExpired_serves :
    Operation.serves (northStart.admits northJob) (.claim "g1" []) = some northScope
    ∧ Operation.serves northExpired (.claim "g1" []) = some northScope
    ∧ Operation.serves northExpired.takes.waits (.claim "g1" []) = some northScope
    ∧ northExpired.tables.offers true sampleScope
    ∧ northExpired.takes.tables.offers true sampleScope
    ∧ northExpired.takes.waits.tables.offers true sampleScope := by
  decide +kernel

/-- With one worker a job whose lease ran out is claimed again and again while another tenant's
job is due: the running job leaves no capacity for it. -/
theorem full_worker_unfair : ¬ (jobTurns northEncoding).Fair (fun w scope => w.tables.offers true scope)
    fun _ w scope => w.tables.offers true scope := by
  intro fair
  have admitted : (jobTurns northEncoding).system.Reachable (northStart.admits northJob) :=
    admits_reachable northStart_reachable
  rcases northExpired_serves with ⟨started, first, second, due, still, later⟩
  have expired : (jobTurns northEncoding).system.Reachable northExpired := by
    have taken := admitted.next ⟨_, takes_step started⟩
    exact admits_reachable (taken.next ⟨_, waits_step _⟩)
  have waited : (jobTurns northEncoding).Passing sampleScope (fun w => w.tables.offers true sampleScope)
      northExpired.takes northExpired.takes.waits :=
    Relation.ReflTransGen.single ⟨still, .tick, fun same => (by cases same), waits_step _⟩
  exact fair northExpired northExpired.takes northExpired.takes.waits _ (.claim "g1" []) (.claim "g1" [])
    northScope sampleScope expired (takes_step first) first due (by decide) waited
    (takes_step second) second later

end Noxide.Jobs
