import Noxide.Jobs.Queue

/-!
# Queue transactions

Admission to the queue, claims, and the three transactions under a claim: the execution
lock, the completion and the recording of a failure.  Operator commands follow.  A
transaction that stops leaves the tables as they were.

Main results:

- Definitions {lit}`enqueue`, {lit}`claim`, {lit}`lockExecution`, {lit}`succeed` and
  {lit}`fail`: the transactions of the queue.
- Definitions {lit}`cancelJob`, {lit}`revokeJobGrant`, {lit}`grantJobService`,
  {lit}`activateJobs`, {lit}`forkJobRuntime`, {lit}`recoverClock` and
  {lit}`enqueueReconciled`: the operator's transactions.
-/

namespace Noxide.Jobs

open Checked

/-! ## Runtime and grants -/

/-- The runtime as one scope sees it: a scope of another deployment sees a change. -/
inductive ScopeState where
  | active
  | paused
  | changed
  deriving DecidableEq, Repr

structure RuntimeSnapshot where
  contract : String
  epoch : String
  state : ScopeState
  pendingLimit : Int
  tenantLimit : Int
  concurrency : Int
  deriving DecidableEq

/-- The runtime row, where it belongs to the current deployment. -/
def JobTables.current (t : JobTables) : Option JobRuntimeRow :=
  t.runtime.filter fun row => t.generation = some row.deployment

def scopeState (scope : JobScope) (row : JobRuntimeRow) : ScopeState :=
  if row.deployment = scope.deployment then
    match row.state with
    | .active => .active
    | .paused => .paused
  else .changed

/-- A column that is read as a smaller integer type. -/
def boundedInteger (bound value : Int) : Result Int := do
  let value ← jobInteger value
  check "out of range integral type conversion attempted" (value ≤ bound)
  return value

def runtimeSnapshot (scope : JobScope) (t : JobTables) : Result RuntimeSnapshot := do
  let row ← need "job runtime unavailable" t.current
  let pendingLimit ← boundedInteger 65535 row.pendingLimit
  let tenantLimit ← boundedInteger 65535 row.tenantLimit
  let concurrency ← boundedInteger 255 row.concurrency
  check "invalid authoritative queue limits" ((1 ≤ pendingLimit ∧ pendingLimit ≤ maxPendingJobs)
    ∧ (1 ≤ tenantLimit ∧ tenantLimit ≤ pendingLimit)
    ∧ (1 ≤ concurrency ∧ concurrency ≤ maxWorkersPerApp))
  return { contract := row.contract, epoch := row.epoch, state := scopeState scope row,
           pendingLimit := pendingLimit, tenantLimit := tenantLimit, concurrency := concurrency }

def GrantRow.named (row : GrantRow) (deployment tenant worker : String) : Bool :=
  decide (row.deployment = deployment ∧ row.tenant = tenant ∧ row.worker = worker)

def lockGrant (scope : JobScope) (worker : String) (t : JobTables) : Result (Grant × GrantState) := do
  let row ← need "service grant unavailable" (t.grants.find? (·.named scope.deployment scope.tenant worker))
  let grant := row.declaration
  grant.validate
  let version ← jobInteger row.version
  check "service grant storage mismatch" (grant.scope = scope ∧ grant.worker.name = worker
    ∧ grant.version = version ∧ grant.contract = row.contract ∧ grant.epoch = row.epoch)
  return (grant, row.state)

/-- The source's {lit}`schedule_grant`. -/
def scheduleGrant (scope : JobScope) (worker contract : String) (t : JobTables) : Result Grant := do
  let runtime ← runtimeSnapshot scope t
  check "job runtime changed" (runtime.state = .active ∧ runtime.contract = contract)
  let (grant, state) ← lockGrant scope worker t
  check "service grant changed" (state = .active ∧ grant.contract = contract ∧ grant.epoch = runtime.epoch)
  return grant

/-! ## Statements on one row -/

/-- {lit}`FINISH_RUNNING_JOB` on one row. -/
def JobRow.finished (row : JobRow) (state : JobState) (reason : String) (eligible : Int) : JobRow :=
  { row with state := state, reason := reason, eligible := eligible, lease := 0 }

/-- The source's {lit}`transition`. -/
def transition (claim : JobClaim) (state : JobState) (reason : String) (eligible : Int) (t : JobTables) :
    Result JobTables := do
  let (changed, t) ← updateJobs (fun row => claim.holds row && decide (row.state = .running))
    (·.finished state reason eligible) t
  check "job finalization superseded" (changed = 1)
  return t

/-- {lit}`CLAIM_JOB` on one row. -/
def JobRow.claimed (row : JobRow) (fence lease attempts : Int) : JobRow :=
  { row with state := .running, fence := fence, lease := lease, attempts := attempts }

section Transactions

variable (encoding : Encoding)

/-! ## Admission -/

def JobRow.isActive (row : JobRow) : Bool :=
  match row.state with
  | .pending | .running | .paused => true
  | .succeeded | .rejected | .dead => false

/-- {lit}`ACTIVE_JOB_COUNTS` with its row limit, and the quotas. -/
def withinQuota (tenant : String) (pendingLimit tenantLimit : Int) (t : JobTables) : Result Unit :=
  let active := (t.jobs.filter (·.isActive)).take 1001
  check "job queue full" ((active.length : Int) < pendingLimit
    ∧ ((active.countP fun row => row.tenant = tenant : Nat) : Int) < tenantLimit)

/-- {lit}`ENSURE_TENANT`. -/
def ensureTenant (deployment tenant : String) (t : JobTables) : JobTables :=
  if t.tenants.any fun row => row.deployment = deployment ∧ row.tenant = tenant then t
  else { t with tenants := t.tenants ++ [⟨deployment, tenant, 0⟩] }

/-- {lit}`INSERT_JOB`. -/
def CapturedJob.row (job : CapturedJob) (now : Int) : JobRow where
  id := job.id encoding
  deployment := job.scope.deployment
  tenant := job.scope.tenant
  origin := job.origin
  ordinal := job.ordinal
  worker := job.worker
  action := job.action
  contract := job.contract
  epoch := job.epoch
  grantVersion := job.grantVersion
  payload := job
  payloadDigest := encoding.invocationDigest job
  due := job.due
  eligible := max now job.due
  first := max now job.due
  attempts := 0
  fence := 0
  lease := 0
  state := .pending
  reason := ""
  reconciledFrom := job.reconciledFrom.filter fun parent => parent != ""

/-- Admission of a capture, atomic with the transaction that captured it. -/
def enqueue (job : CapturedJob) (now tenantLimit : Int) (t : JobTables) : Result (Bool × JobTables) := do
  job.validate encoding
  check "invalid tenant queue limit" (1 ≤ tenantLimit ∧ tenantLimit ≤ maxPendingJobs)
  let horizon ← laterBy now maxScheduleHorizonMillis
  check "job schedule horizon" (job.due ≤ horizon)
  let runtime ← runtimeSnapshot job.scope t
  check "job runtime paused or changed" (runtime.state = .active ∧ runtime.contract = job.contract
    ∧ runtime.epoch = job.epoch)
  check "job queue unavailable" (t.queue.isSome = true)
  let (grant, state) ← lockGrant job.scope job.worker t
  check "service grant revoked" (state = .active)
  grant.permits job
  match t.jobs.find? fun row => row.id = job.id encoding with
  | some stored => do
      check "origin effect ordinal reused with different capture"
        (stored.payloadDigest = encoding.invocationDigest job)
      return (false, t)
  | none => do
      withinQuota job.scope.tenant runtime.pendingLimit (min tenantLimit runtime.tenantLimit) t
      let t := ensureTenant job.scope.deployment job.scope.tenant t
      let t ← t.withJobs (t.jobs ++ [job.row encoding now])
      return (true, t)

/-! ## Claims -/

/-- The condition of {lit}`next_claimable` on one row. -/
def JobRow.claimable (row : JobRow) (deployment : String) (now : Int) (capacity : Bool) : Bool :=
  decide (row.deployment = deployment
    ∧ (row.state = .running ∧ row.lease ≤ now ∨ row.state = .pending ∧ row.eligible ≤ now
      ∧ capacity = true))

/-- The claim sequence of the row's tenant. -/
def JobRow.claimSeq (row : JobRow) (t : JobTables) : Option Int :=
  (t.tenants.find? fun tenant =>
    tenant.deployment = row.deployment ∧ tenant.tenant = row.tenant).map (·.claimSeq)

/-- The order of {lit}`next_claimable`. -/
def claimOrder (t : JobTables) (a b : JobRow) : Bool :=
  match a.claimSeq t, b.claimSeq t with
  | some x, some y => decide (x < y ∨ x = y ∧ (a.eligible < b.eligible
      ∨ a.eligible = b.eligible ∧ a.id ≤ b.id))
  | _, _ => true

/-- The source's {lit}`next_claimable`.  Rows that other transactions hold locked are
skipped on PostgreSQL. -/
def nextClaimable (deployment : String) (now : Int) (capacity : Bool) (skipped : List String)
    (t : JobTables) : Option JobRow :=
  ((t.jobs.filter fun row => row.claimable deployment now capacity
    ∧ (row.claimSeq t).isSome = true ∧ row.id ∉ skipped).mergeSort (claimOrder t)).head?

/-- {lit}`ADVANCE_CLAIM_SEQUENCE`. -/
def advanceClaims (deployment : String) (t : JobTables) : Result JobTables := do
  let sequence ← need "job runtime unavailable" (t.queue.filter fun sequence => sequence < maxI64)
  let _ ← need "job runtime unavailable"
    (t.current.filter fun row => row.deployment = deployment ∧ row.state = .active)
  return { t with queue := some (sequence + 1) }

/-- {lit}`RECORD_TENANT_CLAIM`. -/
def recordTenantClaim (deployment tenant : String) (t : JobTables) : JobTables :=
  { t with tenants := t.tenants.map fun row =>
      if row.deployment = deployment ∧ row.tenant = tenant then
        { row with claimSeq := t.queue.getD row.claimSeq } else row }

/-- One fair bounded claim. -/
def claim (deployment : String) (now : Int) (skipped : List String) (t : JobTables) :
    Result (Option JobClaim × JobTables) := do
  check "invalid job deployment" (isOpaque deployment = true)
  let runtime ← runtimeSnapshot ⟨deployment, ""⟩ t
  check "job runtime unavailable" (runtime.state = .active)
  let t ← advanceClaims deployment t
  let running := (t.jobs.filter fun row => row.state = .running).take 3
  let capacity := decide ((running.length : Int) < runtime.concurrency)
  match nextClaimable deployment now capacity skipped t with
  | none => return (none, t)
  | some row => do
      let fence ← jobInteger row.fence
      check "job fence exhausted" (fence + 1 ≤ maxI64)
      let attempts ← jobInteger row.attempts
      check "invalid job attempts" (attempts ≤ maxJobAttempts)
      let lease ← laterBy now jobLeaseMillis
      let (changed, t) ← updateJobs (fun stored => decide (stored.id = row.id
          ∧ stored.deployment = deployment ∧ stored.fence = fence ∧ stored.state = row.state))
        (·.claimed (fence + 1) lease (if attempts < maxJobAttempts then attempts + 1 else attempts)) t
      check "job claim raced" (changed = 1)
      let t := recordTenantClaim deployment row.tenant t
      return (some { id := row.id, scope := ⟨deployment, row.tenant⟩, fence := fence + 1,
                     leaseUntil := lease, exhausted := decide (maxJobAttempts ≤ attempts) }, t)

/-! ## Execution -/

/-- Execution authority: a claim under its current grant. -/
structure VerifiedJob where
  claim : JobClaim
  job : CapturedJob
  grant : Grant
  deriving DecidableEq

inductive Execution where
  | ready (verified : VerifiedJob)
  | recovered (outcome : String)
  | paused
  | dead
  deriving DecidableEq

inductive Failure where
  | transient
  | rejected
  /-- The action and its version, and the stored text of the rejection. -/
  | businessRejected (action : Nat × Nat) (stored : String)
  deriving DecidableEq

inductive FailureResult where
  | retrying (next : Int)
  | rejected
  | businessRejected (action : Nat × Nat) (stored : String)
  | dead
  | paused
  | recovered (outcome : String)
  deriving DecidableEq

def maxResultBytes : Nat := 65536

/-- Bound receipt lookup, after the claimed row was locked. -/
def receipt (row : Row) (validate : String → Result Unit) (t : JobTables) : Result (Option String) :=
  match t.receipts.find? (row.job.id encoding) with
  | none => .ok none
  | some stored => do
      check "outcome is NULL" (stored.outcome.utf8ByteSize ≤ maxResultBytes)
      let action ← jobInteger stored.action
      check "job receipt is incomplete or mismatched" (stored.subject = row.job.receiptSubject encoding
        ∧ stored.contract = row.job.contract ∧ action = row.job.action
        ∧ stored.input = encoding.invocationDigest row.job ∧ stored.outcome ≠ "")
      validate stored.outcome
      return some stored.outcome

/-- The authority that the job was captured under is still the current one. -/
def authorized (runtime : RuntimeSnapshot) (grant : Grant) (state : GrantState) (job : CapturedJob) : Bool :=
  decide (runtime.state = .active ∧ job.contract = runtime.contract ∧ job.epoch = runtime.epoch
    ∧ state = .active ∧ grant.permits job = .ok ())

/-- The execution lock: current authority and the claimed row, or the recovery of its
receipt.  The time is sampled only where there is no receipt. -/
def lockExecution (claim : JobClaim) (sampleTime : Result Int)
    (validateReceipt : CapturedJob → String → Result Unit) (t : JobTables) :
    Result (CapturedJob × Execution × JobTables) := do
  let runtime ← runtimeSnapshot claim.scope t
  let preview ← row encoding claim false t
  let (grant, grantState) ← lockGrant claim.scope preview.job.worker t
  let row ← row encoding claim true t
  match ← receipt encoding row (validateReceipt row.job) t with
  | some outcome =>
      if row.state = .running then do
        let t ← transition claim .succeeded "" row.first t
        return (row.job, .recovered outcome, t)
      else do
        check "receipt with inconsistent job state" (row.state = .succeeded)
        return (row.job, .recovered outcome, t)
  | none => do
      let now ← sampleTime
      check "job claim expired or settled" (row.state = .running ∧ now < row.lease)
      if authorized runtime grant grantState row.job = false then do
        let t ← transition claim .paused "authority_changed" now t
        return (row.job, .paused, t)
      else do
        let window ← laterBy row.first jobRetryWindowMillis
        if window ≤ now ∨ claim.exhausted = true then do
          let t ← transition claim .dead "retry_window" now t
          return (row.job, .dead, t)
        else do
          check "job has no claimed attempt" (0 < row.attempts)
          return (row.job, .ready ⟨claim, row.job, grant⟩, t)

/-- Completion, in the transaction that wrote the receipt. -/
def succeed (verified : VerifiedJob) (validateReceipt : String → Result Unit) (t : JobTables) :
    Result JobTables := do
  let runtime ← runtimeSnapshot verified.job.scope t
  let (grant, grantState) ← lockGrant verified.job.scope verified.job.worker t
  check "job authority changed before completion" (runtime.state = .active
    ∧ runtime.contract = verified.job.contract ∧ runtime.epoch = verified.job.epoch
    ∧ grantState = .active)
  grant.permits verified.job
  let row ← row encoding verified.claim true t
  check "job execution changed" (row.state = .running ∧ row.job = verified.job)
  let found ← receipt encoding row validateReceipt t
  check "job success requires complete bound receipt" (found.isSome = true)
  transition verified.claim .succeeded "" row.lease t

/-- The pause before the next attempt, without its jitter. -/
def retryBase (attempts : Int) : Result Int :=
  if attempts = 1 then .ok 60000
  else if attempts = 2 then .ok 300000
  else if attempts = 3 then .ok 1800000
  else if attempts = 4 then .ok 7200000
  else .error (.message "invalid retry attempt")

def retryDelay (id : String) (attempts : Int) : Result Int := do
  let base ← retryBase attempts
  return base + (encoding.retryHash id attempts : Int) % (base / 10 + 1)

/-- What a failure does to the running row it holds. -/
def recordFailure (claim : JobClaim) (row : Row) (now : Int) (failure : Failure) (t : JobTables) :
    Result (FailureResult × JobTables) := do
  match failure with
  | .rejected => do
      let t ← transition claim .rejected "business_or_authority" now t
      return (.rejected, t)
  | .businessRejected action stored => do
      check "rejection belongs to another action" (action = (row.job.action, row.job.actionVersion))
      let t ← transition claim .rejected stored now t
      return (.businessRejected action stored, t)
  | .transient => do
      let window ← laterBy row.first jobRetryWindowMillis
      if maxJobAttempts ≤ row.attempts ∨ window ≤ now then do
        let t ← transition claim .dead "retry_exhausted" now t
        return (.dead, t)
      else do
        let delay ← retryDelay encoding (row.job.id encoding) row.attempts
        let next ← laterBy now delay
        if window ≤ next then do
          let t ← transition claim .dead "retry_window" now t
          return (.dead, t)
        else do
          let t ← transition claim .pending "transient" next t
          return (.retrying next, t)

/-- The recording of a failure, in a transaction of its own. -/
def fail (claim : JobClaim) (now : Int) (failure : Failure) (validateReceipt : String → Result Unit)
    (t : JobTables) : Result (FailureResult × JobTables) := do
  let runtime ← runtimeSnapshot claim.scope t
  let preview ← row encoding claim false t
  let (grant, grantState) ← lockGrant claim.scope preview.job.worker t
  let row ← row encoding claim true t
  match ← receipt encoding row validateReceipt t with
  | some outcome =>
      if row.state = .running then do
        let t ← transition claim .succeeded "" now t
        return (.recovered outcome, t)
      else do
        check "receipt with inconsistent job state" (row.state = .succeeded)
        return (.recovered outcome, t)
  | none => do
      check "job already settled" (row.state = .running)
      if authorized runtime grant grantState row.job = false then do
        let t ← transition claim .paused "authority_changed" now t
        return (.paused, t)
      else recordFailure encoding claim row now failure t

end Transactions

/-! ## Operator commands -/

/-- The source's {lit}`lock_job_operator_runtime`. -/
def lockJobOperatorRuntime (generation : String) (t : JobTables) : Result JobRuntimeRow := do
  check "invalid job deployment" (isOpaque generation = true)
  let row ← need "job runtime retired or unavailable"
    (t.current.filter fun row => row.deployment = generation)
  check "invalid job runtime identity" (isOpaque row.contract = true ∧ isOpaque row.epoch = true)
  return row

/-- The states that {lit}`CANCEL_JOB` changes. -/
def JobRow.cancellable (row : JobRow) : Bool :=
  match row.state with
  | .pending | .running | .paused | .dead => true
  | .succeeded | .rejected => false

/-- {lit}`CANCEL_JOB` and {lit}`RECONCILE_JOB` on one row. -/
def JobRow.reject (row : JobRow) (reason : String) : JobRow :=
  { row with state := .rejected, reason := reason, lease := 0 }

def cancelJob (generation id : String) (t : JobTables) : Result JobTables := do
  let _ ← lockJobOperatorRuntime generation t
  check "invalid job identity" (isOpaque id = true)
  let (changed, t) ← updateJobs (fun row => decide (row.id = id) && row.cancellable)
    (·.reject "operator_cancelled") t
  check "job cannot be cancelled" (changed = 1)
  return t

/-- The states that every pause changes. -/
def JobRow.pausable (row : JobRow) : Bool :=
  match row.state with
  | .pending | .running => true
  | .succeeded | .rejected | .dead | .paused => false

def JobRow.pause (row : JobRow) (reason : String) : JobRow :=
  { row with state := .paused, reason := reason, lease := 0 }

/-- The pauses of the source, which differ in the rows they select and in their reason. -/
def pauseJobs (condition : JobRow → Bool) (reason : String) (t : JobTables) : Result JobTables := do
  let (_, t) ← updateJobs (fun row => condition row && row.pausable) (·.pause reason) t
  return t

/-- An {lit}`UPDATE nx_job_grants`. -/
def updateGrants (condition : GrantRow → Bool) (change : GrantRow → GrantRow) (t : JobTables) : JobTables :=
  { t with grants := Table.update condition change t.grants }

/-- The rows of one worker of one scope. -/
def JobRow.servedBy (row : JobRow) (deployment tenant worker : String) : Bool :=
  decide (row.deployment = deployment ∧ row.tenant = tenant ∧ row.worker = worker)

def revokeJobGrant (generation tenant worker : String) (t : JobTables) : Result JobTables := do
  let _ ← lockJobOperatorRuntime generation t
  JobScope.validate ⟨generation, tenant⟩
  check "invalid service worker" (identifier worker = true)
  check "service grant unavailable" (t.grants.countP (·.named generation tenant worker) = 1)
  let t := updateGrants (·.named generation tenant worker) (fun row => { row with state := .revoked }) t
  pauseJobs (·.servedBy generation tenant worker) "grant_revoked" t

/-- What an operator approved for one tenant. -/
structure EffectiveJobGrant where
  tenant : String
  worker : Worker
  deriving DecidableEq, Repr

def setRuntimeState (state : RuntimeState) (row : JobRuntimeRow) : JobRuntimeRow :=
  { row with state := state }

def grantJobService (generation approvedContract : String) (approved : EffectiveJobGrant) (t : JobTables) :
    Result JobTables := do
  let runtime ← lockJobOperatorRuntime generation t
  check "operator approval retired" (runtime.contract = approvedContract)
  let scope : JobScope := ⟨generation, approved.tenant⟩
  scope.validate
  let stored ← need "service grant unavailable"
    (t.grants.find? (·.named generation approved.tenant approved.worker.name))
  let version ← jobInteger stored.version
  check "service grant version exhausted" (version + 1 ≤ maxI64)
  let grant : Grant :=
    { scope := scope, worker := approved.worker, version := version + 1, contract := runtime.contract,
      epoch := runtime.epoch }
  grant.validate
  let t := updateGrants (·.named generation approved.tenant approved.worker.name)
    (fun row => { row with version := version + 1, contract := grant.contract, epoch := grant.epoch,
                           state := .active, declaration := grant }) t
  let t ← pauseJobs (·.servedBy generation approved.tenant approved.worker.name) "grant_changed" t
  return { t with runtime := t.runtime.map (setRuntimeState .active) }

/-- The source's {lit}`apply_job_fork`, under a fresh epoch. -/
def applyJobFork (generation epoch : String) (t : JobTables) : Result JobTables := do
  let t := { t with runtime := t.runtime.map fun row => { row with epoch := epoch, state := .paused } }
  let t := updateGrants (fun row => decide (row.deployment = generation))
    (fun row => { row with state := .revoked }) t
  pauseJobs (fun row => decide (row.deployment = generation)) "restore_reconciliation" t

def forkJobRuntime (generation epoch : String) (t : JobTables) : Result JobTables := do
  let _ ← lockJobOperatorRuntime generation t
  applyJobFork generation epoch t

/-- What clock recovery does to the queue, under a fresh epoch and a fresh generation of
the deployment. -/
def recoverClock (epoch generation : String) (t : JobTables) : Result JobTables := do
  check "deployment missing" (t.generation.isSome = true)
  let owner := t.runtime.map (·.deployment)
  let t := { t with runtime := t.runtime.map fun row => { row with epoch := epoch, state := .paused } }
  let t := updateGrants (fun row => decide (some row.deployment = owner ∧ row.state = .active))
    (fun row => { row with state := .revoked,
                           version := if row.version < maxI64 then row.version + 1 else row.version }) t
  let t ← pauseJobs (fun _ => true) "clock_recovery" t
  return { t with generation := some generation }

structure JobLimits where
  pendingPerApp : Int
  pendingPerTenant : Int
  workerConcurrency : Int
  deriving DecidableEq, Repr

def JobLimits.default : JobLimits := ⟨maxPendingJobs, maxPendingJobs, maxWorkersPerApp⟩

def JobLimits.validate (limits : JobLimits) : Result Unit :=
  check "job limits exceed framework ceilings" ((1 ≤ limits.pendingPerApp
    ∧ limits.pendingPerApp ≤ maxPendingJobs)
    ∧ (1 ≤ limits.pendingPerTenant ∧ limits.pendingPerTenant ≤ limits.pendingPerApp)
    ∧ (1 ≤ limits.workerConcurrency ∧ limits.workerConcurrency ≤ maxWorkersPerApp))

structure EffectiveJobDeployment where
  limits : JobLimits
  grants : List EffectiveJobGrant
  deriving DecidableEq, Repr

/-- {lit}`UPSERT_GRANT`. -/
def upsertGrant (row : GrantRow) (t : JobTables) : JobTables :=
  if t.grants.any (·.named row.deployment row.tenant row.worker) then
    updateGrants (·.named row.deployment row.tenant row.worker) (fun _ => row) t
  else { t with grants := t.grants ++ [row] }

/-- Installs one approved grant, or checks it against the one that is stored. -/
def installGrant (generation contract epoch : String) (changed : Bool) (state : GrantState)
    (configured : EffectiveJobGrant) (t : JobTables) : Result JobTables := do
  let scope : JobScope := ⟨generation, configured.tenant⟩
  scope.validate
  let install (version : Int) : Result JobTables := do
    let grant : Grant :=
      { scope := scope, worker := configured.worker, version := version, contract := contract,
        epoch := epoch }
    grant.validate
    return upsertGrant ⟨generation, configured.tenant, configured.worker.name, version, contract, epoch,
      state, grant⟩ t
  match t.grants.find? (·.named generation configured.tenant configured.worker.name) with
  | none => install 1
  | some stored =>
      if changed then do
        let version ← jobInteger stored.version
        check "service grant version exhausted" (version + 1 ≤ maxI64)
        install (version + 1)
      else do
        stored.declaration.validate
        let version ← jobInteger stored.version
        check "same approval has different grant" (stored.declaration.worker = configured.worker
          ∧ stored.declaration.scope = scope ∧ stored.declaration.contract = contract
          ∧ stored.declaration.version = version
          ∧ (stored.declaration.epoch = epoch ∨ stored.state = .revoked))
        return t

def installGrants (generation contract epoch : String) (changed : Bool) (state : GrantState) :
    List EffectiveJobGrant → JobTables → Result JobTables
  | [], t => .ok t
  | configured :: rest, t => do
      let t ← installGrant generation contract epoch changed state configured t
      installGrants generation contract epoch changed state rest t

/-- A changed approval pauses all jobs, revokes all grants and replaces the runtime row. -/
def changeApproval (changed : Bool) (runtime : JobRuntimeRow) (t : JobTables) : Result JobTables :=
  if changed then do
    let t ← pauseJobs (fun _ => true) "approval_changed" t
    let t := updateGrants (fun row => decide (row.state = .active))
      (fun row => { row with state := .revoked }) t
    return { t with runtime := some runtime }
  else .ok t

/-- The source's {lit}`activate_jobs`, with the two epochs it may draw: one for a first
runtime row, one for a changed approval. -/
def activateJobs (generation contract first second : String) (effective : Option EffectiveJobDeployment)
    (effectsEnabled : Bool) (t : JobTables) : Result JobTables := do
  check "invalid job runtime identity" (isOpaque generation = true ∧ isOpaque contract = true)
  let limits := (effective.map (·.limits)).getD JobLimits.default
  limits.validate
  let enabled := effective.isSome || effectsEnabled
  let old := t.runtime.getD
    { deployment := generation, contract := contract, epoch := first,
      state := if enabled then .active else .paused, pendingLimit := limits.pendingPerApp,
      tenantLimit := limits.pendingPerTenant, concurrency := limits.workerConcurrency }
  let t := { t with runtime := some old }
  let generationChanged := decide (old.deployment ≠ generation)
  let changed := generationChanged || decide (old.contract ≠ contract)
  -- a pause of a retired generation survives the rebinding until an explicit grant
  let preservePause := generationChanged && decide (old.state = .paused)
  check "same approval has different job limits" (changed = false → old.pendingLimit = limits.pendingPerApp
    ∧ old.tenantLimit = limits.pendingPerTenant ∧ old.concurrency = limits.workerConcurrency)
  let epoch := if changed then second else old.epoch
  let t ← changeApproval changed
    { deployment := generation, contract := contract, epoch := epoch,
      state := if enabled && !preservePause then .active else .paused,
      pendingLimit := limits.pendingPerApp, tenantLimit := limits.pendingPerTenant,
      concurrency := limits.workerConcurrency } t
  let t := { t with queue := some (t.queue.getD 0) }
  match effective with
  | none => return t
  | some effective =>
      installGrants generation contract epoch changed (if preservePause then .revoked else .active)
        effective.grants t

section Reconcile

variable (encoding : Encoding)

/-- The states that an operator may reconcile. -/
def JobState.reviewed (state : JobState) : Bool :=
  decide (state = .paused ∨ state = .dead ∨ state = .rejected)

/-- The source's {lit}`reconciliation_source`. -/
def reconciliationSource (generation id : String) (t : JobTables) : Result CapturedJob := do
  let _ ← lockJobOperatorRuntime generation t
  check "invalid reconciliation identity" (isOpaque id = true)
  let row ← need "reconciliation source missing" (t.jobs.find? fun row => row.id = id)
  check "payload is NULL" (encoding.captureBytes row.payload ≤ maxJobBytes)
  check "only settled operator-reviewed work can be reconciled" (row.state.reviewed = true)
  row.payload.validate encoding
  check "reconciliation source differs from capture" (row.payload.id encoding = id
    ∧ encoding.invocationDigest row.payload = row.payloadDigest)
  return row.payload

/-- A fresh capture of a reviewed source replaces it. -/
def enqueueReconciled (previous : CapturedJob) (current : Grant) (actionVersion : Nat) (now : Int)
    (input : Fields) (targets : List (String × SealedTarget)) (tenantLimit : Int) (t : JobTables) :
    Result (String × JobTables) := do
  let parent := previous.id encoding
  check "reconciliation source changed" (t.jobs.countP (fun row =>
    decide (row.deployment = previous.scope.deployment ∧ row.id = parent
      ∧ row.payloadDigest = encoding.invocationDigest previous) && row.state.reviewed) = 1)
  let job ← CapturedJob.reconcile encoding previous current actionVersion now input targets
  let (_, t) ← updateJobs (fun row => decide (row.id = parent ∧ row.deployment = previous.scope.deployment))
    (·.reject "operator_reconciled") t
  let (_, t) ← enqueue encoding job now tenantLimit t
  return (job.id encoding, t)

end Reconcile

end Noxide.Jobs
