import Noxide.Library.Table
import Noxide.Protocol.Manifest
import Noxide.Store.Receipts
import Noxide.Store.Runtime

/-!
# Captured jobs and the queue

A captured job is one admitted invocation of an action by a service worker.  Its queue row
carries the mutable envelope: state, attempts, fence, lease and times.  This module gives
the captures, the grants, the tables and what a worker reads of them.

JSON columns hold the value that their text decodes to.  Hashes and the size of an encoded
capture are parameters.

Main results:

- Theorem {lit}`readRow_ok`: which rows are read back without complaint.
-/

namespace Noxide.Jobs

open Checked

/-! ## Limits -/

def maxPendingJobs : Int := 1000

def maxJobBytes : Nat := 16384

def maxScheduleHorizonMillis : Int := 30 * 24 * 60 * 60 * 1000

def jobLeaseMillis : Int := 30000

def maxJobAttempts : Int := 5

def jobRetryWindowMillis : Int := 24 * 60 * 60 * 1000

def maxWorkersPerApp : Int := 2

/-! ## Grants and captures -/

/-- The source's {lit}`opaque`. -/
def isOpaque (value : String) : Bool :=
  decide (1 ≤ value.utf8ByteSize ∧ value.utf8ByteSize ≤ 128)
    && value.toList.all fun c => c.isAlphanum || c == '_' || c == '-'

structure JobScope where
  deployment : String
  tenant : String
  deriving DecidableEq, Repr

def JobScope.validate (scope : JobScope) : Result Unit := do
  check "invalid job deployment" (isOpaque scope.deployment = true)
  check "invalid job tenant" (scope.tenant = "" ∨ identifier scope.tenant = true)

structure SealedTarget where
  resource : Nat
  id : Nat
  incarnation : String
  revision : Int
  deriving DecidableEq, Repr

def SealedTarget.validate (target : SealedTarget) : Result Unit :=
  check "invalid sealed job target" (0 < target.resource ∧ 0 < target.id ∧ (target.id : Int) ≤ maxI64
    ∧ 0 ≤ target.revision ∧ isOpaque target.incarnation = true)

/-- An immutable invocation. -/
structure CapturedJob where
  scope : JobScope
  origin : String
  ordinal : Nat
  sourceAction : Nat
  worker : String
  action : Nat
  actionVersion : Nat
  contract : String
  grantVersion : Int
  epoch : String
  due : Int
  input : Fields
  targets : List (String × SealedTarget)
  reconciledFrom : Option String
  deriving DecidableEq

/-- What an operator installed for one worker of one scope. -/
structure Grant where
  scope : JobScope
  worker : Worker
  version : Int
  contract : String
  epoch : String
  deriving DecidableEq, Repr

/-- The pure functions of a capture that rest on JSON and SHA-256. -/
structure Encoding where
  /-- The digest of deployment, origin and ordinal. -/
  identityDigest : String → String → Nat → String
  invocationDigest : CapturedJob → String
  /-- The digest of scope and worker. -/
  subjectDigest : JobScope → String → String
  /-- The digest that an operator's reconciliation starts from: the parent's identity and
  the scope, contract, epoch and version of the grant. -/
  originDigest : String → JobScope → String → String → Int → String
  /-- The bytes of the encoded capture. -/
  captureBytes : CapturedJob → Nat
  /-- The first two digest bytes of identity and attempt. -/
  retryHash : String → Int → Nat

/-- The checks of {lit}`Grant::validate` on one action. -/
def validateGrantAction (action : WorkerAction) : Result Unit := do
  check "invalid service action grant" (0 < action.action ∧ action.targets.length ≤ 4)
  action.targets.forM fun target =>
    check "invalid service target rule" (identifier target.1 = true ∧ 0 < target.2.resource
      ∧ 0 < target.2.eligible)

def Grant.validate (grant : Grant) : Result Unit := do
  grant.scope.validate
  check "invalid service grant version" (0 < grant.version ∧ isOpaque grant.contract = true
    ∧ isOpaque grant.epoch = true)
  check "invalid service worker" (identifier grant.worker.name = true ∧ grant.worker.actions.length ≤ 32)
  check "invalid service action grant" (grant.worker.actions.map (·.action)).Nodup
  grant.worker.actions.forM validateGrantAction

def Grant.permits (grant : Grant) (job : CapturedJob) : Result Unit := do
  grant.validate
  check "job grant changed" (grant.scope = job.scope ∧ grant.worker.name = job.worker
    ∧ grant.version = job.grantVersion ∧ grant.contract = job.contract ∧ grant.epoch = job.epoch)
  let action ← need "service action not granted"
    (grant.worker.actions.find? fun action => action.action = job.action)
  check "service binding mismatch" (action.targets.length = job.targets.length)
  job.targets.forM fun target =>
    check "service target not granted"
      (∃ rule ∈ action.targets.lookup target.1, rule.resource = target.2.resource)

section Captures

variable (encoding : Encoding)

def CapturedJob.validate (job : CapturedJob) : Result Unit := do
  job.scope.validate
  check "invalid reconciliation parent" (∀ parent ∈ job.reconciledFrom, isOpaque parent = true)
  check "invalid captured job identity" (isOpaque job.origin = true ∧ identifier job.worker = true
    ∧ 0 < job.sourceAction ∧ 0 < job.action ∧ 0 < job.actionVersion ∧ 0 < job.grantVersion
    ∧ job.ordinal < 2 ∧ isOpaque job.contract = true ∧ isOpaque job.epoch = true)
  check "job capture cardinality" (job.targets.length ≤ 4 ∧ job.input.keys.card ≤ 32)
  job.targets.forM fun target => do
    check "invalid job target alias" (identifier target.1 = true)
    target.2.validate
  check "invalid job input name" (∀ key ∈ job.input.keys, identifier key = true)
  check "job payload limit" (encoding.captureBytes job ≤ maxJobBytes)

def CapturedJob.id (job : CapturedJob) : String :=
  "j1_" ++ encoding.identityDigest job.scope.deployment job.origin job.ordinal

def CapturedJob.receiptSubject (job : CapturedJob) : String :=
  "s1_" ++ encoding.subjectDigest job.scope job.worker

/-- Operator-only fresh identity under the current grant. -/
def CapturedJob.reconcile (previous : CapturedJob) (grant : Grant) (actionVersion : Nat) (now : Int)
    (input : Fields) (targets : List (String × SealedTarget)) : Result CapturedJob := do
  let parent := previous.id encoding
  let origin := "o1_" ++ encoding.originDigest parent grant.scope grant.contract grant.epoch grant.version
  let job : CapturedJob :=
    { scope := grant.scope, origin := origin, ordinal := 0, sourceAction := previous.action,
      worker := grant.worker.name, action := previous.action, actionVersion := actionVersion,
      contract := grant.contract, grantVersion := grant.version, epoch := grant.epoch, due := now,
      input := input, targets := targets, reconciledFrom := some parent }
  grant.permits job
  job.validate encoding
  check "reconciliation reused job identity" (job.id encoding ≠ parent)
  return job

end Captures

/-! ## Tables -/

inductive JobState where
  | pending
  | running
  | succeeded
  | rejected
  | dead
  | paused
  deriving DecidableEq, Repr

structure JobRow where
  id : String
  deployment : String
  tenant : String
  origin : String
  ordinal : Nat
  worker : String
  action : Nat
  contract : String
  epoch : String
  grantVersion : Int
  payload : CapturedJob
  payloadDigest : String
  due : Int
  eligible : Int
  first : Int
  attempts : Int
  fence : Int
  lease : Int
  state : JobState
  reason : String
  reconciledFrom : Option String
  deriving DecidableEq

inductive GrantState where
  | active
  | revoked
  deriving DecidableEq, Repr

structure GrantRow where
  deployment : String
  tenant : String
  worker : String
  version : Int
  contract : String
  epoch : String
  state : GrantState
  declaration : Grant
  deriving DecidableEq

structure TenantRow where
  deployment : String
  tenant : String
  claimSeq : Int
  deriving DecidableEq

/-- The runtime row with the queue limits of its deployment. -/
structure JobRuntimeRow extends RuntimeRow where
  pendingLimit : Int
  tenantLimit : Int
  concurrency : Int
  deriving DecidableEq

/-- The tables that jobs use, with the durable watermark of lifecycle time. -/
structure JobTables where
  generation : Option String
  runtime : Option JobRuntimeRow
  watermark : Int
  /-- {lit}`claim_seq` of the queue row. -/
  queue : Option Int
  tenants : List TenantRow
  grants : List GrantRow
  jobs : List JobRow
  receipts : Receipts

/-- The column checks of {lit}`nx_jobs` on identity and envelope. -/
structure JobRow.Checked (row : JobRow) : Prop where
  id : opaqueText row.id = true
  action : 1 ≤ row.action
  version : 1 ≤ row.grantVersion
  due : 0 ≤ row.due
  eligible : 0 ≤ row.eligible
  first : 0 ≤ row.first
  attempts : 0 ≤ row.attempts ∧ row.attempts ≤ 5
  fence : 0 ≤ row.fence
  lease : 0 ≤ row.lease
  reason : row.reason.utf8ByteSize ≤ 24576

instance (row : JobRow) : Decidable row.Checked :=
  decidable_of_iff (opaqueText row.id = true ∧ 1 ≤ row.action ∧ 1 ≤ row.grantVersion ∧ 0 ≤ row.due
    ∧ 0 ≤ row.eligible ∧ 0 ≤ row.first ∧ (0 ≤ row.attempts ∧ row.attempts ≤ 5) ∧ 0 ≤ row.fence
    ∧ 0 ≤ row.lease ∧ row.reason.utf8ByteSize ≤ 24576)
    ⟨fun ⟨a, b, c, d, e, f, g, h, i, j⟩ => ⟨a, b, c, d, e, f, g, h, i, j⟩,
      fun ⟨a, b, c, d, e, f, g, h, i, j⟩ => ⟨a, b, c, d, e, f, g, h, i, j⟩⟩

/-- The primary key, the unique index and the column checks of {lit}`nx_jobs`. -/
structure Constrained (jobs : List JobRow) : Prop where
  ids : (jobs.map (·.id)).Nodup
  origins : (jobs.map fun row => (row.deployment, row.origin, row.ordinal)).Nodup
  rows : ∀ row ∈ jobs, row.Checked

instance (jobs : List JobRow) : Decidable (Constrained jobs) :=
  decidable_of_iff ((jobs.map (·.id)).Nodup
    ∧ (jobs.map fun row => (row.deployment, row.origin, row.ordinal)).Nodup
    ∧ ∀ row ∈ jobs, row.Checked)
    ⟨fun ⟨a, b, c⟩ => ⟨a, b, c⟩, fun ⟨a, b, c⟩ => ⟨a, b, c⟩⟩

/-- Replace the jobs, within their constraints. -/
def JobTables.withJobs (t : JobTables) (jobs : List JobRow) : Result JobTables := do
  check "constraint failed" (Constrained jobs)
  return { t with jobs := jobs }

/-- An {lit}`UPDATE nx_jobs`, with the number of rows it changed. -/
def updateJobs (condition : JobRow → Bool) (change : JobRow → JobRow) (t : JobTables) :
    Result (Nat × JobTables) := do
  let t' ← t.withJobs (Table.update condition change t.jobs)
  return (t.jobs.countP condition, t')

/-! ## What a worker reads -/

/-- A claim that a worker holds. -/
structure JobClaim where
  id : String
  scope : JobScope
  fence : Int
  leaseUntil : Int
  exhausted : Bool
  deriving DecidableEq

/-- A row as {lit}`row` returns it. -/
structure Row where
  job : CapturedJob
  state : JobState
  attempts : Int
  first : Int
  fence : Int
  lease : Int
  deriving DecidableEq

/-- {lit}`WHERE id AND deployment AND tenant` of a claim. -/
def JobClaim.selects (claim : JobClaim) (row : JobRow) : Bool :=
  decide (row.id = claim.id ∧ row.deployment = claim.scope.deployment ∧ row.tenant = claim.scope.tenant)

/-- {lit}`WHERE id AND deployment AND tenant AND fence` of a claim. -/
def JobClaim.holds (claim : JobClaim) (row : JobRow) : Bool :=
  claim.selects row && decide (row.fence = claim.fence)

/-- The source's {lit}`integer`. -/
def jobInteger (value : Int) : Result Int :=
  integerColumn "noncanonical job integer" value

/-- The shape of a row by its state. -/
def Row.shape (row : Row) : Bool :=
  match row.state with
  | .running => decide (0 < row.lease ∧ 0 < row.fence ∧ 0 < row.attempts)
  | .pending => decide (row.lease = 0 ∧ row.attempts < maxJobAttempts)
  | .succeeded | .rejected | .dead | .paused => decide (row.lease = 0)

section Reading

variable (encoding : Encoding)

/-- The checks of {lit}`row` on the columns it read. -/
def readRow (claim : JobClaim) (columns : JobRow) : Result Row := do
  check "payload is NULL" (encoding.captureBytes columns.payload ≤ maxJobBytes)
  let job := columns.payload
  job.validate encoding
  check "job storage identity mismatch" (job.id encoding = claim.id ∧ job.scope = claim.scope
    ∧ encoding.invocationDigest job = columns.payloadDigest ∧ job.contract = columns.contract
    ∧ job.epoch = columns.epoch)
  let action ← jobInteger columns.action
  let version ← jobInteger columns.grantVersion
  let due ← jobInteger columns.due
  let ordinal ← jobInteger columns.ordinal
  check "job indexed metadata differs from capture" (job.worker = columns.worker
    ∧ (job.action : Int) = action ∧ job.grantVersion = version ∧ job.due = due
    ∧ job.origin = columns.origin ∧ (job.ordinal : Int) = ordinal
    ∧ job.reconciledFrom.getD "" = columns.reconciledFrom.getD "")
  let first ← jobInteger columns.first
  let eligible ← jobInteger columns.eligible
  check "job retry time precedes eligibility" (due ≤ first ∧ first ≤ eligible)
  let attempts ← jobInteger columns.attempts
  let firstEligible ← fromUnixMillis first
  let fence ← jobInteger columns.fence
  let lease ← jobInteger columns.lease
  let leaseUntil ← fromUnixMillis lease
  let row : Row :=
    { job := job, state := columns.state, attempts := attempts, first := firstEligible,
      fence := fence, lease := leaseUntil }
  check "invalid or superseded job claim" (row.attempts ≤ maxJobAttempts ∧ row.fence = claim.fence
    ∧ (row.state = .running → row.lease = claim.leaseUntil))
  check "invalid job state shape" (row.shape = true)
  return row

/-- The columns as {lit}`row` returns them. -/
def JobRow.read (columns : JobRow) : Row where
  job := columns.payload
  state := columns.state
  attempts := columns.attempts
  first := columns.first
  fence := columns.fence
  lease := columns.lease

/-- The stored capture is the one the row's columns name. -/
structure JobRow.Captured (columns : JobRow) : Prop where
  valid : columns.payload.validate encoding = .ok ()
  id : columns.payload.id encoding = columns.id
  scope : columns.payload.scope = ⟨columns.deployment, columns.tenant⟩
  digest : encoding.invocationDigest columns.payload = columns.payloadDigest
  contract : columns.payload.contract = columns.contract
  epoch : columns.payload.epoch = columns.epoch
  worker : columns.payload.worker = columns.worker
  action : columns.payload.action = columns.action
  version : columns.payload.grantVersion = columns.grantVersion
  due : columns.payload.due = columns.due
  origin : columns.payload.origin = columns.origin
  ordinal : columns.payload.ordinal = columns.ordinal
  parent : columns.payload.reconciledFrom.getD "" = columns.reconciledFrom.getD ""

/-- The times of a row are in order, its attempts within the maximum and its lease, fence
and attempts as its state asks. -/
structure JobRow.Ordered (columns : JobRow) : Prop where
  first : columns.due ≤ columns.first
  eligible : columns.first ≤ columns.eligible
  attempts : columns.attempts ≤ maxJobAttempts
  shape : columns.read.shape = true

/-- The claim is the latest one of the row. -/
structure JobClaim.Current (claim : JobClaim) (columns : JobRow) : Prop where
  id : columns.id = claim.id
  scope : claim.scope = ⟨columns.deployment, columns.tenant⟩
  fence : columns.fence = claim.fence
  lease : columns.state = .running → columns.lease = claim.leaseUntil

theorem validate_bytes {job : CapturedJob} (h : job.validate encoding = .ok ()) :
    encoding.captureBytes job ≤ maxJobBytes := by
  simp only [CapturedJob.validate, bind_eq_ok, ensure_eq_ok, check] at h
  rcases h with ⟨_, _, _, _, _, _, _, _, _, _, _, _, small⟩
  exact small

/-- A selected row is read back exactly when it stores its capture, is in order and the
claim is its latest one. -/
theorem readRow_ok {claim : JobClaim} {columns : JobRow} {row : Row} (checked : columns.Checked)
    (selected : claim.selects columns = true) :
    readRow encoding claim columns = .ok row ↔ columns.Captured encoding ∧ columns.Ordered
      ∧ claim.Current columns ∧ row = columns.read := by
  simp only [JobClaim.selects, decide_eq_true_eq] at selected
  rcases selected with ⟨id, deployment, tenant⟩
  have scope : claim.scope = ⟨columns.deployment, columns.tenant⟩ := by
    rw [deployment, tenant]
  simp only [readRow, jobInteger, check, bind_eq_ok, ensure_eq_ok, integerColumn_ok, fromUnixMillis_ok]
  constructor
  · rintro ⟨_, bytes, _, valid, _, ⟨same, scope', digest, contract, epoch⟩, _, ⟨_, rfl⟩, _, ⟨_, rfl⟩, _,
      ⟨_, rfl⟩, _, ⟨_, rfl⟩, _, ⟨worker, action, version, due, origin, ordinal, parent⟩, _, ⟨_, rfl⟩, _,
      ⟨_, rfl⟩, _, ⟨first, eligible⟩, _, ⟨_, rfl⟩, _, ⟨_, rfl⟩, _, ⟨_, rfl⟩, _, ⟨_, rfl⟩, _, ⟨_, rfl⟩, _,
      ⟨attempts, fence, lease⟩, _, shape, h⟩
    cases h
    exact ⟨⟨valid, same.trans id.symm, scope'.trans scope, digest, contract, epoch, worker,
      Int.ofNat.inj action, version, due, origin, Int.ofNat.inj ordinal, parent⟩,
      ⟨first, eligible, attempts, shape⟩, ⟨id, scope, fence, lease⟩, rfl⟩
  · rintro ⟨captured, ordered, current, rfl⟩
    have version := checked.version
    refine ⟨(), validate_bytes encoding captured.valid, (), captured.valid, (),
      ⟨captured.id.trans id, captured.scope.trans scope.symm, captured.digest, captured.contract,
        captured.epoch⟩, _, ⟨Int.natCast_nonneg _, rfl⟩, _, ⟨by omega, rfl⟩, _, ⟨checked.due, rfl⟩, _,
      ⟨Int.natCast_nonneg _, rfl⟩, (), ⟨captured.worker, by rw [captured.action], captured.version,
        captured.due, captured.origin, by rw [captured.ordinal], captured.parent⟩, _, ⟨checked.first, rfl⟩, _,
      ⟨checked.eligible, rfl⟩, (), ⟨ordered.first, ordered.eligible⟩, _, ⟨checked.attempts.1, rfl⟩, _,
      ⟨checked.first, rfl⟩, _, ⟨checked.fence, rfl⟩, _, ⟨checked.lease, rfl⟩, _, ⟨checked.lease, rfl⟩, (),
      ⟨ordered.attempts, current.fence, current.lease⟩, (), ordered.shape, rfl⟩

/-- The source's {lit}`row`, whose lock only checks that the fence is current. -/
def row (claim : JobClaim) (lock : Bool) (t : JobTables) : Result Row := do
  check "job claim superseded" (lock = true → t.jobs.countP claim.holds = 1)
  let columns ← need "job unavailable" (t.jobs.find? claim.selects)
  readRow encoding claim columns

end Reading

end Noxide.Jobs
