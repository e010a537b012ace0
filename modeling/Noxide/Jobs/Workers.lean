import Noxide.Jobs.Moves
import Noxide.Library.Transition

/-!
# Workers and interleavings

The queue under any number of workers.  A worker may use a claim it once obtained at any
later time and any number of times; operators run their commands between the worker's
transactions, time moves on, and other transactions write receipts of their own.  An
acknowledgement that is lost is a transaction that committed without its worker knowing.

Every transaction is a sequence of changes to the rows, and every change keeps each row's
capture and order, and moves its fence upwards only.

Main results:

- Theorem {lit}`Step.progress`: every step is a sequence of row changes.
- Theorem {lit}`tracked_invariant`: what every interleaving keeps of rows and claims.
-/

namespace Noxide.Jobs

open Checked

/-! ## One attempt -/

section Attempts

variable (encoding : Encoding)

inductive Attempt where
  /-- The mutations of the action and their receipt are part of the transaction. -/
  | committed
  /-- The receipt that was there answers again. -/
  | replayed
  | ended (execution : Execution)
  deriving DecidableEq

/-- The jobs that an action schedules, in order. -/
def enqueueJobs (now : Int) : List CapturedJob → JobTables → Result JobTables
  | [], t => .ok t
  | job :: rest, t => do
      let (_, t) ← enqueue encoding job now maxPendingJobs t
      enqueueJobs now rest t

/-- The receipt that an attempt claims. -/
def CapturedJob.receiptRow (job : CapturedJob) : Receipt where
  nonce := job.id encoding
  subject := job.receiptSubject encoding
  contract := job.contract
  action := job.action
  input := encoding.invocationDigest job
  outcome := ""
  expires := maxI64

/-- The source's {lit}`load_receipt` and the check of its input that follows. -/
def replayOutcome (job : CapturedJob) (t : JobTables) : Result String := do
  let stored ← need "receipt unavailable" (t.receipts.find? (job.id encoding))
  check "invalid request" (stored.subject = job.receiptSubject encoding ∧ stored.contract = job.contract)
  check "invalid request" (stored.input = encoding.invocationDigest job)
  return stored.outcome

/-- The transaction of one attempt: the execution lock, the claim of the receipt, the
mutations of the action with the jobs it schedules, the receipt's outcome and the
completion. -/
def attemptJob (claim : JobClaim) (now : Int) (validate : CapturedJob → String → Result Unit)
    (outcome : String) (scheduled : List CapturedJob) (t : JobTables) : Result (Attempt × JobTables) := do
  let (job, execution, t) ← lockExecution encoding claim (.ok now) validate t
  match execution with
  | .ready verified =>
      if (t.receipts.claim (job.receiptRow encoding)).1 = 0 then do
        let stored ← replayOutcome encoding job t
        validate job stored
        let t ← succeed encoding verified (validate job) t
        return (.replayed, t)
      else do
        let t := { t with receipts := (t.receipts.claim (job.receiptRow encoding)).2 }
        let t ← enqueueJobs encoding now scheduled t
        validate job outcome
        let t := { t with receipts := t.receipts.setOutcome outcome (job.id encoding) }
        let t ← succeed encoding verified (validate job) t
        return (.committed, t)
  | ended => return (.ended ended, t)

/-- The operator's reconciliation: the reviewed source, the current grant of its worker and
a fresh capture with inputs and targets resolved anew. -/
def reconcileJob (generation id contract : String) (actionVersion : Nat) (now : Int) (input : Fields)
    (targets : List (String × SealedTarget)) (tenantLimit : Int) (t : JobTables) :
    Result ((Grant × String) × JobTables) := do
  let previous ← reconciliationSource encoding generation id t
  let grant ← scheduleGrant ⟨generation, previous.scope.tenant⟩ previous.worker contract t
  let (fresh, t) ← enqueueReconciled encoding previous grant actionVersion now input targets tenantLimit t
  return ((grant, fresh), t)

end Attempts

/-! ## The system -/

/-- What is observed of the queue. -/
inductive Observed where
  /-- A row was recorded as succeeded. -/
  | succeeded (id : String)
  /-- The mutations of a job were committed. -/
  | mutated (id : String)
  /-- A source was reconciled under a grant into the named job. -/
  | reconciled (source : String) (grant : Grant) (id : String)
  deriving DecidableEq

structure World where
  tables : JobTables
  /-- The claims that workers hold, for ever. -/
  claims : List JobClaim
  /-- The times at which executions under a claim were admitted. -/
  admitted : List (JobClaim × Int)
  /-- The latest observation first. -/
  log : List Observed

/-- The operator's commands, and those of startup and recovery. -/
inductive Command where
  | cancel (generation id : String)
  | revoke (generation tenant worker : String)
  | grant (generation contract : String) (approved : EffectiveJobGrant)
  | activate (generation contract first second : String) (effective : Option EffectiveJobDeployment)
      (effectsEnabled : Bool)
  | fork (generation epoch : String)
  | restoreFork (generation epoch : String)
  | recoverClock (epoch generation : String)
  | deploy (generation : String)

def Command.run : Command → JobTables → Result JobTables
  | .cancel generation id, t => cancelJob generation id t
  | .revoke generation tenant worker, t => revokeJobGrant generation tenant worker t
  | .grant generation contract approved, t => grantJobService generation contract approved t
  | .activate generation contract first second effective effectsEnabled, t =>
      activateJobs generation contract first second effective effectsEnabled t
  | .fork generation epoch, t => forkJobRuntime generation epoch t
  | .restoreFork generation epoch, t => applyJobFork generation epoch t
  | .recoverClock epoch generation, t => Jobs.recoverClock epoch generation t
  | .deploy generation, t => .ok { t with generation := some generation }

/-- The parameters of a reconciliation. -/
structure Reconciliation where
  generation : String
  id : String
  contract : String
  actionVersion : Nat
  input : Fields
  targets : List (String × SealedTarget)
  tenantLimit : Int

def Reconciliation.run (encoding : Encoding) (request : Reconciliation) (now : Int) (t : JobTables) :
    Result ((Grant × String) × JobTables) :=
  reconcileJob encoding request.generation request.id request.contract request.actionVersion now
    request.input request.targets request.tenantLimit t

inductive Operation where
  | enqueue (job : CapturedJob) (tenantLimit : Int)
  | claim (deployment : String) (skipped : List String)
  | lock (claim : JobClaim)
  | attempt (claim : JobClaim) (scheduled : List CapturedJob)
  | succeed (verified : VerifiedJob)
  | fail (claim : JobClaim) (failure : Failure)
  | command (command : Command)
  | reconcile (request : Reconciliation)
  | receive (receipts : Receipts)
  | maintain (observed : Int)
  | tick

/-- The rows that are recorded as succeeded by a transaction. -/
def settled (t t' : JobTables) : List Observed :=
  (t'.jobs.filter fun r => decide (r.state = .succeeded)
    && !t.jobs.any fun x => x.id = r.id ∧ x.state = .succeeded).map fun r => .succeeded r.id

/-- A transaction that committed. -/
def World.commit (w : World) (t : JobTables) : World :=
  { w with tables := t, log := settled w.tables t ++ w.log }

/-- The same with an observation of its own. -/
def World.observe (w : World) (entry : Observed) : World :=
  { w with log := entry :: w.log }

def World.admit (w : World) (claim : JobClaim) (now : Int) : World :=
  { w with admitted := (claim, now) :: w.admitted }

inductive Step (encoding : Encoding) : Operation → World → World → Prop where
  | enqueue (job : CapturedJob) (tenantLimit : Int) (w : World) (inserted : Bool) (t : JobTables)
      (ran : enqueue encoding job w.tables.watermark tenantLimit w.tables = .ok (inserted, t)) :
      Step encoding (.enqueue job tenantLimit) w (w.commit t)
  /-- A claim that its worker learns of. -/
  | claimed (deployment : String) (skipped : List String) (w : World) (claim : JobClaim) (t : JobTables)
      (ran : Jobs.claim deployment w.tables.watermark skipped w.tables = .ok (some claim, t)) :
      Step encoding (.claim deployment skipped) w { w.commit t with claims := claim :: w.claims }
  /-- A poll that finds nothing, or a claim whose commit is not acknowledged. -/
  | unclaimed (deployment : String) (skipped : List String) (w : World) (found : Option JobClaim)
      (t : JobTables)
      (ran : Jobs.claim deployment w.tables.watermark skipped w.tables = .ok (found, t)) :
      Step encoding (.claim deployment skipped) w (w.commit t)
  /-- An execution lock, whose time may not be available; an execution that it admits may
  stop at any later point and leave no trace but its time. -/
  | locked (claim : JobClaim) (w : World) (sampleTime : Result Int)
      (validate : CapturedJob → String → Result Unit) (job : CapturedJob) (execution : Execution)
      (t : JobTables) (handed : claim ∈ w.claims)
      (sampled : ∀ time, sampleTime = .ok time → time = w.tables.watermark)
      (ran : lockExecution encoding claim sampleTime validate w.tables = .ok (job, execution, t)) :
      Step encoding (.lock claim) w ( World.admit (w.commit t) claim w.tables.watermark)
  | attempted (claim : JobClaim) (scheduled : List CapturedJob) (w : World)
      (validate : CapturedJob → String → Result Unit) (outcome : String) (attempt : Attempt)
      (t : JobTables) (handed : claim ∈ w.claims)
      (ran : attemptJob encoding claim w.tables.watermark validate outcome scheduled w.tables
        = .ok (attempt, t)) :
      Step encoding (.attempt claim scheduled) w
        (if attempt = .committed then (w.commit t).observe (.mutated claim.id) else w.commit t)
  | succeeded (verified : VerifiedJob) (w : World) (validate : String → Result Unit) (t : JobTables)
      (handed : verified.claim ∈ w.claims)
      (ran : succeed encoding verified validate w.tables = .ok t) :
      Step encoding (.succeed verified) w (w.commit t)
  /-- A failure is recorded with the time at which the failed execution was admitted. -/
  | failed (claim : JobClaim) (failure : Failure) (w : World) (now : Int)
      (validate : String → Result Unit) (result : FailureResult) (t : JobTables)
      (handed : (claim, now) ∈ w.admitted)
      (ran : fail encoding claim now failure validate w.tables = .ok (result, t)) :
      Step encoding (.fail claim failure) w (w.commit t)
  | command (command : Command) (w : World) (t : JobTables) (ran : command.run w.tables = .ok t) :
      Step encoding (.command command) w (w.commit t)
  | reconcile (request : Reconciliation) (w : World) (grant : Grant) (id : String) (t : JobTables)
      (ran : request.run encoding w.tables.watermark w.tables = .ok ((grant, id), t)) :
      Step encoding (.reconcile request) w ((w.commit t).observe (.reconciled request.id grant id))
  /-- Other transactions write receipts. -/
  | receive (receipts : Receipts) (w : World) :
      Step encoding (.receive receipts) w { w with tables := { w.tables with receipts := receipts } }
  /-- Maintenance deletes receipts that expired, by the observed credential seconds. -/
  | maintain (observed : Int) (w : World) (bounded : observed ≤ maxI64) :
      Step encoding (.maintain observed) w
        { w with tables := { w.tables with receipts := w.tables.receipts.sweep (observed - 60) } }
  | tick (w : World) (wall : Int) (later : w.tables.watermark ≤ wall) :
      Step encoding .tick w { w with tables := { w.tables with watermark := wall } }

/-- No job yet, no receipts, no claims and no observations. -/
structure World.Fresh (w : World) : Prop where
  jobs : w.tables.jobs = []
  receipts : w.tables.receipts = Receipts.empty
  claims : w.claims = []
  admitted : w.admitted = []
  log : w.log = []

/-- Every interleaving of the operations that a rule allows. -/
def allowing (encoding : Encoding) (rule : World → Operation → Prop) : System World where
  initial := World.Fresh
  step w w' := ∃ operation, rule w operation ∧ Step encoding operation w w'

/-- Every interleaving, whatever workers do with their claims. -/
def queueSystem (encoding : Encoding) : System World :=
  allowing encoding fun _ _ => True

/-! ## Changes -/

/-- What a part of a transaction does to the rows.  A claim only ends at a time that is no
earlier than its beginning. -/
inductive Change (encoding : Encoding) (t : JobTables) : JobTables → Prop where
  | kept (t' : JobTables) (jobs : t'.jobs = t.jobs) (watermark : t.watermark ≤ t'.watermark) :
      Change encoding t t'
  | added (job : CapturedJob) (now : Int) (t' : JobTables) (added : Added encoding job now t t') :
      Change encoding t t'
  | paused (t' : JobTables) (paused : Pauses t t') : Change encoding t t'
  | moved (now : Int) (move : Move) (r r' : JobRow) (t' : JobTables) (moved : Moved now move r r' t t')
      (timely : ∀ claim state, move = .finish claim state → claim.leaseUntil ≤ now + jobLeaseMillis) :
      Change encoding t t'

def Changes (encoding : Encoding) : JobTables → JobTables → Prop :=
  Relation.ReflTransGen (Change encoding)

section Changes

variable {encoding : Encoding} {t t' : JobTables}

theorem Change.constrained (h : Change encoding t t') (constrained : Constrained t.jobs) :
    Constrained t'.jobs := by
  cases h with
  | kept _ jobs watermark =>
      rw [jobs]
      exact constrained
  | added job now _ added => exact added.constrained
  | paused _ paused => exact paused.constrained
  | moved now move r r' _ moved timely => exact moved.constrained

theorem Changes.constrained (h : Changes encoding t t') (constrained : Constrained t.jobs) :
    Constrained t'.jobs := by
  induction h with
  | refl => exact constrained
  | tail _ last ih => exact last.constrained ih

theorem Changes.watermark (h : Changes encoding t t') : t.watermark ≤ t'.watermark := by
  induction h with
  | refl => exact le_refl _
  | tail _ last ih =>
      refine ih.trans ?_
      cases last with
      | kept _ jobs watermark => exact watermark
      | added job now _ added => exact le_of_eq added.watermark.symm
      | paused _ paused => exact le_of_eq paused.watermark.symm
      | moved now move r r' _ moved timely => exact le_of_eq moved.watermark.symm

theorem Finishing.changes {claim : JobClaim} {now : Int} (h : Finishing claim now t t')
    (timely : claim.leaseUntil ≤ now + jobLeaseMillis) : Changes encoding t t' := by
  cases h with
  | unchanged => exact Relation.ReflTransGen.refl
  | finished r state reason eligible _ moved receipt =>
      refine Relation.ReflTransGen.single (Change.moved now _ r _ _ moved fun other ended same => ?_)
      cases same
      exact timely

theorem Locked.changes {claim : JobClaim} {now : Int} {execution : Execution}
    (h : Locked claim now t execution t') (timely : claim.leaseUntil ≤ now + jobLeaseMillis) :
    Changes encoding t t' := by
  cases h with
  | finishing _ _ ends done => exact ends.changes timely
  | ready r grant member current running live unreceipted => exact Relation.ReflTransGen.refl

theorem succeed_changes {now : Int} {verified : VerifiedJob} {validate : String → Result Unit}
    (constrained : Constrained t.jobs) (timely : verified.claim.leaseUntil ≤ now + jobLeaseMillis)
    (h : succeed encoding verified validate t = .ok t') : Changes encoding t t' := by
  rcases succeed_moves now constrained h with ⟨r, reason, eligible, _, _, moved⟩
  refine Relation.ReflTransGen.single (Change.moved now _ r _ _ moved fun claim state same => ?_)
  cases same
  exact timely

theorem enqueueJobs_changes {now : Int} {jobs : List CapturedJob}
    (h : enqueueJobs encoding now jobs t = .ok t') : Changes encoding t t' := by
  induction jobs generalizing t with
  | nil =>
      cases h
      exact Relation.ReflTransGen.refl
  | cons job rest ih =>
      rcases bind_eq_ok.mp h with ⟨⟨inserted, t₁⟩, admitted, others⟩
      refine Relation.ReflTransGen.head ?_ (ih others)
      rcases enqueue_adds admitted with ⟨rfl, _⟩ | added
      · exact Change.kept _ rfl (le_refl _)
      · exact Change.added job now _ added

theorem attemptJob_changes {claim : JobClaim} {now : Int}
    {validate : CapturedJob → String → Result Unit} {outcome : String} {scheduled : List CapturedJob}
    {attempt : Attempt} (constrained : Constrained t.jobs)
    (timely : claim.leaseUntil ≤ now + jobLeaseMillis)
    (h : attemptJob encoding claim now validate outcome scheduled t = .ok (attempt, t')) :
    Changes encoding t t' := by
  simp only [attemptJob, bind_eq_ok] at h
  rcases h with ⟨⟨job, execution, t₁⟩, locks, h⟩
  have locked := lockExecution_moves constrained (fun time same => (by cases same; rfl)) locks
  have first : Changes encoding t t₁ := locked.changes timely
  have constrained₁ := first.constrained constrained
  cases locked with
  | finishing _ _ ends done =>
      cases execution with
      | ready verified => exact absurd rfl (done verified)
      | recovered outcome =>
          cases h
          exact first
      | paused =>
          cases h
          exact first
      | dead =>
          cases h
          exact first
  | ready r grant member current running live unreceipted =>
      simp only at h
      split at h
      · simp only [bind_eq_ok] at h
        rcases h with ⟨stored, _, _, _, t₂, completed, h⟩
        cases h
        exact first.trans (succeed_changes constrained₁ timely completed)
      · simp only [bind_eq_ok] at h
        rcases h with ⟨t₂, scheduled, _, _, t₃, completed, h⟩
        cases h
        have claimed : Changes encoding t { t with receipts := (t.receipts.claim (job.receiptRow encoding)).2 } :=
          Relation.ReflTransGen.single (Change.kept _ rfl (le_refl _))
        have middle := claimed.trans (enqueueJobs_changes scheduled)
        have written : Changes encoding t { t₂ with receipts := t₂.receipts.setOutcome outcome (job.id encoding) } :=
          middle.tail (Change.kept _ rfl (le_refl _))
        exact written.trans (succeed_changes (written.constrained constrained) timely completed)

theorem Command.changes {command : Command} (constrained : Constrained t.jobs)
    (h : command.run t = .ok t') : Changes encoding t t' := by
  refine Relation.ReflTransGen.single ?_
  cases command with
  | cancel generation id =>
      rcases cancel_moves 0 h with ⟨r, _, moved⟩
      exact Change.moved 0 _ r _ _ moved fun claim state same => by cases same
  | revoke generation tenant worker => exact Change.paused _ (revokeJobGrant_pauses h)
  | grant generation contract approved => exact Change.paused _ (grantJobService_pauses h)
  | activate generation contract first second effective effectsEnabled =>
      exact Change.paused _ (activateJobs_pauses constrained h)
  | fork generation epoch => exact Change.paused _ (forkJobRuntime_pauses h)
  | restoreFork generation epoch => exact Change.paused _ (applyJobFork_pauses h)
  | recoverClock epoch generation => exact Change.paused _ (recoverClock_pauses h)
  | deploy generation =>
      cases h
      exact Change.kept _ rfl (le_refl _)

theorem reconcileJob_changes {request : Reconciliation} {now : Int} {grant : Grant} {id : String}
    (constrained : Constrained t.jobs) (h : request.run encoding now t = .ok ((grant, id), t')) :
    Changes encoding t t' := by
  simp only [Reconciliation.run, reconcileJob, bind_eq_ok] at h
  rcases h with ⟨previous, _, current, _, ⟨fresh, t₁⟩, enqueued, h⟩
  cases h
  rcases reconcile_moves constrained enqueued with ⟨r, job, t₂, _, _, rejected, _, _, rest⟩
  have first : Changes encoding t t₂ :=
    Relation.ReflTransGen.single (Change.moved now _ r _ _ rejected fun claim state same => by cases same)
  rcases rest with ⟨rfl, _⟩ | added
  · exact first
  · exact first.tail (Change.added job now _ added)

end Changes

/-! ## Rows over time -/

/-- The row will not run again. -/
def JobRow.ended (r : JobRow) : Prop :=
  r.state = .succeeded ∨ r.state = .rejected ∨ r.state = .dead

/-- What every later version of a row keeps: its key and capture, and its end, for good
where it succeeded.  The fence never falls, and a row only starts to run under a higher
one. -/
structure Evolves (r r' : JobRow) : Prop where
  id : r'.id = r.id
  payload : r'.payload = r.payload
  fence : r.fence ≤ r'.fence
  runs : r'.state = .running → r'.fence = r.fence → r.state = .running
  ended : r.ended → r'.ended
  succeeded : r.state = .succeeded → r'.state = .succeeded

theorem Evolves.refl (r : JobRow) : Evolves r r :=
  ⟨rfl, rfl, le_refl _, fun same _ => same, fun same => same, fun same => same⟩

theorem Evolves.trans {first second third : JobRow} (before : Evolves first second)
    (after : Evolves second third) : Evolves first third := by
  have low := before.fence
  have high := after.fence
  exact ⟨after.id.trans before.id, after.payload.trans before.payload, by omega,
    fun running same => before.runs (after.runs running (by omega)) (by omega),
    fun done => after.ended (before.ended done), fun done => after.succeeded (before.succeeded done)⟩

theorem RowMove.evolves {now : Int} {move : Move} {r r' : JobRow} (h : RowMove now move r r') :
    Evolves r r' := by
  cases h with
  | claim claim _ id scope due fence lease exhausted =>
      refine ⟨rfl, rfl, ?_, fun _ same => ?_, fun done => ?_, fun done => ?_⟩
      · change r.fence ≤ claim.fence
        omega
      · change claim.fence = r.fence at same
        omega
      · unfold JobRow.ended at done
        rcases due with ⟨pending, _⟩ | ⟨running, _⟩
        · simp [pending] at done
        · simp [running] at done
      · rcases due with ⟨pending, _⟩ | ⟨running, _⟩
        · simp [pending] at done
        · simp [running] at done
  | finish claim _ state reason eligible current running stopped later retried =>
      refine ⟨rfl, rfl, le_refl _, fun runs _ => absurd runs stopped, fun done => ?_, fun done => ?_⟩
      · simp [JobRow.ended, running] at done
      · simp [running] at done
  | reject _ reason unsettled =>
      exact ⟨rfl, rfl, le_refl _, fun runs _ => (by cases runs), fun _ => Or.inr (Or.inl rfl),
        fun done => absurd done unsettled⟩

theorem Paused.evolves {r r' : JobRow} (h : Paused r r') : Evolves r r' := by
  cases h with
  | same => exact Evolves.refl r
  | paused reason pausable =>
      refine ⟨rfl, rfl, le_refl _, fun runs _ => (by cases runs), fun done => ?_, fun done => ?_⟩
      · rcases done with state | state | state <;> simp [JobRow.pausable, state] at pausable
      · simp [JobRow.pausable, done] at pausable

theorem Moved.evolves {now : Int} {move : Move} {r r' x : JobRow} {t t' : JobTables}
    (h : Moved now move r r' t t') (member : x ∈ t.jobs) : ∃ x' ∈ t'.jobs, Evolves x x' := by
  rcases h.replaced.mem_old member with rfl | still
  · exact ⟨r', h.replaced.mem_after, h.row.evolves⟩
  · exact ⟨x, still, Evolves.refl x⟩

theorem Change.evolves {encoding : Encoding} {t t' : JobTables} (h : Change encoding t t') {r : JobRow}
    (member : r ∈ t.jobs) : ∃ r' ∈ t'.jobs, Evolves r r' := by
  cases h with
  | kept _ jobs watermark =>
      rw [jobs]
      exact ⟨r, member, Evolves.refl r⟩
  | added job now _ added =>
      rw [added.jobs]
      exact ⟨r, List.mem_append_left _ member, Evolves.refl r⟩
  | paused _ paused =>
      rcases forall₂_mem_left paused.rows member with ⟨r', here, related⟩
      exact ⟨r', here, related.evolves⟩
  | moved now move x x' _ moved timely => exact moved.evolves member

/-- Every row has a later version. -/
theorem Changes.evolves {encoding : Encoding} {t t' : JobTables} (h : Changes encoding t t') {r : JobRow}
    (member : r ∈ t.jobs) : ∃ r' ∈ t'.jobs, Evolves r r' := by
  induction h with
  | refl => exact ⟨r, member, Evolves.refl r⟩
  | tail _ last ih =>
      rcases ih with ⟨r', here, before⟩
      rcases last.evolves here with ⟨r'', there, after⟩
      exact ⟨r'', there, before.trans after⟩

/-! ## Rows in order -/

/-- A row stores its capture, is in order, and began its lease when it was eligible. -/
structure RowSound (encoding : Encoding) (r : JobRow) : Prop where
  captured : r.Captured encoding
  ordered : r.Ordered
  leased : r.state = .running → r.first + jobLeaseMillis ≤ r.lease

section Sound

variable {encoding : Encoding} {r r' : JobRow}

/-- A row that changed in its envelope only still stores its capture. -/
theorem JobRow.Captured.envelope (h : r.Captured encoding) {state : JobState} {reason : String}
    {eligible fence lease attempts : Int} :
    ({ r with state := state, reason := reason, eligible := eligible, fence := fence, lease := lease,
              attempts := attempts } : JobRow).Captured encoding :=
  ⟨h.valid, h.id, h.scope, h.digest, h.contract, h.epoch, h.worker, h.action, h.version, h.due, h.origin,
    h.ordinal, h.parent⟩

/-- A row without a lease is in order where it may still be retried, or is not pending. -/
theorem RowSound.idle (h : RowSound encoding r) {state : JobState} {reason : String} {eligible : Int}
    (stopped : state ≠ .running) (later : r.first ≤ eligible)
    (retried : state = .pending → r.attempts < maxJobAttempts) :
    RowSound encoding (r.finished state reason eligible) := by
  refine ⟨h.captured.envelope, ⟨h.ordered.first, later, h.ordered.attempts, ?_⟩,
    fun running => absurd running stopped⟩
  unfold JobRow.finished JobRow.read Row.shape
  cases state with
  | running => exact absurd rfl stopped
  | pending => simpa using retried rfl
  | succeeded => simp
  | rejected => simp
  | dead => simp
  | paused => simp

theorem RowMove.sound {now : Int} {move : Move} (h : RowMove now move r r') (sound : RowSound encoding r)
    (checked : r.Checked)
    (timely : ∀ claim state, move = .finish claim state → claim.leaseUntil ≤ now + jobLeaseMillis) :
    RowSound encoding r' := by
  cases h with
  | claim claim _ id scope due fence lease exhausted =>
      have attempts := sound.ordered.attempts
      have eligible := sound.ordered.eligible
      have counted := checked.attempts
      have fenced := checked.fence
      have nonneg := checked.eligible
      have leases := checked.lease
      have started : r.first ≤ now ∧ 0 ≤ now := by
        rcases due with ⟨_, due⟩ | ⟨running, expired⟩
        · constructor <;> omega
        · have leased := sound.leased running
          unfold jobLeaseMillis at leased
          constructor <;> omega
      unfold maxJobAttempts at attempts
      refine ⟨sound.captured.envelope, ⟨sound.ordered.first, eligible, ?_, ?_⟩, fun _ => ?_⟩
      · change (if r.attempts < maxJobAttempts then r.attempts + 1 else r.attempts) ≤ maxJobAttempts
        unfold maxJobAttempts
        split <;> omega
      · unfold JobRow.claimed JobRow.read Row.shape
        simp only [decide_eq_true_eq]
        unfold maxJobAttempts
        rw [lease, fence]
        unfold jobLeaseMillis
        refine ⟨by omega, by omega, ?_⟩
        split <;> omega
      · change r.first + jobLeaseMillis ≤ claim.leaseUntil
        omega
  | finish claim _ state reason eligible current running stopped later retried =>
      have leased := sound.leased running
      have same := current.lease running
      have ends := timely claim state rfl
      refine sound.idle stopped ?_ retried
      unfold jobLeaseMillis at leased ends
      rcases later with first | lease | after
      · omega
      · omega
      · omega
  | reject _ reason unsettled =>
      have idle : RowSound encoding (r.finished .rejected reason r.eligible) :=
        sound.idle (by simp) sound.ordered.eligible fun same => by cases same
      exact idle

theorem Paused.sound (h : Paused r r') (sound : RowSound encoding r) : RowSound encoding r' := by
  cases h with
  | same => exact sound
  | paused reason pausable =>
      have idle : RowSound encoding (r.finished .paused reason r.eligible) :=
        sound.idle (by simp) sound.ordered.eligible fun same => by cases same
      exact idle

theorem filter_parent (parent : Option String) :
    (parent.filter fun text => text != "").getD "" = parent.getD "" := by
  cases parent with
  | none => rfl
  | some text =>
      by_cases empty : text = ""
      · subst empty
        rfl
      · simp [Option.filter, empty]

theorem Added.sound {job : CapturedJob} {now : Int} {t t' : JobTables} (h : Added encoding job now t t') :
    RowSound encoding (job.row encoding now) := by
  refine ⟨⟨h.valid, rfl, rfl, rfl, rfl, rfl, rfl, rfl, rfl, rfl, rfl, rfl, ?_⟩,
    ⟨le_max_right _ _, le_refl _, ?_, ?_⟩, fun running => by cases running⟩
  · exact (filter_parent job.reconciledFrom).symm
  · change (0 : Int) ≤ 5
    decide
  · unfold CapturedJob.row JobRow.read Row.shape
    simp [maxJobAttempts]

theorem Change.sound {t t' : JobTables} (h : Change encoding t t') (constrained : Constrained t.jobs)
    (sound : ∀ r ∈ t.jobs, RowSound encoding r) : ∀ r ∈ t'.jobs, RowSound encoding r := by
  intro r member
  cases h with
  | kept _ jobs watermark =>
      rw [jobs] at member
      exact sound r member
  | added job now _ added =>
      rw [added.jobs, List.mem_append, List.mem_singleton] at member
      rcases member with before | rfl
      · exact sound r before
      · exact added.sound
  | paused _ paused =>
      rcases forall₂_mem_left paused.rows.flip member with ⟨x, here, related⟩
      exact related.sound (sound x here)
  | moved now move x x' _ moved timely =>
      rcases moved.replaced.mem member with rfl | before
      · have here := moved.replaced.mem_before
        exact moved.row.sound (sound x here) (constrained.rows x here) timely
      · exact sound r before

theorem Changes.sound {t t' : JobTables} (h : Changes encoding t t') (constrained : Constrained t.jobs)
    (sound : ∀ r ∈ t.jobs, RowSound encoding r) : ∀ r ∈ t'.jobs, RowSound encoding r := by
  induction h with
  | refl => exact sound
  | tail before last ih => exact last.sound (Changes.constrained before constrained) ih

end Sound

/-! ## What every interleaving keeps -/

/-- A claim that was handed out was taken no later than now, from a row that is still
there. -/
structure ClaimTracked (t : JobTables) (claim : JobClaim) : Prop where
  taken : claim.leaseUntil ≤ t.watermark + jobLeaseMillis
  row : ∃ r ∈ t.jobs, r.id = claim.id ∧ claim.fence ≤ r.fence

/-- What every interleaving keeps of rows, claims and times. -/
structure Tracked (encoding : Encoding) (w : World) : Prop where
  constrained : Constrained w.tables.jobs
  rows : ∀ r ∈ w.tables.jobs, RowSound encoding r
  claims : ∀ claim ∈ w.claims, ClaimTracked w.tables claim
  admitted : ∀ entry ∈ w.admitted, entry.1.leaseUntil ≤ entry.2 + jobLeaseMillis

section Tracked

variable {encoding : Encoding} {w w' : World}

theorem ClaimTracked.later {t t' : JobTables} {claim : JobClaim} (h : ClaimTracked t claim)
    (changes : Changes encoding t t') (later : t.watermark ≤ t'.watermark) : ClaimTracked t' claim := by
  have taken := h.taken
  rcases h.row with ⟨r, member, id, fence⟩
  rcases changes.evolves member with ⟨r', here, evolves⟩
  have rises := evolves.fence
  exact ⟨by omega, r', here, evolves.id.trans id, by omega⟩

/-- What a step does: changes of the rows, claims that were just taken and times that were
just read. -/
structure Progress (encoding : Encoding) (w w' : World) : Prop where
  changes : Changes encoding w.tables w'.tables
  claims : ∀ claim ∈ w'.claims, claim ∈ w.claims ∨ ClaimTracked w'.tables claim
  admitted : ∀ entry ∈ w'.admitted, entry ∈ w.admitted ∨ entry.1.leaseUntil ≤ entry.2 + jobLeaseMillis

theorem Progress.of_changes (changes : Changes encoding w.tables w'.tables) (claims : w'.claims = w.claims)
    (admitted : w'.admitted = w.admitted) : Progress encoding w w' := by
  refine ⟨changes, fun claim handed => ?_, fun entry member => ?_⟩
  · rw [claims] at handed
    exact Or.inl handed
  · rw [admitted] at member
    exact Or.inl member

theorem Step.progress {operation : Operation} (tracked : Tracked encoding w)
    (h : Step encoding operation w w') : Progress encoding w w' := by
  have constrained := tracked.constrained
  cases h with
  | enqueue job tenantLimit _ inserted t ran =>
      refine Progress.of_changes ?_ rfl rfl
      rcases enqueue_adds ran with ⟨rfl, _⟩ | added
      · exact Relation.ReflTransGen.refl
      · exact Relation.ReflTransGen.single (Change.added job _ _ added)
  | claimed deployment skipped _ claim t ran =>
      rcases claim_moves constrained ran with ⟨none, _⟩ | ⟨taken, r, same, moved⟩
      · cases none
      · cases same
        have changes : Changes encoding w.tables t :=
          Relation.ReflTransGen.single (Change.moved _ _ r _ _ moved fun other state same => by cases same)
        refine ⟨changes, fun other handed => ?_, fun entry member => Or.inl member⟩
        rcases List.mem_cons.mp handed with rfl | before
        · refine Or.inr ⟨?_, _, moved.replaced.mem_after, ?_, ?_⟩
          · have row := moved.row
            have watermark := moved.watermark
            change other.leaseUntil ≤ t.watermark + jobLeaseMillis
            cases row with
            | claim _ _ id scope due fence lease exhausted => omega
          · have row := moved.row
            cases row with
            | claim _ _ id scope due fence lease exhausted => exact id.symm
          · exact le_refl _
        · exact Or.inl before
  | unclaimed deployment skipped _ found t ran =>
      refine Progress.of_changes ?_ rfl rfl
      rcases claim_moves constrained ran with ⟨_, jobs, watermark, _⟩ | ⟨taken, r, _, moved⟩
      · exact Relation.ReflTransGen.single (Change.kept _ jobs (le_of_eq watermark.symm))
      · exact Relation.ReflTransGen.single (Change.moved _ _ r _ _ moved fun other state same => by cases same)
  | locked claim _ sampleTime validate job execution t handed sampled ran =>
      have timely := (tracked.claims claim handed).taken
      refine ⟨(lockExecution_moves constrained sampled ran).changes timely, fun other held => Or.inl held,
        fun entry member => ?_⟩
      rcases List.mem_cons.mp member with rfl | before
      · exact Or.inr timely
      · exact Or.inl before
  | attempted claim scheduled _ validate outcome attempt t handed ran =>
      have timely := (tracked.claims claim handed).taken
      have changes := attemptJob_changes constrained timely ran
      split
      · exact Progress.of_changes changes rfl rfl
      · exact Progress.of_changes changes rfl rfl
  | succeeded verified _ validate t handed ran =>
      have timely := (tracked.claims verified.claim handed).taken
      exact Progress.of_changes (succeed_changes constrained timely ran) rfl rfl
  | failed claim failure _ now validate result t handed ran =>
      have timely := tracked.admitted (claim, now) handed
      exact Progress.of_changes ((fail_moves constrained ran).changes timely) rfl rfl
  | command command _ t ran => exact Progress.of_changes (Command.changes constrained ran) rfl rfl
  | reconcile request _ grant id t ran =>
      exact Progress.of_changes (reconcileJob_changes constrained ran) rfl rfl
  | receive receipts _ =>
      exact Progress.of_changes (Relation.ReflTransGen.single (Change.kept _ rfl (le_refl _))) rfl rfl
  | maintain observed _ bounded =>
      exact Progress.of_changes (Relation.ReflTransGen.single (Change.kept _ rfl (le_refl _))) rfl rfl
  | tick _ wall later =>
      exact Progress.of_changes (Relation.ReflTransGen.single (Change.kept _ rfl later)) rfl rfl

theorem Tracked.progress (h : Tracked encoding w) (progress : Progress encoding w w') :
    Tracked encoding w' := by
  refine ⟨progress.changes.constrained h.constrained, progress.changes.sound h.constrained h.rows,
    fun claim handed => ?_, fun entry member => ?_⟩
  · rcases progress.claims claim handed with before | tracked
    · exact (h.claims claim before).later progress.changes progress.changes.watermark
    · exact tracked
  · rcases progress.admitted entry member with before | timely
    · exact h.admitted entry before
    · exact timely

theorem tracked_invariant (rule : World → Operation → Prop) :
    (allowing encoding rule).Invariant (Tracked encoding) where
  initial w fresh := by
    refine ⟨?_, fun r member => ?_, fun claim handed => ?_, fun entry member => ?_⟩
    · rw [fresh.jobs]
      exact ⟨List.nodup_nil, List.nodup_nil, fun r member => by cases member⟩
    · rw [fresh.jobs] at member
      cases member
    · rw [fresh.claims] at handed
      cases handed
    · rw [fresh.admitted] at member
      cases member
  step w w' _ h step := by
    rcases step with ⟨operation, _, step⟩
    exact h.progress (step.progress h)

/-- Every row of a reachable world has a later version in every later world. -/
theorem run_evolves {rule : World → Operation → Prop} {later : World}
    (reachable : (allowing encoding rule).Reachable w) (run : (allowing encoding rule).Run w later) :
    ∀ r ∈ w.tables.jobs, ∃ r' ∈ later.tables.jobs, Evolves r r' := by
  induction run with
  | refl => exact fun r member => ⟨r, member, Evolves.refl r⟩
  | tail before step ih =>
      intro r member
      rcases ih r member with ⟨middle, here, evolves⟩
      rcases step with ⟨operation, _, step⟩
      have tracked := (tracked_invariant rule).holds (reachable.run before)
      rcases (step.progress tracked).changes.evolves here with ⟨last, there, further⟩
      exact ⟨last, there, evolves.trans further⟩

end Tracked

end Noxide.Jobs
