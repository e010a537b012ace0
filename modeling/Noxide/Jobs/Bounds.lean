import Noxide.Jobs.Fencing
import Noxide.Jobs.Frames

/-!
# Queue bounds

How many rows of the queue are active and how many of them run.  A row becomes active only by
its admission, which counts the active rows first, and starts to run only by a claim, which
counts the running ones.  Rows are never deleted and never become active again, so that every
active row was admitted when no more rows before it were active than its limits allowed.

Main results:

- Theorem {lit}`Work.bounded` and {lit}`Approval.bounded`: every transaction keeps the bounds.
- Theorem {lit}`queue_bounded`: the bounds in every interleaving, under changing limits.
-/

namespace Noxide.Jobs

open Checked

/-! ## Limits and counts -/

/-- The limits in force. -/
structure QueueLimits where
  pending : Int
  tenant : Int
  concurrency : Int
  deriving DecidableEq, Repr

/-- The column checks of {lit}`nx_job_runtime` on its limits. -/
structure QueueLimits.Checked (limits : QueueLimits) : Prop where
  pending : 1 ≤ limits.pending ∧ limits.pending ≤ maxPendingJobs
  tenant : 1 ≤ limits.tenant ∧ limits.tenant ≤ limits.pending
  concurrency : 1 ≤ limits.concurrency ∧ limits.concurrency ≤ maxWorkersPerApp

def JobRuntimeRow.limits (row : JobRuntimeRow) : QueueLimits :=
  ⟨row.pendingLimit, row.tenantLimit, row.concurrency⟩

def JobTables.limits (t : JobTables) : Option QueueLimits := t.runtime.map JobRuntimeRow.limits

/-- The pending, running and paused rows. -/
def JobTables.active (t : JobTables) : List JobRow := t.jobs.filter (·.isActive)

def JobTables.activeOf (t : JobTables) (tenant : String) : List JobRow :=
  t.active.filter fun row => row.tenant = tenant

def JobTables.running (t : JobTables) : List JobRow := t.jobs.filter fun row => row.state = .running

/-! ## What a transaction does to the counts -/

/-- A row that does not become active. -/
structure Keeps (r r' : JobRow) : Prop where
  id : r'.id = r.id
  tenant : r'.tenant = r.tenant
  active : r'.isActive = true → r.isActive = true

/-- One change under constant limits: rows that stay, of which more run only where there is
capacity, or an admission within the quotas. -/
inductive Shift (t t' : JobTables) : Prop where
  | kept (rows : List.Forall₂ Keeps t.jobs t'.jobs) (limits : t'.limits = t.limits)
      (capacity : t'.running.length ≤ t.running.length
        ∨ ∃ l, t.limits = some l ∧ l.concurrency ≤ maxWorkersPerApp
          ∧ (t'.running.length : Int) ≤ l.concurrency) : Shift t t'
  | admitted (row : JobRow) (jobs : t'.jobs = t.jobs ++ [row]) (limits : t'.limits = t.limits)
      (pending : row.state = .pending) (l : QueueLimits) (here : t.limits = some l)
      (valid : l.pending ≤ maxPendingJobs) (quota : (t.active.length : Int) < l.pending)
      (tenant : ((t.activeOf row.tenant).length : Int) < l.tenant) : Shift t t'

/-- What a transaction does under constant limits. -/
def Work : JobTables → JobTables → Prop := Relation.ReflTransGen Shift

/-- A change of the limits stops every running row. -/
structure Approval (t t' : JobTables) : Prop where
  rows : List.Forall₂ Keeps t.jobs t'.jobs
  valid : ∃ l, t'.limits = some l ∧ 1 ≤ l.concurrency
  stopped : t'.running = []

/-! ## The bounds -/

/-- The bounds of the queue, where {lit}`known` says which limits were in force since a row was
admitted. -/
structure Bounded (t : JobTables) (known : String → QueueLimits → Prop) : Prop where
  installed : t.limits = none → t.jobs = []
  running : ∀ l, t.limits = some l → (t.running.length : Int) ≤ l.concurrency
  few : (t.running.length : Int) ≤ maxWorkersPerApp
  admitted : ∀ before r after, t.jobs = before ++ r :: after → r.isActive = true →
    ∃ l, known r.id l ∧ l.pending ≤ maxPendingJobs
      ∧ ((before.filter (·.isActive)).length : Int) < l.pending
      ∧ (((before.filter (·.isActive)).filter fun row => row.tenant = r.tenant).length : Int) < l.tenant

section Bounds

variable {t t' : JobTables} {known : String → QueueLimits → Prop}

theorem Keeps.refl (r : JobRow) : Keeps r r := ⟨rfl, rfl, fun active => active⟩

/-- Where every row that counts afterwards counted before, no more rows count. -/
theorem count_le {related : JobRow → JobRow → Prop} {p : JobRow → Bool}
    (kept : ∀ r r', related r r' → p r' = true → p r = true)
    {rows rows' : List JobRow} (h : List.Forall₂ related rows rows') :
    (rows'.filter p).length ≤ (rows.filter p).length := by
  induction h with
  | nil => exact le_refl _
  | @cons r r' rest rest' first _ ih =>
      by_cases counted : p r' = true
      · rw [List.filter_cons_of_pos counted, List.filter_cons_of_pos (kept r r' first counted)]
        simpa using ih
      · rw [List.filter_cons_of_neg counted]
        refine ih.trans ?_
        rw [List.filter_cons]
        split <;> simp

theorem keeps_active {rows rows' : List JobRow} (h : List.Forall₂ Keeps rows rows') :
    (rows'.filter (·.isActive)).length ≤ (rows.filter (·.isActive)).length :=
  count_le (fun _ _ kept => kept.active) h

theorem keeps_tenant {rows rows' : List JobRow} (tenant : String) (h : List.Forall₂ Keeps rows rows') :
    ((rows'.filter (·.isActive)).filter fun row => row.tenant = tenant).length
      ≤ ((rows.filter (·.isActive)).filter fun row => row.tenant = tenant).length := by
  rw [List.filter_filter, List.filter_filter]
  refine count_le (fun r r' kept counted => ?_) h
  rw [Bool.and_eq_true, decide_eq_true_eq] at counted ⊢
  exact ⟨kept.tenant.symm.trans counted.1, kept.active counted.2⟩

/-- Rows that stay were all admitted under the same limits. -/
theorem Bounded.keeps (bounded : Bounded t known) (rows : List.Forall₂ Keeps t.jobs t'.jobs)
    (before : List JobRow) (r : JobRow) (after : List JobRow) (split : t'.jobs = before ++ r :: after)
    (active : r.isActive = true) :
    ∃ l, known r.id l ∧ l.pending ≤ maxPendingJobs
      ∧ ((before.filter (·.isActive)).length : Int) < l.pending
      ∧ (((before.filter (·.isActive)).filter fun row => row.tenant = r.tenant).length : Int) < l.tenant := by
  rw [split] at rows
  have front := List.forall₂_take_append t.jobs before (r :: after) rows
  have back := List.forall₂_drop_append t.jobs before (r :: after) rows
  cases rest : t.jobs.drop before.length with
  | nil =>
      rw [rest] at back
      cases back
  | cons old later =>
      rw [rest] at back
      rcases List.forall₂_cons.mp back with ⟨first, _⟩
      have whole : t.jobs = t.jobs.take before.length ++ old :: later := by
        rw [← rest, List.take_append_drop]
      rcases bounded.admitted _ old later whole (first.active active) with ⟨l, here, valid, quota, tenant⟩
      have fewer := keeps_active front
      have fewer_here := keeps_tenant r.tenant front
      rw [← first.tenant] at tenant
      exact ⟨l, first.id ▸ here, valid, by omega, by omega⟩

theorem Shift.bounded (shift : Shift t t') (bounded : Bounded t known)
    (now : ∀ id l, t.limits = some l → known id l) : Bounded t' known := by
  cases shift with
  | kept rows limits capacity =>
      constructor
      · intro missing
        rw [limits] at missing
        have none_left := bounded.installed missing
        rw [none_left] at rows
        exact List.forall₂_nil_left_iff.mp rows
      · intro l here
        rw [limits] at here
        have held := bounded.running l here
        rcases capacity with fewer | ⟨l', here', _, room⟩
        · omega
        · rw [here] at here'
          cases here'
          exact room
      · have held := bounded.few
        rcases capacity with fewer | ⟨l', _, valid, room⟩
        · omega
        · omega
      · exact bounded.keeps rows
  | admitted row jobs limits pending l here valid quota tenant =>
      have active : row.isActive = true := by rw [JobRow.isActive, pending]
      have running : t'.running = t.running := by
        rw [JobTables.running, jobs, List.filter_append, List.filter_cons_of_neg (by simp [pending]),
          List.filter_nil, List.append_nil, JobTables.running]
      constructor
      · intro missing
        rw [limits, here] at missing
        cases missing
      · rw [limits, running]
        exact bounded.running
      · rw [running]
        exact bounded.few
      · intro before r after split chosen
        rw [jobs] at split
        rcases List.append_eq_append_iff.mp split with ⟨middle, front, back⟩ | ⟨middle, front, back⟩
        · cases middle with
          | nil =>
              rw [List.append_nil] at front
              rw [List.nil_append] at back
              cases back
              subst front
              exact ⟨l, now _ l here, valid, quota, tenant⟩
          | cons x rest =>
              rw [List.cons_append, List.cons.injEq] at back
              have impossible := congrArg List.length back.2
              simp at impossible
        · cases middle with
          | nil =>
              rw [List.append_nil] at front
              rw [List.nil_append] at back
              cases back
              subst front
              exact ⟨l, now _ l here, valid, quota, tenant⟩
          | cons x rest =>
              rw [List.cons_append] at back
              cases back
              exact bounded.admitted before r rest front chosen

/-- A transaction under constant limits keeps the bounds, and the limits. -/
theorem Work.bounded (work : Work t t') (bounded : Bounded t known)
    (now : ∀ id l, t.limits = some l → known id l) : Bounded t' known ∧ t'.limits = t.limits := by
  induction work with
  | refl => exact ⟨bounded, rfl⟩
  | tail _ last ih =>
      rcases ih with ⟨before, limits⟩
      refine ⟨last.bounded before fun id l here => now id l (limits ▸ here), ?_⟩
      cases last with
      | kept _ same _ => exact same.trans limits
      | admitted _ _ same _ _ _ _ _ _ => exact same.trans limits

theorem Approval.bounded (approval : Approval t t') (bounded : Bounded t known) : Bounded t' known := by
  rcases approval.valid with ⟨l, here, valid⟩
  constructor
  · intro missing
    rw [here] at missing
    cases missing
  · intro l' here'
    rw [here] at here'
    cases here'
    rw [approval.stopped, List.length_nil]
    omega
  · rw [approval.stopped]
    decide
  · exact bounded.keeps approval.rows

end Bounds

/-! ## Rows that stay -/

section Rows

variable {t t' : JobTables} {r r' : JobRow} {now : Int} {move : Move}

theorem RowMove.keeps (h : RowMove now move r r') : Keeps r r' := by
  cases h with
  | claim claim _ id scope due fence lease exhausted =>
      refine ⟨rfl, rfl, fun _ => ?_⟩
      rcases due with ⟨pending, _⟩ | ⟨running, _⟩
      · rw [JobRow.isActive, pending]
      · rw [JobRow.isActive, running]
  | finish claim _ state reason eligible current running stopped later retried =>
      exact ⟨rfl, rfl, fun _ => by rw [JobRow.isActive, running]⟩
  | reject _ reason unsettled => exact ⟨rfl, rfl, fun active => by cases active⟩

theorem Moved.keeps (h : Moved now move r r' t t') : List.Forall₂ Keeps t.jobs t'.jobs := by
  have row := h.row.keeps
  rcases h with ⟨_, replaced, _, _, _, _⟩
  generalize t.jobs = rows at replaced
  generalize t'.jobs = rows' at replaced
  cases replaced with
  | here front back =>
      have same : ∀ part : List JobRow, List.Forall₂ Keeps part part := fun part =>
        List.forall₂_same.mpr fun x _ => Keeps.refl x
      exact List.rel_append (same front) (List.Forall₂.cons row (same back))

/-- A move changes the number of running rows by the row it moves. -/
theorem Moved.running (h : Moved now move r r' t t') :
    t'.running.length + (if r.state = .running then 1 else 0)
      = t.running.length + if r'.state = .running then 1 else 0 := by
  rcases h with ⟨_, replaced, _, _, _, _⟩
  unfold JobTables.running
  generalize t.jobs = rows at replaced
  generalize t'.jobs = rows' at replaced
  cases replaced with
  | here front back =>
      simp only [List.filter_append, List.length_append, List.filter_cons, decide_eq_true_eq]
      split <;> split <;> simp only [List.length_cons] <;> omega

theorem Paused.keeps (h : Paused r r') : Keeps r r' := by
  cases h with
  | same => exact Keeps.refl r
  | paused reason pausable =>
      have claimable : r.state = .pending ∨ r.state = .running := by
        cases state : r.state <;> simp [JobRow.pausable, state] at pausable ⊢
      refine ⟨rfl, rfl, fun _ => ?_⟩
      rcases claimable with pending | running
      · rw [JobRow.isActive, pending]
      · rw [JobRow.isActive, running]

/-- What runs after pauses ran before. -/
theorem Pauses.running (h : Pauses t t') : t'.running.length ≤ t.running.length := by
  refine count_le (fun r r' (paused : Paused r r') running => ?_) h.rows
  cases paused with
  | same => exact running
  | paused reason pausable => cases running

theorem Pauses.shift (h : Pauses t t') (limits : t'.limits = t.limits) : Shift t t' :=
  .kept (h.rows.imp fun _ _ paused => paused.keeps) limits (.inl h.running)

/-- The end of a claim and a rejection leave no row running that did not run. -/
theorem Moved.shift (h : Moved now move r r' t t') (stopped : r'.state ≠ .running)
    (limits : t'.limits = t.limits) : Shift t t' := by
  have running := h.running
  rw [if_neg stopped] at running
  exact .kept h.keeps limits (.inl (by omega))

theorem Shift.of_jobs (jobs : t'.jobs = t.jobs) (limits : t'.limits = t.limits) : Shift t t' := by
  refine .kept ?_ limits (.inl (by rw [JobTables.running, JobTables.running, jobs]))
  rw [jobs]
  exact List.forall₂_same.mpr fun x _ => Keeps.refl x

end Rows

/-! ## Transactions -/

section Transactions

variable {encoding : Encoding} {t t' : JobTables} {claim : JobClaim} {now : Int}

theorem OnlyJobs.limits (h : OnlyJobs t t') : t'.limits = t.limits := by
  rw [JobTables.limits, h.runtime, JobTables.limits]

theorem OnlyGrants.limits (h : OnlyGrants t t') : t'.limits = t.limits := by
  rw [JobTables.limits, h.runtime, JobTables.limits]

/-- A rejection by the operator leaves no row running that did not run. -/
theorem reject_shift {condition : JobRow → Bool} {reason : String} {n : Nat}
    (h : updateJobs condition (·.reject reason) t = .ok (n, t')) : Shift t t' := by
  have limits := (updateJobs_onlyJobs h).limits
  rcases updateJobs_ok.mp h with ⟨_, _, same⟩
  have jobs : t'.jobs = t.jobs.map fun row => if condition row then row.reject reason else row := by
    rw [same]
    rfl
  have related : List.Forall₂ (fun r r' : JobRow => r' = r ∨ r' = r.reject reason) t.jobs t'.jobs := by
    rw [jobs, List.forall₂_map_right_iff, List.forall₂_same]
    intro r _
    split
    · exact .inr rfl
    · exact .inl rfl
  refine .kept (related.imp fun r r' stays => ?_) limits (.inl ?_)
  · rcases stays with rfl | rfl
    · exact Keeps.refl r'
    · exact ⟨rfl, rfl, fun active => by cases active⟩
  · refine count_le (fun r r' stays running => ?_) related
    rcases stays with rfl | rfl
    · exact running
    · cases running

/-- The end of a claim. -/
theorem Finishing.work (h : Finishing claim now t t') (limits : t'.limits = t.limits) : Work t t' := by
  cases h with
  | unchanged => exact Relation.ReflTransGen.refl
  | finished r state reason eligible _ moved receipt =>
      have stopped : (r.finished state reason eligible).state ≠ .running := by
        have row := moved.row
        cases row with
        | finish _ _ _ _ _ current running stopped later retried => exact stopped
      exact Relation.ReflTransGen.single (moved.shift stopped limits)

theorem Locked.work {execution : Execution} (h : Locked claim now t execution t')
    (limits : t'.limits = t.limits) : Work t t' := by
  cases h with
  | finishing _ _ ends done => exact ends.work limits
  | ready r grant member current running live unreceipted => exact Relation.ReflTransGen.refl

theorem succeed_work {verified : VerifiedJob} {validate : String → Result Unit}
    (constrained : Constrained t.jobs) (h : succeed encoding verified validate t = .ok t') : Work t t' := by
  rcases succeed_moves 0 constrained h with ⟨r, reason, eligible, _, _, moved⟩
  exact Relation.ReflTransGen.single (moved.shift (by simp [JobRow.finished]) (succeed_onlyJobs h).limits)

/-- The limits that admission and claims check are the ones in force. -/
theorem runtimeSnapshot_limits {scope : JobScope} {runtime : RuntimeSnapshot}
    (h : runtimeSnapshot scope t = .ok runtime) :
    t.limits = some ⟨runtime.pendingLimit, runtime.tenantLimit, runtime.concurrency⟩
      ∧ runtime.pendingLimit ≤ maxPendingJobs ∧ runtime.concurrency ≤ maxWorkersPerApp := by
  simp only [runtimeSnapshot, boundedInteger, jobInteger, check, need, bind_eq_ok, context_eq_ok,
    integerColumn_ok, ensure_eq_ok] at h
  rcases h with ⟨row, current, pending, ⟨_, ⟨_, rfl⟩, _, _, first⟩, tenant, ⟨_, ⟨_, rfl⟩, _, _, second⟩,
    concurrency, ⟨_, ⟨_, rfl⟩, _, _, third⟩, _, valid, h⟩
  cases first
  cases second
  cases third
  cases h
  have here : t.runtime = some row := (Option.filter_eq_some_iff.mp current).1
  exact ⟨by rw [JobTables.limits, here]; rfl, valid.1.2, valid.2.2.2⟩

/-- The bounded counts that admission reads are exact below the quotas. -/
theorem withinQuota_exact {tenant : String} {pendingLimit tenantLimit : Int} {u : Unit}
    (valid : pendingLimit ≤ maxPendingJobs) (h : withinQuota tenant pendingLimit tenantLimit t = .ok u) :
    (t.active.length : Int) < pendingLimit ∧ ((t.activeOf tenant).length : Int) < tenantLimit := by
  change check "job queue full" ((((t.active.take 1001).length : Nat) : Int) < pendingLimit
    ∧ (((t.active.take 1001).countP fun row => row.tenant = tenant : Nat) : Int) < tenantLimit) = .ok u at h
  rw [check, ensure_eq_ok] at h
  have whole : t.active.take 1001 = t.active := by
    refine List.take_of_length_le ?_
    by_contra more
    have counted := h.1
    rw [List.length_take, Nat.min_eq_left (by omega)] at counted
    unfold maxPendingJobs at valid
    omega
  rw [whole, List.countP_eq_length_filter] at h
  exact h

/-- An admission counts the active rows before it adds one. -/
theorem enqueue_shift {job : CapturedJob} {tenantLimit : Int} {inserted : Bool}
    (h : enqueue encoding job now tenantLimit t = .ok (inserted, t')) :
    t' = t ∨ inserted = true ∧ Shift t t' := by
  simp only [enqueue, bind_eq_ok] at h
  rcases h with ⟨_, _, _, _, horizon, _, _, _, runtime, snapshot, _, _, _, _, ⟨grant, state⟩, _, _, _, _, _, h⟩
  rcases runtimeSnapshot_limits snapshot with ⟨limits, pending, _⟩
  cases found : t.jobs.find? fun row => row.id = job.id encoding with
  | some stored =>
      rw [found] at h
      simp only [bind_eq_ok] at h
      rcases h with ⟨_, _, h⟩
      cases h
      exact .inl rfl
  | none =>
      rw [found] at h
      simp only [bind_eq_ok, withJobs_ok] at h
      rcases h with ⟨_, quota, t₁, ⟨_, rfl⟩, h⟩
      cases h
      have jobs : (ensureTenant job.scope.deployment job.scope.tenant t).jobs = t.jobs :=
        (ensureTenant_frame job.scope.deployment job.scope.tenant t).1
      have same_limits : (ensureTenant job.scope.deployment job.scope.tenant t).limits = t.limits := by
        unfold ensureTenant
        split <;> rfl
      rcases withinQuota_exact pending quota with ⟨room, tenant⟩
      refine .inr ⟨rfl, .admitted (job.row encoding now) ?_ same_limits rfl _ limits pending room ?_⟩
      · rw [← jobs]
      · exact lt_of_lt_of_le tenant (min_le_right _ _)

/-- A claim of a pending row counts the running rows before it adds one. -/
theorem claim_shift {deployment : String} {skipped : List String} {found : Option JobClaim}
    (constrained : Constrained t.jobs) (h : Jobs.claim deployment now skipped t = .ok (found, t')) :
    Shift t t' := by
  have moves := claim_moves constrained h
  simp only [Jobs.claim, bind_eq_ok] at h
  rcases h with ⟨_, _, runtime, snapshot, _, _, t₁, advanced, h⟩
  rcases runtimeSnapshot_limits snapshot with ⟨limits, _, workers⟩
  have jobs := (advanceClaims_ok advanced).1
  have same_limits : t₁.limits = t.limits := by
    simp only [advanceClaims, bind_eq_ok] at advanced
    rcases advanced with ⟨sequence, _, row, _, advanced⟩
    cases advanced
    rfl
  cases next : nextClaimable deployment now
      (decide ((((t₁.jobs.filter fun row => row.state = .running).take 3).length : Int)
        < runtime.concurrency)) skipped t₁ with
  | none =>
      rw [next] at h
      cases h
      exact Shift.of_jobs jobs same_limits
  | some row =>
      rw [next] at h
      simp only [check, bind_eq_ok, jobInteger, integerColumn_ok, ensure_eq_ok, laterBy_ok] at h
      rcases h with ⟨_, ⟨_, rfl⟩, _, _, _, ⟨_, rfl⟩, _, _, _, ⟨_, _, rfl⟩, ⟨changed, t₂⟩, updated, _, one, h⟩
      cases h
      have after : t₂.limits = t.limits := (updateJobs_onlyJobs updated).limits.trans same_limits
      rcases nextClaimable_some next with ⟨member, claimable⟩
      rcases moves with ⟨none, _⟩ | ⟨taken, r, same, moved⟩
      · cases none
      · cases same
        have running := moved.running
        simp only [JobRow.claimed, if_true] at running
        have named : r.id = row.id := by
          have moves_it := moved.row
          cases moves_it with
          | claim _ _ id scope due fence lease exhausted => exact id.symm
        have chosen : r = row := same_row constrained moved.replaced.mem_before (jobs ▸ member) named
        subst chosen
        refine .kept moved.keeps after ?_
        simp only [JobRow.claimable, decide_eq_true_eq] at claimable
        rcases claimable.2 with ⟨runs, _⟩ | ⟨pending, _, capacity⟩
        · rw [if_pos runs] at running
          have same_count : (recordTenantClaim deployment r.tenant t₂).running.length = t.running.length := by
            omega
          exact .inl (le_of_eq same_count)
        · refine .inr ⟨_, limits, workers, ?_⟩
          rw [if_neg (by simp [pending])] at running
          have counted : ((t.running.take 3).length : Int) < runtime.concurrency := by
            rw [jobs] at capacity
            exact capacity
          rw [List.length_take] at counted
          unfold maxWorkersPerApp at workers
          have grown : (recordTenantClaim deployment r.tenant t₂).running.length = t.running.length + 1 := by
            omega
          change ((recordTenantClaim deployment r.tenant t₂).running.length : Int) ≤ runtime.concurrency
          rw [grown]
          push_cast
          omega

theorem enqueueJobs_work {jobs : List CapturedJob} (h : enqueueJobs encoding now jobs t = .ok t') :
    Work t t' := by
  induction jobs generalizing t with
  | nil =>
      cases h
      exact Relation.ReflTransGen.refl
  | cons job rest ih =>
      rcases bind_eq_ok.mp h with ⟨⟨inserted, t₁⟩, admitted, others⟩
      rcases enqueue_shift admitted with rfl | ⟨_, shift⟩
      · exact ih others
      · exact Relation.ReflTransGen.head shift (ih others)

theorem attemptJob_work {validate : CapturedJob → String → Result Unit} {outcome : String}
    {scheduled : List CapturedJob} {attempt : Attempt} (constrained : Constrained t.jobs)
    (timely : claim.leaseUntil ≤ now + jobLeaseMillis)
    (h : attemptJob encoding claim now validate outcome scheduled t = .ok (attempt, t')) : Work t t' := by
  simp only [attemptJob, bind_eq_ok] at h
  rcases h with ⟨⟨job, execution, t₁⟩, locks, h⟩
  have locked := lockExecution_moves constrained (fun time same => (by cases same; rfl)) locks
  have first := locked.work (lockExecution_onlyJobs locks).limits
  have constrained₁ := (locked.changes timely : Changes encoding t t₁).constrained constrained
  cases execution with
  | recovered outcome =>
      cases h
      exact first
  | paused =>
      cases h
      exact first
  | dead =>
      cases h
      exact first
  | ready verified =>
      simp only at h
      split at h
      · simp only [bind_eq_ok] at h
        rcases h with ⟨stored, _, _, _, t₂, completed, h⟩
        cases h
        exact first.trans (succeed_work constrained₁ completed)
      · simp only [bind_eq_ok] at h
        rcases h with ⟨t₂, schedules, _, _, t₃, completed, h⟩
        cases h
        have claimed : Work t { t₁ with receipts := (t₁.receipts.claim (job.receiptRow encoding)).2 } :=
          first.tail (Shift.of_jobs rfl rfl)
        have middle := claimed.trans (enqueueJobs_work schedules)
        have constrained₂ := (enqueueJobs_changes schedules).constrained constrained₁
        have written : Work t { t₂ with receipts := t₂.receipts.setOutcome outcome (job.id encoding) } :=
          middle.tail (Shift.of_jobs rfl rfl)
        exact written.trans (succeed_work constrained₂ completed)

/-- What is written to the runtime row besides its limits. -/
theorem limits_map {change : JobRuntimeRow → JobRuntimeRow}
    (same : ∀ row : JobRuntimeRow, (change row).limits = row.limits) :
    (t.runtime.map change).map JobRuntimeRow.limits = t.limits := by
  rw [Option.map_map, JobTables.limits]
  congr 1
  funext row
  exact same row

/-- A pause of every row leaves none running. -/
theorem pauseJobs_stops {reason : String} (h : pauseJobs (fun _ => true) reason t = .ok t') :
    t'.running = [] := by
  simp only [pauseJobs, bind_eq_ok] at h
  rcases h with ⟨⟨changed, t₁⟩, updated, h⟩
  cases h
  rcases updateJobs_ok.mp updated with ⟨_, _, rfl⟩
  rw [JobTables.running, List.filter_eq_nil_iff]
  intro row member
  rcases List.mem_map.mp member with ⟨old, _, rfl⟩
  simp only [Bool.true_and, decide_eq_true_eq]
  split
  · simp [JobRow.pause]
  · rename_i stays
    intro running
    simp [JobRow.pausable, running] at stays

/-- A changed approval stops every running row and installs its limits. -/
theorem changeApproval_cases {changed : Bool} {runtime : JobRuntimeRow}
    (h : changeApproval changed runtime t = .ok t') :
    t'.running = [] ∧ t'.limits = some runtime.limits ∨ t' = t := by
  cases changed with
  | false =>
      cases h
      exact .inr rfl
  | true =>
      rcases bind_eq_ok.mp h with ⟨t₁, paused, written⟩
      have stopped : t₁.running = [] := pauseJobs_stops paused
      cases written
      exact .inl ⟨stopped, rfl⟩

/-- An activation keeps the limits, or stops every running row. -/
theorem activateJobs_change {generation contract first second : String}
    {effective : Option EffectiveJobDeployment} {effectsEnabled : Bool} (constrained : Constrained t.jobs)
    (installed : t.limits = none → t.jobs = [])
    (h : activateJobs generation contract first second effective effectsEnabled t = .ok t') :
    Work t t' ∨ Approval t t' := by
  have pauses := activateJobs_pauses constrained h
  have keeps : List.Forall₂ Keeps t.jobs t'.jobs := pauses.rows.imp fun _ _ paused => paused.keeps
  simp only [activateJobs, bind_eq_ok] at h
  rcases h with ⟨_, _, _, valid, _, _, t₁, approved, h⟩
  have workers : 1 ≤ ((effective.map (·.limits)).getD JobLimits.default).workerConcurrency := by
    rw [JobLimits.validate, check, ensure_eq_ok] at valid
    exact valid.2.2.1
  have after : t'.limits = t₁.limits ∧ t'.running = t₁.running := by
    cases effective with
    | none =>
        cases h
        exact ⟨rfl, rfl⟩
    | some effective =>
        have limits := (installGrants_onlyGrants h).limits
        rcases installGrants_frame h with ⟨jobs, _, _⟩
        exact ⟨limits, by rw [JobTables.running, jobs, JobTables.running]⟩
  rcases changeApproval_cases approved with ⟨stopped, written⟩ | rfl
  · exact .inr ⟨keeps, ⟨_, after.1.trans written, workers⟩, after.2.trans stopped⟩
  · cases runtime : t.runtime with
    | some old =>
        refine .inl (Relation.ReflTransGen.single (pauses.shift (after.1.trans ?_)))
        rw [JobTables.limits, JobTables.limits, runtime]
        rfl
    | none =>
        have written := after.1
        rw [runtime] at written
        have empty : t'.jobs = [] := by
          rw [installed (by rw [JobTables.limits, runtime]; rfl)] at keeps
          exact List.forall₂_nil_left_iff.mp keeps
        exact .inr ⟨keeps, ⟨_, written, workers⟩, by rw [JobTables.running, empty]; rfl⟩

theorem applyJobFork_work {generation epoch : String} (h : applyJobFork generation epoch t = .ok t') :
    Work t t' :=
  Relation.ReflTransGen.single ((applyJobFork_pauses h).shift
    ((pauseJobs_onlyJobs h).limits.trans (limits_map fun _ => rfl)))

theorem Command.change {command : Command} (constrained : Constrained t.jobs)
    (installed : t.limits = none → t.jobs = []) (h : command.run t = .ok t') : Work t t' ∨ Approval t t' := by
  cases command with
  | cancel generation id =>
      have run : cancelJob generation id t = .ok t' := h
      simp only [cancelJob, bind_eq_ok] at run
      rcases run with ⟨_, _, _, _, ⟨changed, t₁⟩, updated, _, _, run⟩
      cases run
      exact .inl (Relation.ReflTransGen.single (reject_shift updated))
  | revoke generation tenant worker =>
      have run : revokeJobGrant generation tenant worker t = .ok t' := h
      simp only [revokeJobGrant, bind_eq_ok] at run
      rcases run with ⟨_, _, _, _, _, _, _, _, run⟩
      have limits := (pauseJobs_onlyJobs run).limits
      exact .inl (Relation.ReflTransGen.single ((revokeJobGrant_pauses h).shift limits))
  | grant generation contract approved =>
      have run : grantJobService generation contract approved t = .ok t' := h
      simp only [grantJobService, bind_eq_ok] at run
      rcases run with ⟨_, _, _, _, _, _, _, _, _, _, _, _, _, _, t₁, paused, run⟩
      cases run
      have limits := (pauseJobs_onlyJobs paused).limits
      exact .inl (Relation.ReflTransGen.single ((grantJobService_pauses h).shift
        ((@limits_map t₁ (setRuntimeState .active) fun _ => rfl).trans limits)))
  | activate generation contract first second effective effectsEnabled =>
      exact activateJobs_change constrained installed h
  | fork generation epoch =>
      have run : forkJobRuntime generation epoch t = .ok t' := h
      simp only [forkJobRuntime, bind_eq_ok] at run
      rcases run with ⟨_, _, run⟩
      exact .inl (applyJobFork_work run)
  | restoreFork generation epoch => exact .inl (applyJobFork_work h)
  | recoverClock epoch generation =>
      have run : Jobs.recoverClock epoch generation t = .ok t' := h
      simp only [Jobs.recoverClock, bind_eq_ok] at run
      rcases run with ⟨_, _, t₁, paused, run⟩
      cases run
      exact .inl (Relation.ReflTransGen.single ((recoverClock_pauses h).shift
        ((pauseJobs_onlyJobs paused).limits.trans (limits_map fun _ => rfl))))
  | deploy generation =>
      cases h
      exact .inl (Relation.ReflTransGen.single (Shift.of_jobs rfl rfl))

theorem reconcileJob_work {request : Reconciliation} {grant : Grant} {id : String}
    (h : request.run encoding now t = .ok ((grant, id), t')) :
    Work t t' := by
  simp only [Reconciliation.run, reconcileJob, bind_eq_ok] at h
  rcases h with ⟨previous, _, current, _, ⟨fresh, t₁⟩, enqueued, h⟩
  cases h
  simp only [enqueueReconciled, bind_eq_ok] at enqueued
  rcases enqueued with ⟨_, _, job, _, ⟨changed, t₂⟩, updated, ⟨inserted, t₃⟩, admitted, done⟩
  cases done
  have rejected : Work t t₂ := Relation.ReflTransGen.single (reject_shift updated)
  rcases enqueue_shift admitted with rfl | ⟨_, shift⟩
  · exact rejected
  · exact rejected.tail shift

/-- Every step keeps the limits, or stops every running row. -/
theorem Step.change {operation : Operation} {w w' : World} (tracked : Tracked encoding w)
    (installed : w.tables.limits = none → w.tables.jobs = []) (h : Step encoding operation w w') :
    Work w.tables w'.tables ∨ Approval w.tables w'.tables := by
  have constrained := tracked.constrained
  cases h with
  | enqueue job tenantLimit _ inserted t ran =>
      rcases enqueue_shift ran with rfl | ⟨_, shift⟩
      · exact .inl Relation.ReflTransGen.refl
      · exact .inl (Relation.ReflTransGen.single shift)
  | claimed deployment skipped _ claim t ran =>
      exact .inl (Relation.ReflTransGen.single (claim_shift constrained ran))
  | unclaimed deployment skipped _ found t ran =>
      exact .inl (Relation.ReflTransGen.single (claim_shift constrained ran))
  | locked claim _ sampleTime validate job execution t handed sampled ran =>
      exact .inl ((lockExecution_moves constrained sampled ran).work (lockExecution_onlyJobs ran).limits)
  | attempted claim scheduled _ validate outcome attempt t handed ran =>
      have work := attemptJob_work constrained (tracked.claims claim handed).taken ran
      split
      · exact .inl work
      · exact .inl work
  | succeeded verified _ validate t handed ran => exact .inl (succeed_work constrained ran)
  | failed claim failure _ now validate result t handed ran =>
      exact .inl ((fail_moves constrained ran).work (fail_onlyJobs ran).limits)
  | command command _ t ran => exact Command.change constrained installed ran
  | reconcile request _ grant id t ran => exact .inl (reconcileJob_work ran)
  | receive receipts _ => exact .inl (Relation.ReflTransGen.single (Shift.of_jobs rfl rfl))
  | maintain observed _ bounded => exact .inl (Relation.ReflTransGen.single (Shift.of_jobs rfl rfl))
  | tick _ wall later => exact .inl (Relation.ReflTransGen.single (Shift.of_jobs rfl rfl))

end Transactions

/-! ## Every interleaving -/

/-- The queue, and for every job the limits that were in force since it was admitted. -/
structure Ledger where
  world : World
  since : String → List QueueLimits

/-- The limits after a step are in force for the jobs that were there and for new ones. -/
def noteLimits (t t' : JobTables) (since : String → List QueueLimits) (id : String) : List QueueLimits :=
  t'.limits.toList ++ if t.jobs.any fun row => row.id = id then since id else []

/-- The queue under every interleaving, with its limits on record. -/
def queueLedger (encoding : Encoding) : System Ledger where
  initial ledger := ledger.world.Fresh ∧ ∀ limits, ledger.world.tables.limits = some limits → limits.Checked
  step ledger next := (∃ operation, Step encoding operation ledger.world next.world)
    ∧ next.since = noteLimits ledger.world.tables next.world.tables ledger.since

/-- The bounds of the queue: on the running rows, on the active rows in total and of each tenant,
and that the bounded counting queries count every row. -/
structure Ledger.Within (ledger : Ledger) : Prop where
  running : ∀ limits, ledger.world.tables.limits = some limits →
    (ledger.world.tables.running.length : Int) ≤ limits.concurrency
  unlimited : ledger.world.tables.limits = none → ledger.world.tables.jobs = []
  total : ledger.world.tables.active = [] ∨ ∃ row ∈ ledger.world.tables.active,
    ∃ limits ∈ ledger.since row.id, (ledger.world.tables.active.length : Int) ≤ limits.pending
  tenant : ∀ tenant, ledger.world.tables.activeOf tenant = []
    ∨ ∃ row ∈ ledger.world.tables.activeOf tenant, ∃ limits ∈ ledger.since row.id,
      ((ledger.world.tables.activeOf tenant).length : Int) ≤ limits.tenant
  activeCounted : ledger.world.tables.active.take 1001 = ledger.world.tables.active
  runningCounted : ledger.world.tables.running.take 3 = ledger.world.tables.running

/-- The tables after an admission: a refusal rolls its transaction back. -/
def afterEnqueue (encoding : Encoding) (job : CapturedJob) (now tenantLimit : Int) (t : JobTables) :
    JobTables :=
  match enqueue encoding job now tenantLimit t with
  | .ok (_, t') => t'
  | .error _ => t

section Ledgers

variable {encoding : Encoding} {ledger next : Ledger} {t : JobTables} {known : String → QueueLimits → Prop}

theorem Bounded.mono {more : String → QueueLimits → Prop} (bounded : Bounded t known)
    (grows : ∀ row ∈ t.jobs, ∀ l, known row.id l → more row.id l) : Bounded t more where
  installed := bounded.installed
  running := bounded.running
  few := bounded.few
  admitted := by
    intro before r after split active
    rcases bounded.admitted before r after split active with ⟨l, here, rest⟩
    refine ⟨l, grows r ?_ l here, rest⟩
    rw [split]
    exact List.mem_append_right _ List.mem_cons_self

/-- Every step keeps the bounds, with the limits on record. -/
theorem Ledger.step (tracked : Tracked encoding ledger.world)
    (bounded : Bounded ledger.world.tables fun id l => l ∈ ledger.since id)
    (step : (queueLedger encoding).step ledger next) :
    Bounded next.world.tables fun id l => l ∈ next.since id := by
  rcases step with ⟨⟨operation, step⟩, since⟩
  have recorded : ∀ row ∈ ledger.world.tables.jobs, ∀ l ∈ ledger.since row.id, l ∈ next.since row.id := by
    intro row member l here
    rw [since, noteLimits, if_pos (List.any_eq_true.mpr ⟨row, member, by simp⟩)]
    exact List.mem_append_right _ here
  rcases step.change tracked bounded.installed with work | approval
  · -- the limits before the step are those after it, and on record for the rows it adds
    have start : Bounded ledger.world.tables fun id l => l ∈ next.since id ∨ ledger.world.tables.limits = some l :=
      bounded.mono fun row member l here => .inl (recorded row member l here)
    rcases work.bounded start fun id l here => .inr here with ⟨done, limits⟩
    refine done.mono fun row member l here => ?_
    rcases here with here | here
    · exact here
    · rw [since, noteLimits, limits, here]
      exact List.mem_append_left _ (List.mem_singleton.mpr rfl)
  · exact approval.bounded (bounded.mono recorded)

theorem last_counted {p : JobRow → Bool} {rows : List JobRow} (some_row : rows.filter p ≠ []) :
    ∃ before r after, rows = before ++ r :: after ∧ p r = true
      ∧ (rows.filter p).length = (before.filter p).length + 1 := by
  induction rows using List.reverseRecOn with
  | nil => exact absurd rfl some_row
  | append_singleton front last ih =>
      by_cases counted : p last = true
      · refine ⟨front, last, [], rfl, counted, ?_⟩
        rw [List.filter_append, List.filter_cons_of_pos counted, List.length_append]
        rfl
      · have same : (front ++ [last]).filter p = front.filter p := by
          rw [List.filter_append, List.filter_cons_of_neg counted, List.filter_nil, List.append_nil]
        rw [same] at some_row ⊢
        rcases ih some_row with ⟨before, r, after, rfl, chosen, count⟩
        exact ⟨before, r, after ++ [last], by simp, chosen, count⟩

/-- The last of the active rows was admitted when all the others were active before it. -/
theorem Bounded.total (bounded : Bounded t known) :
    t.active = [] ∨ ∃ row ∈ t.active, ∃ l, known row.id l ∧ (t.active.length : Int) ≤ l.pending
      ∧ l.pending ≤ maxPendingJobs := by
  by_cases empty : t.active = []
  · exact .inl empty
  · rcases last_counted empty with ⟨before, r, after, split, active, count⟩
    rcases bounded.admitted before r after split active with ⟨l, here, valid, quota, _⟩
    refine .inr ⟨r, List.mem_filter.mpr ⟨?_, active⟩, l, here, ?_, valid⟩
    · rw [split]
      exact List.mem_append_right _ List.mem_cons_self
    · change ((t.jobs.filter (·.isActive)).length : Int) ≤ l.pending
      omega

theorem Bounded.tenant (bounded : Bounded t known) (tenant : String) :
    t.activeOf tenant = [] ∨ ∃ row ∈ t.activeOf tenant, ∃ l, known row.id l
      ∧ ((t.activeOf tenant).length : Int) ≤ l.tenant := by
  by_cases empty : t.activeOf tenant = []
  · exact .inl empty
  · have merged : ∀ rows : List JobRow, ((rows.filter (·.isActive)).filter fun row => row.tenant = tenant)
        = rows.filter fun row => decide (row.tenant = tenant) && row.isActive := fun rows => List.filter_filter
    have whole : t.activeOf tenant = t.jobs.filter fun row => decide (row.tenant = tenant) && row.isActive :=
      merged t.jobs
    rw [whole] at empty ⊢
    rcases last_counted empty with ⟨before, r, after, split, chosen, count⟩
    have both := chosen
    rw [Bool.and_eq_true, decide_eq_true_eq] at both
    rcases bounded.admitted before r after split both.2 with ⟨l, here, _, _, quota⟩
    rw [both.1, merged] at quota
    refine .inr ⟨r, List.mem_filter.mpr ⟨?_, chosen⟩, l, here, by omega⟩
    rw [split]
    exact List.mem_append_right _ List.mem_cons_self

theorem Bounded.within (bounded : Bounded ledger.world.tables fun id l => l ∈ ledger.since id) :
    ledger.Within where
  running := bounded.running
  unlimited := bounded.installed
  total := by
    rcases bounded.total with empty | ⟨row, member, l, here, count, _⟩
    · exact .inl empty
    · exact .inr ⟨row, member, l, here, count⟩
  tenant := bounded.tenant
  activeCounted := by
    refine List.take_of_length_le ?_
    rcases bounded.total with empty | ⟨row, member, l, here, count, valid⟩
    · rw [empty]
      decide
    · unfold maxPendingJobs at valid
      omega
  runningCounted := by
    have few := bounded.few
    unfold maxWorkersPerApp at few
    exact List.take_of_length_le (by omega)

theorem ledger_reachable (reachable : (queueLedger encoding).Reachable ledger) :
    (queueSystem encoding).Reachable ledger.world := by
  rcases reachable with ⟨start, fresh, run⟩
  refine ⟨start.world, fresh.1, ?_⟩
  induction run with
  | refl => exact Relation.ReflTransGen.refl
  | tail _ last ih =>
      rcases last.1 with ⟨operation, step⟩
      exact ih.tail ⟨operation, trivial, step⟩

/-- In every interleaving, under limits that change, the queue is within its bounds; and an
admission that adds no job leaves every table as it was. -/
theorem queue_bounded (encoding : Encoding) (ledger : Ledger)
    (reachable : (queueLedger encoding).Reachable ledger) :
    ledger.Within ∧ ∀ job now tenantLimit,
      (∀ t', enqueue encoding job now tenantLimit ledger.world.tables ≠ .ok (true, t')) →
        afterEnqueue encoding job now tenantLimit ledger.world.tables = ledger.world.tables := by
  constructor
  · have invariant : (queueLedger encoding).Invariant
        fun ledger => Bounded ledger.world.tables fun id l => l ∈ ledger.since id := by
      constructor
      · rintro start ⟨fresh, valid⟩
        have empty : start.world.tables.jobs = [] := fresh.jobs
        refine ⟨fun _ => empty, fun l here => ?_, ?_, fun before r after split _ => ?_⟩
        · have positive := (valid l here).concurrency.1
          rw [JobTables.running, empty]
          change (0 : Int) ≤ l.concurrency
          omega
        · rw [JobTables.running, empty]
          decide
        · rw [empty] at split
          cases before <;> cases split
      · intro state later before bounded step
        exact Ledger.step ((tracked_invariant _).holds (ledger_reachable before)) bounded step
    exact (invariant.holds reachable).within
  · intro job now tenantLimit refused
    unfold afterEnqueue
    split
    · rename_i inserted t' ran
      cases inserted with
      | true => exact absurd ran (refused t')
      | false =>
          rcases enqueue_shift ran with rfl | ⟨impossible, _⟩
          · rfl
          · cases impossible
    · rfl

end Ledgers

/-! ## One admission -/

/-- The sample capture, admitted under the limits of its deployment. -/
def sampleLedger : Ledger where
  world := sampleStart.enqueues
  since := noteLimits sampleStart.tables sampleStart.enqueues.tables fun _ => []

theorem sampleLedger_reachable : (queueLedger sampleEncoding).Reachable sampleLedger := by
  have valid : ∀ limits, sampleStart.tables.limits = some limits → limits.Checked := by
    intro limits here
    cases here
    constructor <;> decide
  have start : (queueLedger sampleEncoding).Reachable ⟨sampleStart, fun _ => []⟩ :=
    System.Reachable.start ⟨⟨rfl, rfl, rfl, rfl, rfl⟩, valid⟩
  refine start.next ⟨?_, rfl⟩
  change ∃ operation, Step sampleEncoding operation sampleStart sampleStart.enqueues
  unfold World.enqueues
  split
  · rename_i inserted t ran
    exact ⟨_, Step.enqueue sampleJob 1000 sampleStart inserted t ran⟩
  · exact ⟨_, Step.tick sampleStart _ (le_refl _)⟩

/-- One active job, and the same capture again. -/
theorem queue_bounded_sample : sampleLedger.world.tables.active.length = 1 ∧ sampleLedger.Within
    ∧ afterEnqueue sampleEncoding sampleJob 0 1000 sampleLedger.world.tables = sampleLedger.world.tables := by
  have bounds := queue_bounded sampleEncoding sampleLedger sampleLedger_reachable
  refine ⟨by decide, bounds.1, bounds.2 sampleJob 0 1000 fun t' ran => ?_⟩
  have repeated : (enqueue sampleEncoding sampleJob 0 1000 sampleLedger.world.tables).toOption.map Prod.fst
      = some false := by decide
  rw [ran] at repeated
  cases repeated

end Noxide.Jobs
