import Noxide.Jobs.Fencing

/-!
# Job actions commit at most once

The mutations of a job, its receipt and its completion are one transaction.  So in every
state the rows that succeeded are those with a receipt, and a transaction that finds a
receipt has nothing left to do.

A reconciled job is named by its source and by the grant it was reconciled under, and a
grant of one version never changes.

Main results:

- Theorem {lit}`job_actions_commit_once`: what every interleaving of workers, failures,
  operators and maintenance keeps of mutations, receipts, rows and reconciliations.
-/

namespace Noxide.Jobs

open Checked

/-! ## The host -/

/-- The identities of captures. -/
def JobNonce (encoding : Encoding) (nonce : String) : Prop :=
  ∃ job : CapturedJob, job.id encoding = nonce

/-- The host completes a job only in the attempt that wrote its receipt, and every other
transaction writes receipts of submission tokens, which are no identities of captures. -/
def hostRule (encoding : Encoding) (w : World) : Operation → Prop
  | .succeed _ => False
  | .receive receipts => ∀ nonce, JobNonce encoding nonce →
      receipts.find? nonce = w.tables.receipts.find? nonce
  | _ => True

def hostSystem (encoding : Encoding) : System World :=
  allowing encoding (hostRule encoding)

/-! ## Receipts and rows -/

/-- The rows that succeeded are those with a receipt, but for a job whose attempt wrote its
receipt and has not completed yet.  Receipts of jobs belong to rows and never expire. -/
structure Matched (encoding : Encoding) (awaiting : Option String) (t : JobTables) : Prop where
  rows : ∀ r ∈ t.jobs, Receipted t r.id ↔ r.state = .succeeded ∨ awaiting = some r.id
  owned : ∀ nonce, JobNonce encoding nonce → Receipted t nonce → ∃ r ∈ t.jobs, r.id = nonce
  durable : ∀ nonce stored, JobNonce encoding nonce → t.receipts.find? nonce = some stored →
    stored.expires = maxI64
  written : ∀ id, awaiting = some id → JobNonce encoding id ∧ Receipted t id

/-- No receipt is written and no row comes to succeed: a row is an old one, which succeeded
before or still did not, or a fresh one. -/
structure Quiet (encoding : Encoding) (t t' : JobTables) : Prop where
  receipts : t'.receipts = t.receipts
  rows : ∀ r' ∈ t'.jobs, (∃ r ∈ t.jobs, r'.id = r.id ∧ (r'.state = .succeeded ↔ r.state = .succeeded))
    ∨ (∀ r ∈ t.jobs, r.id ≠ r'.id) ∧ JobNonce encoding r'.id ∧ r'.state ≠ .succeeded
  kept : ∀ r ∈ t.jobs, ∃ r' ∈ t'.jobs, r'.id = r.id

section Quiet

variable {encoding : Encoding} {awaiting : Option String} {t t' t'' : JobTables}

theorem Quiet.of_same (jobs : t'.jobs = t.jobs) (receipts : t'.receipts = t.receipts) :
    Quiet encoding t t' := by
  refine ⟨receipts, fun r' member => ?_, fun r member => ?_⟩
  · rw [jobs] at member
    exact Or.inl ⟨r', member, rfl, Iff.rfl⟩
  · rw [jobs]
    exact ⟨r, member, rfl⟩

theorem Quiet.refl (t : JobTables) : Quiet encoding t t :=
  Quiet.of_same rfl rfl

theorem Quiet.trans (first : Quiet encoding t t') (second : Quiet encoding t' t'') :
    Quiet encoding t t'' := by
  refine ⟨second.receipts.trans first.receipts, fun r'' member => ?_, fun r member => ?_⟩
  · rcases second.rows r'' member with ⟨r', here, id, same⟩ | ⟨fresh, nonce, unsettled⟩
    · rcases first.rows r' here with ⟨r, there, id', same'⟩ | ⟨fresh, nonce, unsettled⟩
      · exact Or.inl ⟨r, there, id.trans id', same.trans same'⟩
      · refine Or.inr ⟨fun r there => ?_, ?_, fun done => unsettled (same.mp done)⟩
        · rw [id]
          exact fresh r there
        · rw [id]
          exact nonce
    · refine Or.inr ⟨fun r there same => ?_, nonce, unsettled⟩
      rcases first.kept r there with ⟨r', here, id⟩
      exact fresh r' here (id.trans same)
  · rcases first.kept r member with ⟨r', here, id⟩
    rcases second.kept r' here with ⟨r'', there, id'⟩
    exact ⟨r'', there, id'.trans id⟩

/-- A quiet change keeps receipts and rows matched: a fresh row has no receipt, since
receipts of jobs belong to rows that were there. -/
theorem Matched.quiet (h : Matched encoding awaiting t) (quiet : Quiet encoding t t') :
    Matched encoding awaiting t' := by
  have receipted : ∀ nonce, Receipted t' nonce ↔ Receipted t nonce := by
    intro nonce
    unfold Receipted
    rw [quiet.receipts]
  refine ⟨fun r' member => ?_, fun nonce captured found => ?_, fun nonce stored captured found => ?_,
    fun id same => ?_⟩
  · rw [receipted]
    rcases quiet.rows r' member with ⟨r, here, id, same⟩ | ⟨fresh, nonce, unsettled⟩
    · rw [id, same]
      exact h.rows r here
    · have unreceipted : ¬ Receipted t r'.id := by
        intro found
        rcases h.owned r'.id nonce found with ⟨r, here, id⟩
        exact fresh r here id
      constructor
      · intro found
        exact absurd found unreceipted
      · rintro (done | same)
        · exact absurd done unsettled
        · exact absurd (h.written r'.id same).2 unreceipted
  · rcases h.owned nonce captured ((receipted nonce).mp found) with ⟨r, here, id⟩
    rcases quiet.kept r here with ⟨r', there, id'⟩
    exact ⟨r', there, id'.trans id⟩
  · rw [quiet.receipts] at found
    exact h.durable nonce stored captured found
  · exact ⟨(h.written id same).1, (receipted id).mpr (h.written id same).2⟩

theorem Added.quiet {job : CapturedJob} {now : Int} (h : Added encoding job now t t') :
    Quiet encoding t t' := by
  refine ⟨h.receipts, fun r' member => ?_, fun r member => ?_⟩
  · rw [h.jobs, List.mem_append, List.mem_singleton] at member
    rcases member with before | rfl
    · exact Or.inl ⟨r', before, rfl, Iff.rfl⟩
    · exact Or.inr ⟨h.fresh, ⟨job, rfl⟩, fun done => by cases done⟩
  · rw [h.jobs]
    exact ⟨r, List.mem_append_left _ member, rfl⟩

theorem Pauses.quiet (h : Pauses t t') : Quiet encoding t t' := by
  have paused : ∀ r r', Paused r r' → r'.id = r.id ∧ (r'.state = .succeeded ↔ r.state = .succeeded) := by
    intro r r' related
    cases related with
    | same => exact ⟨rfl, Iff.rfl⟩
    | paused reason pausable =>
        refine ⟨rfl, fun done => (by cases done), fun done => ?_⟩
        rw [JobRow.pausable, done] at pausable
        cases pausable
  refine ⟨h.receipts, fun r' member => ?_, fun r member => ?_⟩
  · rcases forall₂_mem_left h.rows.flip member with ⟨r, here, related⟩
    exact Or.inl ⟨r, here, paused r r' related⟩
  · rcases forall₂_mem_left h.rows member with ⟨r', here, related⟩
    exact ⟨r', here, (paused r r' related).1⟩

/-- A move of a row that neither had succeeded nor comes to. -/
theorem Moved.quiet {now : Int} {move : Move} {r r' : JobRow} (h : Moved now move r r' t t')
    (id : r'.id = r.id) (before : r.state ≠ .succeeded) (after : r'.state ≠ .succeeded) :
    Quiet encoding t t' := by
  refine ⟨h.receipts, fun x member => ?_, fun x member => ?_⟩
  · rcases h.replaced.mem member with rfl | here
    · exact Or.inl ⟨r, h.replaced.mem_before, id,
        ⟨fun done => absurd done after, fun done => absurd done before⟩⟩
    · exact Or.inl ⟨x, here, rfl, Iff.rfl⟩
  · rcases h.replaced.mem_old member with rfl | still
    · exact ⟨r', h.replaced.mem_after, id⟩
    · exact ⟨x, still, rfl⟩

theorem Moved.claim_quiet {now : Int} {claim : JobClaim} {r r' : JobRow}
    (h : Moved now (.claim claim) r r' t t') : Quiet encoding t t' := by
  have row := h.row
  cases row with
  | claim _ _ id scope due fence lease exhausted =>
      refine h.quiet rfl (fun done => ?_) fun done => by cases done
      rcases due with ⟨pending, _⟩ | ⟨running, _⟩
      · rw [done] at pending
        cases pending
      · rw [done] at running
        cases running

theorem Moved.reject_quiet {now : Int} {r r' : JobRow} (h : Moved now .reject r r' t t') :
    Quiet encoding t t' := by
  have row := h.row
  cases row with
  | reject _ reason unsettled => exact h.quiet rfl unsettled fun done => by cases done

/-- Where receipts and rows match, the end of a claim is no recovery: the row was running, so
it has no receipt. -/
theorem Finishing.quiet {claim : JobClaim} {now : Int} (h : Finishing claim now t t')
    (matched : Matched encoding none t) : Quiet encoding t t' := by
  cases h with
  | unchanged => exact Quiet.refl t
  | finished r state reason eligible _ moved receipt =>
      have row := moved.row
      cases row with
      | finish _ _ _ _ _ current running stopped later retried =>
          have before : r.state ≠ .succeeded := by
            rw [running]
            intro done
            cases done
          have unreceipted : ¬ Receipted t r.id := by
            intro found
            rcases (matched.rows r moved.replaced.mem_before).mp found with done | same
            · exact before done
            · cases same
          exact moved.quiet rfl before fun done => unreceipted (receipt.mp done)

theorem Locked.quiet {claim : JobClaim} {now : Int} {execution : Execution}
    (h : Locked claim now t execution t') (matched : Matched encoding none t) : Quiet encoding t t' := by
  cases h with
  | finishing _ _ ends done => exact ends.quiet matched
  | ready r grant member current running live unreceipted => exact Quiet.refl t

theorem enqueueJobs_quiet {now : Int} {jobs : List CapturedJob}
    (h : enqueueJobs encoding now jobs t = .ok t') : Quiet encoding t t' := by
  induction jobs generalizing t with
  | nil =>
      cases h
      exact Quiet.refl _
  | cons job rest ih =>
      rcases bind_eq_ok.mp h with ⟨⟨inserted, t₁⟩, admitted, others⟩
      refine Quiet.trans ?_ (ih others)
      rcases enqueue_adds admitted with ⟨rfl, _⟩ | added
      · exact Quiet.refl _
      · exact added.quiet

theorem Command.quiet {command : Command} (constrained : Constrained t.jobs)
    (h : command.run t = .ok t') : Quiet encoding t t' := by
  cases command with
  | cancel generation id =>
      rcases cancel_moves 0 h with ⟨r, _, moved⟩
      exact moved.reject_quiet
  | revoke generation tenant worker => exact (revokeJobGrant_pauses h).quiet
  | grant generation contract approved => exact (grantJobService_pauses h).quiet
  | activate generation contract first second effective effectsEnabled =>
      exact (activateJobs_pauses constrained h).quiet
  | fork generation epoch => exact (forkJobRuntime_pauses h).quiet
  | restoreFork generation epoch => exact (applyJobFork_pauses h).quiet
  | recoverClock epoch generation => exact (recoverClock_pauses h).quiet
  | deploy generation =>
      cases h
      exact Quiet.of_same rfl rfl

theorem reconcileJob_quiet {request : Reconciliation} {now : Int} {grant : Grant} {id : String}
    (constrained : Constrained t.jobs) (h : request.run encoding now t = .ok ((grant, id), t')) :
    Quiet encoding t t' := by
  simp only [Reconciliation.run, reconcileJob, bind_eq_ok] at h
  rcases h with ⟨previous, _, current, _, ⟨fresh, t₁⟩, enqueued, h⟩
  cases h
  rcases reconcile_moves constrained enqueued with ⟨r, job, t₂, _, _, rejected, _, _, rest⟩
  rcases rest with ⟨rfl, _⟩ | added
  · exact rejected.reject_quiet
  · exact rejected.reject_quiet.trans added.quiet

end Quiet

/-! ## Attempts -/

section Attempts

variable {encoding : Encoding} {awaiting : Option String} {t t' : JobTables}

/-- The claim of a receipt for a running row: the row awaits its completion. -/
theorem Matched.claim {r : JobRow} {stored : Receipt} (h : Matched encoding none t)
    (member : r ∈ t.jobs) (nonce : JobNonce encoding r.id) (unreceipted : ¬ Receipted t r.id)
    (names : stored.nonce = r.id) (lasting : stored.expires = maxI64) :
    Matched encoding (some r.id) { t with receipts := (t.receipts.claim stored).2 } := by
  have absent : t.receipts.find? stored.nonce = none := by
    rw [names]
    unfold Receipted at unreceipted
    simpa using unreceipted
  have here := (Receipts.claim_free absent).2
  have elsewhere : ∀ other, other ≠ r.id →
      (t.receipts.claim stored).2.find? other = t.receipts.find? other := by
    intro other different
    exact Receipts.claim_find_ne fun same => different (same.symm.trans names)
  rw [names] at here
  have written : Receipted { t with receipts := (t.receipts.claim stored).2 } r.id := by
    change ((t.receipts.claim stored).2.find? r.id).isSome = true
    rw [here]
    rfl
  refine ⟨fun x inside => ?_, fun other captured found => ?_, fun other row captured found => ?_,
    fun id same => ?_⟩
  · by_cases same : x.id = r.id
    · rw [same]
      exact ⟨fun _ => Or.inr rfl, fun _ => written⟩
    · have before := h.rows x inside
      change ((t.receipts.claim stored).2.find? x.id).isSome = true ↔ _
      rw [elsewhere x.id same]
      constructor
      · intro found
        rcases before.mp found with done | none
        · exact Or.inl done
        · cases none
      · rintro (done | claimed)
        · exact before.mpr (Or.inl done)
        · exact absurd (Option.some.inj claimed).symm same
  · by_cases same : other = r.id
    · exact ⟨r, member, same.symm⟩
    · change ((t.receipts.claim stored).2.find? other).isSome = true at found
      rw [elsewhere other same] at found
      exact h.owned other captured found
  · by_cases same : other = r.id
    · subst same
      change (t.receipts.claim stored).2.find? r.id = some row at found
      rw [here] at found
      cases found
      exact lasting
    · change (t.receipts.claim stored).2.find? other = some row at found
      rw [elsewhere other same] at found
      exact h.durable other row captured found
  · cases same
    exact ⟨nonce, written⟩

/-- A claim of a free receipt writes this receipt and no other. -/
theorem claim_receipted {id nonce : String} {stored : Receipt} (names : stored.nonce = id) :
    Receipted { t with receipts := (t.receipts.claim stored).2 } nonce ↔ Receipted t nonce ∨ nonce = id := by
  unfold Receipted
  by_cases same : nonce = id
  · have here := Receipts.claim_find t.receipts stored
    rw [names] at here
    rw [same]
    simp only [here, Option.isSome_some, or_true]
  · have elsewhere : (t.receipts.claim stored).2.find? nonce = t.receipts.find? nonce :=
      Receipts.claim_find_ne fun other => same (other.symm.trans names)
    simp only [elsewhere, same, or_false]

theorem setOutcome_receipted {outcome id nonce : String} :
    Receipted { t with receipts := t.receipts.setOutcome outcome id } nonce ↔ Receipted t nonce := by
  unfold Receipted
  rw [Receipts.setOutcome_find, Option.isSome_map]

/-- An outcome is no receipt of its own. -/
theorem Matched.outcome {outcome id : String} (h : Matched encoding awaiting t) :
    Matched encoding awaiting { t with receipts := t.receipts.setOutcome outcome id } := by
  refine ⟨fun r member => ?_, fun nonce captured found => ?_, fun nonce row captured found => ?_,
    fun other same => ?_⟩
  · rw [setOutcome_receipted]
    exact h.rows r member
  · exact h.owned nonce captured (setOutcome_receipted.mp found)
  · rw [Receipts.setOutcome_find, Option.map_eq_some_iff] at found
    rcases found with ⟨stored, before, rfl⟩
    have lasting := h.durable nonce stored captured before
    split
    · exact lasting
    · exact lasting
  · exact ⟨(h.written other same).1, setOutcome_receipted.mpr (h.written other same).2⟩

/-- The completion of the awaiting job. -/
theorem Matched.complete {now : Int} {claim : JobClaim} {r : JobRow} {reason : String} {eligible : Int}
    (h : Matched encoding (some r.id) t)
    (moved : Moved now (.finish claim .succeeded) r (r.finished .succeeded reason eligible) t t') :
    Matched encoding none t' := by
  have receipted : ∀ nonce, Receipted t' nonce ↔ Receipted t nonce := by
    intro nonce
    unfold Receipted
    rw [moved.receipts]
  refine ⟨fun x member => ?_, fun nonce captured found => ?_, fun nonce stored captured found => ?_,
    fun id same => by cases same⟩
  · rw [receipted]
    by_cases same : x.id = r.id
    · have chosen : x = r.finished .succeeded reason eligible :=
        same_row moved.constrained member moved.replaced.mem_after same
      subst chosen
      exact ⟨fun _ => Or.inl rfl, fun _ => (h.written r.id rfl).2⟩
    · rcases moved.replaced.mem member with rfl | before
      · exact absurd rfl same
      · constructor
        · intro found
          rcases (h.rows x before).mp found with done | awaited
          · exact Or.inl done
          · exact absurd (Option.some.inj awaited).symm same
        · rintro (done | none)
          · exact (h.rows x before).mpr (Or.inl done)
          · cases none
  · rcases h.owned nonce captured ((receipted nonce).mp found) with ⟨x, here, id⟩
    rcases moved.replaced.mem_old here with rfl | still
    · exact ⟨_, moved.replaced.mem_after, id⟩
    · exact ⟨x, still, id⟩
  · rw [moved.receipts] at found
    exact h.durable nonce stored captured found

/-- The authority that the execution lock hands out is over the job that it returns. -/
theorem lockExecution_job {claim : JobClaim} {sampleTime : Result Int}
    {validate : CapturedJob → String → Result Unit} {job : CapturedJob} {verified : VerifiedJob}
    (h : lockExecution encoding claim sampleTime validate t = .ok (job, .ready verified, t')) :
    verified.job = job := by
  simp only [lockExecution, bind_eq_ok] at h
  rcases h with ⟨runtime, _, preview, _, ⟨grant, state⟩, _, read, _, found, _, h⟩
  cases found with
  | some outcome =>
      simp only at h
      split at h
      · rcases bind_eq_ok.mp h with ⟨t₁, _, h⟩
        cases h
      · rcases bind_eq_ok.mp h with ⟨_, _, h⟩
        cases h
  | none =>
      simp only [bind_eq_ok] at h
      rcases h with ⟨now, _, _, _, h⟩
      split at h
      · rcases bind_eq_ok.mp h with ⟨t₁, _, h⟩
        cases h
      · rcases bind_eq_ok.mp h with ⟨window, _, h⟩
        split at h
        · rcases bind_eq_ok.mp h with ⟨t₁, _, h⟩
          cases h
        · rcases bind_eq_ok.mp h with ⟨_, _, h⟩
          cases h
          rfl

/-- What a committed attempt did: the receipt of its job is new and no other is, and rows and
receipts match again. -/
structure Committed (encoding : Encoding) (id : String) (t t' : JobTables) : Prop where
  nonce : JobNonce encoding id
  first : ¬ Receipted t id
  receipted : ∀ nonce, Receipted t' nonce ↔ Receipted t nonce ∨ nonce = id
  matched : Matched encoding none t'

/-- An attempt that hands over to the action ends in a commit of its mutations: no receipt
is there to be replayed. -/
theorem attemptJob_commits {claim : JobClaim} {now : Int} {validate : CapturedJob → String → Result Unit}
    {outcome : String} {scheduled : List CapturedJob} {attempt : Attempt}
    (matched : Matched encoding none t) (constrained : Constrained t.jobs)
    (sound : ∀ r ∈ t.jobs, RowSound encoding r)
    (h : attemptJob encoding claim now validate outcome scheduled t = .ok (attempt, t')) :
    attempt ≠ .committed ∧ Quiet encoding t t'
    ∨ attempt = .committed ∧ Committed encoding claim.id t t' := by
  simp only [attemptJob, bind_eq_ok] at h
  rcases h with ⟨⟨job, execution, t₁⟩, locks, h⟩
  have locked := lockExecution_moves constrained (fun time same => (by cases same; rfl)) locks
  cases locked with
  | finishing _ _ ends done =>
      cases execution with
      | ready verified => exact absurd rfl (done verified)
      | recovered outcome =>
          cases h
          exact Or.inl ⟨by simp, ends.quiet matched⟩
      | paused =>
          cases h
          exact Or.inl ⟨by simp, ends.quiet matched⟩
      | dead =>
          cases h
          exact Or.inl ⟨by simp, ends.quiet matched⟩
  | ready r grant member current running live unreceipted =>
      have same : r.payload = job := lockExecution_job locks
      have named : job.id encoding = r.id := by
        rw [← same]
        exact (sound r member).captured.id
      have nonce : JobNonce encoding r.id := ⟨job, named⟩
      have absent : t.receipts.find? (job.receiptRow encoding).nonce = none := by
        change t.receipts.find? (job.id encoding) = none
        rw [named]
        unfold Receipted at unreceipted
        simpa using unreceipted
      simp only at h
      rw [(Receipts.claim_free absent).1, if_neg Nat.one_ne_zero] at h
      simp only [bind_eq_ok] at h
      rcases h with ⟨t₂, schedules, _, _, t₃, completed, h⟩
      cases h
      have claimed : Matched encoding (some r.id)
          { t with receipts := (t.receipts.claim (job.receiptRow encoding)).2 } :=
        matched.claim member nonce unreceipted named rfl
      have quiet := enqueueJobs_quiet schedules
      have awaiting : Matched encoding (some r.id)
          { t₂ with receipts := t₂.receipts.setOutcome outcome (job.id encoding) } :=
        (claimed.quiet quiet).outcome
      have constrained₂ : Constrained
          { t₂ with receipts := t₂.receipts.setOutcome outcome (job.id encoding) }.jobs :=
        (enqueueJobs_changes schedules).constrained constrained
      rcases succeed_moves now constrained₂ completed with ⟨x, reason, eligible, _, _, moved⟩
      have chosen : x.id = r.id := by
        have row := moved.row
        cases row with
        | finish _ _ _ _ _ held running stopped later retried => exact held.id.trans current.id.symm
      rw [← current.id]
      rw [← chosen] at awaiting
      refine Or.inr ⟨rfl, nonce, unreceipted, fun other => ?_, awaiting.complete moved⟩
      have last : Receipted t' other
          ↔ Receipted { t with receipts := (t.receipts.claim (job.receiptRow encoding)).2 } other := by
        unfold Receipted
        rw [moved.receipts]
        change ((t₂.receipts.setOutcome outcome (job.id encoding)).find? other).isSome = true ↔ _
        rw [Receipts.setOutcome_find, Option.isSome_map, quiet.receipts]
      rw [last]
      exact claim_receipted named

end Attempts

/-! ## Grants -/

/-- Every grant stays, its version never falls, and one version is one declaration. -/
def GrantsKept (grants grants' : List GrantRow) : Prop :=
  ∀ deployment tenant worker row, grants.find? (·.named deployment tenant worker) = some row →
    ∃ row', grants'.find? (·.named deployment tenant worker) = some row' ∧ row.version ≤ row'.version
      ∧ (row'.version = row.version → row'.declaration = row.declaration)

section Grants

variable {encoding : Encoding} {t t' : JobTables} {rows rows' rows'' : List GrantRow}

theorem GrantsKept.of_same (same : rows' = rows) : GrantsKept rows rows' := by
  intro deployment tenant worker row found
  rw [same]
  exact ⟨row, found, le_refl _, fun _ => rfl⟩

theorem GrantsKept.trans (first : GrantsKept rows rows') (second : GrantsKept rows' rows'') :
    GrantsKept rows rows'' := by
  intro deployment tenant worker row found
  rcases first deployment tenant worker row found with ⟨row', found', rises, same⟩
  rcases second deployment tenant worker row' found' with ⟨row'', found'', rises', same'⟩
  refine ⟨row'', found'', rises.trans rises', fun equal => ?_⟩
  rw [same' (by omega), same (by omega)]

/-- An update keeps grants where it keeps their keys and changes a declaration only under a
higher version. -/
theorem update_kept {condition : GrantRow → Bool} {change : GrantRow → GrantRow}
    (key : ∀ row, condition row = true → (change row).deployment = row.deployment
      ∧ (change row).tenant = row.tenant ∧ (change row).worker = row.worker)
    (rises : ∀ deployment tenant worker row, rows.find? (·.named deployment tenant worker) = some row →
      condition row = true → row.version ≤ (change row).version
        ∧ ((change row).version = row.version → (change row).declaration = row.declaration)) :
    GrantsKept rows (Table.update condition change rows) := by
  intro deployment tenant worker row found
  let changed := fun row : GrantRow => if condition row then change row else row
  have keyed : ((fun row : GrantRow => row.named deployment tenant worker) ∘ changed)
      = fun row => row.named deployment tenant worker := by
    funext other
    simp only [Function.comp_apply, changed]
    split
    · rename_i chosen
      rcases key other chosen with ⟨first, second, third⟩
      simp only [GrantRow.named, first, second, third]
    · rfl
  refine ⟨changed row, ?_, ?_⟩
  · change (rows.map changed).find? _ = _
    rw [List.find?_map, keyed, found]
    rfl
  · by_cases chosen : condition row = true
    · simp only [changed, if_pos chosen]
      exact rises deployment tenant worker row found chosen
    · simp only [changed, if_neg chosen]
      exact ⟨le_refl _, fun _ => trivial⟩

theorem upsertGrant_kept {row : GrantRow}
    (rises : ∀ old, t.grants.find? (·.named row.deployment row.tenant row.worker) = some old →
      old.version < row.version) : GrantsKept t.grants (upsertGrant row t).grants := by
  unfold upsertGrant
  split
  · refine update_kept (fun old chosen => ?_) fun deployment tenant worker old found chosen => ?_
    · simp only [GrantRow.named, decide_eq_true_eq] at chosen
      exact ⟨chosen.1.symm, chosen.2.1.symm, chosen.2.2.symm⟩
    · have named := List.find?_some found
      simp only [GrantRow.named, decide_eq_true_eq] at chosen named
      rw [← named.1, ← named.2.1, ← named.2.2, chosen.1, chosen.2.1, chosen.2.2] at found
      have higher := rises old found
      exact ⟨le_of_lt higher, fun same => by omega⟩
  · intro deployment tenant worker old found
    refine ⟨old, ?_, le_refl _, fun _ => rfl⟩
    rw [List.find?_append, found]
    rfl

theorem pauseJobs_grants {condition : JobRow → Bool} {reason : String}
    (h : pauseJobs condition reason t = .ok t') : t'.grants = t.grants := by
  simp only [pauseJobs, bind_eq_ok] at h
  rcases h with ⟨⟨changed, t₁⟩, updated, h⟩
  cases h
  rw [(updateJobs_ok.mp updated).2.2]

/-- A revocation changes the state of grants only. -/
theorem revokes_kept {condition : GrantRow → Bool} :
    GrantsKept rows (Table.update condition (fun row => { row with state := .revoked }) rows) :=
  update_kept (fun _ _ => ⟨rfl, rfl, rfl⟩) fun _ _ _ _ _ _ => ⟨le_refl _, fun _ => rfl⟩

theorem revokeJobGrant_kept {generation tenant worker : String}
    (h : revokeJobGrant generation tenant worker t = .ok t') : GrantsKept t.grants t'.grants := by
  simp only [revokeJobGrant, bind_eq_ok] at h
  rcases h with ⟨_, _, _, _, _, _, _, _, h⟩
  rw [pauseJobs_grants h]
  exact revokes_kept

theorem grantJobService_kept {generation contract : String} {approved : EffectiveJobGrant}
    (h : grantJobService generation contract approved t = .ok t') : GrantsKept t.grants t'.grants := by
  simp only [grantJobService, bind_eq_ok, need, context_eq_ok, jobInteger, integerColumn_ok] at h
  rcases h with ⟨runtime, _, _, _, _, _, stored, held, _, ⟨_, rfl⟩, _, _, _, _, t₁, paused, h⟩
  cases h
  change GrantsKept t.grants t₁.grants
  rw [pauseJobs_grants paused]
  refine update_kept (fun _ _ => ⟨rfl, rfl, rfl⟩) fun deployment tenant worker row found chosen => ?_
  have named := List.find?_some found
  simp only [GrantRow.named, decide_eq_true_eq] at chosen named
  rw [← named.1, ← named.2.1, ← named.2.2, chosen.1, chosen.2.1, chosen.2.2, held] at found
  cases found
  exact ⟨by simp, fun same => by simp at same⟩

theorem applyJobFork_kept {generation epoch : String} (h : applyJobFork generation epoch t = .ok t') :
    GrantsKept t.grants t'.grants := by
  rw [pauseJobs_grants h]
  exact revokes_kept

theorem recoverClock_kept {epoch generation : String} (h : recoverClock epoch generation t = .ok t') :
    GrantsKept t.grants t'.grants := by
  simp only [recoverClock, bind_eq_ok] at h
  rcases h with ⟨_, _, t₁, paused, h⟩
  cases h
  change GrantsKept t.grants t₁.grants
  rw [pauseJobs_grants paused]
  refine update_kept (fun _ _ => ⟨rfl, rfl, rfl⟩) fun deployment tenant worker row found chosen => ?_
  refine ⟨?_, fun _ => rfl⟩
  change row.version ≤ if row.version < maxI64 then row.version + 1 else row.version
  split <;> omega

theorem installGrant_kept {generation contract epoch : String} {changed : Bool} {state : GrantState}
    {configured : EffectiveJobGrant}
    (h : installGrant generation contract epoch changed state configured t = .ok t') :
    GrantsKept t.grants t'.grants := by
  simp only [installGrant, bind_eq_ok] at h
  rcases h with ⟨_, _, h⟩
  split at h
  · rename_i missing
    rcases bind_eq_ok.mp h with ⟨_, _, h⟩
    cases h
    refine upsertGrant_kept fun old found => ?_
    rw [missing] at found
    cases found
  · rename_i stored held
    split at h
    · simp only [bind_eq_ok, jobInteger, integerColumn_ok] at h
      rcases h with ⟨_, ⟨_, rfl⟩, _, _, _, _, h⟩
      cases h
      refine upsertGrant_kept fun old found => ?_
      rw [held] at found
      cases found
      exact Int.lt_succ _
    · simp only [bind_eq_ok] at h
      rcases h with ⟨_, _, _, _, _, _, h⟩
      cases h
      exact GrantsKept.of_same rfl

theorem installGrants_kept {generation contract epoch : String} {changed : Bool} {state : GrantState}
    {configured : List EffectiveJobGrant}
    (h : installGrants generation contract epoch changed state configured t = .ok t') :
    GrantsKept t.grants t'.grants := by
  induction configured generalizing t with
  | nil =>
      cases h
      exact GrantsKept.of_same rfl
  | cons head rest ih =>
      rcases bind_eq_ok.mp h with ⟨t₁, first, others⟩
      exact (installGrant_kept first).trans (ih others)

theorem changeApproval_kept {changed : Bool} {runtime : JobRuntimeRow}
    (h : changeApproval changed runtime t = .ok t') : GrantsKept t.grants t'.grants := by
  unfold changeApproval at h
  split at h
  · rcases bind_eq_ok.mp h with ⟨t₁, paused, h⟩
    cases h
    change GrantsKept t.grants (Table.update _ _ t₁.grants)
    rw [pauseJobs_grants paused]
    exact revokes_kept
  · cases h
    exact GrantsKept.of_same rfl

theorem activateJobs_kept {generation contract first second : String}
    {effective : Option EffectiveJobDeployment} {effectsEnabled : Bool}
    (h : activateJobs generation contract first second effective effectsEnabled t = .ok t') :
    GrantsKept t.grants t'.grants := by
  simp only [activateJobs, bind_eq_ok] at h
  rcases h with ⟨_, _, _, _, _, _, t₁, approved, h⟩
  have kept := changeApproval_kept approved
  cases effective with
  | none =>
      cases h
      exact kept
  | some effective =>
      have installed := installGrants_kept h
      exact kept.trans installed

theorem Command.kept {command : Command} (h : command.run t = .ok t') :
    GrantsKept t.grants t'.grants := by
  cases command with
  | cancel generation id =>
      rcases cancel_moves 0 h with ⟨r, _, moved⟩
      exact GrantsKept.of_same moved.grants
  | revoke generation tenant worker => exact revokeJobGrant_kept h
  | grant generation contract approved => exact grantJobService_kept h
  | activate generation contract first second effective effectsEnabled => exact activateJobs_kept h
  | fork generation epoch =>
      simp only [Command.run, forkJobRuntime, bind_eq_ok] at h
      rcases h with ⟨_, _, forked⟩
      exact applyJobFork_kept forked
  | restoreFork generation epoch => exact applyJobFork_kept h
  | recoverClock epoch generation => exact recoverClock_kept h
  | deploy generation =>
      cases h
      exact GrantsKept.of_same rfl

/-! ## Transactions that leave the grants -/

theorem Finishing.grants {claim : JobClaim} {now : Int} (h : Finishing claim now t t') :
    t'.grants = t.grants := by
  cases h with
  | unchanged => rfl
  | finished r state reason eligible _ moved receipt => exact moved.grants

theorem Locked.grants {claim : JobClaim} {now : Int} {execution : Execution}
    (h : Locked claim now t execution t') : t'.grants = t.grants := by
  cases h with
  | finishing _ _ ends done => exact ends.grants
  | ready r grant member current running live unreceipted => rfl

theorem enqueue_grants {job : CapturedJob} {now tenantLimit : Int} {inserted : Bool}
    (h : enqueue encoding job now tenantLimit t = .ok (inserted, t')) : t'.grants = t.grants := by
  rcases enqueue_adds h with ⟨rfl, _⟩ | added
  · rfl
  · exact added.grants

theorem enqueueJobs_grants {now : Int} {jobs : List CapturedJob}
    (h : enqueueJobs encoding now jobs t = .ok t') : t'.grants = t.grants := by
  induction jobs generalizing t with
  | nil =>
      cases h
      rfl
  | cons job rest ih =>
      rcases bind_eq_ok.mp h with ⟨⟨inserted, t₁⟩, admitted, others⟩
      exact (ih others).trans (enqueue_grants admitted)

theorem attemptJob_grants {claim : JobClaim} {now : Int} {validate : CapturedJob → String → Result Unit}
    {outcome : String} {scheduled : List CapturedJob} {attempt : Attempt} (constrained : Constrained t.jobs)
    (h : attemptJob encoding claim now validate outcome scheduled t = .ok (attempt, t')) :
    t'.grants = t.grants := by
  simp only [attemptJob, bind_eq_ok] at h
  rcases h with ⟨⟨job, execution, t₁⟩, locks, h⟩
  have locked := lockExecution_moves constrained (fun time same => (by cases same; rfl)) locks
  have first := locked.grants
  cases locked with
  | finishing _ _ ends done =>
      cases execution with
      | ready verified => exact absurd rfl (done verified)
      | recovered outcome =>
          cases h
          exact first
      | paused =>
          cases h
          exact first
      | dead =>
          cases h
          exact first
  | ready r grant member current running live unreceipted =>
      simp only at h
      split at h
      · simp only [bind_eq_ok] at h
        rcases h with ⟨stored, _, _, _, t₂, completed, h⟩
        cases h
        rcases succeed_moves now constrained completed with ⟨x, reason, eligible, _, _, moved⟩
        exact moved.grants
      · simp only [bind_eq_ok] at h
        rcases h with ⟨t₂, schedules, _, _, t₃, completed, h⟩
        cases h
        have constrained₂ : Constrained
            { t₂ with receipts := t₂.receipts.setOutcome outcome (job.id encoding) }.jobs :=
          (enqueueJobs_changes schedules).constrained constrained
        rcases succeed_moves now constrained₂ completed with ⟨x, reason, eligible, _, _, moved⟩
        have scheduled := enqueueJobs_grants schedules
        exact moved.grants.trans scheduled

end Grants

/-! ## Reconciliations -/

/-- The identity of the job that a source is reconciled into under a grant. -/
def reconciledId (encoding : Encoding) (source : String) (grant : Grant) : String :=
  "j1_" ++ encoding.identityDigest grant.scope.deployment
    ("o1_" ++ encoding.originDigest source grant.scope grant.contract grant.epoch grant.version) 0

/-- What is left of a reconciliation: its source is rejected, the new job is named by source
and grant, and the grant is the stored one as long as its version is. -/
structure Reconciled (encoding : Encoding) (t : JobTables) (source : String) (grant : Grant) (id : String) :
    Prop where
  named : id = reconciledId encoding source grant
  rejected : ∃ r ∈ t.jobs, r.id = source ∧ r.state = .rejected
  granted : ∃ row, t.grants.find? (·.named grant.scope.deployment grant.scope.tenant grant.worker.name)
      = some row ∧ grant.version ≤ row.version ∧ (row.version = grant.version → row.declaration = grant)

section Reconciliations

variable {encoding : Encoding} {t t' : JobTables}

/-- A rejected row stays rejected. -/
theorem RowMove.rejected {now : Int} {move : Move} {r r' : JobRow} (h : RowMove now move r r')
    (rejected : r.state = .rejected) : r'.state = .rejected := by
  cases h with
  | claim claim _ id scope due fence lease exhausted =>
      rcases due with ⟨state, _⟩ | ⟨state, _⟩
      · simp [rejected] at state
      · simp [rejected] at state
  | finish claim _ state reason eligible current running stopped later retried => simp [rejected] at running
  | reject _ reason unsettled => rfl

theorem Change.rejected (h : Change encoding t t') {r : JobRow} (member : r ∈ t.jobs)
    (rejected : r.state = .rejected) : ∃ r' ∈ t'.jobs, r'.id = r.id ∧ r'.state = .rejected := by
  cases h with
  | kept _ jobs watermark =>
      rw [jobs]
      exact ⟨r, member, rfl, rejected⟩
  | added job now _ added =>
      rw [added.jobs]
      exact ⟨r, List.mem_append_left _ member, rfl, rejected⟩
  | paused _ paused =>
      rcases forall₂_mem_left paused.rows member with ⟨r', here, related⟩
      cases related with
      | same => exact ⟨r, here, rfl, rejected⟩
      | paused reason pausable => simp [JobRow.pausable, rejected] at pausable
  | moved now move x x' _ moved timely =>
      rcases moved.replaced.mem_old member with rfl | still
      · exact ⟨x', moved.replaced.mem_after, moved.row.evolves.id, moved.row.rejected rejected⟩
      · exact ⟨r, still, rfl, rejected⟩

theorem Changes.rejected (h : Changes encoding t t') {r : JobRow} (member : r ∈ t.jobs)
    (rejected : r.state = .rejected) : ∃ r' ∈ t'.jobs, r'.id = r.id ∧ r'.state = .rejected := by
  induction h with
  | refl => exact ⟨r, member, rfl, rejected⟩
  | tail _ last ih =>
      rcases ih with ⟨r', here, id, still⟩
      rcases last.rejected here still with ⟨r'', there, id', last⟩
      exact ⟨r'', there, id'.trans id, last⟩

theorem Reconciled.later {source : String} {grant : Grant} {id : String}
    (h : Reconciled encoding t source grant id) (changes : Changes encoding t t')
    (kept : GrantsKept t.grants t'.grants) : Reconciled encoding t' source grant id := by
  refine ⟨h.named, ?_, ?_⟩
  · rcases h.rejected with ⟨r, member, rfl, rejected⟩
    exact changes.rejected member rejected
  · rcases h.granted with ⟨row, found, rises, same⟩
    rcases kept _ _ _ row found with ⟨row', found', rises', same'⟩
    refine ⟨row', found', rises.trans rises', fun equal => ?_⟩
    rw [same' (by omega), same (by omega)]

theorem lockGrant_ok {scope : JobScope} {worker : String} {grant : Grant} {state : GrantState}
    (h : lockGrant scope worker t = .ok (grant, state)) :
    ∃ row, t.grants.find? (·.named scope.deployment scope.tenant worker) = some row
      ∧ row.declaration = grant ∧ grant.version = row.version ∧ grant.scope = scope
      ∧ grant.worker.name = worker := by
  simp only [lockGrant, need, check, bind_eq_ok, context_eq_ok, jobInteger, integerColumn_ok,
    ensure_eq_ok] at h
  rcases h with ⟨row, found, _, _, _, ⟨_, rfl⟩, _, ⟨same, named, version, _⟩, h⟩
  cases h
  exact ⟨row, found, rfl, version, same, named⟩

/-- The grant of a reconciliation is the stored one. -/
def Granted (t : JobTables) (grant : Grant) : Prop :=
  ∃ row, t.grants.find? (·.named grant.scope.deployment grant.scope.tenant grant.worker.name) = some row
    ∧ row.version = grant.version

/-- A reconciliation, once done. -/
theorem reconcileJob_records {request : Reconciliation} {now : Int} {grant : Grant} {id : String}
    (constrained : Constrained t.jobs) (h : request.run encoding now t = .ok ((grant, id), t')) :
    Reconciled encoding t' request.id grant id ∧ Granted t' grant ∧ t'.grants = t.grants := by
  simp only [Reconciliation.run, reconcileJob, bind_eq_ok] at h
  rcases h with ⟨previous, sourced, current, scheduled, ⟨fresh, t₁⟩, enqueued, h⟩
  cases h
  have source : previous.id encoding = request.id := by
    simp only [reconciliationSource, check, need, bind_eq_ok, context_eq_ok, ensure_eq_ok] at sourced
    rcases sourced with ⟨_, _, _, _, row, _, _, _, _, _, _, _, _, same, sourced⟩
    cases sourced
    exact same.1
  rcases reconcile_moves constrained enqueued with ⟨r, job, t₂, parent, _, rejected, made, same, rest⟩
  have name : fresh = reconciledId encoding request.id grant := by
    simp only [CapturedJob.reconcile, bind_eq_ok] at made
    rcases made with ⟨_, _, _, _, _, _, made⟩
    cases made
    rw [same, ← source]
    rfl
  have grants : t₁.grants = t.grants := by
    rcases rest with ⟨rfl, _⟩ | added
    · exact rejected.grants
    · exact added.grants.trans rejected.grants
  simp only [scheduleGrant, bind_eq_ok] at scheduled
  rcases scheduled with ⟨runtime, _, _, _, ⟨locked, state⟩, lock, _, _, scheduled⟩
  cases scheduled
  rcases lockGrant_ok lock with ⟨row, found, declared, version, scope, worker⟩
  rw [← grants, ← scope, ← worker] at found
  refine ⟨⟨name, ?_, row, ?_, le_of_eq version, fun _ => declared⟩, ⟨row, ?_, version.symm⟩, grants⟩
  · have here := rejected.replaced.mem_after
    refine ⟨r.reject "operator_reconciled", ?_, parent.trans source, rfl⟩
    rcases rest with ⟨rfl, _⟩ | added
    · exact here
    · rw [added.jobs]
      exact List.mem_append_left _ here
  · rw [scope] at found ⊢
    exact found
  · rw [scope] at found ⊢
    exact found

end Reconciliations

/-! ## The log -/

/-- Reconciliations under one version of a grant were under the same grant. -/
def Agreed (log : List Observed) : Prop :=
  ∀ source grant id source' grant' id', .reconciled source grant id ∈ log →
    .reconciled source' grant' id' ∈ log → grant'.scope = grant.scope →
    grant'.worker.name = grant.worker.name → grant'.version = grant.version → grant' = grant

theorem Agreed.mono {log log' : List Observed} (h : Agreed log)
    (fewer : ∀ source grant id, .reconciled source grant id ∈ log' → .reconciled source grant id ∈ log) :
    Agreed log' :=
  fun source grant id source' grant' id' logged logged' =>
    h source grant id source' grant' id' (fewer source grant id logged) (fewer source' grant' id' logged')

/-- What the log and the tables have to do with each other: the mutations that were committed
are those of the jobs with a receipt. -/
structure Recorded (encoding : Encoding) (w : World) : Prop where
  matched : Matched encoding none w.tables
  once : ∀ id, w.log.count (.mutated id) ≤ 1
  mutated : ∀ id, .mutated id ∈ w.log ↔ JobNonce encoding id ∧ Receipted w.tables id
  reconciled : ∀ source grant id, .reconciled source grant id ∈ w.log →
    Reconciled encoding w.tables source grant id
  agreed : Agreed w.log

section Recorded

variable {encoding : Encoding} {w w' : World} {t : JobTables}

theorem settled_only {t t' : JobTables} {entry : Observed} (member : entry ∈ settled t t') :
    ∃ id, entry = .succeeded id := by
  rcases List.mem_map.mp member with ⟨r, _, rfl⟩
  exact ⟨r.id, rfl⟩

/-- A transaction logs successes only. -/
theorem mem_commit {entry : Observed} (other : ∀ id, entry ≠ .succeeded id) :
    entry ∈ (w.commit t).log ↔ entry ∈ w.log := by
  change entry ∈ settled w.tables t ++ w.log ↔ entry ∈ w.log
  rw [List.mem_append]
  constructor
  · rintro (recent | before)
    · rcases settled_only recent with ⟨id, same⟩
      exact absurd same (other id)
    · exact before
  · exact Or.inr

theorem count_commit {entry : Observed} (other : ∀ id, entry ≠ .succeeded id) :
    (w.commit t).log.count entry = w.log.count entry := by
  change (settled w.tables t ++ w.log).count entry = w.log.count entry
  have none : (settled w.tables t).count entry = 0 := by
    refine List.count_eq_zero.mpr fun recent => ?_
    rcases settled_only recent with ⟨id, same⟩
    exact other id same
  rw [List.count_append, none, Nat.zero_add]

theorem Recorded.commit (h : Recorded encoding w) (quiet : Quiet encoding w.tables t)
    (changes : Changes encoding w.tables t) (kept : GrantsKept w.tables.grants t.grants) :
    Recorded encoding (w.commit t) := by
  refine ⟨h.matched.quiet quiet, fun id => ?_, fun id => ?_, fun source grant id logged => ?_,
    h.agreed.mono fun source grant id => (mem_commit fun other same => by cases same).mp⟩
  · rw [count_commit fun other same => by cases same]
    exact h.once id
  · rw [mem_commit fun other same => by cases same]
    change _ ↔ JobNonce encoding id ∧ (t.receipts.find? id).isSome = true
    rw [quiet.receipts]
    exact h.mutated id
  · rw [mem_commit fun other same => by cases same] at logged
    exact (h.reconciled source grant id logged).later changes kept

/-- A committed attempt is the first one to commit the mutations of its job. -/
theorem Recorded.attempt {claim : JobClaim} (h : Recorded encoding w)
    (committed : Committed encoding claim.id w.tables t) (changes : Changes encoding w.tables t)
    (grants : t.grants = w.tables.grants) :
    Recorded encoding ((w.commit t).observe (.mutated claim.id)) := by
  have first : Observed.mutated claim.id ∉ w.log := fun before =>
    committed.first ((h.mutated claim.id).mp before).2
  have others : ∀ source grant id, Observed.reconciled source grant id
      ∈ Observed.mutated claim.id :: (w.commit t).log → .reconciled source grant id ∈ w.log := by
    intro source grant id logged
    rcases List.mem_cons.mp logged with same | before
    · cases same
    · exact (mem_commit fun other same => by cases same).mp before
  refine ⟨committed.matched, fun id => ?_, fun id => ?_, fun source grant id logged => ?_,
    h.agreed.mono others⟩
  · change (Observed.mutated claim.id :: (w.commit t).log).count (.mutated id) ≤ 1
    rw [List.count_cons, count_commit fun other same => by cases same]
    by_cases same : claim.id = id
    · rw [← same, List.count_eq_zero.mpr first]
      simp
    · have once := h.once id
      simpa [same] using once
  · change Observed.mutated id ∈ Observed.mutated claim.id :: (w.commit t).log ↔ JobNonce encoding id ∧ Receipted t id
    rw [List.mem_cons, mem_commit (fun other same => by cases same), h.mutated id, committed.receipted id]
    constructor
    · rintro (same | ⟨nonce, found⟩)
      · cases same
        exact ⟨committed.nonce, Or.inr rfl⟩
      · exact ⟨nonce, Or.inl found⟩
    · rintro ⟨nonce, found | rfl⟩
      · exact Or.inr ⟨nonce, found⟩
      · exact Or.inl rfl
  · exact (h.reconciled source grant id (others source grant id logged)).later changes
      (GrantsKept.of_same grants)

/-- A new reconciliation is under the stored grant, as every earlier one of its version. -/
theorem Recorded.reconcile {source id : String} {grant : Grant} (h : Recorded encoding w)
    (reconciled : Reconciled encoding w.tables source grant id) (granted : Granted w.tables grant) :
    Recorded encoding (w.observe (.reconciled source grant id)) := by
  have earlier : ∀ source' grant' id', .reconciled source' grant' id' ∈ w.log →
      grant'.scope = grant.scope → grant'.worker.name = grant.worker.name →
      grant'.version = grant.version → grant' = grant := by
    intro source' grant' id' logged scope worker version
    rcases (h.reconciled source' grant' id' logged).granted with ⟨row, found, _, declared⟩
    rcases reconciled.granted with ⟨row', found', _, declared'⟩
    rcases granted with ⟨stored, held, current⟩
    rw [scope, worker, found'] at found
    rw [found'] at held
    cases found
    cases held
    rw [← declared (current.trans version.symm), declared' current]
  refine ⟨h.matched, fun other => ?_, fun other => ?_, fun source' grant' id' logged => ?_,
    fun first grant₁ id₁ second grant₂ id₂ logged₁ logged₂ scope worker version => ?_⟩
  · change (Observed.reconciled source grant id :: w.log).count (.mutated other) ≤ 1
    rw [List.count_cons_of_ne fun same => by cases same]
    exact h.once other
  · refine Iff.trans ?_ (h.mutated other)
    change Observed.mutated other ∈ Observed.reconciled source grant id :: w.log ↔ _
    rw [List.mem_cons]
    constructor
    · rintro (same | before)
      · cases same
      · exact before
    · exact Or.inr
  · rcases List.mem_cons.mp logged with same | before
    · cases same
      exact reconciled
    · exact h.reconciled source' grant' id' before
  · rcases List.mem_cons.mp logged₁ with same₁ | before₁
    · cases same₁
      rcases List.mem_cons.mp logged₂ with same₂ | before₂
      · cases same₂
        rfl
      · exact earlier second grant₂ id₂ before₂ scope worker version
    · rcases List.mem_cons.mp logged₂ with same₂ | before₂
      · cases same₂
        exact (earlier first grant₁ id₁ before₁ scope.symm worker.symm version.symm).symm
      · exact h.agreed first grant₁ id₁ second grant₂ id₂ before₁ before₂ scope worker version

/-- Other receipts are written and expired ones are deleted: those of jobs stay. -/
theorem Recorded.receipts {receipts : Receipts} (h : Recorded encoding w)
    (same : ∀ nonce, JobNonce encoding nonce → receipts.find? nonce = w.tables.receipts.find? nonce)
    (captured : ∀ r ∈ w.tables.jobs, JobNonce encoding r.id) :
    Recorded encoding { w with tables := { w.tables with receipts := receipts } } := by
  have receipted : ∀ nonce, JobNonce encoding nonce →
      (Receipted { w.tables with receipts := receipts } nonce ↔ Receipted w.tables nonce) := by
    intro nonce job
    unfold Receipted
    rw [same nonce job]
  refine ⟨⟨fun r member => ?_, fun nonce job found => ?_, fun nonce stored job found => ?_,
    fun id none => by cases none⟩, h.once, fun id => ?_, fun source grant id logged => ?_, h.agreed⟩
  · rw [receipted r.id (captured r member)]
    exact h.matched.rows r member
  · exact h.matched.owned nonce job ((receipted nonce job).mp found)
  · rw [same nonce job] at found
    exact h.matched.durable nonce stored job found
  · rw [h.mutated id]
    constructor
    · rintro ⟨job, found⟩
      exact ⟨job, (receipted id job).mpr found⟩
    · rintro ⟨job, found⟩
      exact ⟨job, (receipted id job).mp found⟩
  · have before := h.reconciled source grant id logged
    exact ⟨before.named, before.rejected, before.granted⟩

theorem Matched.sweep {observed : Int} (h : Matched encoding none w.tables) (bounded : observed ≤ maxI64)
    {nonce : String} (job : JobNonce encoding nonce) :
    (w.tables.receipts.sweep (observed - 60)).find? nonce = w.tables.receipts.find? nonce := by
  rcases Receipts.sweep_find w.tables.receipts (observed - 60) nonce with same | ⟨stored, found, expired, _⟩
  · exact same
  · have lasting := h.durable nonce stored job found
    omega

theorem Recorded.step {operation : Operation} (h : Recorded encoding w) (tracked : Tracked encoding w)
    (allowed : hostRule encoding w operation) (step : Step encoding operation w w') :
    Recorded encoding w' := by
  have constrained := tracked.constrained
  have changes := (step.progress tracked).changes
  have captured : ∀ r ∈ w.tables.jobs, JobNonce encoding r.id := fun r member =>
    ⟨r.payload, (tracked.rows r member).captured.id⟩
  cases step with
  | enqueue job tenantLimit _ inserted t ran =>
      refine h.commit ?_ changes (GrantsKept.of_same (enqueue_grants ran))
      rcases enqueue_adds ran with ⟨rfl, _⟩ | added
      · exact Quiet.refl _
      · exact added.quiet
  | claimed deployment skipped _ claim t ran =>
      rcases claim_moves constrained ran with ⟨none, _⟩ | ⟨taken, r, _, moved⟩
      · cases none
      · have after := h.commit moved.claim_quiet changes (GrantsKept.of_same moved.grants)
        exact ⟨after.matched, after.once, after.mutated, after.reconciled, after.agreed⟩
  | unclaimed deployment skipped _ found t ran =>
      rcases claim_moves constrained ran with ⟨_, jobs, _, receipts, grants⟩ | ⟨taken, r, _, moved⟩
      · exact h.commit (Quiet.of_same jobs receipts) changes (GrantsKept.of_same grants)
      · exact h.commit moved.claim_quiet changes (GrantsKept.of_same moved.grants)
  | locked claim _ sampleTime validate job execution t handed sampled ran =>
      have locked := lockExecution_moves constrained sampled ran
      have after := h.commit (locked.quiet h.matched) changes (GrantsKept.of_same locked.grants)
      exact ⟨after.matched, after.once, after.mutated, after.reconciled, after.agreed⟩
  | attempted claim scheduled _ validate outcome attempt t handed ran =>
      have grants := attemptJob_grants constrained ran
      rcases attemptJob_commits h.matched constrained tracked.rows ran with ⟨other, quiet⟩ | ⟨rfl, committed⟩
      · rw [if_neg other] at changes ⊢
        exact h.commit quiet changes (GrantsKept.of_same grants)
      · rw [if_pos rfl] at changes ⊢
        exact h.attempt committed changes grants
  | succeeded verified _ validate t handed ran => exact absurd allowed id
  | failed claim failure _ now validate result t handed ran =>
      have ends := fail_moves constrained ran
      exact h.commit (ends.quiet h.matched) changes (GrantsKept.of_same ends.grants)
  | command command _ t ran => exact h.commit (Command.quiet constrained ran) changes (Command.kept ran)
  | reconcile request _ grant id t ran =>
      rcases reconcileJob_records constrained ran with ⟨reconciled, granted, grants⟩
      have after := h.commit (reconcileJob_quiet constrained ran) changes (GrantsKept.of_same grants)
      exact after.reconcile reconciled granted
  | receive receipts _ => exact h.receipts allowed captured
  | maintain observed _ bounded =>
      exact h.receipts (fun nonce job => h.matched.sweep bounded job) captured
  | tick _ wall later =>
      exact ⟨⟨h.matched.rows, h.matched.owned, h.matched.durable, h.matched.written⟩, h.once, h.mutated,
        fun source grant id logged =>
          (h.reconciled source grant id logged).later changes (GrantsKept.of_same rfl), h.agreed⟩

theorem recorded_invariant :
    (hostSystem encoding).Invariant fun w => Tracked encoding w ∧ Recorded encoding w where
  initial w fresh := by
    have unreceipted : ∀ nonce, ¬ Receipted w.tables nonce := by
      intro nonce
      unfold Receipted
      rw [fresh.receipts]
      simp [Receipts.find?, Receipts.empty]
    refine ⟨(tracked_invariant (hostRule encoding)).initial w fresh, ⟨fun r member => ?_, fun nonce _ found => ?_,
      fun nonce stored _ found => ?_, fun id none => by cases none⟩, fun id => ?_, fun id => ?_,
      fun source grant id logged => ?_, fun source grant id source' grant' id' logged => ?_⟩
    · rw [fresh.jobs] at member
      cases member
    · exact absurd found (unreceipted nonce)
    · have present : Receipted w.tables nonce := by
        unfold Receipted
        rw [found]
        rfl
      exact absurd present (unreceipted nonce)
    · rw [fresh.log]
      exact Nat.zero_le _
    · rw [fresh.log]
      exact ⟨fun member => (by cases member), fun found => absurd found.2 (unreceipted id)⟩
    · rw [fresh.log] at logged
      cases logged
    · rw [fresh.log] at logged
      cases logged
  step w w' _ h step := by
    rcases step with ⟨operation, allowed, step⟩
    exact ⟨h.1.progress (step.progress h.1), h.2.step h.1 allowed step⟩

end Recorded

/-! ## Every interleaving -/

/-- Whatever workers, operators and maintenance do: the mutations of a job are committed at
most once; a row succeeded exactly where its job has a receipt and where its mutations were
committed; a receipt of a job belongs to a row, which stays succeeded; a source that was
reconciled has no receipt; and one source gives one job under one version of a grant. -/
theorem job_actions_commit_once (encoding : Encoding) {w : World}
    (reachable : (hostSystem encoding).Reachable w) :
    (∀ id, w.log.count (.mutated id) ≤ 1)
    ∧ (∀ r ∈ w.tables.jobs, (Receipted w.tables r.id ↔ r.state = .succeeded)
        ∧ (.mutated r.id ∈ w.log ↔ r.state = .succeeded))
    ∧ (∀ job : CapturedJob, Receipted w.tables (job.id encoding) →
        ∃ r ∈ w.tables.jobs, r.id = job.id encoding)
    ∧ (∀ later, (hostSystem encoding).Run w later → ∀ r ∈ w.tables.jobs, Receipted w.tables r.id →
        Receipted later.tables r.id ∧ ∃ r' ∈ later.tables.jobs, r'.id = r.id ∧ r'.state = .succeeded)
    ∧ (∀ source grant id, .reconciled source grant id ∈ w.log → ¬ Receipted w.tables source)
    ∧ ∀ source grant grant' id id', .reconciled source grant id ∈ w.log →
        .reconciled source grant' id' ∈ w.log → grant'.scope = grant.scope →
        grant'.worker.name = grant.worker.name → grant'.version = grant.version → id' = id := by
  rcases recorded_invariant.holds reachable with ⟨tracked, recorded⟩
  have settled : ∀ {w : World}, Recorded encoding w → ∀ r ∈ w.tables.jobs,
      (Receipted w.tables r.id ↔ r.state = .succeeded) := by
    intro w recorded r member
    refine (recorded.matched.rows r member).trans ⟨?_, Or.inl⟩
    rintro (done | none)
    · exact done
    · cases none
  have captured : ∀ r ∈ w.tables.jobs, JobNonce encoding r.id := fun r member =>
    ⟨r.payload, (tracked.rows r member).captured.id⟩
  refine ⟨recorded.once, fun r member => ⟨settled recorded r member, ?_⟩,
    fun job found => recorded.matched.owned _ ⟨job, rfl⟩ found, fun later run r member found => ?_,
    fun source grant id logged found => ?_, fun source grant grant' id id' logged logged' scope worker version => ?_⟩
  · rw [recorded.mutated r.id, ← settled recorded r member]
    exact and_iff_right (captured r member)
  · have done := (settled recorded r member).mp found
    rcases run_evolves reachable run r member with ⟨r', here, evolves⟩
    have still := evolves.succeeded done
    have after := (recorded_invariant.holds (reachable.run run)).2
    have receipted := (settled after r' here).mpr still
    rw [evolves.id] at receipted
    exact ⟨receipted, r', here, evolves.id, still⟩
  · rcases (recorded.reconciled source grant id logged).rejected with ⟨r, member, rfl, rejected⟩
    have done := (settled recorded r member).mp found
    rw [done] at rejected
    cases rejected
  · have same := recorded.agreed source grant id source grant' id' logged logged' scope worker version
    have first := (recorded.reconciled source grant id logged).named
    have second := (recorded.reconciled source grant' id' logged').named
    rw [first, second, same]

/-! ## A completed job -/

/-- A worker runs the action of its claim, with nothing scheduled. -/
def World.completes (claim : JobClaim) (w : World) : World :=
  match attemptJob sampleEncoding claim w.tables.watermark (fun _ _ => .ok ()) "done" [] w.tables with
  | .ok (attempt, t) =>
      if attempt = .committed then (w.commit t).observe (.mutated claim.id) else w.commit t
  | .error _ => w

/-- The sample job ran under its first claim. -/
def completedJob : World :=
  sampleStart.enqueues.takes.completes firstClaim

theorem completedJob_reachable : (hostSystem sampleEncoding).Reachable completedJob := by
  have admitted : (hostSystem sampleEncoding).Reachable sampleStart.enqueues :=
    enqueues_reachable (System.Reachable.start ⟨rfl, rfl, rfl, rfl, rfl⟩) trivial
  have taken := takes_reachable admitted trivial
  unfold completedJob World.completes
  split
  · rename_i attempt t ran
    exact taken.next ⟨.attempt firstClaim [], trivial, Step.attempted firstClaim [] _ _ _ attempt t
      (by decide +kernel) ran⟩
  · exact taken

theorem job_actions_commit_once_sample :
    completedJob.log = [.mutated firstClaim.id, .succeeded firstClaim.id]
    ∧ completedJob.tables.jobs.map (·.state) = [.succeeded]
    ∧ completedJob.log.count (.mutated firstClaim.id) ≤ 1 := by
  have ran : completedJob.log = [.mutated firstClaim.id, .succeeded firstClaim.id]
      ∧ completedJob.tables.jobs.map (·.state) = [.succeeded] := by decide +kernel
  refine ⟨ran.1, ran.2, ?_⟩
  exact (job_actions_commit_once sampleEncoding completedJob_reachable).1 firstClaim.id

end Noxide.Jobs
