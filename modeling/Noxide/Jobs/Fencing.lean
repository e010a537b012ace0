import Noxide.Jobs.Workers

/-!
# Superseded claims of jobs

The fence of a row rises with every claim.  A transaction under an older fence finds that
its claim was superseded and stops; a row that ended never runs again, and succeeds at most
once.

Main results:

- Theorem {lit}`job_claims_fenced`: what every interleaving keeps of fences, ends, attempts
  and the shape of rows.
-/

namespace Noxide.Jobs

open Checked

/-! ## Superseded claims -/

/-- No row is at the claim's fence. -/
def Superseded (claim : JobClaim) (t : JobTables) : Prop :=
  ∀ r ∈ t.jobs, r.id = claim.id → r.fence ≠ claim.fence

/-- Every transaction under the claim stops, so none changes anything. -/
structure Refused (encoding : Encoding) (claim : JobClaim) (t : JobTables) : Prop where
  lock : ∀ sampleTime validate result, lockExecution encoding claim sampleTime validate t ≠ .ok result
  succeed : ∀ verified validate t', verified.claim = claim → succeed encoding verified validate t ≠ .ok t'
  fail : ∀ now failure validate result, fail encoding claim now failure validate t ≠ .ok result

section Superseded

variable {encoding : Encoding} {claim : JobClaim} {t : JobTables}

theorem Superseded.refused (h : Superseded claim t) (constrained : Constrained t.jobs) :
    Refused encoding claim t := by
  refine ⟨fun sampleTime validate result ran => ?_, fun verified validate t' same ran => ?_,
    fun now failure validate result ran => ?_⟩
  · simp only [lockExecution, bind_eq_ok] at ran
    rcases ran with ⟨runtime, _, preview, read, _⟩
    exact row_superseded constrained h read
  · simp only [Jobs.succeed, bind_eq_ok] at ran
    rcases ran with ⟨runtime, _, grant, _, _, _, _, _, read, reads, _⟩
    rw [same] at reads
    exact row_superseded constrained h reads
  · simp only [Jobs.fail, bind_eq_ok] at ran
    rcases ran with ⟨runtime, _, preview, read, _⟩
    exact row_superseded constrained h read

/-- A claim takes a row that has not ended, and gives it the next fence. -/
theorem claim_raises {deployment : String} {now : Int} {skipped : List String} {t' : JobTables}
    (constrained : Constrained t.jobs) (h : Jobs.claim deployment now skipped t = .ok (some claim, t')) :
    ∃ r ∈ t.jobs, ∃ r' ∈ t'.jobs, r.id = claim.id ∧ r'.id = claim.id ∧ ¬ r.ended
      ∧ r'.fence = r.fence + 1 ∧ claim.fence = r'.fence := by
  rcases claim_moves constrained h with ⟨none, _⟩ | ⟨taken, r, same, moved⟩
  · cases none
  · cases same
    have row := moved.row
    refine ⟨r, moved.replaced.mem_before, _, moved.replaced.mem_after, ?_⟩
    cases row with
    | claim _ _ id scope due fence lease exhausted =>
        refine ⟨id.symm, id.symm, fun done => ?_, fence, rfl⟩
        rcases due with ⟨pending, _⟩ | ⟨running, _⟩
        · simp [JobRow.ended, pending] at done
        · simp [JobRow.ended, running] at done

end Superseded

/-! ## Successes -/

theorem mem_settled {t t' : JobTables} {id : String} :
    .succeeded id ∈ settled t t' ↔ (∃ r ∈ t'.jobs, r.id = id ∧ r.state = .succeeded)
      ∧ ¬ ∃ r ∈ t.jobs, r.id = id ∧ r.state = .succeeded := by
  simp only [settled, List.mem_map, List.mem_filter, Bool.and_eq_true, decide_eq_true_eq,
    Bool.not_eq_true', List.any_eq_false]
  constructor
  · rintro ⟨r, ⟨member, done, fresh⟩, same⟩
    cases same
    refine ⟨⟨r, member, rfl, done⟩, ?_⟩
    rintro ⟨x, here, id, before⟩
    exact fresh x here ⟨id, before⟩
  · rintro ⟨⟨r, member, rfl, done⟩, fresh⟩
    exact ⟨r, ⟨member, done, fun x here both => fresh ⟨x, here, both⟩⟩, rfl⟩

/-- A transaction records the success of a row once. -/
theorem settled_count {t t' : JobTables} (constrained : Constrained t'.jobs) (id : String) :
    (settled t t').count (.succeeded id) ≤ 1 := by
  have chosen : ((t'.jobs.filter fun r => decide (r.state = .succeeded)
      && !t.jobs.any fun x => x.id = r.id ∧ x.state = .succeeded).map (·.id)).Nodup :=
    (List.filter_sublist.map _).nodup constrained.ids
  have distinct : (settled t t').Nodup := by
    have injective := chosen.map (f := Observed.succeeded) fun a b same => by cases same; rfl
    rw [List.map_map] at injective
    exact injective
  exact List.nodup_iff_count_le_one.mp distinct (.succeeded id)

/-- A success is recorded at most once, and of a row that stays succeeded. -/
structure Logged (w : World) : Prop where
  once : ∀ id, w.log.count (.succeeded id) ≤ 1
  held : ∀ id, .succeeded id ∈ w.log → ∃ r ∈ w.tables.jobs, r.id = id ∧ r.state = .succeeded

section Logged

variable {encoding : Encoding} {w w' : World}

theorem Logged.commit {t : JobTables} (h : Logged w) (changes : Changes encoding w.tables t)
    (constrained : Constrained t.jobs) : Logged (w.commit t) := by
  have kept : ∀ id, (∃ r ∈ w.tables.jobs, r.id = id ∧ r.state = .succeeded) →
      ∃ r ∈ t.jobs, r.id = id ∧ r.state = .succeeded := by
    rintro id ⟨r, member, rfl, done⟩
    rcases changes.evolves member with ⟨r', here, evolves⟩
    exact ⟨r', here, evolves.id, evolves.succeeded done⟩
  refine ⟨fun id => ?_, fun id recorded => ?_⟩
  · change (settled w.tables t ++ w.log).count (.succeeded id) ≤ 1
    rw [List.count_append]
    by_cases before : Observed.succeeded id ∈ w.log
    · have already := h.held id before
      have none : (settled w.tables t).count (.succeeded id) = 0 :=
        List.count_eq_zero.mpr fun again => (mem_settled.mp again).2 already
      have once := h.once id
      omega
    · have none : w.log.count (.succeeded id) = 0 := List.count_eq_zero.mpr before
      have few := settled_count (t := w.tables) constrained id
      omega
  · rcases List.mem_append.mp recorded with recent | before
    · exact (mem_settled.mp recent).1
    · exact kept id (h.held id before)

/-- Other observations do not touch the successes. -/
theorem Logged.observe {entry : Observed} (h : Logged w) (other : ∀ id, entry ≠ .succeeded id) :
    Logged (w.observe entry) := by
  refine ⟨fun id => ?_, fun id recorded => ?_⟩
  · change (entry :: w.log).count (.succeeded id) ≤ 1
    rw [List.count_cons_of_ne (other id)]
    exact h.once id
  · rcases List.mem_cons.mp recorded with same | before
    · exact absurd same.symm (other id)
    · exact h.held id before

theorem Logged.same (h : Logged w) (jobs : w'.tables.jobs = w.tables.jobs) (log : w'.log = w.log) :
    Logged w' := by
  refine ⟨fun id => ?_, fun id recorded => ?_⟩
  · rw [log]
    exact h.once id
  · rw [log] at recorded
    rw [jobs]
    exact h.held id recorded

theorem Logged.step {operation : Operation} (h : Logged w) (tracked : Tracked encoding w)
    (step : Step encoding operation w w') : Logged w' := by
  have progress := step.progress tracked
  have constrained := progress.changes.constrained tracked.constrained
  have changes := progress.changes
  cases step with
  | enqueue job tenantLimit _ inserted t ran => exact h.commit changes constrained
  | claimed deployment skipped _ claim t ran => exact (h.commit changes constrained).same rfl rfl
  | unclaimed deployment skipped _ found t ran => exact h.commit changes constrained
  | locked claim _ sampleTime validate job execution t handed sampled ran =>
      exact (h.commit changes constrained).same rfl rfl
  | attempted claim scheduled _ validate outcome attempt t handed ran =>
      split at changes
      · rename_i committed
        rw [if_pos committed] at constrained ⊢
        exact (h.commit changes constrained).observe fun id same => by cases same
      · rename_i other
        rw [if_neg other] at constrained ⊢
        exact h.commit changes constrained
  | succeeded verified _ validate t handed ran => exact h.commit changes constrained
  | failed claim failure _ now validate result t handed ran => exact h.commit changes constrained
  | command command _ t ran => exact h.commit changes constrained
  | reconcile request _ grant id t ran =>
      exact (h.commit changes constrained).observe fun id same => by cases same
  | receive receipts _ => exact h.same rfl rfl
  | maintain observed _ bounded => exact h.same rfl rfl
  | tick _ wall later => exact h.same rfl rfl

theorem logged_invariant (rule : World → Operation → Prop) :
    (allowing encoding rule).Invariant fun w => Tracked encoding w ∧ Logged w where
  initial w fresh := by
    refine ⟨(tracked_invariant rule).initial w fresh, fun id => ?_, fun id recorded => ?_⟩
    · rw [fresh.log]
      exact Nat.zero_le _
    · rw [fresh.log] at recorded
      cases recorded
  step w w' _ h step := by
    rcases step with ⟨operation, _, step⟩
    exact ⟨h.1.progress (step.progress h.1), h.2.step h.1 step⟩

end Logged

/-! ## Every interleaving -/

/-- Whatever workers and operators do: a claim takes a row that has not ended and raises its
fence; a claim below its row's fence changes nothing; a row is recorded as succeeded at most
once; every row stays within the attempts and is read back by its latest claim; and every
row stays, with its fence never lower and its end kept. -/
theorem job_claims_fenced (encoding : Encoding) {w : World}
    (reachable : (queueSystem encoding).Reachable w) :
    (∀ deployment skipped claim t,
        Jobs.claim deployment w.tables.watermark skipped w.tables = .ok (some claim, t) →
        ∃ r ∈ w.tables.jobs, ∃ r' ∈ t.jobs, r.id = claim.id ∧ r'.id = claim.id ∧ ¬ r.ended
          ∧ r'.fence = r.fence + 1 ∧ claim.fence = r'.fence)
    ∧ (∀ claim, Superseded claim w.tables → Refused encoding claim w.tables)
    ∧ (∀ id, w.log.count (.succeeded id) ≤ 1)
    ∧ (∀ r ∈ w.tables.jobs, r.attempts ≤ maxJobAttempts
        ∧ ∀ claim lock, claim.Current r → row encoding claim lock w.tables = .ok r.read)
    ∧ ∀ later, (queueSystem encoding).Run w later →
        ∀ r ∈ w.tables.jobs, ∃ r' ∈ later.tables.jobs, Evolves r r' := by
  rcases (logged_invariant fun _ _ => True).holds reachable with ⟨tracked, logged⟩
  have constrained := tracked.constrained
  refine ⟨fun deployment skipped claim t ran => claim_raises constrained ran,
    fun claim stale => stale.refused constrained, logged.once, fun r member => ?_,
    fun later run => run_evolves reachable run⟩
  have sound := tracked.rows r member
  exact ⟨sound.ordered.attempts,
    fun claim lock current => row_current constrained member current sound.captured sound.ordered⟩

/-! ## A superseded worker -/

/-- The values of the digests for the captures below. -/
def sampleEncoding : Encoding where
  identityDigest _ origin _ :=
    if origin = "o1" then "GPNwnnunc6kblodZRjTGCaLPUBm-n_1pAVABJFDiGkc"
    else "Dc_Tjnnf3BolmFjcIcpFR2T5nHQAkm2gPyWHLbPqu98"
  invocationDigest _ := "sSoi8PZ2LaWOp-6MSIBrGKjmsuRo90MMjm9AGQxfNQo"
  subjectDigest _ _ := "onulJwguleoKFf0ZRIRY0dHwYIS_aD2xjPnYhNCdDcs"
  originDigest _ _ _ _ _ := "YGq7miS78SHs2SQQydL85MYHraIlFTCgSTEw_qdONHg"
  captureBytes _ := 212
  retryHash _ attempts := if attempts = 1 then 1498 else if attempts = 2 then 908
    else if attempts = 3 then 10207 else 43144

def sampleScope : JobScope := ⟨"g1", ""⟩

def sampleGrant : Grant := ⟨sampleScope, ⟨"keeper", [⟨1, []⟩]⟩, 1, "c1", "e1"⟩

def sampleJob : CapturedJob where
  scope := sampleScope
  origin := "o1"
  ordinal := 0
  sourceAction := 1
  worker := "keeper"
  action := 1
  actionVersion := 1
  contract := "c1"
  grantVersion := 1
  epoch := "e1"
  due := 0
  input := ∅
  targets := []
  reconciledFrom := none

def sampleStart : World where
  tables :=
    { generation := some "g1", runtime := some ⟨⟨"g1", "c1", "e1", .active⟩, 1000, 1000, 2⟩,
      watermark := 0, queue := some 0, tenants := [],
      grants := [⟨"g1", "", "keeper", 1, "c1", "e1", .active, sampleGrant⟩], jobs := [],
      receipts := Receipts.empty }
  claims := []
  admitted := []
  log := []

/-- The sample capture is admitted. -/
def World.enqueues (w : World) : World :=
  match enqueue sampleEncoding sampleJob w.tables.watermark 1000 w.tables with
  | .ok (_, t) => w.commit t
  | .error _ => w

/-- A worker claims what is due. -/
def World.takes (w : World) : World :=
  match Jobs.claim "g1" w.tables.watermark [] w.tables with
  | .ok (some claim, t) => { w.commit t with claims := claim :: w.claims }
  | _ => w

/-- The clock moves on by the length of a lease. -/
def World.waits (w : World) : World :=
  { w with tables := { w.tables with watermark := w.tables.watermark + jobLeaseMillis } }

section Sample

variable {rule : World → Operation → Prop} {w : World}

theorem enqueues_reachable (h : (allowing sampleEncoding rule).Reachable w)
    (allowed : rule w (.enqueue sampleJob 1000)) : (allowing sampleEncoding rule).Reachable w.enqueues := by
  unfold World.enqueues
  split
  · rename_i inserted t ran
    exact h.next ⟨.enqueue sampleJob 1000, allowed, Step.enqueue sampleJob 1000 w inserted t ran⟩
  · exact h

theorem takes_reachable (h : (allowing sampleEncoding rule).Reachable w)
    (allowed : rule w (.claim "g1" [])) : (allowing sampleEncoding rule).Reachable w.takes := by
  unfold World.takes
  split
  · rename_i claim t ran
    exact h.next ⟨.claim "g1" [], allowed, Step.claimed "g1" [] w claim t ran⟩
  · exact h

theorem waits_reachable (h : (allowing sampleEncoding rule).Reachable w) (allowed : rule w .tick) :
    (allowing sampleEncoding rule).Reachable w.waits := by
  refine h.next ⟨.tick, allowed, Step.tick w _ ?_⟩
  unfold jobLeaseMillis
  omega

/-- A job that was claimed again after its first lease ran out. -/
def secondClaim : World :=
  sampleStart.enqueues.takes.waits.takes

theorem secondClaim_reachable : (queueSystem sampleEncoding).Reachable secondClaim := by
  have admitted : (queueSystem sampleEncoding).Reachable sampleStart.enqueues :=
    enqueues_reachable (System.Reachable.start ⟨rfl, rfl, rfl, rfl, rfl⟩) trivial
  exact takes_reachable (waits_reachable (takes_reachable admitted trivial) trivial) trivial

end Sample

/-- The claim that the first worker took. -/
def firstClaim : JobClaim where
  id := "j1_GPNwnnunc6kblodZRjTGCaLPUBm-n_1pAVABJFDiGkc"
  scope := sampleScope
  fence := 1
  leaseUntil := 30000
  exhausted := false

theorem firstClaim_superseded : firstClaim ∈ secondClaim.claims
    ∧ secondClaim.tables.jobs.map (·.fence) = [2] ∧ Superseded firstClaim secondClaim.tables := by
  unfold Superseded
  decide +kernel

theorem job_claims_fenced_sample : firstClaim ∈ secondClaim.claims
    ∧ secondClaim.tables.jobs.map (·.fence) = [2]
    ∧ Refused sampleEncoding firstClaim secondClaim.tables := by
  rcases firstClaim_superseded with ⟨taken, fenced, superseded⟩
  refine ⟨taken, fenced, ?_⟩
  exact (job_claims_fenced sampleEncoding secondClaim_reachable).2.1 firstClaim superseded

end Noxide.Jobs
