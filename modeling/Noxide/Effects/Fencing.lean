import Noxide.Effects.Workers

/-!
# Superseded claims

The fence of a row rises with every claim and every reschedule.  A transaction under an
older fence finds no row, so it changes nothing; a preflight and a finalization then
answer that they were superseded, while a release only succeeds.

Main results:

- Theorem {lit}`superseded_ignored`: what every interleaving keeps of fences, deliveries
  and captures.
- Theorem {lit}`stale_release_reports_success`: a superseded release is not reported.
-/

namespace Noxide.Effects

open Checked

/-! ## Calls under a claim -/

/-- A transaction that a worker runs under its claim. -/
inductive WorkerCall where
  | preflight
  | release
  | finalize (result : DeliveryResult)

/-- What the transaction reports to the worker. -/
inductive Report where
  | preflight (answer : Preflight)
  | released
  | finalized (outcome : Finalized)
  deriving DecidableEq

def Report.superseded (report : Report) : Bool :=
  decide (report = .preflight (.settled .superseded) ∨ report = .finalized .superseded)

def WorkerCall.run (encoding : Encoding) (claim : EffectClaim) :
    WorkerCall → EffectTables → Result (Report × EffectTables)
  | .preflight, t => do
      let (answer, t) ← Effects.preflight encoding claim t
      return (.preflight answer, t)
  | .release, t => do
      let t ← releaseUnsent claim t
      return (.released, t)
  | .finalize result, t => do
      let (outcome, t) ← Effects.finalize encoding claim result t
      return (.finalized outcome, t)

/-- No row is at the claim's fence. -/
def Stale (claim : EffectClaim) (t : EffectTables) : Prop :=
  ∀ r ∈ t.outbox, r.id = claim.id → r.fence ≠ claim.fence

/-- The claim has no effect: whatever is run under it changes nothing; a preflight and a
finalization that answer were superseded, and a release succeeds. -/
structure Ignored (encoding : Encoding) (claim : EffectClaim) (t : EffectTables) : Prop where
  preflight : ∀ answer t', preflight encoding claim t = .ok (answer, t') →
    answer = .settled .superseded ∧ t' = t
  release : releaseUnsent claim t = .ok t
  finalize : ∀ result outcome t', finalize encoding claim result t = .ok (outcome, t') →
    outcome = .superseded ∧ t' = t

section Stale

variable {encoding : Encoding} {claim : EffectClaim} {t : EffectTables}

theorem Stale.holds (h : Stale claim t) : ∀ r ∈ t.outbox, claim.holds r = false := by
  intro r member
  simp only [EffectClaim.holds, decide_eq_false_iff_not]
  rintro ⟨id, _, _, fence⟩
  exact h r member id fence

theorem Stale.ignored (h : Stale claim t) (constrained : Constrained t.outbox) :
    Ignored encoding claim t := by
  have none : ∀ lock, row encoding claim lock t = .ok none := fun lock => row_none h.holds
  refine ⟨fun answer t' ran => ?_, ?_, fun result outcome t' ran => ?_⟩
  · simp only [preflight, bind_eq_ok] at ran
    rcases ran with ⟨runtime, _, preview, read, ran⟩
    rw [none false] at read
    cases read
    cases ran
    exact ⟨rfl, rfl⟩
  · have unmatched : t.outbox.countP (fun r => claim.holds r && decide (r.state = .running)) = 0 := by
      rw [List.countP_eq_zero]
      intro r member
      rw [h.holds r member, Bool.false_and]
      exact Bool.false_ne_true
    have updated : updateOutbox (fun r => claim.holds r && decide (r.state = .running))
        (·.released (if claim.exhausted then 0 else 1)) t = .ok (0, t) := by
      refine updateOutbox_ok.mpr ⟨?_, unmatched.symm, ?_⟩
      · rw [Table.update_none unmatched]
        exact constrained
      · rw [Table.update_none unmatched]
    unfold releaseUnsent
    rw [updated]
    rfl
  · simp only [finalize, bind_eq_ok] at ran
    rcases ran with ⟨runtime, _, ran⟩
    split at ran
    · simp only [finalizeDelivered, bind_eq_ok] at ran
      rcases ran with ⟨read, reads, ran⟩
      rw [none true] at reads
      cases reads
      cases ran
      exact ⟨rfl, rfl⟩
    · simp only [bind_eq_ok] at ran
      rcases ran with ⟨read, reads, ran⟩
      rw [none false] at reads
      cases reads
      cases ran
      exact ⟨rfl, rfl⟩

/-- A claim below the fence of its row stays so. -/
theorem stale_of_evolves {t' : EffectTables} {r : OutboxRow} (constrained : Constrained t'.outbox)
    (id : r.id = claim.id) (below : claim.fence < r.fence)
    (evolved : ∃ r' ∈ t'.outbox, Evolves r r') : Stale claim t' := by
  rcases evolved with ⟨r', here, evolves⟩
  have rises := evolves.fence
  intro x member named same
  have chosen : x = r' := Table.eq_of_key (·.id) constrained.ids member here
    (named.trans (id.symm.trans evolves.id.symm))
  rw [chosen] at same
  omega

end Stale

/-! ## Runs -/

section Runs

variable {encoding : Encoding} {w later : World}

theorem Tracked.run (reachable : (outboxSystem encoding).Reachable w)
    (run : (outboxSystem encoding).Run w later) : Tracked encoding later :=
  (tracked_invariant fun _ _ => True).holds (reachable.run run)

/-- Every row of a reachable world has a later version in every later world. -/
theorem run_evolves (reachable : (outboxSystem encoding).Reachable w)
    (run : (outboxSystem encoding).Run w later) :
    ∀ r ∈ w.tables.outbox, ∃ r' ∈ later.tables.outbox, Evolves r r' := by
  induction run with
  | refl => exact fun r member => ⟨r, member, Evolves.refl r⟩
  | tail before step ih =>
      intro r member
      rcases ih r member with ⟨middle, here, evolves⟩
      rcases step with ⟨operation, _, step⟩
      have tracked := Tracked.run reachable before
      rcases (step.progress tracked.constrained).evolves middle here with ⟨last, there, further⟩
      exact ⟨last, there, evolves.trans further⟩

/-- A claim that was handed out before its row was rescheduled is superseded for good. -/
theorem rescheduled_stale {generation contract id : String} {effective : EffectiveEffectDeployment}
    {version : Nat} {retry : Bool} {next : World} (reachable : (outboxSystem encoding).Reachable w)
    (step : Step encoding (.command (.resume generation contract effective id version retry)) w next)
    (run : (outboxSystem encoding).Run next later) {claim : EffectClaim} (handed : w.hands claim)
    (named : claim.id = id) : Stale claim later.tables := by
  have tracked : Tracked encoding w := (tracked_invariant fun _ _ => True).holds reachable
  have reached := reachable.next ⟨_, trivial, step⟩
  cases step with
  | command _ _ t ran =>
      rcases resume_moves tracked.constrained ran with ⟨r, r', target, moved⟩
      rcases tracked.claims claim handed with ⟨x, here, held⟩
      have chosen : x = r := Table.eq_of_key (·.id) tracked.constrained.ids here
        moved.replaced.mem_before (held.id.trans (named.trans target.symm))
      rw [chosen] at held
      have row := moved.row
      have rises : r'.fence = r.fence + 1 := by
        cases row <;> rfl
      have low := held.fence
      refine stale_of_evolves (Tracked.run reached run).constrained
        (row.evolves.id.trans held.id) (by omega) ?_
      exact run_evolves reached run r' moved.replaced.mem_after

/-- Whatever workers and operators do: a claim below its row's fence has no effect, also
every claim taken before an operator resumed or retried its effect; and every row stays,
with its fence never lower, its delivery and its capture kept. -/
theorem superseded_ignored (encoding : Encoding) {w : World}
    (reachable : (outboxSystem encoding).Reachable w) :
    (∀ claim, Stale claim w.tables → Ignored encoding claim w.tables)
    ∧ (∀ generation contract effective id version retry next later,
        Step encoding (.command (.resume generation contract effective id version retry)) w next →
        (outboxSystem encoding).Run next later →
        ∀ claim, w.hands claim → claim.id = id → Ignored encoding claim later.tables)
    ∧ ∀ later, (outboxSystem encoding).Run w later → ∀ r ∈ w.tables.outbox,
        ∃ r' ∈ later.tables.outbox, Evolves r r' ∧ r'.payload.receiverKey encoding = r.id := by
  have tracked : Tracked encoding w := (tracked_invariant fun _ _ => True).holds reachable
  refine ⟨fun claim stale => stale.ignored tracked.constrained, ?_, fun later run r member => ?_⟩
  · intro generation contract effective id version retry next later step run claim handed named
    have reached := reachable.next ⟨_, trivial, step⟩
    exact (rescheduled_stale reachable step run handed named).ignored
      (Tracked.run reached run).constrained
  · rcases run_evolves reachable run r member with ⟨r', here, evolves⟩
    refine ⟨r', here, evolves, ?_⟩
    have captured := ((Tracked.run reachable run).rows r' here).captured
    exact captured.id.trans evolves.id

end Runs

/-! ## A superseded worker -/

/-- The claim that the first worker took. -/
def firstClaim : EffectClaim where
  id := "e1_Dsr29-w4gLnVrJabqnLAnqvqrMhHOrAHT27WOEIZm4Y"
  scope := ⟨"g1", ""⟩
  fence := 1
  leaseUntil := 60000
  epoch := "e1"
  exhausted := false

theorem firstClaim_superseded : fifthClaim.hands firstClaim ∧ Stale firstClaim fifthClaim.tables := by
  unfold World.hands Stale
  decide +kernel

theorem fifthClaim_outbox : (outboxSystem sampleEncoding).Reachable fifthClaim :=
  fifthClaim_reachable (fun _ => trivial) (fun _ => trivial) fun _ => trivial

theorem superseded_ignored_sample : fifthClaim.hands firstClaim
    ∧ Ignored sampleEncoding firstClaim fifthClaim.tables := by
  rcases firstClaim_superseded with ⟨handed, stale⟩
  exact ⟨handed, (superseded_ignored sampleEncoding fifthClaim_outbox).1 firstClaim stale⟩

/-- The release of a superseded claim reports success, not that it was superseded. -/
theorem stale_release_reports_success : (outboxSystem sampleEncoding).Reachable fifthClaim
    ∧ fifthClaim.hands firstClaim ∧ Stale firstClaim fifthClaim.tables
    ∧ ¬ ∃ report t, WorkerCall.release.run sampleEncoding firstClaim fifthClaim.tables = .ok (report, t)
      ∧ report.superseded = true := by
  refine ⟨fifthClaim_outbox, firstClaim_superseded.1, firstClaim_superseded.2, ?_⟩
  rintro ⟨report, t, ran, superseded⟩
  simp only [WorkerCall.run, bind_eq_ok] at ran
  rcases ran with ⟨t', _, ran⟩
  cases ran
  cases superseded

end Noxide.Effects
