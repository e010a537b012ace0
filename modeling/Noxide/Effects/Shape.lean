import Noxide.Effects.Workers

/-!
# Rows that are read back

A worker refuses a row whose shape does not fit its state.  Two transactions return a row
to pending without lowering its attempts below the maximum: the requeue of a lease that
expired under the last attempt, and the unsent release of an exhausted claim.  Wherever
no step does that, every row of every reachable outbox is read back.

Main results:

- Theorem {lit}`rows_read_back`: runs without such a step keep every row readable.
- Theorem {lit}`last_attempt_unreadable`: the requeue of the fifth attempt does not.
-/

namespace Noxide.Effects

open Checked

/-! ## Readable rows -/

/-- The claim that names a row by its own columns. -/
def OutboxRow.ownClaim (r : OutboxRow) : EffectClaim where
  id := r.id
  scope := ⟨r.deployment, r.tenant⟩
  fence := r.fence
  leaseUntil := r.lease
  epoch := r.epoch
  exhausted := false

/-- Every row is read back, by whoever holds its claim, under its own columns, and by an
operator's inspection. -/
structure ReadsBack (encoding : Encoding) (w : World) : Prop where
  claims : ∀ claim, w.hands claim → ∀ r ∈ w.tables.outbox, claim.holds r = true →
    ∃ read, readRow encoding claim r = .ok read
  rows : ∀ r ∈ w.tables.outbox, ∃ read, readRow encoding r.ownClaim r = .ok read
  inspection : ∀ r ∈ w.tables.outbox, ∃ summary, effectSummary r = .ok summary

/-- The pending rows have attempts left. -/
def Pending (w : World) : Prop :=
  ∀ r ∈ w.tables.outbox, r.state = .pending → r.attempts < 5

theorem RowSound.ordered {encoding : Encoding} {watermark : Int} {r : OutboxRow}
    (h : RowSound encoding watermark r) (checked : r.Checked) : r.Ordered := by
  have version := checked.version
  exact ⟨checked.attempts.2, h.first, h.created, checked.contract, checked.epoch, by omega⟩

/-- A sound row has the shape of its state under every claim of its fence and lease. -/
theorem RowSound.shape {encoding : Encoding} {watermark : Int} {r : OutboxRow} {claim : EffectClaim}
    (h : RowSound encoding watermark r) (pending : r.state = .pending → r.attempts < 5)
    (fence : claim.fence = r.fence) (lease : r.state = .running → r.lease = claim.leaseUntil) :
    r.read.shape claim = true := by
  have running := h.running
  have stopped := h.stopped
  unfold Row.shape OutboxRow.read
  cases state : r.state with
  | running => simpa using ⟨(running state).1, lease state, fence ▸ (running state).2⟩
  | pending => simpa using ⟨pending state, stopped (by rw [state]; simp)⟩
  | delivered => simpa using stopped (by rw [state]; simp)
  | dead => simpa using stopped (by rw [state]; simp)
  | paused => simpa using stopped (by rw [state]; simp)
  | cancelled => simpa using stopped (by rw [state]; simp)

theorem effectSummary_ok {r : OutboxRow} (checked : r.Checked) :
    ∃ summary, effectSummary r = .ok summary := by
  have attempts := checked.attempts
  refine ⟨⟨r.id, r.deployment, r.tenant, r.endpoint, r.state, r.attempts, r.round, r.eligible⟩, ?_⟩
  simp only [effectSummary, effectInteger, bind_eq_ok, ensure_eq_ok, integerColumn_ok]
  exact ⟨_, ⟨attempts.1, rfl⟩, (), by omega, _, ⟨checked.round, rfl⟩, _, ⟨checked.eligible, rfl⟩, rfl⟩

theorem Tracked.readsBack {encoding : Encoding} {w : World} (h : Tracked encoding w)
    (pending : Pending w) : ReadsBack encoding w := by
  have reads : ∀ r ∈ w.tables.outbox, ∀ claim : EffectClaim, claim.holds r = true →
      (r.state = .running → r.lease = claim.leaseUntil) →
      ∃ read, readRow encoding claim r = .ok read := by
    intro r member claim held lease
    have checked := h.constrained.rows r member
    have sound := h.rows r member
    have fence : claim.fence = r.fence := by
      simp only [EffectClaim.holds, decide_eq_true_eq] at held
      exact held.2.2.2.symm
    exact ⟨_, (readRow_ok encoding checked held).mpr ⟨sound.captured, sound.ordered checked,
      sound.shape (pending r member) fence lease, rfl⟩⟩
  refine ⟨fun claim handed r member held => ?_, fun r member => ?_, fun r member => ?_⟩
  · rcases h.claims claim handed with ⟨x, here, tracked⟩
    have held' := held
    simp only [EffectClaim.holds, decide_eq_true_eq] at held'
    have same : x = r := Table.eq_of_key (·.id) h.constrained.ids here member
      (tracked.id.trans held'.1.symm)
    rw [same] at tracked
    exact reads r member claim held (tracked.lease held'.2.2.2)
  · exact reads r member r.ownClaim (by simp [EffectClaim.holds, OutboxRow.ownClaim]) fun _ => rfl
  · exact effectSummary_ok (h.constrained.rows r member)

/-! ## Bounded steps -/

/-- The step returns no row to pending at the maximum of its attempts. -/
def Bounded (encoding : Encoding) (w : World) : Operation → Prop
  | .preflight claim => ∀ r ∈ w.tables.outbox, Requeues encoding claim r w.tables → r.attempts < 5
  | .release claim => ∀ r ∈ w.tables.outbox, claim.holds r = true → r.state = .running →
      r.attempts - (if claim.exhausted then 0 else 1) < 5
  | _ => True

/-- Every interleaving of bounded steps. -/
def boundedSystem (encoding : Encoding) : System World :=
  allowing encoding (Bounded encoding)

section Pending

variable {encoding : Encoding} {w w' : World}

/-- One row moved: the others stay pending within the bound. -/
theorem Pending.moved {move : Move} {r r' : OutboxRow} (h : Pending w)
    (moved : Moved move r r' w.tables w'.tables) (bound : r'.state = .pending → r'.attempts < 5) :
    Pending w' := by
  intro x member
  rcases moved.replaced.mem member with rfl | old
  · exact bound
  · exact h x old

theorem Pending.kept (h : Pending w) (outbox : w'.tables.outbox = w.tables.outbox) : Pending w' := by
  intro r member
  rw [outbox] at member
  exact h r member

theorem Pending.pauses (h : Pending w) (paused : Pauses w.tables w'.tables) : Pending w' := by
  intro r' member pending
  rcases forall₂_mem_left paused.rows.flip member with ⟨r, here, related⟩
  cases related with
  | same => exact h r' here pending
  | paused reason pausable => cases pending

theorem Pending.preflighted {claim : EffectClaim} {answer : Preflight} (h : Pending w)
    (ended : Preflighted encoding claim w.tables answer w'.tables)
    (bounded : Bounded encoding w (.preflight claim)) : Pending w' := by
  generalize after : w'.tables = t at ended
  cases ended with
  | settled outcome => exact h.kept (by rw [after])
  | sent r member held running first live => exact h.kept (by rw [after])
  | finished outcome r state reason eligible _ moved settles =>
      subst after
      refine h.moved moved fun pending => ?_
      exact bounded r moved.replaced.mem_before (settles.requeued pending)

theorem Pending.command {command : Command} (tracked : Tracked encoding w) (h : Pending w)
    (ran : command.run encoding w.tables = .ok w'.tables) : Pending w' := by
  have constrained := tracked.constrained
  cases command with
  | cancel generation id =>
      rcases cancel_moves ran with ⟨r, _, moved⟩
      exact h.moved moved fun pending => by cases pending
  | revokeEndpoint generation tenant endpoint =>
      exact h.pauses (revokeEffectEndpoint_pauses constrained ran)
  | revokeSecret generation slot => exact h.pauses (revokeEffectSecret_pauses constrained ran)
  | grantEndpoint generation contract binding =>
      exact h.pauses (grantEffectEndpoint_pauses constrained ran)
  | grantSecret generation contract slot effective =>
      exact h.pauses (grantEffectSecret_pauses constrained ran)
  | resume generation contract effective id version retry =>
      rcases resume_moves constrained ran with ⟨r, r', _, moved⟩
      refine h.moved moved fun _ => ?_
      have row := moved.row
      cases row with
      | resume _ _ _ _ _ paused allowance => exact allowance
      | retry _ _ _ _ _ stopped =>
          change (0 : Int) < 5
          decide
  | pauseForEpoch => exact h.pauses (pauseEffectsForEpoch_pauses ran)

theorem Pending.step {operation : Operation} (tracked : Tracked encoding w) (h : Pending w)
    (bounded : Bounded encoding w operation) (step : Step encoding operation w w') : Pending w' := by
  have constrained := tracked.constrained
  cases step with
  | enqueue capture _ t ran =>
      rcases enqueue_adds ran with rfl | added
      · exact h.kept rfl
      · intro r member pending
        change r ∈ t.outbox at member
        rw [added.outbox, List.mem_append, List.mem_singleton] at member
        rcases member with member | rfl
        · exact h r member pending
        · change (0 : Int) < 5
          decide
  | claimed request _ claim t ran =>
      rcases claim_moves constrained ran with ⟨none, _⟩ | ⟨taken, r, same, moved⟩
      · cases none
      · change Pending ⟨t, ⟨claim, .claimed⟩ :: w.workers, w.log⟩
        exact Pending.moved h moved
          fun pending => by cases pending
  | unclaimed request _ found t ran =>
      rcases claim_moves constrained ran with ⟨_, rfl⟩ | ⟨taken, r, _, moved⟩
      · exact h.kept rfl
      · change Pending ⟨t, w.workers, w.log⟩
        exact Pending.moved h moved fun pending => by cases pending
  | answered claim _ answer t handed ran =>
      exact h.preflighted (preflight_moves constrained ran) bounded
  | unanswered claim _ answer t handed ran =>
      exact h.preflighted (preflight_moves constrained ran) bounded
  | failed claim _ handed => exact h.kept rfl
  | release claim _ t handed ran =>
      rcases release_moves constrained ran with rfl | ⟨r, moved⟩
      · exact h.kept rfl
      · change Pending ⟨t, restage claim .finished w.workers, w.log⟩
        refine Pending.moved h moved fun _ => ?_
        have row := moved.row
        cases row with
        | release _ _ held running => exact bounded r moved.replaced.mem_before held running
  | finalize claim result _ outcome t handed ran =>
      cases finalize_moves constrained ran with
      | unchanged => exact h.kept rfl
      | finished _ r state reason eligible _ moved retried =>
          change Pending ⟨t, restage claim .finished w.workers, w.log⟩
          exact Pending.moved h moved retried
      | delivered r eligible _ moved =>
          change Pending ⟨t, restage claim .finished w.workers, w.log⟩
          exact Pending.moved h moved
            fun pending => by cases pending
  | command command _ t ran => exact h.command tracked ran
  | tick _ wall later => exact h.kept rfl
  | administer _ t outbox watermark => exact h.kept outbox

end Pending

/-- In every run of bounded steps every row is read back in every state. -/
theorem rows_read_back (encoding : Encoding) {w : World}
    (reachable : (boundedSystem encoding).Reachable w) : ReadsBack encoding w := by
  have invariant : (boundedSystem encoding).Invariant fun w => Tracked encoding w ∧ Pending w := by
    refine ⟨fun w fresh => ⟨(tracked_invariant (Bounded encoding)).initial w fresh, fun r member => ?_⟩,
      fun w w' _ h step => ?_⟩
    · rw [fresh.outbox] at member
      cases member
    · rcases step with ⟨operation, bounded, step⟩
      exact ⟨h.1.progress (step.progress h.1.constrained), h.2.step h.1 bounded step⟩
  have holds := invariant.holds reachable
  exact holds.1.readsBack holds.2

/-! ## The fifth attempt -/

/-- The fifth lease runs out before the preflight, which requeues the row with no attempt
left. -/
theorem last_attempt_unreadable :
    (outboxSystem sampleEncoding).Reachable fifthClaim.waits.preflights
    ∧ ¬ ReadsBack sampleEncoding fifthClaim.waits.preflights := by
  have fifth : (deliverySystem sampleEncoding).Reachable fifthClaim :=
    fifthClaim_reachable (fun _ => trivial) (fun _ => trivial) fun _ => trivial
  refine ⟨allowing_reachable (preflights_reachable (waits_reachable fifth trivial)), fun reads => ?_⟩
  have refused : (fifthClaim.waits.preflights.tables.outbox.map fun r =>
      readRow sampleEncoding r.ownClaim r) = [.error (.message "invalid effect state shape")] := by
    decide +kernel
  have member : Except.error (Failure.message "invalid effect state shape") ∈
      fifthClaim.waits.preflights.tables.outbox.map fun r => readRow sampleEncoding r.ownClaim r := by
    rw [refused]
    exact List.mem_singleton_self _
  rcases List.mem_map.mp member with ⟨r, here, error⟩
  rcases reads.rows r here with ⟨read, ok⟩
  rw [ok] at error
  cases error

/-- Until then every row is read back. -/
theorem rows_read_back_sample : (fifthClaim.tables.outbox.map (·.attempts)) = [5]
    ∧ ReadsBack sampleEncoding fifthClaim :=
  ⟨by decide +kernel, rows_read_back sampleEncoding
    (fifthClaim_reachable (fun _ => trivial) (fun _ => trivial) fun _ => trivial)⟩

end Noxide.Effects
