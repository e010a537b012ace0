import Noxide.Effects.Workers

/-!
# Sends per round

A claim charges an attempt, a preflight that answers to send uses it up, and a release
gives back only an attempt that was not used.  So the sends that delivery loops are told
to make, between two operator retries, never exceed the charged attempts.

Main results:

- Theorem {lit}`sends_bounded`: at most five sends in a round, and none after a delivery
  or, before the next retry, after the effect is dead.
-/

namespace Noxide.Effects

open Checked

/-! ## Counting sends -/

/-- The sends of an effect since its latest retry. -/
def sendsSinceRetry (id : String) : List Observed → Nat
  | [] => 0
  | .sent other :: rest => sendsSinceRetry id rest + if other = id then 1 else 0
  | .retried other :: rest => if other = id then 0 else sendsSinceRetry id rest

theorem sendsSinceRetry_sent (id : String) (log : List Observed) :
    sendsSinceRetry id (.sent id :: log) = sendsSinceRetry id log + 1 := by
  change sendsSinceRetry id log + (if id = id then 1 else 0) = _
  rw [if_pos rfl]

theorem sendsSinceRetry_other {id other : String} (h : other ≠ id) (log : List Observed) :
    sendsSinceRetry id (.sent other :: log) = sendsSinceRetry id log := by
  change sendsSinceRetry id log + (if other = id then 1 else 0) = _
  rw [if_neg h, Nat.add_zero]

theorem sendsSinceRetry_retried (id : String) (log : List Observed) :
    sendsSinceRetry id (.retried id :: log) = 0 :=
  if_pos rfl

/-- Observations of other effects do not count, and a retry only resets. -/
theorem sendsSinceRetry_le {id : String} {entry : Observed} (h : entry ≠ .sent id)
    (log : List Observed) : sendsSinceRetry id (entry :: log) ≤ sendsSinceRetry id log := by
  cases entry with
  | sent other =>
      rw [sendsSinceRetry_other (by rintro rfl; exact h rfl)]
  | retried other =>
      change (if other = id then 0 else sendsSinceRetry id log) ≤ _
      split
      · exact Nat.zero_le _
      · exact le_refl _

theorem sendsSinceRetry_unsent {id : String} {log : List Observed} (h : .sent id ∉ log) :
    sendsSinceRetry id log = 0 := by
  induction log with
  | nil => rfl
  | cons entry rest ih =>
      rw [List.mem_cons, not_or] at h
      have below := sendsSinceRetry_le (Ne.symm h.1) rest
      have none := ih h.2
      omega

/-! ## The charged attempts -/

/-- The worker's attempt is charged and not used. -/
def Worker.owed (worker : Worker) : Prop :=
  worker.claim.exhausted = false ∧ (worker.stage = .claimed ∨ worker.stage = .failed)

/-- The row runs under the worker's claim. -/
def Worker.runs (worker : Worker) (r : OutboxRow) : Prop :=
  r.id = worker.claim.id ∧ r.fence = worker.claim.fence ∧ r.state = .running

/-- Sends are paid for by attempts, and an attempt that is still owed a send is not yet
used. -/
structure Counted (w : World) : Prop where
  known : ∀ id, .sent id ∈ w.log → ∃ r ∈ w.tables.outbox, r.id = id
  within : ∀ r ∈ w.tables.outbox, (sendsSinceRetry r.id w.log : Int) ≤ r.attempts
  owed : ∀ worker ∈ w.workers, worker.owed → ∀ r ∈ w.tables.outbox, worker.runs r →
    (sendsSinceRetry r.id w.log : Int) + 1 ≤ r.attempts

/-- No new worker is owed an attempt. -/
def Fewer (workers workers' : List Worker) : Prop :=
  ∀ worker' ∈ workers', worker'.owed → ∃ worker ∈ workers, worker.owed ∧ worker.claim = worker'.claim

theorem Fewer.refl (workers : List Worker) : Fewer workers workers :=
  fun worker member owed => ⟨worker, member, owed, rfl⟩

/-- A worker that ends its claim, or one whose preflight did not answer, owes no more. -/
theorem restage_fewer {claim : EffectClaim} {stage : Stage} {workers : List Worker}
    (allowed : stage = .failed → ⟨claim, .claimed⟩ ∈ workers) (settled : stage ≠ .claimed) :
    Fewer workers (restage claim stage workers) := by
  intro worker' member owed
  rcases List.mem_map.mp member with ⟨worker, here, rfl⟩
  split at owed
  · rename_i same
    rcases owed.2 with claimed | failed
    · exact absurd claimed settled
    · refine ⟨⟨claim, .claimed⟩, allowed failed, ⟨?_, Or.inl rfl⟩, ?_⟩
      · rw [← same]
        exact owed.1
      · rw [if_pos same]
        exact same.symm
  · rename_i other
    refine ⟨worker, here, owed, ?_⟩
    rw [if_neg other]

section Counted

variable {encoding : Encoding} {w w' : World}

theorem Counted.kept (h : Counted w) (outbox : w'.tables.outbox = w.tables.outbox)
    (workers : Fewer w.workers w'.workers) (log : w'.log = w.log) : Counted w' := by
  refine ⟨fun id sent => ?_, fun r member => ?_, fun worker member owed r here runs => ?_⟩
  · rw [log] at sent
    rw [outbox]
    exact h.known id sent
  · rw [outbox] at member
    rw [log]
    exact h.within r member
  · rcases workers worker member owed with ⟨old, there, owes, same⟩
    rw [outbox] at here
    rw [log]
    refine h.owed old there owes r here ?_
    unfold Worker.runs
    rw [same]
    exact runs

/-- One row moved out of running: it only has to cover its sends. -/
theorem Counted.moved {move : Move} {r r' : OutboxRow} (h : Counted w)
    (moved : Moved move r r' w.tables w'.tables) (idle : r'.state ≠ .running)
    (workers : Fewer w.workers w'.workers)
    (log : ∀ x, sendsSinceRetry x w'.log ≤ sendsSinceRetry x w.log)
    (known : ∀ x, .sent x ∈ w'.log → .sent x ∈ w.log)
    (covered : (sendsSinceRetry r.id w'.log : Int) ≤ r'.attempts) : Counted w' := by
  have id : r'.id = r.id := moved.row.evolves.id
  refine ⟨fun x sent => ?_, fun x member => ?_, fun worker member owed x here runs => ?_⟩
  · rcases h.known x (known x sent) with ⟨y, here, rfl⟩
    rcases moved.replaced.mem_old here with rfl | still
    · exact ⟨r', moved.replaced.mem_after, id⟩
    · exact ⟨y, still, rfl⟩
  · rcases moved.replaced.mem member with rfl | old
    · rw [id]
      exact covered
    · have before := h.within x old
      have fewer := log x.id
      omega
  · rcases moved.replaced.mem here with rfl | old
    · exact absurd runs.2.2 idle
    · rcases workers worker member owed with ⟨earlier, there, owes, same⟩
      have before := h.owed earlier there owes x old (by unfold Worker.runs; rw [same]; exact runs)
      have fewer := log x.id
      omega

theorem Counted.paused (h : Counted w) (paused : Pauses w.tables w'.tables)
    (workers : w'.workers = w.workers) (log : w'.log = w.log) : Counted w' := by
  refine ⟨fun id sent => ?_, fun r' member => ?_, fun worker member owed r' here runs => ?_⟩
  · rw [log] at sent
    rcases h.known id sent with ⟨r, here, rfl⟩
    rcases forall₂_mem_left paused.rows here with ⟨r', there, related⟩
    exact ⟨r', there, related.evolves.id⟩
  · rcases forall₂_mem_left paused.rows.flip member with ⟨r, here, related⟩
    have before := h.within r here
    rw [log]
    cases related with
    | same => exact before
    | paused reason pausable => exact before
  · rcases forall₂_mem_left paused.rows.flip here with ⟨r, there, related⟩
    rw [workers] at member
    rw [log]
    cases related with
    | same => exact h.owed worker member owed r' there runs
    | paused reason pausable => cases runs.2.2

theorem Counted.claimed {claim : EffectClaim} {r : OutboxRow} (h : Counted w)
    (tracked : Tracked encoding w)
    (moved : Moved (.claim claim) r (r.claimed claim.fence claim.leaseUntil) w.tables w'.tables)
    (workers : w'.workers = ⟨claim, .claimed⟩ :: w.workers ∨ w'.workers = w.workers)
    (log : w'.log = w.log) : Counted w' := by
  have member := moved.replaced.mem_before
  have bounds := (tracked.constrained.rows r member).attempts
  have before := h.within r member
  have row := moved.row
  cases row with
  | claim _ _ id scope due fence lease exhausted =>
      have attempts : (r.claimed claim.fence claim.leaseUntil).attempts
          = if r.attempts < 5 then r.attempts + 1 else r.attempts := rfl
      refine ⟨fun x sent => ?_, fun x here => ?_, fun worker there owed x here runs => ?_⟩
      · rw [log] at sent
        rcases h.known x sent with ⟨y, here, rfl⟩
        rcases moved.replaced.mem_old here with rfl | still
        · exact ⟨_, moved.replaced.mem_after, rfl⟩
        · exact ⟨y, still, rfl⟩
      · rw [log]
        rcases moved.replaced.mem here with rfl | old
        · rw [attempts]
          change (sendsSinceRetry r.id w.log : Int) ≤ _
          split <;> omega
        · exact h.within x old
      · rw [log]
        have old_worker : worker ∈ w.workers →
            (sendsSinceRetry x.id w.log : Int) + 1 ≤ x.attempts := by
          intro held
          rcases moved.replaced.mem here with rfl | old
          · rcases tracked.claims worker.claim (List.mem_map_of_mem held) with ⟨y, stored, holds⟩
            have chosen : y = r := Table.eq_of_key (·.id) tracked.constrained.ids stored member
              (holds.id.trans runs.1.symm)
            have low := holds.fence
            rw [chosen] at low
            have fenced : claim.fence = worker.claim.fence := runs.2.1
            omega
          · exact h.owed worker held owed x old runs
        rcases workers with added | same
        · rw [added, List.mem_cons] at there
          rcases there with rfl | held
          · rcases moved.replaced.mem_other (·.id) rfl tracked.constrained.ids here with
              rfl | ⟨_, other⟩
            · have first : ¬ 5 ≤ r.attempts := by
                have unspent := owed.1
                simp only at unspent
                rw [exhausted] at unspent
                simpa using unspent
              rw [attempts, if_pos (by omega)]
              change (sendsSinceRetry r.id w.log : Int) + 1 ≤ r.attempts + 1
              omega
            · exact absurd (runs.1.trans id) other
          · exact old_worker held
        · rw [same] at there
          exact old_worker there

/-- A send uses up the attempt of its worker. -/
theorem Counted.sent {claim : EffectClaim} {r : OutboxRow} (h : Counted w) (tracked : Tracked encoding w)
    (claimed : ⟨claim, .claimed⟩ ∈ w.workers) (member : r ∈ w.tables.outbox)
    (held : claim.holds r = true) (running : r.state = .running) (first : claim.exhausted = false)
    (outbox : w'.tables.outbox = w.tables.outbox)
    (workers : w'.workers = restage claim .sending w.workers)
    (log : w'.log = .sent claim.id :: w.log) : Counted w' := by
  simp only [EffectClaim.holds, decide_eq_true_eq] at held
  have unused := h.owed ⟨claim, .claimed⟩ claimed ⟨first, Or.inl rfl⟩ r member
    ⟨held.1, held.2.2.2, running⟩
  refine ⟨fun id sent => ?_, fun x here => ?_, fun worker there owed x here runs => ?_⟩
  · rw [outbox]
    rw [log, List.mem_cons] at sent
    rcases sent with same | before
    · cases same
      exact ⟨r, member, held.1⟩
    · exact h.known id before
  · rw [outbox] at here
    rw [log]
    by_cases same : claim.id = x.id
    · have chosen : x = r := Table.eq_of_key (·.id) tracked.constrained.ids here member
        (same.symm.trans held.1.symm)
      rw [chosen, held.1, sendsSinceRetry_sent]
      rw [held.1] at unused
      push_cast
      exact unused
    · rw [sendsSinceRetry_other same]
      exact h.within x here
  · rw [outbox] at here
    rw [workers] at there
    rcases List.mem_map.mp there with ⟨old, stored, rfl⟩
    split at owed
    · rcases owed.2 with impossible | impossible
      · cases impossible
      · cases impossible
    · rename_i other
      rw [if_neg other] at runs
      have apart : x.id ≠ claim.id := by
        intro same
        have chosen : x = r := Table.eq_of_key (·.id) tracked.constrained.ids here member
          (same.trans held.1.symm)
        rw [chosen] at runs
        have both : (old.claim.id, old.claim.fence) = (claim.id, claim.fence) := by
          rw [← runs.1, ← runs.2.1, held.1, held.2.2.2]
        have equal := List.inj_on_of_nodup_map tracked.distinct stored claimed both
        rw [equal] at other
        exact other rfl
      rw [log, sendsSinceRetry_other (Ne.symm apart)]
      exact h.owed old stored owed x here runs

theorem Counted.added {capture : CapturedEffect} (h : Counted w)
    (added : Added encoding capture w.tables w'.tables) (workers : w'.workers = w.workers)
    (log : w'.log = w.log) : Counted w' := by
  have fresh : ∀ r ∈ w.tables.outbox, r.id ≠ capture.id encoding := by
    have distinct := added.constrained.ids
    rw [added.outbox, List.map_append, List.nodup_append] at distinct
    intro r member
    exact distinct.2.2 r.id (List.mem_map_of_mem member) _ List.mem_cons_self
  refine ⟨fun id sent => ?_, fun r member => ?_, fun worker there owed r here runs => ?_⟩
  · rw [log] at sent
    rcases h.known id sent with ⟨r, here, same⟩
    rw [added.outbox]
    exact ⟨r, List.mem_append_left _ here, same⟩
  · rw [log]
    rw [added.outbox, List.mem_append, List.mem_singleton] at member
    rcases member with member | rfl
    · exact h.within r member
    · have unsent : .sent (capture.id encoding) ∉ w.log := by
        intro sent
        rcases h.known _ sent with ⟨r, here, same⟩
        exact fresh r here same
      change (sendsSinceRetry (capture.id encoding) w.log : Int) ≤ 0
      rw [sendsSinceRetry_unsent unsent]
      exact le_refl _
  · rw [workers] at there
    rw [log]
    rw [added.outbox, List.mem_append, List.mem_singleton] at here
    rcases here with here | rfl
    · exact h.owed worker there owed r here runs
    · cases runs.2.2

theorem Counted.preflighted {claim : EffectClaim} {answer : Preflight} {stage : Stage} (h : Counted w)
    (ended : Preflighted encoding claim w.tables answer w'.tables)
    (silent : ∀ captured, answer = .send captured → w'.log = w.log)
    (allowed : stage = .failed → ⟨claim, .claimed⟩ ∈ w.workers) (settled : stage ≠ .claimed)
    (workers : w'.workers = restage claim stage w.workers)
    (log : ∀ outcome, answer = .settled outcome → w'.log = w.log) : Counted w' := by
  have fewer : Fewer w.workers w'.workers := by
    rw [workers]
    exact restage_fewer allowed settled
  generalize after : w'.tables = t at ended
  cases ended with
  | settled outcome => exact h.kept (by rw [after]) fewer (log outcome rfl)
  | sent r member held running first live => exact h.kept (by rw [after]) fewer (silent _ rfl)
  | finished outcome r state reason eligible _ moved settles =>
      subst after
      have same := log outcome rfl
      have covered := h.within r moved.replaced.mem_before
      refine h.moved moved ?_ fewer (fun x => by rw [same]) (fun x sent => by rw [← same]; exact sent) ?_
      · intro running
        change state = .running at running
        rcases settles.stopped with paused | dead | pending
        · rw [paused] at running
          cases running
        · rw [dead] at running
          cases running
        · rw [pending] at running
          cases running
      · rw [same]
        exact covered

theorem Counted.command {command : Command} (h : Counted w) (tracked : Tracked encoding w)
    (ran : command.run encoding w.tables = .ok w'.tables) (workers : w'.workers = w.workers)
    (log : w'.log = command.observed ++ w.log) : Counted w' := by
  have constrained := tracked.constrained
  have fewer : Fewer w.workers w'.workers := by
    rw [workers]
    exact Fewer.refl _
  cases command with
  | cancel generation id =>
      rcases cancel_moves ran with ⟨r, _, moved⟩
      have same : w'.log = w.log := log
      refine h.moved moved (fun running => by cases running) fewer (fun x => by rw [same])
        (fun x sent => by rw [← same]; exact sent) ?_
      rw [same]
      exact h.within r moved.replaced.mem_before
  | revokeEndpoint generation tenant endpoint =>
      exact h.paused (revokeEffectEndpoint_pauses constrained ran) workers log
  | revokeSecret generation slot =>
      exact h.paused (revokeEffectSecret_pauses constrained ran) workers log
  | grantEndpoint generation contract binding =>
      exact h.paused (grantEffectEndpoint_pauses constrained ran) workers log
  | grantSecret generation contract slot effective =>
      exact h.paused (grantEffectSecret_pauses constrained ran) workers log
  | resume generation contract effective id version retry =>
      rcases resume_moves constrained ran with ⟨r, r', target, moved⟩
      have before := h.within r moved.replaced.mem_before
      have row := moved.row
      cases row with
      | resume _ _ _ _ _ paused allowance =>
          have same : w'.log = w.log := log
          refine h.moved moved (fun running => by cases running) fewer (fun x => by rw [same])
            (fun x sent => by rw [← same]; exact sent) ?_
          rw [same]
          exact before
      | retry _ _ _ _ _ stopped =>
          have entry : w'.log = .retried id :: w.log := log
          refine h.moved moved (fun running => by cases running) fewer (fun x => ?_) (fun x sent => ?_) ?_
          · rw [entry]
            exact sendsSinceRetry_le (by simp) _
          · rw [entry, List.mem_cons] at sent
            rcases sent with same | before
            · cases same
            · exact before
          · rw [entry, target, sendsSinceRetry_retried]
            exact le_refl _
  | pauseForEpoch => exact h.paused (pauseEffectsForEpoch_pauses ran) workers log

theorem Counted.step {operation : Operation} (h : Counted w) (tracked : Tracked encoding w)
    (obeys : Obeys w operation) (step : Step encoding operation w w') : Counted w' := by
  have constrained := tracked.constrained
  cases step with
  | enqueue capture _ t ran =>
      rcases enqueue_adds ran with rfl | added
      · exact h.kept rfl (Fewer.refl _) rfl
      · change Counted ⟨t, w.workers, w.log⟩
        exact Counted.added h added rfl rfl
  | claimed request _ claim t ran =>
      rcases claim_moves constrained ran with ⟨none, _⟩ | ⟨taken, r, same, moved⟩
      · cases none
      · cases same
        change Counted ⟨t, ⟨claim, .claimed⟩ :: w.workers, w.log⟩
        exact Counted.claimed h tracked moved
          (Or.inl rfl) rfl
  | unclaimed request _ found t ran =>
      rcases claim_moves constrained ran with ⟨_, rfl⟩ | ⟨taken, r, _, moved⟩
      · exact h.kept rfl (Fewer.refl _) rfl
      · change Counted ⟨t, w.workers, w.log⟩
        exact Counted.claimed h tracked moved (Or.inr rfl) rfl
  | answered claim _ answer t handed ran =>
      have ended := preflight_moves constrained ran
      cases answer with
      | send captured =>
          cases ended with
          | sent r member held running first live =>
              exact h.sent tracked obeys member held running first rfl rfl rfl
      | settled outcome =>
          change Counted ⟨t, restage claim .finished w.workers, w.log⟩
          exact Counted.preflighted h ended
            (fun captured same => by cases same) (fun same => by cases same) (by simp) rfl
            fun _ _ => rfl
  | unanswered claim _ answer t handed ran =>
      change Counted ⟨t, restage claim .failed w.workers, w.log⟩
      exact Counted.preflighted h
        (preflight_moves constrained ran) (fun _ _ => rfl) (fun _ => obeys) (by simp) rfl
        fun _ _ => rfl
  | failed claim _ handed => exact h.kept rfl (restage_fewer (fun _ => obeys) (by simp)) rfl
  | release claim _ t handed ran =>
      have fewer : Fewer w.workers (restage claim .finished w.workers) :=
        restage_fewer (fun same => by cases same) (by simp)
      rcases release_moves constrained ran with rfl | ⟨r, moved⟩
      · exact h.kept rfl fewer rfl
      · change Counted ⟨t, restage claim .finished w.workers, w.log⟩
        refine Counted.moved h moved
          (fun running => by cases running) fewer (fun x => le_refl _) (fun x sent => sent) ?_
        have before := h.within r moved.replaced.mem_before
        have row := moved.row
        cases row with
        | release _ _ held running =>
            simp only [EffectClaim.holds, decide_eq_true_eq] at held
            change (sendsSinceRetry r.id w.log : Int) ≤ r.attempts - if claim.exhausted then 0 else 1
            cases exhausted : claim.exhausted with
            | true => simpa using before
            | false =>
                have unused := h.owed ⟨claim, .failed⟩ obeys ⟨exhausted, Or.inr rfl⟩ r
                  moved.replaced.mem_before ⟨held.1, held.2.2.2, running⟩
                simp only [Bool.false_eq_true, if_false]
                omega
  | finalize claim result _ outcome t handed ran =>
      have fewer : Fewer w.workers (restage claim .finished w.workers) :=
        restage_fewer (fun same => by cases same) (by simp)
      cases finalize_moves constrained ran with
      | unchanged => exact h.kept rfl fewer rfl
      | finished _ r state reason eligible _ moved retried =>
          change Counted ⟨t, restage claim .finished w.workers, w.log⟩
          refine Counted.moved h moved ?_ fewer
            (fun x => le_refl _) (fun x sent => sent) (h.within r moved.replaced.mem_before)
          exact moved.row.stopped rfl
      | delivered r eligible _ moved =>
          change Counted ⟨t, restage claim .finished w.workers, w.log⟩
          exact Counted.moved h moved
            (fun running => by cases running) fewer (fun x => le_refl _) (fun x sent => sent)
            (h.within r moved.replaced.mem_before)
  | command command _ t ran =>
      change Counted ⟨t, w.workers, command.observed ++ w.log⟩
      exact Counted.command h tracked ran rfl rfl
  | tick _ wall later => exact h.kept rfl (Fewer.refl _) rfl
  | administer _ t outbox watermark => exact h.kept outbox (Fewer.refl _) rfl

/-- The delivery loops never spend more than was charged. -/
theorem counted_invariant : (deliverySystem encoding).Invariant fun w => Tracked encoding w ∧ Counted w where
  initial w fresh := by
    refine ⟨(tracked_invariant Obeys).initial w fresh, ⟨fun id sent => ?_, fun r member => ?_,
      fun worker member => ?_⟩⟩
    · rw [fresh.log] at sent
      cases sent
    · rw [fresh.outbox] at member
      cases member
    · rw [fresh.workers] at member
      cases member
  step w w' _ h step := by
    rcases step with ⟨operation, obeys, step⟩
    exact ⟨h.1.progress (step.progress h.1.constrained), h.2.step h.1 obeys step⟩

end Counted

/-! ## Effects that are over -/

/-- The row is delivered, dead or cancelled. -/
def OutboxRow.over (r : OutboxRow) : Prop :=
  r.state = .delivered ∨ r.state = .dead ∨ r.state = .cancelled

theorem RowMove.over {now : Int} {move : Move} {r r' : OutboxRow} (h : RowMove now move r r')
    (done : r.over) : r'.over ∨ move = .reschedule true := by
  unfold OutboxRow.over at done ⊢
  cases h with
  | claim claim _ id scope due fence lease exhausted =>
      rcases due with ⟨pending, _⟩ | ⟨running, _⟩
      · rw [pending] at done
        simp at done
      · rw [running] at done
        simp at done
  | finish claim _ state reason eligible held running stopped later =>
      rw [running] at done
      simp at done
  | release claim _ held running =>
      rw [running] at done
      simp at done
  | deliver claim _ eligible held epoch later => exact Or.inl (Or.inl rfl)
  | cancel _ cancellable => exact Or.inl (Or.inr (Or.inr rfl))
  | resume _ generation contract grant round paused allowance =>
      rw [paused] at done
      simp at done
  | retry _ generation contract grant round stopped => exact Or.inr rfl

theorem Paused.over {r r' : OutboxRow} (h : Paused r r') (done : r.over) : r'.over := by
  cases h with
  | same => exact done
  | paused reason pausable =>
      unfold OutboxRow.over at done
      rcases done with state | state | state <;> simp [OutboxRow.pausable, state] at pausable

section Over

variable {encoding : Encoding} {w w' : World}

theorem Moved.over {move : Move} {r r' x : OutboxRow} {t t' : EffectTables} (h : Moved move r r' t t')
    (member : x ∈ t.outbox) (done : x.over) :
    ∃ x' ∈ t'.outbox, x'.id = x.id ∧ (x'.over ∨ x = r ∧ move = .reschedule true) := by
  rcases h.replaced.mem_old member with rfl | still
  · refine ⟨r', h.replaced.mem_after, h.row.evolves.id, ?_⟩
    rcases h.row.over done with stays | reopened
    · exact Or.inl stays
    · exact Or.inr ⟨rfl, reopened⟩
  · exact ⟨x, still, rfl, Or.inl done⟩

/-- What one step adds to the observations: sends of running rows, and a retry where a row
that was over is open again. -/
structure Observes (w w' : World) (new : List Observed) : Prop where
  log : w'.log = new ++ w.log
  sends : ∀ id, .sent id ∈ new → ∃ r ∈ w.tables.outbox, r.id = id ∧ r.state = .running
  reopens : ∀ r ∈ w.tables.outbox, r.over →
    ∃ r' ∈ w'.tables.outbox, r'.id = r.id ∧ (r'.over ∨ .retried r.id ∈ new)

theorem Observes.kept (outbox : w'.tables.outbox = w.tables.outbox) (log : w'.log = w.log) :
    Observes w w' [] := by
  refine ⟨log, fun id sent => (by cases sent), fun r member done => ?_⟩
  rw [outbox]
  exact ⟨r, member, rfl, Or.inl done⟩

theorem Observes.moved {move : Move} {r r' : OutboxRow} (h : Moved move r r' w.tables w'.tables)
    (closed : move ≠ .reschedule true) (log : w'.log = w.log) : Observes w w' [] := by
  refine ⟨log, fun id sent => (by cases sent), fun x member done => ?_⟩
  rcases h.over member done with ⟨x', here, id, stays | reopened⟩
  · exact ⟨x', here, id, Or.inl stays⟩
  · exact absurd reopened.2 closed

theorem Observes.paused (h : Pauses w.tables w'.tables) (log : w'.log = w.log) : Observes w w' [] := by
  refine ⟨log, fun id sent => (by cases sent), fun r member done => ?_⟩
  rcases forall₂_mem_left h.rows member with ⟨r', here, related⟩
  exact ⟨r', here, related.evolves.id, Or.inl (related.over done)⟩

theorem Observes.command {command : Command} (constrained : Constrained w.tables.outbox)
    (ran : command.run encoding w.tables = .ok w'.tables) (log : w'.log = command.observed ++ w.log) :
    Observes w w' command.observed := by
  cases command with
  | cancel generation id =>
      rcases cancel_moves ran with ⟨r, _, moved⟩
      exact Observes.moved moved (by simp) log
  | revokeEndpoint generation tenant endpoint =>
      exact Observes.paused (revokeEffectEndpoint_pauses constrained ran) log
  | revokeSecret generation slot => exact Observes.paused (revokeEffectSecret_pauses constrained ran) log
  | grantEndpoint generation contract binding =>
      exact Observes.paused (grantEffectEndpoint_pauses constrained ran) log
  | grantSecret generation contract slot effective =>
      exact Observes.paused (grantEffectSecret_pauses constrained ran) log
  | resume generation contract effective id version retry =>
      rcases resume_moves constrained ran with ⟨r, r', target, moved⟩
      cases retry with
      | false => exact Observes.moved moved (by simp) log
      | true =>
          refine ⟨log, fun id sent => (by simp [Command.observed] at sent), fun x member done => ?_⟩
          rcases moved.over member done with ⟨x', here, same, stays | reopened⟩
          · exact ⟨x', here, same, Or.inl stays⟩
          · refine ⟨x', here, same, Or.inr ?_⟩
            rw [reopened.1, target]
            exact List.mem_cons_self
  | pauseForEpoch => exact Observes.paused (pauseEffectsForEpoch_pauses ran) log

/-- A preflight adds at most its send, under a row that is running. -/
theorem Preflighted.observes {claim : EffectClaim} {answer : Preflight} {t : EffectTables}
    (h : Preflighted encoding claim w.tables answer t) (workers : List Worker) :
    Observes w ⟨t, workers, answer.observed claim.id ++ w.log⟩ (answer.observed claim.id) := by
  cases h with
  | settled outcome => exact Observes.kept rfl rfl
  | sent r member held running first live =>
      refine ⟨rfl, fun id sent => ?_, fun x here done => ⟨x, here, rfl, Or.inl done⟩⟩
      simp only [EffectClaim.holds, decide_eq_true_eq] at held
      cases List.mem_singleton.mp sent
      exact ⟨r, member, held.1, running⟩
  | finished outcome r state reason eligible _ moved settles =>
      exact Observes.moved moved (by simp) rfl

/-- The same preflight where its answer is lost. -/
theorem Preflighted.silent {claim : EffectClaim} {answer : Preflight} {t : EffectTables}
    (h : Preflighted encoding claim w.tables answer t) (workers : List Worker) :
    Observes w ⟨t, workers, w.log⟩ [] := by
  cases h with
  | settled outcome => exact Observes.kept rfl rfl
  | sent r member held running first live => exact Observes.kept rfl rfl
  | finished outcome r state reason eligible _ moved settles =>
      exact Observes.moved moved (by simp) rfl

theorem Step.observes {operation : Operation} (constrained : Constrained w.tables.outbox)
    (h : Step encoding operation w w') : ∃ new, Observes w w' new := by
  cases h with
  | enqueue capture _ t ran =>
      rcases enqueue_adds ran with rfl | added
      · exact ⟨[], Observes.kept rfl rfl⟩
      · refine ⟨[], rfl, fun id sent => (by cases sent), fun r member done => ?_⟩
        refine ⟨r, ?_, rfl, Or.inl done⟩
        rw [added.outbox]
        exact List.mem_append_left _ member
  | claimed request _ claim t ran =>
      rcases claim_moves constrained ran with ⟨none, _⟩ | ⟨taken, r, _, moved⟩
      · cases none
      · exact ⟨[], Observes.moved moved (by simp) rfl⟩
  | unclaimed request _ found t ran =>
      rcases claim_moves constrained ran with ⟨_, rfl⟩ | ⟨taken, r, _, moved⟩
      · exact ⟨[], Observes.kept rfl rfl⟩
      · exact ⟨[], Observes.moved moved (by simp) rfl⟩
  | answered claim _ answer t handed ran => exact ⟨_, (preflight_moves constrained ran).observes _⟩
  | unanswered claim _ answer t handed ran => exact ⟨[], (preflight_moves constrained ran).silent _⟩
  | failed claim _ handed => exact ⟨[], Observes.kept rfl rfl⟩
  | release claim _ t handed ran =>
      rcases release_moves constrained ran with rfl | ⟨r, moved⟩
      · exact ⟨[], Observes.kept rfl rfl⟩
      · exact ⟨[], Observes.moved moved (by simp) rfl⟩
  | finalize claim result _ outcome t handed ran =>
      cases finalize_moves constrained ran with
      | unchanged => exact ⟨[], Observes.kept rfl rfl⟩
      | finished _ r state reason eligible _ moved retried =>
          exact ⟨[], Observes.moved moved (by simp) rfl⟩
      | delivered r eligible _ moved => exact ⟨[], Observes.moved moved (by simp) rfl⟩
  | command command _ t ran => exact ⟨command.observed, Observes.command constrained ran rfl⟩
  | tick _ wall later => exact ⟨[], Observes.kept rfl rfl⟩
  | administer _ t outbox watermark => exact ⟨[], Observes.kept outbox rfl⟩

end Over

/-! ## Runs -/

section Runs

variable {encoding : Encoding} {w w' later : World}

/-- What later observations say of a row: nothing is sent after its delivery, and a row
that is over stays so, with nothing sent, until a retry. -/
structure Rests (r r' : OutboxRow) (new : List Observed) : Prop where
  evolves : Evolves r r'
  delivered : r.state = .delivered → .sent r.id ∉ new
  waits : r.over → .retried r.id ∈ new ∨ r'.over ∧ .sent r.id ∉ new

theorem Rests.refl (r : OutboxRow) : Rests r r [] :=
  ⟨Evolves.refl r, fun _ => List.not_mem_nil, fun done => Or.inr ⟨done, List.not_mem_nil⟩⟩

/-- An observed send is one of the row in its current version, so that one was running. -/
theorem Observes.unsent {r : OutboxRow} {new : List Observed} (h : Observes w w' new)
    (constrained : Constrained w.tables.outbox) (member : r ∈ w.tables.outbox)
    (idle : r.state ≠ .running) : .sent r.id ∉ new := by
  intro sent
  rcases h.sends r.id sent with ⟨x, here, same, running⟩
  have chosen : x = r := Table.eq_of_key (·.id) constrained.ids here member same
  rw [chosen] at running
  exact idle running

theorem OutboxRow.over.idle {r : OutboxRow} (h : r.over) : r.state ≠ .running := by
  intro running
  rcases h with state | state | state <;> rw [running] at state <;> cases state

theorem Rests.next {r r' : OutboxRow} {old new : List Observed} (h : Rests r r' old)
    (tracked : Tracked encoding w) (tracked' : Tracked encoding w') (member : r' ∈ w.tables.outbox)
    (step : ∃ r'' ∈ w'.tables.outbox, Evolves r' r'') (observes : Observes w w' new) :
    ∃ r'' ∈ w'.tables.outbox, Rests r r'' (new ++ old) := by
  rcases step with ⟨r'', here, further⟩
  have id := h.evolves.id
  refine ⟨r'', here, h.evolves.trans further, fun delivered sent => ?_, fun done => ?_⟩
  · rcases List.mem_append.mp sent with recent | before
    · rw [← id] at recent
      have still := h.evolves.delivered delivered
      exact observes.unsent tracked.constrained member (by rw [still]; simp) recent
    · exact h.delivered delivered before
  · rcases h.waits done with retried | ⟨stays, unsent⟩
    · exact Or.inl (List.mem_append_right _ retried)
    · rcases observes.reopens r' member stays with ⟨x, there, same, still | retried⟩
      · have chosen : x = r'' := Table.eq_of_key (·.id) tracked'.constrained.ids there here
          (same.trans further.id.symm)
        rw [chosen] at still
        refine Or.inr ⟨still, fun sent => ?_⟩
        rcases List.mem_append.mp sent with recent | before
        · rw [← id] at recent
          exact observes.unsent tracked.constrained member stays.idle recent
        · exact unsent before
      · rw [id] at retried
        exact Or.inl (List.mem_append_left _ retried)

theorem run_rests (reachable : (deliverySystem encoding).Reachable w)
    (run : (deliverySystem encoding).Run w later) : ∀ r ∈ w.tables.outbox,
      ∃ new, later.log = new ++ w.log ∧ ∃ r' ∈ later.tables.outbox, Rests r r' new := by
  intro r member
  induction run with
  | refl => exact ⟨[], rfl, r, member, Rests.refl r⟩
  | tail before step ih =>
      rcases ih with ⟨old, log, r', here, rests⟩
      have tracked := (tracked_invariant Obeys).holds (reachable.run before)
      have tracked' := (tracked_invariant Obeys).holds ((reachable.run before).next step)
      rcases step with ⟨operation, _, step⟩
      rcases step.observes tracked.constrained with ⟨new, observes⟩
      have evolved := (step.progress tracked.constrained).evolves r' here
      refine ⟨new ++ old, ?_, rests.next tracked tracked' here evolved observes⟩
      rw [observes.log, log, List.append_assoc]

/-- In every interleaving of delivery loops, clock readings and operator commands, at most
five sends of an effect are handed out between two retries; none follows its delivery, and
none follows its death before a retry. -/
theorem sends_bounded (encoding : Encoding) {w : World}
    (reachable : (deliverySystem encoding).Reachable w) :
    (∀ r ∈ w.tables.outbox, sendsSinceRetry r.id w.log ≤ maxEffectAttempts)
    ∧ ∀ later, (deliverySystem encoding).Run w later → ∀ r ∈ w.tables.outbox,
        ∃ new, later.log = new ++ w.log ∧ (r.state = .delivered → .sent r.id ∉ new)
          ∧ (r.state = .dead → .sent r.id ∈ new → .retried r.id ∈ new) := by
  have invariant := counted_invariant.holds reachable
  refine ⟨fun r member => ?_, fun later run r member => ?_⟩
  · have paid := invariant.2.within r member
    have charged := (invariant.1.constrained.rows r member).attempts
    unfold maxEffectAttempts
    omega
  · rcases run_rests reachable run r member with ⟨new, log, r', _, rests⟩
    refine ⟨new, log, rests.delivered, fun dead sent => ?_⟩
    rcases rests.waits (Or.inr (Or.inl dead)) with retried | ⟨_, unsent⟩
    · exact retried
    · exact absurd sent unsent

/-- Five loops in turn claim the capture, send it and stop. -/
def fiveSends : World :=
  let next (w : World) := w.claims.preflights.waits
  next (next (next (next (next sampleStart.captures))))

theorem fiveSends_reachable : (deliverySystem sampleEncoding).Reachable fiveSends := by
  have captured : (deliverySystem sampleEncoding).Reachable sampleStart.captures :=
    captures_reachable (System.Reachable.start ⟨rfl, rfl, rfl⟩) trivial
  have again : ∀ {w}, (deliverySystem sampleEncoding).Reachable w →
      (deliverySystem sampleEncoding).Reachable w.claims.preflights.waits := fun h =>
    waits_reachable (preflights_reachable (claims_reachable h trivial)) trivial
  exact again (again (again (again (again captured))))

/-- The bound is reached. -/
theorem sends_bounded_sample : fiveSends.tables.outbox.map (sendsSinceRetry ·.id fiveSends.log) = [5]
    ∧ ∀ r ∈ fiveSends.tables.outbox, sendsSinceRetry r.id fiveSends.log ≤ maxEffectAttempts :=
  ⟨by decide +kernel, (sends_bounded sampleEncoding fiveSends_reachable).1⟩

end Runs

end Noxide.Effects
