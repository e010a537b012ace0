import Noxide.Effects.Operations

/-!
# What outbox transactions do

Every transaction of the outbox leaves the rows alone, adds a capture, pauses rows, or
moves one row.  The moves are few: a claim, the end of a claim, an unsent release, a
delivery, a cancellation and a reschedule.

Main results:

- Theorems {lit}`claim_moves`, {lit}`preflight_moves`, {lit}`release_moves`,
  {lit}`finalize_moves`, {lit}`cancel_moves` and {lit}`resume_moves`: the one row that each
  transaction moves, and how.
- Theorem {lit}`pauseEndpoint_pauses`: what a pause does to every row.
-/

namespace Noxide.Effects

open Checked

/-! ## Moves -/

inductive Move where
  | claim (claim : EffectClaim)
  | finish (claim : EffectClaim) (state : EffectState)
  | release (claim : EffectClaim)
  | deliver (claim : EffectClaim)
  | cancel
  | reschedule (retry : Bool)

/-- The moves of one row at a time. -/
inductive RowMove (now : Int) : Move → OutboxRow → OutboxRow → Prop where
  /-- A due row, or one whose lease ran out, starts under the next fence. -/
  | claim (claim : EffectClaim) (r : OutboxRow) (id : claim.id = r.id)
      (scope : claim.scope = ⟨r.deployment, r.tenant⟩)
      (due : r.state = .pending ∧ r.eligible ≤ now ∨ r.state = .running ∧ r.lease ≤ now)
      (fence : claim.fence = r.fence + 1) (lease : now ≤ claim.leaseUntil)
      (exhausted : claim.exhausted = decide (5 ≤ r.attempts)) :
      RowMove now (.claim claim) r (r.claimed claim.fence claim.leaseUntil)
  /-- A running row leaves its claim. -/
  | finish (claim : EffectClaim) (r : OutboxRow) (state : EffectState) (reason : String)
      (eligible : Int) (held : claim.holds r = true) (running : r.state = .running)
      (stopped : state ≠ .running) (later : now ≤ eligible) :
      RowMove now (.finish claim state) r (r.finished state reason eligible)
  | release (claim : EffectClaim) (r : OutboxRow) (held : claim.holds r = true)
      (running : r.state = .running) :
      RowMove now (.release claim) r (r.released (if claim.exhausted then 0 else 1))
  | deliver (claim : EffectClaim) (r : OutboxRow) (eligible : Int) (held : claim.holds r = true)
      (epoch : r.epoch = claim.epoch) (later : now ≤ eligible) :
      RowMove now (.deliver claim) r (r.markDelivered eligible)
  | cancel (r : OutboxRow) (cancellable : r.cancellable = true) : RowMove now .cancel r r.cancel
  /-- A paused row continues, or a dead or paused one starts a new round, under the next
  fence. -/
  | resume (r : OutboxRow) (generation contract : String) (grant : EndpointGrant) (round : Int)
      (paused : r.state = .paused) (allowance : r.attempts < 5) :
      RowMove now (.reschedule false) r
        (r.rescheduled generation contract grant now r.first r.attempts round)
  | retry (r : OutboxRow) (generation contract : String) (grant : EndpointGrant) (round : Int)
      (stopped : r.state = .dead ∨ r.state = .paused) :
      RowMove now (.reschedule true) r (r.rescheduled generation contract grant now now 0 round)

/-- Exactly one row moves, the clock stays and the constraints hold afterwards. -/
structure Moved (move : Move) (r r' : OutboxRow) (t t' : EffectTables) : Prop where
  row : RowMove t.watermark move r r'
  replaced : Table.Replaced r r' t.outbox t'.outbox
  watermark : t'.watermark = t.watermark
  constrained : Constrained t'.outbox

/-! ## Statements -/

section Statements

variable {t t' : EffectTables}

theorem withOutbox_ok {outbox : List OutboxRow} :
    t.withOutbox outbox = .ok t' ↔ Constrained outbox ∧ t' = { t with outbox := outbox } := by
  simp only [EffectTables.withOutbox, bind_eq_ok, ensure_eq_ok]
  constructor
  · rintro ⟨_, constrained, h⟩
    cases h
    exact ⟨constrained, rfl⟩
  · rintro ⟨constrained, rfl⟩
    exact ⟨(), constrained, rfl⟩

theorem updateOutbox_ok {condition : OutboxRow → Bool} {change : OutboxRow → OutboxRow} {n : Nat} :
    updateOutbox condition change t = .ok (n, t') ↔
      Constrained (Table.update condition change t.outbox) ∧ n = t.outbox.countP condition
        ∧ t' = { t with outbox := Table.update condition change t.outbox } := by
  simp only [updateOutbox, bind_eq_ok, withOutbox_ok]
  constructor
  · rintro ⟨_, ⟨constrained, rfl⟩, h⟩
    cases h
    exact ⟨constrained, rfl, rfl⟩
  · rintro ⟨constrained, rfl, rfl⟩
    exact ⟨_, ⟨constrained, rfl⟩, rfl⟩

/-- A statement that changed one row replaced one row that satisfies its condition. -/
theorem updateOutbox_one {condition : OutboxRow → Bool} {change : OutboxRow → OutboxRow} {n : Nat}
    (h : updateOutbox condition change t = .ok (n, t')) (one : n = 1) :
    ∃ r, condition r = true ∧ Table.Replaced r (change r) t.outbox t'.outbox
      ∧ t' = { t with outbox := t'.outbox } ∧ Constrained t'.outbox := by
  rcases updateOutbox_ok.mp h with ⟨constrained, rfl, rfl⟩
  rcases Table.update_one one with ⟨r, holds, replaced⟩
  exact ⟨r, holds, replaced, rfl, constrained⟩

/-- The rows that one claim selects are the same row. -/
theorem held_unique {claim : EffectClaim} (constrained : Constrained t.outbox) {r r' : OutboxRow}
    (member : r ∈ t.outbox) (member' : r' ∈ t.outbox) (held : claim.holds r = true)
    (held' : claim.holds r' = true) : r = r' := by
  simp only [EffectClaim.holds, decide_eq_true_eq] at held held'
  exact Table.eq_of_key (·.id) constrained.ids member member'
    (held.1.trans held'.1.symm)

end Statements

section Reading

variable {encoding : Encoding} {t t' : EffectTables} {claim : EffectClaim} {lock : Bool}

/-- Without a row of the claim's fence a worker reads nothing. -/
theorem row_none (stale : ∀ r ∈ t.outbox, claim.holds r = false) :
    row encoding claim lock t = .ok none := by
  have empty : t.outbox.filter claim.holds = [] := by
    rw [List.filter_eq_nil_iff]
    intro r member
    rw [stale r member]
    exact Bool.false_ne_true
  unfold row
  split
  · rfl
  · rw [empty]

/-- What a worker reads is the row of its claim. -/
theorem row_some {read : Row} (constrained : Constrained t.outbox)
    (h : row encoding claim lock t = .ok (some read)) :
    ∃ r ∈ t.outbox, claim.holds r = true ∧ read = r.read ∧ r.Captured encoding ∧ r.Ordered := by
  unfold row at h
  split at h
  · cases h
  · cases selected : t.outbox.filter claim.holds with
    | nil =>
        rw [selected] at h
        cases h
    | cons r rest =>
        rw [selected] at h
        simp only [bind_eq_ok] at h
        rcases h with ⟨inner, reads, h⟩
        cases h
        have member : r ∈ t.outbox.filter claim.holds := by
          rw [selected]
          exact List.mem_cons_self
        rw [List.mem_filter] at member
        rcases (readRow_ok encoding (constrained.rows r member.1) member.2).mp reads with
          ⟨captured, ordered, _, same⟩
        exact ⟨r, member.1, member.2, same, captured, ordered⟩

theorem transition_moves {state : EffectState} {reason : String} {eligible : Int}
    (h : transition claim state reason eligible t = .ok t') (stopped : state ≠ .running)
    (later : t.watermark ≤ eligible) :
    ∃ r, Moved (.finish claim state) r (r.finished state reason eligible) t t'
      ∧ claim.holds r = true := by
  simp only [transition, bind_eq_ok] at h
  rcases h with ⟨⟨changed, t''⟩, updated, _, one, h⟩
  cases h
  rcases updateOutbox_one updated (ensure_eq_ok.mp one) with ⟨r, holds, replaced, same, constrained⟩
  simp only [Bool.and_eq_true, decide_eq_true_eq] at holds
  exact ⟨r, ⟨RowMove.finish claim r state reason eligible holds.1 holds.2 stopped later, replaced,
    by rw [same], constrained⟩, holds.1⟩

end Reading

/-! ## Claims -/

theorem nextClaimable_some {generation : String} {now : Int} {active skipped : List String}
    {t : EffectTables} {r : OutboxRow} (h : nextClaimable generation now active skipped t = some r) :
    r ∈ t.outbox ∧ r.claimable generation now active t = true := by
  have member := List.mem_of_mem_head? h
  rw [List.mem_mergeSort, List.mem_filter] at member
  simp only [decide_eq_true_eq] at member
  exact ⟨member.1, member.2.1⟩

theorem advanceClaims_ok {generation tenant directory : String} {t t' : EffectTables}
    (h : advanceClaims generation tenant directory t = .ok t') :
    t'.outbox = t.outbox ∧ t'.watermark = t.watermark := by
  simp only [advanceClaims, bind_eq_ok] at h
  rcases h with ⟨queue, _, h⟩
  cases h
  exact ⟨rfl, rfl⟩

/-- A claim that finds no row changes nothing; another moves the row it names. -/
theorem claim_moves {generation contract directory : String} {active skipped : List String}
    {t t' : EffectTables} {found : Option EffectClaim} (constrained : Constrained t.outbox)
    (h : claim generation contract directory active skipped t = .ok (found, t')) :
    found = none ∧ t' = t
    ∨ ∃ taken r, found = some taken
      ∧ Moved (.claim taken) r (r.claimed taken.fence taken.leaseUntil) t t' := by
  simp only [claim, bind_eq_ok] at h
  rcases h with ⟨_, _, runtime, _, _, _, _, _, h⟩
  cases next : nextClaimable generation t.watermark active skipped t with
  | none =>
      rw [next] at h
      cases h
      exact Or.inl ⟨rfl, rfl⟩
  | some row =>
      rw [next] at h
      simp only [bind_eq_ok, effectInteger, integerColumn_ok, ensure_eq_ok, laterBy_ok] at h
      rcases h with ⟨t₁, advanced, _, ⟨_, rfl⟩, _, ⟨_, rfl⟩, _, _, _, ⟨_, _, rfl⟩, ⟨changed, t₂⟩,
        updated, _, one, h⟩
      cases h
      have advances := advanceClaims_ok advanced
      rcases nextClaimable_some next with ⟨member, claimable⟩
      rcases updateOutbox_one updated one with
        ⟨r, holds, replaced, same, constrained'⟩
      rw [advances.1] at replaced
      simp only [decide_eq_true_eq] at holds
      have chosen : r = row := Table.eq_of_key (·.id) constrained.ids
        replaced.mem_before member holds.1
      subst chosen
      simp only [OutboxRow.claimable, decide_eq_true_eq] at claimable
      refine Or.inr ⟨_, r, rfl, ⟨?_, replaced, by rw [same]; exact advances.2, constrained'⟩⟩
      refine RowMove.claim _ r rfl ?_ claimable.2.1 rfl ?_ rfl
      · rw [claimable.1]
      · change t.watermark ≤ t.watermark + effectLeaseMillis
        unfold effectLeaseMillis
        omega

/-! ## Preflights -/

/-- The claim still has the authority that its row was captured or resumed under. -/
def Authorized (encoding : Encoding) (claim : EffectClaim) (r : OutboxRow) (t : EffectTables) : Prop :=
  ∃ runtime, scopeRuntime claim.scope t = .ok runtime
    ∧ authority encoding claim r.read runtime t = .ok true

/-- A preflight of this row requeues it: the lease ran out before the retry window did, and
the claim is not an exhausted one. -/
structure Requeues (encoding : Encoding) (claim : EffectClaim) (r : OutboxRow) (t : EffectTables) :
    Prop where
  held : claim.holds r = true
  running : r.state = .running
  authorized : Authorized encoding claim r t
  first : claim.exhausted = false
  expired : r.lease ≤ t.watermark
  within : t.watermark < r.first + effectRetryWindowMillis

/-- How a preflight may leave a running row. -/
structure Settles (encoding : Encoding) (claim : EffectClaim) (r : OutboxRow) (state : EffectState)
    (t : EffectTables) : Prop where
  stopped : state = .paused ∨ state = .dead ∨ state = .pending
  requeued : state = .pending → Requeues encoding claim r t

/-- What a preflight does: it changes nothing, where it sends the capture of the running
row only under a live lease, or it ends the claim of the running row. -/
inductive Preflighted (encoding : Encoding) (claim : EffectClaim) (t : EffectTables) :
    Preflight → EffectTables → Prop where
  | settled (outcome : Finalized) : Preflighted encoding claim t (.settled outcome) t
  | sent (r : OutboxRow) (member : r ∈ t.outbox) (held : claim.holds r = true)
      (running : r.state = .running) (first : claim.exhausted = false)
      (live : t.watermark < r.lease) : Preflighted encoding claim t (.send r.payload) t
  | finished (outcome : Finalized) (r : OutboxRow) (state : EffectState) (reason : String)
      (eligible : Int) (t' : EffectTables)
      (moved : Moved (.finish claim state) r (r.finished state reason eligible) t t')
      (settles : Settles encoding claim r state t) : Preflighted encoding claim t (.settled outcome) t'

theorem transition_of {claim : EffectClaim} {t t' : EffectTables} {r : OutboxRow} {state : EffectState}
    {reason : String} {eligible : Int} (constrained : Constrained t.outbox) (member : r ∈ t.outbox)
    (held : claim.holds r = true) (h : transition claim state reason eligible t = .ok t')
    (stopped : state ≠ .running) (later : t.watermark ≤ eligible) :
    Moved (.finish claim state) r (r.finished state reason eligible) t t' := by
  rcases transition_moves h stopped later with ⟨other, moved, holds⟩
  have same := held_unique constrained moved.replaced.mem_before member holds held
  rw [same] at moved
  exact moved

theorem preflightRunning_moves {encoding : Encoding} {claim : EffectClaim} {t t' : EffectTables}
    {r : OutboxRow} {allowed : Bool} {answer : Preflight} (constrained : Constrained t.outbox)
    (member : r ∈ t.outbox) (held : claim.holds r = true) (running : r.state = .running)
    (authorized : allowed = true → Authorized encoding claim r t)
    (h : preflightRunning claim r.read allowed t = .ok (answer, t')) :
    Preflighted encoding claim t answer t' := by
  have later : t.watermark ≤ max t.watermark r.eligible := le_max_left _ _
  unfold preflightRunning at h
  split at h
  · rcases bind_eq_ok.mp h with ⟨t₁, ended, h⟩
    cases h
    exact Preflighted.finished _ r _ _ _ _
      (transition_of constrained member held ended (by simp) later)
      ⟨Or.inl rfl, fun same => by cases same⟩
  · rename_i allows
    rcases bind_eq_ok.mp h with ⟨window, within, h⟩
    rcases laterBy_ok.mp within with ⟨_, _, rfl⟩
    split at h
    · rcases bind_eq_ok.mp h with ⟨t₁, ended, h⟩
      cases h
      exact Preflighted.finished _ r _ _ _ _
        (transition_of constrained member held ended (by simp) later)
        ⟨Or.inr (Or.inl rfl), fun same => by cases same⟩
    · rename_i open_window
      rw [not_or, not_le, Bool.not_eq_true] at open_window
      split at h
      · rename_i expired
        rcases bind_eq_ok.mp h with ⟨t₁, ended, h⟩
        cases h
        exact Preflighted.finished _ r _ _ _ _
          (transition_of constrained member held ended (by simp) later)
          ⟨Or.inr (Or.inr rfl), fun _ => ⟨held, running, authorized (by simpa using allows),
            open_window.2, expired, open_window.1⟩⟩
      · rename_i live
        cases h
        exact Preflighted.sent r member held running open_window.2 (not_le.mp live)

theorem preflight_moves {encoding : Encoding} {claim : EffectClaim} {t t' : EffectTables}
    {answer : Preflight} (constrained : Constrained t.outbox)
    (h : preflight encoding claim t = .ok (answer, t')) : Preflighted encoding claim t answer t' := by
  simp only [preflight, bind_eq_ok] at h
  rcases h with ⟨runtime, seen, preview, previewed, h⟩
  cases preview with
  | none =>
      cases h
      exact Preflighted.settled _
  | some preview =>
      rcases bind_eq_ok.mp h with ⟨allowed, granted, locks⟩
      rcases bind_eq_ok.mp locks with ⟨locked, read, answered⟩
      clear h locks
      cases locked with
      | none =>
          cases answered
          exact Preflighted.settled _
      | some row =>
          rcases row_some constrained read with ⟨r, member, held, rfl, _⟩
          rcases row_some constrained previewed with ⟨r', member', held', rfl, _⟩
          have same := held_unique constrained member' member held' held
          rw [same] at granted
          by_cases running : r.state = .running
          · simp only [OutboxRow.read, running, ne_eq, not_true_eq_false, if_false] at answered
            have again : preflightRunning claim r.read allowed t = .ok (answer, t') := by
              unfold OutboxRow.read
              rw [running]
              exact answered
            exact preflightRunning_moves constrained member held running
              (fun allows => ⟨runtime, seen, by rw [← allows]; exact granted⟩) again
          · simp only [OutboxRow.read, ne_eq, running, not_false_eq_true, if_true] at answered
            cases answered
            exact Preflighted.settled _

/-! ## Releases -/

/-- At most one row has a given identity. -/
theorem countP_le_one {outbox : List OutboxRow} (constrained : Constrained outbox) {id : String}
    {condition : OutboxRow → Bool} (named : ∀ r, condition r = true → r.id = id) :
    outbox.countP condition ≤ 1 := by
  have wider : outbox.countP condition ≤ outbox.countP fun r => r.id == id :=
    List.countP_mono_left fun r _ holds => by simpa using named r holds
  have counted : (outbox.countP fun r => r.id == id) = (outbox.map (·.id)).count id := by
    rw [List.count, List.countP_map]
    rfl
  have unique := List.nodup_iff_count_le_one.mp constrained.ids id
  omega

/-- A statement about one identity changes nothing or replaces one row. -/
theorem updateOutbox_cases {condition : OutboxRow → Bool} {change : OutboxRow → OutboxRow} {n : Nat}
    {t t' : EffectTables} (constrained : Constrained t.outbox) {id : String}
    (named : ∀ r, condition r = true → r.id = id)
    (h : updateOutbox condition change t = .ok (n, t')) :
    n = 0 ∧ t' = t ∨ n = 1 ∧ ∃ r, condition r = true
      ∧ Table.Replaced r (change r) t.outbox t'.outbox
      ∧ t' = { t with outbox := t'.outbox } ∧ Constrained t'.outbox := by
  have counted : n = t.outbox.countP condition := (updateOutbox_ok.mp h).2.1
  have few := countP_le_one constrained named
  rcases Nat.eq_zero_or_pos n with none | some
  · rcases updateOutbox_ok.mp h with ⟨_, _, rfl⟩
    refine Or.inl ⟨none, ?_⟩
    rw [Table.update_none (by omega)]
  · have one : n = 1 := by omega
    exact Or.inr ⟨one, updateOutbox_one h one⟩

theorem release_moves {claim : EffectClaim} {t t' : EffectTables} (constrained : Constrained t.outbox)
    (h : releaseUnsent claim t = .ok t') :
    t' = t ∨ ∃ r, Moved (.release claim) r (r.released (if claim.exhausted then 0 else 1)) t t' := by
  simp only [releaseUnsent, bind_eq_ok] at h
  rcases h with ⟨⟨changed, t₁⟩, updated, h⟩
  cases h
  have named : ∀ r : OutboxRow, (claim.holds r && decide (r.state = .running)) = true → r.id = claim.id := by
    intro r holds
    simp only [EffectClaim.holds, Bool.and_eq_true, decide_eq_true_eq] at holds
    exact holds.1.1
  rcases updateOutbox_cases constrained named updated with ⟨_, same⟩ | ⟨_, r, holds, replaced, same, ok⟩
  · exact Or.inl same
  · simp only [Bool.and_eq_true, decide_eq_true_eq] at holds
    exact Or.inr ⟨r, RowMove.release claim r holds.1 holds.2, replaced, by rw [same], ok⟩

/-! ## Finalizations -/

/-- What a finalization does: it changes nothing, ends the claim of the running row, or
records a delivery. -/
inductive Finalizing (claim : EffectClaim) (t : EffectTables) : Finalized → EffectTables → Prop where
  | unchanged (outcome : Finalized) : Finalizing claim t outcome t
  | finished (outcome : Finalized) (r : OutboxRow) (state : EffectState) (reason : String)
      (eligible : Int) (t' : EffectTables)
      (moved : Moved (.finish claim state) r (r.finished state reason eligible) t t')
      (retried : state = .pending → r.attempts < 5) : Finalizing claim t outcome t'
  | delivered (r : OutboxRow) (eligible : Int) (t' : EffectTables)
      (moved : Moved (.deliver claim) r (r.markDelivered eligible) t t') :
      Finalizing claim t .delivered t'

theorem retryDelay_pos {attempts delay : Int} (h : retryDelay attempts = .ok delay) : 0 < delay := by
  unfold retryDelay at h
  split at h
  · cases h
    decide
  · split at h
    · cases h
      decide
    · split at h
      · cases h
        decide
      · split at h
        · cases h
          decide
        · cases h

/-- A retry is scheduled later, and never after the last attempt. -/
theorem retryAt_some {encoding : Encoding} {id : String} {attempts first now next : Int}
    {retryAfter : Option Nat} (h : retryAt encoding id attempts first now retryAfter = .ok (some next)) :
    attempts < 5 ∧ now ≤ next := by
  simp only [retryAt, bind_eq_ok] at h
  rcases h with ⟨window, _, h⟩
  split at h
  · cases h
  · rename_i open_window
    rw [not_or, not_le] at open_window
    simp only [bind_eq_ok, laterBy_ok] at h
    rcases h with ⟨delay, delays, later, ⟨_, _, rfl⟩, h⟩
    have pos := retryDelay_pos delays
    split at h
    · cases h
      exact ⟨open_window.1, by omega⟩
    · cases h

theorem finalizeDelivered_moves {encoding : Encoding} {claim : EffectClaim} {runtime : ScopeRuntime}
    {t t' : EffectTables} {outcome : Finalized}
    (h : finalizeDelivered encoding claim runtime t = .ok (outcome, t')) :
    Finalizing claim t outcome t' := by
  simp only [finalizeDelivered, bind_eq_ok] at h
  rcases h with ⟨read, _, h⟩
  cases read with
  | none =>
      cases h
      exact Finalizing.unchanged _
  | some row =>
      simp only at h
      split at h
      · cases h
        exact Finalizing.unchanged _
      · rcases bind_eq_ok.mp h with ⟨⟨changed, t₁⟩, updated, h⟩
        rcases bind_eq_ok.mp h with ⟨_, one, h⟩
        cases h
        rcases updateOutbox_one updated (ensure_eq_ok.mp one) with ⟨r, holds, replaced, same, ok⟩
        simp only [Bool.and_eq_true, decide_eq_true_eq] at holds
        exact Finalizing.delivered r _ _ ⟨RowMove.deliver claim r _ holds.1 holds.2 (le_max_left _ _),
          replaced, by rw [same], ok⟩

theorem finalizeRunning_moves {encoding : Encoding} {claim : EffectClaim} {result : DeliveryResult}
    {t t' : EffectTables} {r : OutboxRow} {outcome : Finalized} (constrained : Constrained t.outbox)
    (member : r ∈ t.outbox) (held : claim.holds r = true)
    (h : finalizeRunning encoding claim r.read result t = .ok (outcome, t')) :
    Finalizing claim t outcome t' := by
  have later : t.watermark ≤ max t.watermark r.eligible := le_max_left _ _
  have ends : ∀ {state reason eligible t'}, transition claim state reason eligible t = .ok t' →
      state ≠ .running → t.watermark ≤ eligible → (state = .pending → r.attempts < 5) →
      Finalizing claim t outcome t' := by
    intro state reason eligible t' ended stopped after retried
    exact Finalizing.finished outcome r state reason eligible t'
      (transition_of constrained member held ended stopped after) retried
  cases result with
  | delivered =>
      rcases bind_eq_ok.mp h with ⟨t₁, ended, h⟩
      cases h
      exact ends ended (by simp) later fun same => by cases same
  | terminal =>
      rcases bind_eq_ok.mp h with ⟨t₁, ended, h⟩
      cases h
      exact ends ended (by simp) later fun same => by cases same
  | retry retryAfterSeconds =>
      rcases bind_eq_ok.mp h with ⟨next, scheduled, h⟩
      cases next with
      | none =>
          rcases bind_eq_ok.mp h with ⟨t₁, ended, h⟩
          cases h
          exact ends ended (by simp) later fun same => by cases same
      | some next =>
          have retry := retryAt_some scheduled
          rcases bind_eq_ok.mp h with ⟨t₁, ended, h⟩
          cases h
          exact ends ended (by simp) retry.2 fun _ => retry.1

theorem finalize_moves {encoding : Encoding} {claim : EffectClaim} {result : DeliveryResult}
    {t t' : EffectTables} {outcome : Finalized} (constrained : Constrained t.outbox)
    (h : finalize encoding claim result t = .ok (outcome, t')) : Finalizing claim t outcome t' := by
  simp only [finalize, bind_eq_ok] at h
  rcases h with ⟨runtime, _, h⟩
  split at h
  · exact finalizeDelivered_moves h
  · rcases bind_eq_ok.mp h with ⟨preview, _, h⟩
    cases preview with
    | none =>
        cases h
        exact Finalizing.unchanged _
    | some preview =>
        rcases bind_eq_ok.mp h with ⟨allowed, _, h⟩
        rcases bind_eq_ok.mp h with ⟨locked, read, h⟩
        cases locked with
        | none =>
            cases h
            exact Finalizing.unchanged _
        | some row =>
            rcases row_some constrained read with ⟨r, member, held, rfl, _⟩
            simp only at h
            split at h
            · cases h
              exact Finalizing.unchanged _
            · split at h
              · cases h
                exact Finalizing.unchanged _
              · split at h
                · rcases bind_eq_ok.mp h with ⟨t₁, ended, h⟩
                  cases h
                  exact Finalizing.finished _ r _ _ _ _
                    (transition_of constrained member held ended (by simp) (le_max_left _ _))
                    fun same => by cases same
                · exact finalizeRunning_moves constrained member held h

/-! ## Operator commands -/

theorem cancel_moves {generation id : String} {t t' : EffectTables}
    (h : cancelEffect generation id t = .ok t') : ∃ r, r.id = id ∧ Moved .cancel r r.cancel t t' := by
  simp only [cancelEffect, bind_eq_ok] at h
  rcases h with ⟨_, _, _, _, ⟨changed, t₁⟩, updated, _, one, h⟩
  cases h
  rcases updateOutbox_one updated (ensure_eq_ok.mp one) with ⟨r, holds, replaced, same, ok⟩
  simp only [Bool.and_eq_true, decide_eq_true_eq] at holds
  exact ⟨r, holds.1, RowMove.cancel r holds.2, replaced, by rw [same], ok⟩

/-- A resume or retry reschedules the row that the operator names. -/
theorem resume_moves {encoding : Encoding} {generation contract id : String}
    {effective : EffectiveEffectDeployment} {version : Nat} {retry : Bool} {t t' : EffectTables}
    (constrained : Constrained t.outbox)
    (h : resumeEffect encoding generation contract effective id version retry t = .ok t') :
    ∃ r r', r.id = id ∧ Moved (.reschedule retry) r r' t t' := by
  simp only [resumeEffect, bind_eq_ok] at h
  rcases h with ⟨source, _, grant, _, row, found, _, eligible, ⟨first, attempts⟩, continues, round, _,
    _, _, _, _, ⟨changed, t₁⟩, updated, _, one, h⟩
  cases h
  rcases updateOutbox_one updated (ensure_eq_ok.mp one) with ⟨r, holds, replaced, same, ok⟩
  have outbox : (ensureTenant generation source.scope.tenant t).outbox = t.outbox := by
    unfold ensureTenant
    split <;> rfl
  have watermark : (ensureTenant generation source.scope.tenant t).watermark = t.watermark := by
    unfold ensureTenant
    split <;> rfl
  rw [outbox] at replaced
  simp only [decide_eq_true_eq] at holds
  rw [need, context_eq_ok] at found
  have here := List.find?_some found
  simp only [decide_eq_true_eq] at here
  have chosen : r = row := Table.eq_of_key (·.id) constrained.ids replaced.mem_before
    (List.mem_of_find?_eq_some found) (holds.1.trans here.symm)
  subst chosen
  refine ⟨r, _, holds.1, ?_, replaced, by rw [same]; exact watermark, ok⟩
  have stopped := ensure_eq_ok.mp eligible
  cases retry with
  | true =>
      simp only [continued, if_true] at continues
      cases continues
      simp only [eligibleState, if_true, decide_eq_true_eq] at stopped
      exact RowMove.retry r generation contract grant _ stopped
  | false =>
      simp only [continued, Bool.false_eq_true, if_false, bind_eq_ok, effectInteger, integerColumn_ok,
        ensure_eq_ok] at continues
      rcases continues with ⟨_, ⟨_, rfl⟩, _, ⟨_, rfl⟩, _, _, _, allowance, h⟩
      cases h
      simp only [eligibleState, Bool.false_eq_true, if_false, decide_eq_true_eq] at stopped
      exact RowMove.resume r generation contract grant _ stopped allowance.1

/-! ## Pauses -/

/-- A row stays, or is paused out of a state that may be claimed. -/
inductive Paused : OutboxRow → OutboxRow → Prop where
  | same (r : OutboxRow) : Paused r r
  | paused (r : OutboxRow) (reason : String) (pausable : r.pausable = true) : Paused r (r.pause reason)

/-- Every row stays or is paused. -/
structure Pauses (t t' : EffectTables) : Prop where
  rows : List.Forall₂ Paused t.outbox t'.outbox
  watermark : t'.watermark = t.watermark
  constrained : Constrained t'.outbox

theorem Paused.trans {first second third : OutboxRow} (before : Paused first second)
    (after : Paused second third) : Paused first third := by
  cases after with
  | same => exact before
  | paused reason pausable =>
      cases before with
      | same => exact Paused.paused first reason pausable
      | paused _ _ => simp [OutboxRow.pausable, OutboxRow.pause] at pausable

theorem paused_refl (outbox : List OutboxRow) : List.Forall₂ Paused outbox outbox :=
  List.forall₂_same.mpr fun r _ => Paused.same r

theorem Pauses.refl {t t' : EffectTables} (constrained : Constrained t.outbox)
    (outbox : t'.outbox = t.outbox) (watermark : t'.watermark = t.watermark) : Pauses t t' := by
  refine ⟨?_, watermark, ?_⟩
  · rw [outbox]
    exact paused_refl t.outbox
  · rw [outbox]
    exact constrained

theorem paused_trans {first second third : List OutboxRow} (before : List.Forall₂ Paused first second)
    (after : List.Forall₂ Paused second third) : List.Forall₂ Paused first third := by
  induction before generalizing third with
  | nil =>
      cases after
      exact List.Forall₂.nil
  | cons head _ ih =>
      cases after with
      | cons next rest => exact List.Forall₂.cons (head.trans next) (ih rest)

theorem Pauses.trans {t t' t'' : EffectTables} (before : Pauses t t') (after : Pauses t' t'') :
    Pauses t t'' :=
  ⟨paused_trans before.rows after.rows, after.watermark.trans before.watermark, after.constrained⟩

/-- A statement that pauses rows of a kind. -/
theorem updateOutbox_pauses {condition : OutboxRow → Bool} {reason : String} {n : Nat}
    {t t' : EffectTables} (pausable : ∀ r, condition r = true → r.pausable = true)
    (h : updateOutbox condition (·.pause reason) t = .ok (n, t')) : Pauses t t' := by
  rcases updateOutbox_ok.mp h with ⟨constrained, _, rfl⟩
  refine ⟨?_, rfl, constrained⟩
  change List.Forall₂ Paused t.outbox (t.outbox.map fun r => if condition r then r.pause reason else r)
  rw [List.forall₂_map_right_iff, List.forall₂_same]
  intro r _
  split
  · rename_i chosen
    exact Paused.paused r reason (pausable r chosen)
  · exact Paused.same r

theorem pauseEndpoint_pauses {reason tenant endpoint : String} {t t' : EffectTables}
    (h : pauseEndpoint reason tenant endpoint t = .ok t') : Pauses t t' := by
  simp only [pauseEndpoint, bind_eq_ok] at h
  rcases h with ⟨⟨changed, t₁⟩, updated, h⟩
  cases h
  refine updateOutbox_pauses (fun r holds => ?_) updated
  rw [Bool.and_eq_true] at holds
  exact holds.2

theorem pauseGrants_pauses {slot reason : String} {rows : List GrantRow} {t t' : EffectTables}
    (constrained : Constrained t.outbox) (h : pauseGrants slot reason rows t = .ok t') :
    Pauses t t' := by
  induction rows generalizing t with
  | nil =>
      cases h
      exact Pauses.refl constrained rfl rfl
  | cons row rest ih =>
      unfold pauseGrants at h
      split at h
      · rcases bind_eq_ok.mp h with ⟨t₁, first, h⟩
        have paused := pauseEndpoint_pauses first
        exact paused.trans (ih paused.constrained h)
      · exact ih constrained h

theorem pauseEffectSecretRows_pauses {generation slot reason : String} {t t' : EffectTables}
    (constrained : Constrained t.outbox)
    (h : pauseEffectSecretRows generation slot reason t = .ok t') : Pauses t t' := by
  simp only [pauseEffectSecretRows, bind_eq_ok] at h
  rcases h with ⟨_, _, h⟩
  exact pauseGrants_pauses constrained h

theorem pauseEffectsForEpoch_pauses {t t' : EffectTables} (h : pauseEffectsForEpoch t = .ok t') :
    Pauses t t' := by
  simp only [pauseEffectsForEpoch, bind_eq_ok] at h
  rcases h with ⟨⟨changed, t₁⟩, updated, h⟩
  cases h
  have paused := updateOutbox_pauses (fun r holds => holds) updated
  exact ⟨paused.rows, paused.watermark, paused.constrained⟩

theorem updateGrant_pauses {text : String} {condition : GrantRow → Bool} {change : GrantRow → GrantRow}
    {t t' : EffectTables} (constrained : Constrained t.outbox)
    (h : updateGrant text condition change t = .ok t') : Pauses t t' := by
  simp only [updateGrant, bind_eq_ok] at h
  rcases h with ⟨_, _, h⟩
  cases h
  exact Pauses.refl constrained rfl rfl

theorem updateSecret_pauses {deployment slot : String} {change : SecretRow → SecretRow}
    {t t' : EffectTables} (constrained : Constrained t.outbox)
    (h : updateSecret deployment slot change t = .ok t') : Pauses t t' := by
  simp only [updateSecret, bind_eq_ok] at h
  rcases h with ⟨_, _, h⟩
  cases h
  exact Pauses.refl constrained rfl rfl

theorem revokeEffectEndpoint_pauses {generation tenant endpoint : String} {t t' : EffectTables}
    (constrained : Constrained t.outbox)
    (h : revokeEffectEndpoint generation tenant endpoint t = .ok t') : Pauses t t' := by
  simp only [revokeEffectEndpoint, bind_eq_ok] at h
  rcases h with ⟨_, _, t₁, granted, h⟩
  exact (updateGrant_pauses constrained granted).trans (pauseEndpoint_pauses h)

theorem revokeEffectSecret_pauses {generation slot : String} {t t' : EffectTables}
    (constrained : Constrained t.outbox) (h : revokeEffectSecret generation slot t = .ok t') :
    Pauses t t' := by
  simp only [revokeEffectSecret, bind_eq_ok] at h
  rcases h with ⟨_, _, t₁, revoked, h⟩
  have first := updateSecret_pauses constrained revoked
  exact first.trans (pauseEffectSecretRows_pauses first.constrained h)

theorem grantEffectEndpoint_pauses {generation contract : String} {binding : EffectiveEffectGrant}
    {t t' : EffectTables} (constrained : Constrained t.outbox)
    (h : grantEffectEndpoint generation contract binding t = .ok t') : Pauses t t' := by
  simp only [grantEffectEndpoint, bind_eq_ok] at h
  rcases h with ⟨_, _, _, _, t₁, granted, t₂, paused, h⟩
  cases h
  have both := (updateGrant_pauses constrained granted).trans (pauseEndpoint_pauses paused)
  exact ⟨both.rows, both.watermark, both.constrained⟩

theorem grantEffectSecret_pauses {generation contract slot : String}
    {effective : EffectiveEffectDeployment} {t t' : EffectTables} (constrained : Constrained t.outbox)
    (h : grantEffectSecret generation contract slot effective t = .ok t') : Pauses t t' := by
  simp only [grantEffectSecret, bind_eq_ok] at h
  rcases h with ⟨_, _, _, _, t₁, granted, h⟩
  have first := updateSecret_pauses constrained granted
  exact first.trans (pauseEffectSecretRows_pauses first.constrained h)

/-! ## Captures -/

/-- One capture is added at the present time. -/
structure Added (encoding : Encoding) (capture : CapturedEffect) (t t' : EffectTables) : Prop where
  outbox : t'.outbox = t.outbox ++ [capture.row encoding t.watermark]
  watermark : t'.watermark = t.watermark
  constrained : Constrained t'.outbox
  valid : capture.validate encoding = .ok ()
  created : capture.created = t.watermark

theorem enqueue_adds {encoding : Encoding} {capture : CapturedEffect} {t t' : EffectTables}
    (h : enqueue encoding capture t = .ok t') : t' = t ∨ Added encoding capture t t' := by
  simp only [enqueue, bind_eq_ok] at h
  rcases h with ⟨_, valid, _, created, runtime, _, _, _, _, _, found, _, ⟨grant, state⟩, _, _, _, h⟩
  split at h
  · simp only [bind_eq_ok] at h
    rcases h with ⟨_, _, h⟩
    cases h
    exact Or.inl rfl
  · simp only [bind_eq_ok, withOutbox_ok] at h
    rcases h with ⟨_, _, constrained, rfl⟩
    have outbox : (ensureTenant capture.scope.deployment capture.scope.tenant t).outbox = t.outbox := by
      unfold ensureTenant
      split <;> rfl
    have watermark : (ensureTenant capture.scope.deployment capture.scope.tenant t).watermark
        = t.watermark := by
      unfold ensureTenant
      split <;> rfl
    rw [outbox] at constrained
    refine Or.inr ⟨?_, watermark, ?_, valid, ensure_eq_ok.mp created⟩
    · change (ensureTenant capture.scope.deployment capture.scope.tenant t).outbox ++ _ = _
      rw [outbox]
    · change Constrained ((ensureTenant capture.scope.deployment capture.scope.tenant t).outbox ++ _)
      rw [outbox]
      exact constrained

end Noxide.Effects
