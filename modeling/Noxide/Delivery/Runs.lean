import Noxide.Delivery.Slots
import Noxide.Effects.Workers

/-!
# Runs of the delivery owner

Along every orderly run the live attempts have different effects, no more of them live than
there are slots, and one that was never confirmed stopped stays excluded.  A run in which an
attempt is dropped while it waits for others to stop loses all of this.

Main results:

- Theorem {lit}`deliveries_never_overlap`: exclusion and retention along every orderly run.
- Theorem {lit}`abandoned_attempt_overlaps`: two live attempts of one effect in one slot.
-/

namespace Noxide.Delivery

/-! ## Exclusion -/

/-- What the owner promises of one state. -/
structure Exclusion (w : Owner) : Prop where
  /-- No two live attempts hold the same effect. -/
  effects : w.attempts.Pairwise fun a b => a.live = true → b.live = true →
    ∀ id, a.claimed = some id → b.claimed ≠ some id
  /-- Every slot is free, or with an attempt that was not confirmed stopped. -/
  capacity : w.permits + w.starting + w.attempts.countP (·.live) = w.concurrency
  /-- The effect of a live attempt is among those that no claim hands out. -/
  excluded : ∀ a ∈ w.attempts, a.live = true → ∀ id, a.claimed = some id → id ∈ w.activeClaims
  /-- A drained owner has every slot back and no live attempt. -/
  drained : w.drained = true → w.starting = 0 ∧ ∀ a ∈ w.attempts, a.live = false

section Sound

variable {a a' : Attempt} {w w' : Owner} {serial : Nat} {claimed : Option String}

/-- The live attempts are those whose permit is not back. -/
theorem Sound.live_eq (h : Sound w) (member : a ∈ w.attempts) : a.live = a.holdsPermit := by
  unfold Attempt.live
  cases held : a.holdsPermit with
  | true => rfl
  | false => rw [h.stopped a member held]; rfl

theorem weight_sum (attempts : List Attempt) :
    (attempts.map Attempt.weight).sum = (attempts.countP (·.holdsPermit) : Int) := by
  induction attempts with
  | nil => rfl
  | cons a attempts ih =>
      rw [List.map_cons, List.sum_cons, List.countP_cons, ih]
      unfold Attempt.weight
      split <;> omega

theorem Sound.capacity (h : Sound w) :
    w.permits + w.starting + w.attempts.countP (·.live) = w.concurrency := by
  have live : w.attempts.countP (·.live) = w.attempts.countP (·.holdsPermit) :=
    List.countP_congr fun a member => by rw [h.live_eq member]
  have balance := h.permits
  rw [weight_sum, ← live] at balance
  omega

theorem Sound.present (h : Sound w) (member : a ∈ w.attempts) (live : a.live = true) :
    a.phase ≠ .gone := by
  rw [h.live_eq member] at live
  exact present_of_holds live

theorem Sound.exclusion (h : Sound w) : Exclusion w := by
  refine ⟨?_, h.capacity, fun a member live id marked => ?_, fun drained => ?_⟩
  · refine h.serials.imp_of_mem fun member member' apart live live' id marked marked' => ?_
    have present := h.present member live
    have present' := h.present member' live'
    exact apart present present'
      (h.distinct _ (h.mem_active member present) _ (h.mem_active member' present') id marked marked')
  · exact List.mem_filterMap.mpr ⟨_, h.mem_active member (h.present member live), marked⟩
  · simp only [Owner.drained, decide_eq_true_eq] at drained
    have balance := h.capacity
    refine ⟨by omega, fun a member => ?_⟩
    have none : w.attempts.countP (·.live) = 0 := by omega
    rw [List.countP_eq_zero] at none
    exact Bool.not_eq_true _ ▸ none a member

/-! ## Retention -/

/-- An attempt was not confirmed stopped in time. -/
def Retained (serial : Nat) (claimed : Option String) (w : Owner) : Prop :=
  ∃ a ∈ w.attempts, a.serial = serial ∧ a.claimed = claimed ∧ a.phase = .retained

theorem Retained.replaced {attempts : List Attempt} (h : Retained serial claimed w)
    (replaced : Table.Replaced a a' w.attempts attempts)
    (same : a.phase = .retained → a'.serial = a.serial ∧ a'.claimed = a.claimed ∧ a'.phase = .retained) :
    ∃ b ∈ attempts, b.serial = serial ∧ b.claimed = claimed ∧ b.phase = .retained := by
  rcases h with ⟨b, member, rfl, rfl, phase⟩
  rcases replaced.mem_old member with rfl | old
  · rcases same phase with ⟨serial, claimed, after⟩
    exact ⟨a', replaced.mem_after, serial, claimed, after⟩
  · exact ⟨b, old, rfl, rfl, phase⟩

/-- Another attempt is the one that changes. -/
theorem Retained.others {attempts : List Attempt} (h : Retained serial claimed w)
    (replaced : Table.Replaced a a' w.attempts attempts) (other : a.phase ≠ .retained) :
    ∃ b ∈ attempts, b.serial = serial ∧ b.claimed = claimed ∧ b.phase = .retained :=
  h.replaced replaced fun retained => absurd retained other

/-- No step ends the retention. -/
theorem Retained.step {operation : Operation} (h : Retained serial claimed w) (sound : Sound w)
    (step : Step operation w w') : Retained serial claimed w' := by
  cases step with
  | acquire _ free => exact h
  | registered _ waiting below =>
      rcases h with ⟨b, member, same⟩
      exact ⟨b, List.mem_cons_of_mem _ member, same⟩
  | exhausted _ waiting last => exact h
  | lock a _ attempts running free replaced => exact h.replaced replaced fun phase => ⟨rfl, rfl, phase⟩
  | unlock a _ attempts held replaced => exact h.replaced replaced fun phase => ⟨rfl, rfl, phase⟩
  | snapshot a _ attempts held unclaimed replaced => exact h.replaced replaced fun phase => ⟨rfl, rfl, phase⟩
  | claim a _ attempts active asked generation contract directory skipped t t' claim ran replaced =>
      have locked := (sound.exclusive.asked a replaced.mem_before active asked).1
      have running := (sound.exclusive.held a replaced.mem_before locked).2
      exact h.others replaced (by simp [running])
  | work a _ member running => exact h
  | share a _ attempts held replaced => exact h.replaced replaced fun phase => ⟨rfl, rfl, phase⟩
  | release a _ attempts held replaced => exact h.replaced replaced fun phase => ⟨rfl, rfl, phase⟩
  | hold a _ attempts running replaced => exact h.replaced replaced fun phase => ⟨rfl, rfl, phase⟩
  | unhold a _ attempts held others replaced => exact h.replaced replaced fun phase => ⟨rfl, rfl, phase⟩
  | unholdLast a _ attempts last abandoned replaced =>
      exact absurd abandoned (sound.kept a replaced.mem_before)
  | finish a _ attempts running unlocked replaced =>
      exact h.others replaced (by simp [running])
  | cancel a _ attempts running unlocked replaced =>
      exact h.others replaced (by simp [running])
  | abandon a _ attempts finishing alone replaced =>
      exact h.others replaced (by simp [finishing])
  | abandonShared a _ attempts finishing shared replaced =>
      exact h.others replaced (by simp [finishing])
  | stopped a _ attempts waiting free replaced =>
      rcases waiting with finishing | cleaning
      · exact h.others replaced (by simp [finishing])
      · exact h.others replaced (by simp [cleaning])
  | expired a _ attempts waiting replaced => exact h.replaced replaced fun _ => ⟨rfl, rfl, rfl⟩
  | remove a _ attempts releasing replaced =>
      exact h.others replaced (by simp [releasing])

/-! ## Orderly runs -/

theorem Owner.Fresh.sound (h : w.Fresh) : Sound w := by
  have none : w.attempts = [] := h.attempts
  refine ⟨?_, fun entry => ?_, fun entry member => ?_, ?_, fun a member => ?_, fun a member => ?_,
    ⟨fun a member => ?_, fun a member => ?_, fun a member => ?_⟩⟩
  · rw [none]
    exact List.Pairwise.nil
  · simp [none, h.active]
  · rw [h.active] at member
    cases member
  · rw [none, h.permits, h.starting]
    simp
  all_goals
    rw [none] at member
    cases member

/-- Every orderly interleaving keeps the owner sound. -/
theorem sound_invariant : (deliverySystem orderly).Invariant Sound where
  initial := fun _ fresh => fresh.sound
  step := fun _ _ _ sound step => by
    rcases step with ⟨operation, allowed, step⟩
    exact sound.step allowed step

theorem retained_stable (serial : Nat) (claimed : Option String) :
    (deliverySystem orderly).Stable (Retained serial claimed) := by
  intro w w' reachable retained step
  rcases step with ⟨operation, _, step⟩
  exact retained.step (sound_invariant.holds reachable) step

/-- In every state of an orderly run no effect has two live attempts, the slots are with the
attempts that were not confirmed stopped, and a drained owner has them all back.  An attempt
that was not confirmed stopped keeps its slot and its entry in every later state. -/
theorem deliveries_never_overlap (reachable : (deliverySystem orderly).Reachable w) :
    Exclusion w ∧ ∀ serial claimed, Retained serial claimed w → ∀ w', (deliverySystem orderly).Run w w' →
      Retained serial claimed w' ∧ (serial, claimed) ∈ w'.active := by
  refine ⟨(sound_invariant.holds reachable).exclusion, fun serial claimed retained w' run => ?_⟩
  have later := (retained_stable serial claimed).along reachable retained run
  refine ⟨later, ?_⟩
  rcases later with ⟨a, member, rfl, rfl, phase⟩
  exact (sound_invariant.holds (reachable.run run)).mem_active member (by simp [phase])

end Sound

/-! ## An abandoned attempt -/

def claimedId : String := "e1_Dsr29-w4gLnVrJabqnLAnqvqrMhHOrAHT27WOEIZm4Y"

/-- An owner of one slot, which is free. -/
def idle (next : Nat) (attempts : List Attempt) : Owner where
  concurrency := 1
  permits := 1
  starting := 0
  next := next
  active := []
  claimLock := false
  attempts := attempts

/-- An attempt that claimed the sample effect. -/
def claimer (serial : Nat) (phase : Phase) (locked : Bool) (tokens : Nat) : Attempt where
  serial := serial
  claimed := some claimedId
  phase := phase
  locked := locked
  snapshot := none
  holds := 0
  tokens := tokens
  cancelled := false

/-- The same owner once a new attempt claimed the sample effect. -/
def busy (serial : Nat) (attempts : List Attempt) : Owner where
  concurrency := 1
  permits := 0
  starting := 0
  next := serial + 1
  active := [(serial, some claimedId)]
  claimLock := true
  attempts := claimer serial .running true 0 :: attempts

/-- The effect that an answer of the store hands out. -/
def handed (answer : Result (Option Effects.EffectClaim × Effects.EffectTables)) : Option String :=
  match answer with
  | .ok (some claim, _) => some claim.id
  | _ => none

theorem handed_some {answer : Result (Option Effects.EffectClaim × Effects.EffectTables)} {id : String}
    (h : handed answer = some id) : ∃ claim t, claim.id = id ∧ answer = .ok (some claim, t) := by
  unfold handed at h
  split at h
  · exact ⟨_, _, Option.some.inj h, rfl⟩
  · cases h

section Samples

variable {rule : Owner → Operation → Prop} {serial : Nat} {attempts : List Attempt}

/-- An idle owner takes up an effect that the store hands out. -/
theorem busy_reachable (allowed : ∀ w operation, orderly w operation → rule w operation)
    (below : serial < u64Max) {t : Effects.EffectTables}
    (due : handed (Effects.claim "g1" "c1" "d1" [] [] t) = some claimedId)
    (h : (deliverySystem rule).Reachable (idle serial attempts)) :
    (deliverySystem rule).Reachable (busy serial attempts) := by
  rcases handed_some due with ⟨claim, t', same, ran⟩
  have acquired := h.next ⟨.acquire, allowed _ _ trivial, Step.acquire _ Nat.one_pos⟩
  have registered := acquired.next ⟨.register, allowed _ _ fun _ member => (List.not_mem_nil member).elim,
    Step.registered _ Nat.one_pos below⟩
  have locked := registered.next ⟨.lock _, allowed _ _ trivial, Step.lock _ _ _ rfl rfl (.here [] _)⟩
  have asked := locked.next ⟨.snapshot _, allowed _ _ trivial, Step.snapshot _ _ _ rfl rfl (.here [] _)⟩
  have marked := asked.next ⟨.claim _, allowed _ _ trivial,
    Step.claim _ _ _ [] rfl "g1" "c1" "d1" [] t t' claim ran (.here [] _)⟩
  rw [same] at marked
  have entry : markClaim serial claimedId (enter serial []) = [(serial, some claimedId)] := by
    simp [enter, markClaim]
  have after : busy serial attempts = { busy serial attempts with
      active := markClaim serial claimedId (enter serial []) } := by
    rw [entry]
    rfl
  rw [after]
  exact marked

end Samples

theorem firstBusy_reachable : (deliverySystem orderly).Reachable (busy 1 []) := by
  refine busy_reachable (fun _ _ allowed => allowed) (by decide) (t := Effects.sampleStart.captures.tables)
    (by decide +kernel) (System.Reachable.start ⟨by decide, rfl, rfl, rfl, rfl, rfl, rfl⟩)

/-- The first attempt runs, and a database phase of its shares the request token. -/
def firstRuns : Owner :=
  { busy 1 [] with claimLock := false, attempts := [claimer 1 .running false 1] }

theorem firstRuns_reachable : (deliverySystem orderly).Reachable firstRuns := by
  have busy := firstBusy_reachable
  have unlocked := busy.next ⟨.unlock _, trivial, Step.unlock _ _ _ rfl (.here [] [])⟩
  exact unlocked.next ⟨.share _, trivial, Step.share _ _ _ (Or.inl rfl) (.here [] [])⟩

/-- The database phase is not over when the deadline passes. -/
def firstRetained : Owner :=
  { firstRuns with attempts := [claimer 1 .retained false 1] }

theorem firstRetained_reachable : (deliverySystem orderly).Reachable firstRetained := by
  have runs := firstRuns_reachable
  have finishing := runs.next ⟨.finish _, trivial, Step.finish _ _ _ rfl rfl (.here [] [])⟩
  exact finishing.next ⟨.expired _, trivial, Step.expired _ _ _ (Or.inl rfl) (.here [] [])⟩

theorem deliveries_never_overlap_sample : Exclusion firstRetained
    ∧ (1, some claimedId) ∈ firstRetained.active := by
  rcases deliveries_never_overlap firstRetained_reachable with ⟨exclusion, kept⟩
  refine ⟨exclusion, (kept 1 (some claimedId) ⟨_, List.mem_cons_self, rfl, rfl, rfl⟩ firstRetained ?_).2⟩
  exact System.Run.refl firstRetained

/-- The first attempt was dropped while it waited for the database phase. -/
def firstGone : List Attempt := [claimer 1 .gone false 1]

/-- Any run is one in which attempts may be dropped while they wait. -/
theorem any_reachable {rule : Owner → Operation → Prop} {w : Owner} (h : (deliverySystem rule).Reachable w) :
    (deliverySystem fun _ _ => True).Reachable w := by
  refine h.mono (fun state fresh => ?_) fun state next step => ?_
  · exact fresh
  · rcases step with ⟨operation, _, step⟩
    exact ⟨operation, trivial, step⟩

theorem firstGone_reachable : (deliverySystem fun _ _ => True).Reachable (idle 2 firstGone) := by
  have runs := any_reachable firstRuns_reachable
  have finishing := runs.next ⟨.finish _, trivial, Step.finish _ _ _ rfl rfl (.here [] [])⟩
  have dropped := finishing.next ⟨.abandon _, trivial, Step.abandon _ _ _ rfl rfl (.here [] [])⟩
  have removed := dropped.next ⟨.remove _, trivial, Step.remove _ _ _ rfl (.here [] [])⟩
  exact removed

/-- In one slot two attempts of one effect are live once the first lease ran out: the permit
and the entry of the first are gone, and the database phase still works for it. -/
theorem abandoned_attempt_overlaps : (deliverySystem fun _ _ => True).Reachable (busy 2 firstGone)
    ∧ (∃ a ∈ (busy 2 firstGone).attempts, ∃ b ∈ (busy 2 firstGone).attempts, a.serial ≠ b.serial
      ∧ a.live = true ∧ b.live = true ∧ a.claimed = some claimedId ∧ b.claimed = some claimedId)
    ∧ (busy 2 firstGone).concurrency < (busy 2 firstGone).attempts.countP (·.live) := by
  refine ⟨?_, ⟨claimer 2 .running true 0, by decide, claimer 1 .gone false 1, by decide,
    by decide, by decide, by decide, rfl, rfl⟩, by decide⟩
  exact busy_reachable (fun _ _ _ => trivial) (by decide)
    (t := Effects.sampleStart.captures.claims.waits.tables) (by decide +kernel) firstGone_reachable

end Noxide.Delivery
