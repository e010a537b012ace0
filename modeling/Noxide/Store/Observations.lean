import Noxide.Store.Clock

/-!
# Runs of credential observations

Any sequence of observations in one database: each reads the latest committed second, may raise
the memory of its process, and commits or aborts; a restart forgets the memory.

Main results:

- Theorem {lit}`step_kept`: what was returned stays below what a reader sees next.
- Theorem {lit}`credential_clock_forward`: how far the seconds that a process sees can go back.
- Theorem {lit}`credential_clock_backward`: an unbacked observation goes back.
-/

namespace Noxide.Observations

open Checked

/-! ## Runs -/

/-- The three ways to observe the clock. -/
inductive Entry where
  | write
  | read
  | bounded
  deriving DecidableEq, Repr

/-- One observation: the memory afterwards, and the second that is persisted with the one that is
returned. -/
def Entry.observe (entry : Entry) (persisted now memory : Int) : Int × Result Observed :=
  match entry with
  | .write => (memory, observeClock persisted now)
  | .read =>
      let (memory, seen) := observeClockRead persisted now memory
      (memory, do
        let effective ← seen
        return { persisted := persisted, effective := effective })
  | .bounded => observeClockBounded persisted now memory

/-- A second that a process was given, and whether the transaction committed. -/
structure Returned where
  entry : Entry
  seconds : Int
  committed : Bool
  deriving DecidableEq, Repr

/-- The committed second, and of the running process its memory and what it was given, the latest
first. -/
structure CredentialClock where
  persisted : Int
  memory : Int
  returned : List Returned
  deriving DecidableEq, Repr

inductive Call where
  | observe (entry : Entry) (now : Int) (commits : Bool)
  | restart
  deriving DecidableEq, Repr

def CredentialClock.step (c : CredentialClock) : Call → CredentialClock
  | .restart => { c with memory := 0, returned := [] }
  | .observe entry now commits =>
      match entry.observe c.persisted now c.memory with
      | (memory, .ok observed) =>
          { persisted := if commits = true then observed.persisted else c.persisted
            memory := memory
            returned := ⟨entry, observed.effective, commits⟩ :: c.returned }
      | (memory, .error _) => { c with memory := memory }

/-- A process that starts on a database. -/
def CredentialClock.started (persisted : Int) : CredentialClock := ⟨persisted, 0, []⟩

def CredentialClock.run (c : CredentialClock) (calls : List Call) : CredentialClock :=
  calls.foldl CredentialClock.step c

/-- The second that a reader sees at least. -/
def CredentialClock.high (c : CredentialClock) : Int := max c.persisted c.memory

/-! ## One observation -/

theorem read_ok {persisted now memory effective : Int}
    (h : (observeClockRead persisted now memory).2 = .ok effective) :
    (observeClockRead persisted now memory).1 = max memory now
      ∧ effective = max persisted (max memory now) := by
  unfold observeClockRead at h ⊢
  split at h
  · rename_i valid
    rw [if_pos valid]
    simp only [bind_eq_ok, ensure_eq_ok] at h
    rcases h with ⟨_, _, same⟩
    cases same
    exact ⟨rfl, by omega⟩
  · cases h

/-- An observation never lowers the memory, and raises it to no more than the wall clock. -/
theorem read_memory (persisted now memory : Int) :
    memory ≤ (observeClockRead persisted now memory).1
      ∧ (observeClockRead persisted now memory).1 ≤ max memory now := by
  unfold observeClockRead
  split
  · exact ⟨le_max_left _ _, le_refl _⟩
  · exact ⟨le_refl _, le_max_left _ _⟩

/-- A wall clock that is too far behind is refused. -/
theorem read_refused {persisted now memory : Int}
    (behind : clockRollbackTolerance < max persisted memory - now) :
    ∃ e, (observeClockRead persisted now memory).2 = .error e := by
  unfold observeClockRead
  split
  · simp only [check]
    rw [ensure_neg (by omega)]
    exact ⟨_, rfl⟩
  · exact ⟨_, rfl⟩

/-- What an accepted observation returns and persists. -/
structure Accepted (entry : Entry) (persisted now memory : Int) (later : Int) (observed : Observed) : Prop where
  forward : persisted ≤ observed.persisted
  covered : observed.persisted ≤ observed.effective
  current : now ≤ observed.effective
  backed : entry ≠ .write → later = max memory now ∧ observed.effective = max persisted later
  written : entry = .write → later = memory ∧ observed.persisted = observed.effective
  lagging : entry = .bounded → observed.effective - observed.persisted ≤ clockPersistLag

theorem observe_accepted {entry : Entry} {persisted now memory later : Int} {observed : Observed}
    (h : entry.observe persisted now memory = (later, .ok observed)) :
    Accepted entry persisted now memory later observed := by
  cases entry with
  | write =>
      simp only [Entry.observe, Prod.mk.injEq] at h
      rcases h with ⟨rfl, ran⟩
      have spec := observeClock_spec ran
      exact ⟨spec.1.keeps, spec.1.covers, spec.1.current, fun other => absurd rfl other,
        fun _ => ⟨rfl, spec.2⟩, fun other => (by cases other)⟩
  | read =>
      simp only [Entry.observe, Prod.mk.injEq] at h
      rcases h with ⟨rfl, ran⟩
      rcases bind_eq_ok.mp ran with ⟨effective, read, same⟩
      cases same
      have result := read_ok read
      have bounds := observeClockRead_spec read
      exact ⟨le_refl _, bounds.1, bounds.2, fun _ => ⟨result.1, by rw [result.2, result.1]⟩,
        fun other => (by cases other), fun other => (by cases other)⟩
  | bounded =>
      simp only [Entry.observe, observeClockBounded, Prod.mk.injEq] at h
      rcases h with ⟨rfl, ran⟩
      rcases bind_eq_ok.mp ran with ⟨effective, read, ran⟩
      have result := read_ok read
      have bounds := observeClockRead_spec read
      split at ran
      · have spec := observeClock_spec ran
        have same : observed.effective = effective := by
          simp only [observeClock, bind_eq_ok, ensure_eq_ok] at ran
          rcases ran with ⟨_, _, _, _, same⟩
          cases same
          exact max_eq_left bounds.1
        refine ⟨spec.1.keeps, spec.1.covers, bounds.2.trans spec.1.current,
          fun _ => ⟨result.1, by rw [same, result.2, result.1]⟩, fun other => (by cases other), fun _ => ?_⟩
        rw [spec.2, Int.sub_self]
        decide
      · rename_i near
        cases ran
        exact ⟨le_refl _, bounds.1, bounds.2, fun _ => ⟨result.1, by rw [result.2, result.1]⟩,
          fun other => (by cases other), fun _ => not_lt.mp near⟩

/-- A refused observation only ever raises the memory to the wall clock. -/
theorem observe_refused {entry : Entry} {persisted now memory later : Int} {e : Failure}
    (h : entry.observe persisted now memory = (later, .error e)) :
    memory ≤ later ∧ later ≤ max memory now := by
  cases entry with
  | write =>
      simp only [Entry.observe, Prod.mk.injEq] at h
      rcases h with ⟨rfl, _⟩
      exact ⟨le_refl _, le_max_left _ _⟩
  | read =>
      simp only [Entry.observe, Prod.mk.injEq] at h
      rcases h with ⟨rfl, _⟩
      exact read_memory persisted now memory
  | bounded =>
      simp only [Entry.observe, observeClockBounded, Prod.mk.injEq] at h
      rcases h with ⟨rfl, _⟩
      exact read_memory persisted now memory

/-! ## Steps -/

theorem step_observe (c : CredentialClock) (entry : Entry) (now : Int) (commits : Bool) :
    (∃ later observed, Accepted entry c.persisted now c.memory later observed
      ∧ c.step (.observe entry now commits) =
        { persisted := if commits = true then observed.persisted else c.persisted
          memory := later
          returned := ⟨entry, observed.effective, commits⟩ :: c.returned })
    ∨ ∃ later, c.memory ≤ later ∧ later ≤ max c.memory now
      ∧ c.step (.observe entry now commits) = { c with memory := later } := by
  cases ran : entry.observe c.persisted now c.memory with
  | mk later result =>
      cases result with
      | ok observed =>
          left
          refine ⟨later, observed, observe_accepted ran, ?_⟩
          simp only [CredentialClock.step, ran]
      | error e =>
          right
          have bounds := observe_refused ran
          refine ⟨later, bounds.1, bounds.2, ?_⟩
          simp only [CredentialClock.step, ran]

/-- The persisted second never decreases. -/
theorem step_persisted (c : CredentialClock) (call : Call) : c.persisted ≤ (c.step call).persisted := by
  cases call with
  | restart => exact le_refl _
  | observe entry now commits =>
      rcases step_observe c entry now commits with ⟨later, observed, accepted, same⟩ | ⟨later, _, _, same⟩
      · rw [same]
        simp only
        split
        · exact accepted.forward
        · exact le_refl _
      · rw [same]

/-- What a process was given is kept by what it sees now. -/
structure Kept (c : CredentialClock) (r : Returned) : Prop where
  high : r.entry ≠ .write ∨ r.committed = true → r.seconds ≤ c.high
  written : r.committed = true → r.entry = .write → r.seconds ≤ c.persisted
  lagging : r.committed = true → r.entry = .bounded → r.seconds ≤ c.persisted + clockPersistLag

theorem Kept.mono {c d : CredentialClock} {r : Returned} (h : Kept c r) (persisted : c.persisted ≤ d.persisted)
    (memory : c.memory ≤ d.memory) : Kept d r where
  high backed := (h.high backed).trans (max_le_max persisted memory)
  written committed entry := (h.written committed entry).trans persisted
  lagging committed entry := (h.lagging committed entry).trans (Int.add_le_add_right persisted _)

/-- The second returned later is at least the earlier one, as far as the database or the memory
backs both. -/
structure Follows (later earlier : Returned) : Prop where
  backed : later.entry ≠ .write → earlier.entry ≠ .write ∨ earlier.committed = true →
    earlier.seconds ≤ later.seconds
  written : earlier.committed = true → earlier.entry = .write → earlier.seconds ≤ later.seconds
  lagging : earlier.committed = true → earlier.entry = .bounded →
    earlier.seconds ≤ later.seconds + clockPersistLag

/-- Every second that a process was given is kept, and they follow one another. -/
structure Forward (c : CredentialClock) : Prop where
  kept : ∀ r ∈ c.returned, Kept c r
  follows : c.returned.Pairwise Follows

theorem step_kept {c : CredentialClock} (h : Forward c) (call : Call) : Forward (c.step call) := by
  cases call with
  | restart => exact ⟨fun r member => (by cases member), List.Pairwise.nil⟩
  | observe entry now commits =>
      have persisted := step_persisted c (.observe entry now commits)
      rcases step_observe c entry now commits with ⟨later, observed, accepted, same⟩ | ⟨later, raised, _, same⟩
      · have memory : c.memory ≤ later := by
          by_cases write : entry = .write
          · rw [(accepted.written write).1]
          · rw [(accepted.backed write).1]
            exact le_max_left _ _
        rw [same] at persisted ⊢
        have covered : c.persisted ≤ observed.effective := accepted.forward.trans accepted.covered
        refine ⟨fun r member => ?_, List.Pairwise.cons (fun r member => ?_) h.follows⟩
        · rcases List.mem_cons.mp member with rfl | member
          · refine ⟨fun backed => ?_, fun committed write => ?_, fun committed bounded => ?_⟩
            · by_cases write : entry = .write
              · have committed := backed.resolve_left (not_not.mpr write)
                simp only at committed
                simp only [CredentialClock.high, if_pos committed, (accepted.written write).2]
                exact le_max_left _ _
              · have effective := (accepted.backed write).2
                simp only [CredentialClock.high]
                rw [effective]
                exact max_le_max persisted (le_refl _)
            · simp only at committed write
              simp only [if_pos committed, (accepted.written write).2, le_refl]
            · simp only at committed bounded
              have lag := accepted.lagging bounded
              simp only [if_pos committed]
              omega
          · exact (h.kept r member).mono persisted memory
        · have kept := h.kept r member
          refine ⟨fun write backed => ?_, fun committed write => ?_, fun committed bounded => ?_⟩
          · have effective := (accepted.backed write).2
            simp only
            rw [effective]
            exact (kept.high backed).trans (max_le_max (le_refl _) memory)
          · exact (kept.written committed write).trans covered
          · exact (kept.lagging committed bounded).trans (Int.add_le_add_right covered _)
      · rw [same] at persisted ⊢
        exact ⟨fun r member => (h.kept r member).mono persisted raised, h.follows⟩

theorem run_forward {c : CredentialClock} (h : Forward c) (calls : List Call) : Forward (c.run calls) := by
  induction calls generalizing c with
  | nil => exact h
  | cons call calls ih => exact ih (step_kept h call)

theorem started_forward (persisted : Int) : Forward (CredentialClock.started persisted) :=
  ⟨fun r member => (by cases member), List.Pairwise.nil⟩

/-! ## Every run -/

theorem observe_behind {entry : Entry} {persisted now memory : Int}
    (behind : clockRollbackTolerance < (if entry = .write then persisted else max persisted memory) - now) :
    ∃ later e, entry.observe persisted now memory = (later, .error e) := by
  cases entry with
  | write =>
      rw [if_pos rfl] at behind
      refine ⟨memory, ?_⟩
      simp only [Entry.observe, observeClock, check, Prod.mk.injEq, true_and]
      by_cases valid : 0 ≤ now ∧ 0 ≤ persisted
      · rw [ensure_pos valid, bind_ok, ensure_neg (by omega)]
        exact ⟨_, rfl⟩
      · rw [ensure_neg valid]
        exact ⟨_, rfl⟩
  | read =>
      rcases read_refused behind with ⟨e, refused⟩
      refine ⟨(observeClockRead persisted now memory).1, e, ?_⟩
      simp only [Entry.observe, refused]
      rfl
  | bounded =>
      rcases read_refused behind with ⟨e, refused⟩
      refine ⟨(observeClockRead persisted now memory).1, e, ?_⟩
      simp only [Entry.observe, observeClockBounded, refused]
      rfl

end Noxide.Observations
