import Noxide.Blobs.Quota

/-!
# Blob lifecycle safety

Every run of the blob store from an empty paired one, with the log of its committed
transactions: what each transaction does to every row, and what the log can hold.

Main results:

- Theorem {lit}`Step.forward`: in one step a row stays, changes by the step's own
  transition, or loses its owner.
- Theorem {lit}`blob_lifecycle_safe`: over every interleaving a blob is attached at most
  once and never after a claim, and its charge is released once, when it is deleted.
-/

namespace Noxide
namespace Blobs

open Checked

/-! ## Versions of a row -/

section Versions

variable {sha256 : List UInt8 → Digest} {w w' : World} {e : Event} {row next : BlobRow}

/-- What one step makes of a row. -/
inductive Version (e : Event) (row : BlobRow) : BlobRow → Prop where
  | same : (∀ old next, e.change = some (old, next) → old.slot ≠ row.slot) → Version e row row
  | change {next : BlobRow} : e.change = some (row, next) → Version e row next
  | released {resource id : I64} {incarnation : String} {association : Association}
      {t : Transition} : e = .detach resource id incarnation →
        row.ownedBy resource id incarnation = some association →
          row.metadata.unreference row.metadata.generation association = .ok t →
            Version e row { row with metadata := t.next }

theorem version_quiet (quiet : e.change = none) : Version e row row := by
  refine Version.same ?_
  intro old next change
  rw [quiet] at change
  cases change

/-- A row of the world after a step is a version of one before it, or new. -/
theorem Step.backward (h : Tracked sha256 w) (step : Step sha256 e w w') {row' : BlobRow}
    (member : row' ∈ w'.rows) : (∃ row ∈ w.rows, row.slot = row'.slot ∧ Version e row row')
      ∨ e = .reserve row' ∧ ∀ row ∈ w.rows, row.slot ≠ row'.slot := by
  have tracked := h.step step
  cases changed : e.change with
  | some change =>
      rcases change with ⟨old, next⟩
      rcases step.moves h changed with ⟨_, _, result, moves⟩
      have slot : next.slot = old.slot := by
        simp only [BlobRow.slot, moves.keeps.binding]
      rw [result] at member
      rcases moves.replaced.mem_other BlobRow.slot slot h.slots member with rfl | ⟨kept, other⟩
      · exact Or.inl ⟨old, moves.replaced.mem_before, slot.symm, Version.change changed⟩
      · refine Or.inl ⟨row', kept, rfl, Version.same ?_⟩
        intro old' next' same
        rw [changed] at same
        cases same
        exact fun equal => other equal.symm
  | none =>
      cases step with
      | read stored parsed => exact Or.inl ⟨row', member, rfl, version_quiet rfl⟩
      | quarantine op => exact Or.inl ⟨row', member, rfl, version_quiet rfl⟩
      | reserve op =>
          rcases List.mem_append.mp member with old | new
          · exact Or.inl ⟨row', old, rfl, version_quiet rfl⟩
          · rw [List.mem_singleton] at new
            subst new
            refine Or.inr ⟨rfl, ?_⟩
            intro row old same
            have slots := tracked.slots
            rw [List.map_append, List.nodup_append] at slots
            exact slots.2.2 _ (List.mem_map_of_mem old) _ List.mem_cons_self same
      | detach op =>
          rcases List.mem_map.mp member with ⟨row, here, rfl⟩
          rcases unreferenced_cases row _ _ _ with same | ⟨_, t, owned, moved, result⟩
          · rw [same]
            exact Or.inl ⟨row, here, rfl, version_quiet rfl⟩
          · rw [result]
            refine Or.inl ⟨row, here, ?_, Version.released rfl owned moved⟩
            simp only [BlobRow.slot, (unreference_ok moved).1.binding]
      | publish held op => cases changed
      | attach held attached op => cases changed
      | claim held op => cases changed
      | claimStopped held op => cases changed
      | recover held op => cases changed
      | resume held op => cases changed
      | delete held op => cases changed

/-- In one step a row stays, changes by the step's own transition, or loses its owner. -/
theorem Step.forward (h : Tracked sha256 w) (step : Step sha256 e w w') (member : row ∈ w.rows) :
    ∃ row' ∈ w'.rows, row'.slot = row.slot ∧ Version e row row' := by
  have tracked := h.step step
  have kept : ∃ row' ∈ w'.rows, row'.slot = row.slot := by
    cases changed : e.change with
    | some change =>
        rcases step.moves h changed with ⟨_, _, result, moves⟩
        have slot : change.2.slot = change.1.slot := by
          simp only [BlobRow.slot, moves.keeps.binding]
        rw [result]
        rcases moves.replaced.mem_old member with rfl | stays
        · exact ⟨_, moves.replaced.mem_after, slot⟩
        · exact ⟨row, stays, rfl⟩
    | none =>
        cases step with
        | read stored parsed => exact ⟨row, member, rfl⟩
        | quarantine op => exact ⟨row, member, rfl⟩
        | reserve op => exact ⟨row, List.mem_append_left _ member, rfl⟩
        | detach op =>
            refine ⟨_, List.mem_map_of_mem member, ?_⟩
            rcases unreferenced_cases row _ _ _ with same | ⟨_, t, _, moved, result⟩
            · rw [same]
            · rw [result]
              simp only [BlobRow.slot, (unreference_ok moved).1.binding]
        | publish held op => cases changed
        | attach held attached op => cases changed
        | claim held op => cases changed
        | claimStopped held op => cases changed
        | recover held op => cases changed
        | resume held op => cases changed
        | delete held op => cases changed
  rcases kept with ⟨row', here, slot⟩
  refine ⟨row', here, slot, ?_⟩
  rcases step.backward h here with ⟨old, there, same, version⟩ | ⟨_, fresh⟩
  · rw [Table.eq_of_key _ h.slots there member (same.trans slot)] at version
    exact version
  · exact absurd slot.symm (fresh row member)

end Versions

/-! ## The log -/

/-- A blob is attached in this slot. -/
def Event.attaches (slot : Commitment) : Event → Bool
  | .attach row _ => row.slot = slot
  | _ => false

/-- A claim to delete the slot's object is applied. -/
def Event.claims (slot : Commitment) : Event → Bool
  | .claim row _ _ | .claimStopped row _ _ _ _ | .recover row _ _ | .resume row _ _ _ =>
      row.slot = slot
  | _ => false

/-- The deletion of the slot's object is recorded. -/
def Event.deletes (slot : Commitment) : Event → Bool
  | .delete row _ => row.slot = slot
  | _ => false

/-- The process that claims. -/
def Event.claimant : Event → Option ObjectKey
  | .claim _ _ process | .claimStopped _ _ process _ _ | .recover _ _ process
  | .resume _ _ process _ => some process
  | _ => none

/-- What a log can hold of a current row. -/
structure Recorded (events : List Event) (row : BlobRow) : Prop where
  attached : events.countP (·.attaches row.slot) ≤ 1
  unattached : row.metadata.state = .uploading ∨ row.metadata.state = .staged →
    events.countP (·.attaches row.slot) = 0
  claimed : (∃ e ∈ events, e.claims row.slot = true) →
    row.metadata.state = .deleting ∨ row.metadata.state = .deleted
  deleted : events.countP (·.deletes row.slot) = if row.metadata.state = .deleted then 1 else 0
  ordered : events.Pairwise fun first later =>
    first.claims row.slot = true → later.attaches row.slot = false

/-- No event of a log is about the slot. -/
def Unrecorded (events : List Event) (slot : Commitment) : Prop :=
  ∀ e ∈ events, e.attaches slot = false ∧ e.claims slot = false ∧ e.deletes slot = false

structure Logged (rows : List BlobRow) (events : List Event) : Prop where
  recorded : ∀ row ∈ rows, Recorded events row
  fresh : ∀ slot, (∀ row ∈ rows, row.slot ≠ slot) → Unrecorded events slot

/-- How an event moves a row between phases. -/
structure Phased (e : Event) (row next : BlobRow) : Prop where
  attaches : e.attaches row.slot = true → row.metadata.state = .staged
  claims : e.claims row.slot = true →
    row.metadata.state ≠ .deleted ∧ next.metadata.state = .deleting
  deletes : e.deletes row.slot = true → row.metadata.state = .deleting
    ∧ next.metadata.state = .deleted
  deleted : next.metadata.state = .deleted →
    row.metadata.state = .deleted ∨ e.deletes row.slot = true
  absorbing : row.metadata.state = .deleted → next.metadata.state = .deleted
  early : next.metadata.state = .uploading ∨ next.metadata.state = .staged →
    (row.metadata.state = .uploading ∨ row.metadata.state = .staged)
      ∧ e.attaches row.slot = false
  late : row.metadata.state = .deleting ∨ row.metadata.state = .deleted →
    next.metadata.state = .deleting ∨ next.metadata.state = .deleted

section Log

variable {sha256 : List UInt8 → Digest} {w w' : World} {e : Event} {row next : BlobRow}
  {events : List Event} {delta : QuotaDelta}

/-- An event that is not about a slot keeps the phases of its row. -/
theorem phased_same (h : Unrecorded [e] row.slot) (state : next.metadata.state = row.metadata.state) :
    Phased e row next := by
  rcases h e (List.mem_singleton.mpr rfl) with ⟨attaches, claims, deletes⟩
  refine ⟨?_, ?_, ?_, ?_, ?_, ?_, ?_⟩
  · intro attached
    rw [attaches] at attached
    cases attached
  · intro claimed
    rw [claims] at claimed
    cases claimed
  · intro gone
    rw [deletes] at gone
    cases gone
  · intro gone
    exact Or.inl (state.symm.trans gone)
  · intro gone
    exact state.trans gone
  · rw [state]
    exact fun early => ⟨early, attaches⟩
  · rw [state]
    exact fun late => late

/-- Where an event is about a slot it changes the slot's row. -/
theorem unrecorded_of_other {slot : Commitment}
    (other : ∀ old next, e.change = some (old, next) → old.slot ≠ slot) : Unrecorded [e] slot := by
  intro same member
  rw [List.mem_singleton.mp member]
  cases e with
  | attach row next =>
      have different := other row next rfl
      exact ⟨decide_eq_false different, rfl, rfl⟩
  | claim row next process =>
      have different := other row next rfl
      exact ⟨rfl, decide_eq_false different, rfl⟩
  | claimStopped row next process stopped now =>
      have different := other row next rfl
      exact ⟨rfl, decide_eq_false different, rfl⟩
  | recover row next process =>
      have different := other row next rfl
      exact ⟨rfl, decide_eq_false different, rfl⟩
  | resume row next process stopped =>
      have different := other row next rfl
      exact ⟨rfl, decide_eq_false different, rfl⟩
  | delete row next =>
      have different := other row next rfl
      exact ⟨rfl, rfl, decide_eq_false different⟩
  | read row => exact ⟨rfl, rfl, rfl⟩
  | reserve row => exact ⟨rfl, rfl, rfl⟩
  | publish row next => exact ⟨rfl, rfl, rfl⟩
  | detach resource id incarnation => exact ⟨rfl, rfl, rfl⟩
  | quarantine key bytes paths => exact ⟨rfl, rfl, rfl⟩

/-- A claim moves a live row to deletion. -/
theorem phased_claim (attaches : e.attaches row.slot = false)
    (deletes : e.deletes row.slot = false) (live : row.metadata.state ≠ .deleted)
    (deleting : next.metadata.state = .deleting) : Phased e row next := by
  refine ⟨?_, fun _ => ⟨live, deleting⟩, ?_, ?_, fun gone => absurd gone live, ?_,
    fun _ => Or.inl deleting⟩
  · rw [attaches]
    nofun
  · rw [deletes]
    nofun
  · rw [deleting]
    nofun
  · rw [deleting]
    nofun

/-- Every legal transition moves its row between phases as the state machine does. -/
theorem Legal.phased (legal : Legal sha256 e delta) (change : e.change = some (row, next)) :
    Phased e row next := by
  cases legal with
  | publish staged =>
      cases change
      rcases stage_ok staged with ⟨_, state, _, _, _, _, _, _, form⟩
      refine ⟨nofun, nofun, nofun, ?_, ?_, fun _ => ⟨Or.inl state, rfl⟩, ?_⟩
      · rw [form]
        nofun
      · rw [state]
        nofun
      · rw [state]
        nofun
  | attach attached =>
      cases change
      rcases attach_ok attached with ⟨_, state, _, _, _, _, form⟩
      refine ⟨fun _ => state, nofun, nofun, ?_, ?_, ?_, ?_⟩
      · rw [form]
        nofun
      · rw [state]
        nofun
      · rw [form]
        nofun
      · rw [state]
        nofun
  | claim claimed =>
      cases change
      rcases claim_ok claimed with ⟨claims, collectable⟩
      refine phased_claim rfl rfl ?_ ?_
      · rcases collectable with state | ⟨state, _⟩ <;> rw [state] <;> nofun
      · rw [claims.next]
  | claimStopped own claimed =>
      cases change
      rcases claimStoppedUpload_ok claimed with ⟨claims, state, _⟩
      refine phased_claim rfl rfl ?_ ?_
      · rw [state]
        nofun
      · rw [claims.next]
  | recover foreign claimed =>
      cases change
      rcases recoverPriorUpload_ok claimed with ⟨claims, state⟩
      refine phased_claim rfl rfl ?_ ?_
      · rw [state]
        nofun
      · rw [claims.next]
  | resume guard claimed =>
      cases change
      rcases resumeDeletion_ok claimed with ⟨claims, state⟩
      refine phased_claim rfl rfl ?_ ?_
      · rw [state]
        nofun
      · rw [claims.next]
  | delete moved =>
      cases change
      rcases deleted_ok moved with ⟨_, state, _, form⟩
      refine ⟨nofun, nofun, ?_, fun _ => Or.inr (decide_eq_true rfl), ?_, ?_, ?_⟩
      · intro _
        exact ⟨state, by rw [form]⟩
      · rw [state]
        nofun
      · rw [form]
        nofun
      · rw [form]
        exact fun _ => Or.inr rfl

/-- Every version of a row is one that the step's event may lead to. -/
theorem Version.phased (h : Tracked sha256 w) (step : Step sha256 e w w')
    (version : Version e row next) : Phased e row next := by
  cases version with
  | same other => exact phased_same (unrecorded_of_other other) rfl
  | change changed =>
      rcases step.moves h changed with ⟨_, legal, _, _⟩
      exact legal.phased changed
  | released detached owned moved =>
      rcases unreference_ok moved with ⟨_, state, _, _, form⟩
      rw [detached]
      refine ⟨nofun, nofun, nofun, ?_, ?_, ?_, ?_⟩
      · rw [form]
        nofun
      · rw [state]
        nofun
      · rw [form]
        nofun
      · rw [state]
        nofun

/-- One more event keeps what the log holds of the row. -/
theorem Recorded.step (h : Recorded events row) (phased : Phased e row next)
    (slot : next.slot = row.slot) : Recorded (events ++ [e]) next := by
  have attached : (events ++ [e]).countP (·.attaches row.slot)
      = events.countP (·.attaches row.slot) + if e.attaches row.slot then 1 else 0 := by
    rw [List.countP_append, List.countP_singleton]
  have deleted : (events ++ [e]).countP (·.deletes row.slot)
      = events.countP (·.deletes row.slot) + if e.deletes row.slot then 1 else 0 := by
    rw [List.countP_append, List.countP_singleton]
  refine ⟨?_, ?_, ?_, ?_, ?_⟩
  · rw [slot, attached]
    by_cases now : e.attaches row.slot = true
    · rw [if_pos now, h.unattached (Or.inr (phased.attaches now))]
    · rw [if_neg now]
      exact h.attached
  · intro early
    rcases phased.early early with ⟨before, quiet⟩
    rw [slot, attached, quiet, h.unattached before]
    rfl
  · rw [slot]
    rintro ⟨claim, member, claims⟩
    rcases List.mem_append.mp member with old | new
    · exact phased.late (h.claimed ⟨claim, old, claims⟩)
    · rw [List.mem_singleton.mp new] at claims
      exact Or.inl (phased.claims claims).2
  · rw [slot, deleted, h.deleted]
    by_cases now : e.deletes row.slot = true
    · rcases phased.deletes now with ⟨before, after⟩
      rw [if_pos now, if_pos after, if_neg (by rw [before]; nofun)]
    · rw [if_neg now]
      by_cases gone : row.metadata.state = .deleted
      · rw [if_pos gone, if_pos (phased.absorbing gone)]
      · have live : next.metadata.state ≠ .deleted := by
          intro after
          rcases phased.deleted after with before | deletes
          · exact gone before
          · exact now deletes
        rw [if_neg gone, if_neg live]
  · rw [slot, List.pairwise_append]
    refine ⟨h.ordered, List.pairwise_singleton _ _, ?_⟩
    intro claim old later new claims
    rw [List.mem_singleton.mp new]
    by_contra attaches
    have staged := phased.attaches (by simpa using attaches)
    rcases h.claimed ⟨claim, old, claims⟩ with state | state <;> rw [staged] at state <;> cases state

/-- The log of a new row is empty. -/
theorem recorded_reserved (fresh : Unrecorded events row.slot)
    (quiet : Unrecorded [e] row.slot) (uploading : row.metadata.state = .uploading) :
    Recorded (events ++ [e]) row := by
  have none : Unrecorded (events ++ [e]) row.slot := by
    intro event member
    rcases List.mem_append.mp member with old | new
    · exact fresh event old
    · exact quiet event new
  have attached : (events ++ [e]).countP (·.attaches row.slot) = 0 := by
    rw [List.countP_eq_zero]
    intro event member
    rw [(none event member).1]
    nofun
  refine ⟨by omega, fun _ => attached, ?_, ?_, ?_⟩
  · rintro ⟨event, member, claims⟩
    rw [(none event member).2.1] at claims
    cases claims
  · rw [if_neg (by rw [uploading]; nofun), List.countP_eq_zero]
    intro event member
    rw [(none event member).2.2]
    nofun
  · refine List.pairwise_of_forall_mem_list ?_
    intro first before later after _
    exact (none later after).1

theorem Logged.step (h : Logged w.rows events) (tracked : Tracked sha256 w)
    (step : Step sha256 e w w') : Logged w'.rows (events ++ [e]) := by
  constructor
  · intro row' member
    rcases step.backward tracked member with ⟨row, here, slot, version⟩ | ⟨rfl, absent⟩
    · exact (h.recorded row here).step (version.phased tracked step) slot.symm
    · cases step with
      | reserve op =>
          rcases (reserve_reserved op).written with ⟨_, _, _, _, _, _, _, rfl, _⟩
          refine recorded_reserved (h.fresh _ absent) ?_ rfl
          refine unrecorded_of_other ?_
          intro old next changed
          cases changed
  · intro slot absent event member
    have before : ∀ row ∈ w.rows, row.slot ≠ slot := by
      intro row here same
      rcases step.forward tracked here with ⟨row', there, kept, _⟩
      exact absent row' there (kept.trans same)
    rcases List.mem_append.mp member with old | new
    · exact h.fresh slot before event old
    · refine unrecorded_of_other ?_ event new
      intro row next changed
      rcases step.moves tracked changed with ⟨_, _, _, moves⟩
      exact before row moves.replaced.mem_before

theorem logged_invariant {allowed : Event → World → Prop} :
    (blobSystem sha256 allowed).Invariant fun state => Logged state.1.rows state.2 where
  initial state h := by
    refine ⟨?_, ?_⟩
    · intro row member
      rw [h.1.rows] at member
      cases member
    · intro slot _ event member
      rw [h.2] at member
      cases member
  step state next reachable h step := by
    rcases step with ⟨e, step, _, log⟩
    rw [log]
    exact h.step (tracked_invariant.holds reachable) step

end Log

/-! ## Safe steps -/

/-- What a transaction may do to a row. -/
structure RowSafe (e : Event) (row row' : BlobRow) : Prop where
  generation : row' = row ∨ row'.metadata.generation.value = row.metadata.generation.value + 1
  attached : row.metadata.state = .attached → row' = row
    ∨ (∃ resource id incarnation, e = .detach resource id incarnation)
      ∧ row'.metadata.state = .unreferenced
  deleted : row.metadata.state = .deleted → row' = row
  -- The row's own process needs the proof that its upload stopped.
  uploading : row.metadata.state = .uploading → e.claims row.slot = true →
    e.claimant = some row.process → ∃ stopped now, e = .claimStopped row row' row.process stopped now
      ∧ stopped.key = row.metadata.key ∧ stopped.generation = row.metadata.generation
      ∧ (stopped.failedOrCancelled = true ∨ row.metadata.expires.millis ≤ now.millis)

/-- What a transaction may do to the store. -/
structure StepSafe (w : World) (e : Event) (w' : World) : Prop where
  -- A transition is applied to the current row only, and moves its generation on.
  fenced : ∀ row next, e.change = some (row, next) → row ∈ w.rows ∧ next ∈ w'.rows
    ∧ next.slot = row.slot ∧ next.metadata.generation.value = row.metadata.generation.value + 1
  rows : ∀ row ∈ w.rows, ∃ row' ∈ w'.rows, row'.slot = row.slot ∧ RowSafe e row row'
  -- The counters move by the change of the row's charge, which ends with the deletion.
  charged : ∀ row next, e.change = some (row, next) → ∃ s s', w.tables.store = some s
    ∧ w'.tables.store = some s'
    ∧ s'.reservedBytes - s.reservedBytes = next.charge.reserved - row.charge.reserved
    ∧ s'.usedBytes - s.usedBytes = next.charge.used - row.charge.used
    ∧ s'.objects - s.objects = next.charge.objects - row.charge.objects
  released : ∀ row next, e.change = some (row, next) → row.charge ≠ .zero
    ∧ (next.charge = .zero ↔ e.deletes row.slot = true)

section Safe

variable {sha256 : List UInt8 → Digest} {w w' : World} {e : Event} {row next : BlobRow}

theorem charge_eq_zero : row.charge = .zero ↔ row.metadata.state = .deleted := by
  constructor
  · intro zero
    by_contra live
    rw [charge_live live] at zero
    have objects : (1 : Int) = 0 := congrArg QuotaDelta.objects zero
    omega
  · exact charge_deleted

/-- The proof that a legal claim of an upload by its own process takes. -/
theorem Legal.stopped {delta : QuotaDelta} (legal : Legal sha256 e delta)
    (change : e.change = some (row, next)) (state : row.metadata.state = .uploading)
    (claims : e.claims row.slot = true) (own : e.claimant = some row.process) :
    ∃ stopped now, e = .claimStopped row next row.process stopped now
      ∧ stopped.key = row.metadata.key ∧ stopped.generation = row.metadata.generation
      ∧ (stopped.failedOrCancelled = true ∨ row.metadata.expires.millis ≤ now.millis) := by
  cases legal with
  | publish staged => cases claims
  | attach attached => cases claims
  | delete moved => cases claims
  | claim claimed =>
      cases change
      rcases (claim_ok claimed).2 with other | ⟨other, _⟩ <;> rw [state] at other <;> cases other
  | claimStopped same claimed =>
      cases change
      rcases claimStoppedUpload_ok claimed with ⟨_, _, key, generation, ended⟩
      cases same
      exact ⟨_, _, rfl, key, generation, ended⟩
  | recover foreign claimed =>
      cases change
      exact absurd (Option.some.inj own).symm foreign
  | resume guard claimed =>
      cases change
      rw [(resumeDeletion_ok claimed).2] at state
      cases state

/-- A legal change never starts from an attached or a deleted row. -/
theorem Legal.source {delta : QuotaDelta} (legal : Legal sha256 e delta)
    (change : e.change = some (row, next)) :
    row.metadata.state ≠ .attached ∧ row.metadata.state ≠ .deleted := by
  refine ⟨?_, (legal.movesCharge change).live⟩
  cases legal with
  | publish staged =>
      cases change
      rw [(stage_ok staged).2.1]
      nofun
  | attach attached =>
      cases change
      rw [(attach_ok attached).2.1]
      nofun
  | claim claimed =>
      cases change
      rcases (claim_ok claimed).2 with state | ⟨state, _⟩ <;> rw [state] <;> nofun
  | claimStopped same claimed =>
      cases change
      rw [(claimStoppedUpload_ok claimed).2.1]
      nofun
  | recover foreign claimed =>
      cases change
      rw [(recoverPriorUpload_ok claimed).2]
      nofun
  | resume guard claimed =>
      cases change
      rw [(resumeDeletion_ok claimed).2]
      nofun
  | delete moved =>
      cases change
      rw [(deleted_ok moved).2.1]
      nofun

theorem Version.safe (h : Tracked sha256 w) (step : Step sha256 e w w')
    (version : Version e row next) : RowSafe e row next := by
  cases version with
  | same other =>
      refine ⟨Or.inl rfl, fun _ => Or.inl rfl, fun _ => rfl, ?_⟩
      intro _ claims
      rw [(unrecorded_of_other other e (List.mem_singleton.mpr rfl)).2.1] at claims
      cases claims
  | change changed =>
      rcases step.moves h changed with ⟨_, legal, _, moves⟩
      rcases legal.source changed with ⟨unattached, live⟩
      exact ⟨Or.inr moves.keeps.generation, fun attached => absurd attached unattached,
        fun gone => absurd gone live, legal.stopped changed⟩
  | released detached owned moved =>
      rcases unreference_ok moved with ⟨advances, state, _, _, form⟩
      refine ⟨Or.inr advances.generation, ?_, ?_, ?_⟩
      · intro _
        exact Or.inr ⟨⟨_, _, _, detached⟩, by rw [form]⟩
      · rw [state]
        nofun
      · rw [state]
        nofun

/-- Every transaction on a balanced world is safe. -/
theorem Step.safe (h : Tracked sha256 w) (balanced : Balanced w) (step : Step sha256 e w w') :
    StepSafe w e w' := by
  refine ⟨?_, ?_, ?_, ?_⟩
  · intro row next changed
    rcases step.moves h changed with ⟨_, _, result, moves⟩
    refine ⟨moves.replaced.mem_before, ?_, ?_, moves.keeps.generation⟩
    · rw [result]
      exact moves.replaced.mem_after
    · simp only [BlobRow.slot, moves.keeps.binding]
  · intro row member
    rcases step.forward h member with ⟨row', here, slot, version⟩
    exact ⟨row', here, slot, version.safe h step⟩
  · intro row next changed
    rcases step.moves h changed with ⟨delta, legal, _, moves⟩
    have charge := legal.movesCharge changed
    rcases balanced.store with ⟨s, found, _⟩
    rcases (moves.charged balanced.distinct).store s found with ⟨s', found', _, _, _, reserved, used,
      objects, _⟩
    refine ⟨s, s', found, found', ?_, ?_, ?_⟩
    · rw [← charge.reserved, reserved]
      omega
    · rw [← charge.used, used]
      omega
    · rw [← charge.objects, objects]
      omega
  · intro row next changed
    rcases step.moves h changed with ⟨_, legal, _, _⟩
    have phased := legal.phased changed
    have live := (legal.source changed).2
    refine ⟨fun zero => live (charge_eq_zero.mp zero), ?_⟩
    rw [charge_eq_zero]
    constructor
    · intro gone
      rcases phased.deleted gone with before | deletes
      · exact absurd before live
      · exact deletes
    · exact fun deletes => (phased.deletes deletes).2

/-- Over every interleaving of transactions on possibly stale copies: the log attaches a
row at most once and never after a claim, and deletes it exactly when the row is deleted;
and every next transaction moves the generation of each row it changes, leaves the attached
state only by detaching, keeps deleted rows, claims an upload of the same process only with
a stopped-upload proof, and releases a charge only with the deletion. -/
theorem blob_lifecycle_safe {state : World × List Event}
    (reachable : (blobSystem sha256 anyEvent).Reachable state) :
    state.1.tables.blobs = state.1.rows.map BlobRow.columns
      ∧ (∀ row ∈ state.1.rows, Recorded state.2 row)
      ∧ ∀ e w', Step sha256 e state.1 w' → StepSafe state.1 e w' := by
  have tracked : Tracked sha256 state.1 := tracked_invariant.holds reachable
  have balanced : Balanced state.1 := balanced_invariant.holds reachable
  have logged : Logged state.1.rows state.2 := logged_invariant.holds reachable
  exact ⟨tracked.columns, logged.recorded, fun e w' step => step.safe tracked balanced⟩

/-- After one reservation. -/
theorem blob_lifecycle_safe_sample : Recorded [.reserve sampleUpload] sampleUpload :=
  (blob_lifecycle_safe (reservedWorld_reachable trivial)).2.1 sampleUpload
    (List.mem_singleton.mpr rfl)

end Safe

end Blobs
end Noxide
