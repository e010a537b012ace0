import Noxide.Blobs.Quota

/-!
# Stored blob rows

Whether the columns that the transactions write are read back.  The association of an
attachment is checked by a wider grammar than the one that its row is read with.

Main results:

- Theorem {lit}`reads_back_iff`: a computed row is read back exactly when its owner's
  field is a contract identifier.
- Theorem {lit}`rows_persist`: in every run that attaches only to such fields, every
  stored row is read back as the row that was computed.
-/

namespace Noxide
namespace Blobs

open Checked

/-- The stored columns are read back as the row they were computed for. -/
def ReadsBack (sha256 : List UInt8 → Digest) (row : BlobRow) : Prop :=
  (row.columns.select >>= BlobRow.parse sha256) = .ok row

/-- An attachment names its field by a contract identifier. -/
def namesField : Event → World → Prop
  | .attach _ next, _ => NamedField next.metadata
  | _, _ => True

section Persistence

variable {sha256 : List UInt8 → Digest} {w w' : World} {e : Event} {row next : BlobRow}
  {delta : QuotaDelta}

/-- A row of consistent shape is read back exactly when its field is an identifier. -/
theorem reads_back_iff (consistent : Consistent sha256 row) :
    ReadsBack sha256 row ↔ NamedField row.metadata :=
  ⟨fun read => (BlobRow.parse_unique consistent read).1, BlobRow.parse_select consistent⟩

theorem namedField_same {left right : Metadata} (named : NamedField left)
    (same : right.association = left.association) : NamedField right := by
  intro association owner
  exact named association (same.symm.trans owner)

/-- Only an attachment writes an association. -/
theorem Legal.names (legal : Legal sha256 e delta) (change : e.change = some (row, next))
    (named : NamedField row.metadata) : namesField e w ↔ NamedField next.metadata := by
  cases legal with
  | publish staged =>
      cases change
      rcases stage_ok staged with ⟨_, _, _, _, _, _, _, _, form⟩
      exact ⟨fun _ => namedField_same named (by rw [form]), fun _ => trivial⟩
  | attach attached =>
      cases change
      exact Iff.rfl
  | claim claimed =>
      cases change
      have form := (claim_ok claimed).1.next
      exact ⟨fun _ => namedField_same named (by rw [form]), fun _ => trivial⟩
  | claimStopped own claimed =>
      cases change
      have form := (claimStoppedUpload_ok claimed).1.next
      exact ⟨fun _ => namedField_same named (by rw [form]), fun _ => trivial⟩
  | recover foreign claimed =>
      cases change
      have form := (recoverPriorUpload_ok claimed).1.next
      exact ⟨fun _ => namedField_same named (by rw [form]), fun _ => trivial⟩
  | resume guard claimed =>
      cases change
      have form := (resumeDeletion_ok claimed).1.next
      exact ⟨fun _ => namedField_same named (by rw [form]), fun _ => trivial⟩
  | delete moved =>
      cases change
      have form := (deleted_ok moved).2.2.2
      exact ⟨fun _ => namedField_same named (by rw [form]), fun _ => trivial⟩

/-- A step keeps the fields identifiers exactly when it names its own by one. -/
theorem named_step (h : ∀ row ∈ w.rows, NamedField row.metadata) (tracked : Tracked sha256 w)
    (step : Step sha256 e w w') :
    namesField e w ↔ ∀ row ∈ w'.rows, NamedField row.metadata := by
  cases changed : e.change with
  | some change =>
      rcases step.moves tracked changed with ⟨_, legal, result, moves⟩
      have before := h change.1 moves.replaced.mem_before
      have names := legal.names (w := w) changed before
      rw [result, names]
      constructor
      · intro named row member
        rcases moves.replaced.mem member with rfl | old
        · exact named
        · exact h row old
      · intro named
        exact named change.2 moves.replaced.mem_after
  | none =>
      cases step with
      | read member parsed => exact ⟨fun _ => h, fun _ => trivial⟩
      | quarantine op => exact ⟨fun _ => h, fun _ => trivial⟩
      | reserve op =>
          refine ⟨fun _ => ?_, fun _ => trivial⟩
          intro row member
          rcases List.mem_append.mp member with old | new
          · exact h row old
          · rw [List.mem_singleton.mp new]
            rcases (reserve_reserved op).written with ⟨_, _, _, _, _, _, _, rfl, _⟩
            intro association owner
            cases owner
      | detach op =>
          refine ⟨fun _ => ?_, fun _ => trivial⟩
          intro row member
          rcases List.mem_map.mp member with ⟨old, here, rfl⟩
          rcases unreferenced_cases old _ _ _ with same | ⟨_, t, _, moved, result⟩
          · rw [same]
            exact h old here
          · rcases unreference_ok moved with ⟨_, _, _, _, form⟩
            rw [result]
            exact namedField_same (h old here) (by rw [form])
      | publish held op => cases changed
      | attach held attached op => cases changed
      | claim held op => cases changed
      | claimStopped held op => cases changed
      | recover held op => cases changed
      | resume held op => cases changed
      | delete held op => cases changed

theorem named_invariant : (blobSystem sha256 namesField).Invariant
    fun state => ∀ row ∈ state.1.rows, NamedField row.metadata where
  initial state h := by
    intro row member
    rw [h.1.rows] at member
    cases member
  step state next reachable h step := by
    rcases step with ⟨e, step, names, _⟩
    exact (named_step h (tracked_invariant.holds reachable) step).mp names

/-- In every run that attaches only to identifiers, the stored columns are those of the
computed rows and every row is read back; and a next step keeps that exactly when it
attaches to an identifier too. -/
theorem rows_persist {state : World × List Event}
    (reachable : (blobSystem sha256 namesField).Reachable state) :
    state.1.tables.blobs = state.1.rows.map BlobRow.columns
      ∧ (∀ row ∈ state.1.rows, ReadsBack sha256 row)
      ∧ ∀ e w', Step sha256 e state.1 w' →
        (namesField e state.1 ↔ ∀ row ∈ w'.rows, ReadsBack sha256 row) := by
  have tracked : Tracked sha256 state.1 := tracked_invariant.holds reachable
  have named : ∀ row ∈ state.1.rows, NamedField row.metadata := named_invariant.holds reachable
  refine ⟨tracked.columns, ?_, ?_⟩
  · intro row member
    exact (reads_back_iff (tracked.consistent row member)).mpr (named row member)
  · intro e w' step
    have later := tracked.step step
    rw [named_step named tracked step]
    constructor
    · intro names row member
      exact (reads_back_iff (later.consistent row member)).mpr (names row member)
    · intro reads row member
      exact (reads_back_iff (later.consistent row member)).mp (reads row member)

/-- After one reservation. -/
theorem rows_persist_sample : ReadsBack sampleHash sampleUpload :=
  (rows_persist (reservedWorld_reachable trivial)).2.1 sampleUpload (List.mem_singleton.mpr rfl)

end Persistence

/-! ## A field that is not read back -/

def zeroToken : String :=
  "0000000000000000000000000000000000000000000000000000000000000000"

/-- The upload after three bytes are published. -/
def sampleStaged : BlobRow :=
  { sampleUpload with metadata := { sampleUpload.metadata with
      handle := ⟨"u1_" ++ zeroToken, by decide +kernel⟩
      state := .staged
      generation := ⟨2, by decide, by decide⟩
      reserved := 0
      bytes := 3
      digest := some (sampleHash []) } }

def photoField : Association := ⟨⟨7, by decide⟩, ⟨7, by decide⟩, "a", "Photo"⟩

def sampleAttached : BlobRow :=
  { sampleStaged with metadata := { sampleStaged.metadata with
      state := .attached
      generation := ⟨3, by decide, by decide⟩
      association := some photoField } }

def stagedTables : BlobTables where
  store := some ⟨sampleToken, sampleToken, "paired", 3, 0, 3, 1, 0, 0⟩
  subjects := [⟨sampleToken, 0, 0, 3, 1⟩]
  blobs := [sampleStaged.columns]
  orphans := []

def attachedTables : BlobTables :=
  { stagedTables with blobs := [sampleAttached.columns] }

theorem publish_sample : publish sampleHash sampleUpload ⟨sampleKey, 3, sampleHash []⟩ .unixEpoch
    sampleKey reservedTables = .ok (sampleStaged, stagedTables) := by
  decide

theorem attach_sample : sampleStaged.metadata.attach sampleStaged.metadata.generation .unixEpoch
    sampleStaged.metadata.binding sampleStaged.metadata.handle photoField
      = .ok ⟨sampleStaged.metadata.generation, sampleAttached.metadata, .zero⟩ := by
  decide

theorem associate_sample : associate sampleStaged photoField .unixEpoch stagedTables
    = .ok (sampleStaged.metadata.blob, attachedTables) := by
  decide

/-- The association with the field {lit}`Photo` is accepted and attached, and the stored row
is not read back. -/
theorem photo_unreadable : photoField.validate = .ok ()
    ∧ (blobSystem sampleHash anyEvent).Reachable
      (⟨attachedTables, [sampleAttached], [sampleAttached, sampleStaged, sampleUpload]⟩,
        [.reserve sampleUpload, .publish sampleUpload sampleStaged,
          .attach sampleStaged sampleAttached])
    ∧ (sampleAttached.columns.select >>= BlobRow.parse sampleHash)
      = .error (.message "invalid blob owner") := by
  have staged : Step sampleHash (.publish sampleUpload sampleStaged) reservedWorld
      ⟨stagedTables, [sampleStaged], [sampleStaged, sampleUpload]⟩ :=
    Step.publish (List.mem_singleton.mpr rfl) publish_sample
  have attached : Step sampleHash (.attach sampleStaged sampleAttached)
      ⟨stagedTables, [sampleStaged], [sampleStaged, sampleUpload]⟩
      ⟨attachedTables, [sampleAttached], [sampleAttached, sampleStaged, sampleUpload]⟩ :=
    Step.attach List.mem_cons_self attach_sample associate_sample
  have published : (blobSystem sampleHash anyEvent).Reachable
      (⟨stagedTables, [sampleStaged], [sampleStaged, sampleUpload]⟩,
        [.reserve sampleUpload, .publish sampleUpload sampleStaged]) :=
    (reservedWorld_reachable trivial).next ⟨_, staged, trivial, rfl⟩
  refine ⟨by decide, published.next ⟨_, attached, trivial, rfl⟩, ?_⟩
  decide

end Blobs
end Noxide
