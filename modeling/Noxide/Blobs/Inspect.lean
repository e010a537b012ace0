import Mathlib.Data.List.Nodup
import Mathlib.Data.String.Basic
import Noxide.Blobs.Rows

/-!
# Blob inspection

The bounded reconciliation plan: one finding for each inspected object, from its stored
row, what was observed of it on disk, and the proofs of stopped workers.

Main results:

- Theorem {lit}`rowKind_agrees`: a finding promises no more than the transitions of its
  row allow.
- Theorem {lit}`inspection_plan_agrees`: when a page is planned, and what its findings
  promise.
-/

namespace Noxide
namespace Blobs

open Checked

def inspectionPage : Nat := 16

/-- The sizes of an object's files. -/
structure PhysicalSnapshot where
  key : ObjectKey
  partialBytes : Option Nat
  finalizedBytes : Option Nat
  deriving DecidableEq

structure SnapshotItem where
  key : ObjectKey
  physical : Option PhysicalSnapshot
  metadata : Option BlobRow
  deriving DecidableEq

inductive FindingKind where
  | retainKnown
  | retainActiveOrUncertainUpload
  | claimExpiredStage
  | claimUnreferenced
  | claimStoppedUpload
  | recoverPriorProcessUpload
  | resumeStoppedDeletion
  | recoverPriorProcessDeletion
  | cleanKnownDeletedObject
  | retainTombstone
  | quarantineUnknown
  | missingReferencedObject
  | physicalMetadataMismatch
  deriving DecidableEq, Repr

def FindingKind.recoverableHint : FindingKind → Bool
  | .claimExpiredStage | .claimUnreferenced | .claimStoppedUpload | .recoverPriorProcessUpload
  | .resumeStoppedDeletion | .recoverPriorProcessDeletion | .cleanKnownDeletedObject => true
  | _ => false

structure Finding where
  object : String
  slot : Option String
  generation : Option Nat
  physicalBytes : Nat
  physicalPaths : Nat
  kind : FindingKind
  deriving DecidableEq

structure InspectionPage where
  storeIdentity : String
  observed : Timestamp
  findings : List Finding
  deriving DecidableEq

/-! ## The plan -/

def countPresent (size : Option Nat) : Nat :=
  if size.isSome then 1 else 0

/-- The bytes and paths on disk. -/
def physicalSize (item : SnapshotItem) : Result (Nat × Nat) :=
  match item.physical with
  | none => .ok (0, 0)
  | some physical => do
      check "foreign physical inspection" (physical.key = item.key
        ∧ (physical.partialBytes.isSome = true ∨ physical.finalizedBytes.isSome = true))
      let bytes := physical.partialBytes.getD 0 + physical.finalizedBytes.getD 0
      check "physical size overflow" (bytes < 2 ^ 64)
      return (bytes, countPresent physical.partialBytes + countPresent physical.finalizedBytes)

/-- The first proof for this object and generation. -/
def findProof (item : SnapshotItem) (row : BlobRow) (stopped : List StoppedIo) : Option StoppedIo :=
  stopped.find? fun proof => proof.key = item.key ∧ proof.generation = row.metadata.generation

/-- Only the finalized file is there, with the recorded size. -/
def isComplete (item : SnapshotItem) (row : BlobRow) : Bool :=
  item.physical.any fun physical => physical.partialBytes = none
    ∧ physical.finalizedBytes = some row.metadata.bytes ∧ row.metadata.bytes ≤ maxUploadBytes

def retainKind (item : SnapshotItem) (row : BlobRow) : FindingKind :=
  if isComplete item row then .retainKnown
  else if item.physical = none then .missingReferencedObject
  else .physicalMetadataMismatch

/-- The finding for a known row. -/
def rowKind (process : ObjectKey) (stopped : List StoppedIo) (now : Timestamp) (item : SnapshotItem)
    (row : BlobRow) : FindingKind :=
  let proof := findProof item row stopped
  let priorProcess := row.process ≠ process
  match row.metadata.state with
  | .uploading =>
      if priorProcess then .recoverPriorProcessUpload
      else if proof.any fun proof =>
        proof.failedOrCancelled ∨ row.metadata.expires.millis ≤ now.millis then .claimStoppedUpload
      else .retainActiveOrUncertainUpload
  | .staged =>
      if row.metadata.expires.millis ≤ now.millis then .claimExpiredStage
      else retainKind item row
  | .attached => retainKind item row
  | .unreferenced => .claimUnreferenced
  | .deleting =>
      if priorProcess then .recoverPriorProcessDeletion
      else if proof.isSome then .resumeStoppedDeletion
      else .retainActiveOrUncertainUpload
  | .deleted => if item.physical.isSome then .cleanKnownDeletedObject else .retainTombstone

/-- The finding for one item. -/
def inspect (process : ObjectKey) (stopped : List StoppedIo) (now : Timestamp) (item : SnapshotItem) :
    Result Finding := do
  let size ← physicalSize item
  match item.metadata with
  | none => do
      check "inspection has neither metadata nor physical evidence" (item.physical.isSome = true)
      return ⟨item.key.value, none, none, size.1, size.2, .quarantineUnknown⟩
  | some row => do
      check "foreign metadata inspection" (row.metadata.key = item.key)
      return ⟨item.key.value, some row.metadata.binding.slot.value,
        some row.metadata.generation.value, size.1, size.2, rowKind process stopped now item row⟩

/-- The findings for the items, which must be about different objects. -/
def planItems (process : ObjectKey) (stopped : List StoppedIo) (now : Timestamp) :
    List String → List SnapshotItem → Result (List Finding)
  | _, [] => .ok []
  | seen, item :: rest => do
      check "duplicate inspection object" (item.key.value ∉ seen)
      let finding ← inspect process stopped now item
      let findings ← planItems process stopped now (item.key.value :: seen) rest
      return finding :: findings

def InspectionPage.plan (store process : ObjectKey) (items : List SnapshotItem)
    (stopped : List StoppedIo) (now : Timestamp) : Result InspectionPage := do
  check "blob inspection page limit"
    (items.length ≤ inspectionPage ∧ stopped.length ≤ inspectionPage)
  let findings ← planItems process stopped now [] items
  return ⟨store.value, now, findings.mergeSort fun a b => a.object ≤ b.object⟩

/-! ## What a finding promises -/

/-- The generation is not exhausted. -/
def Metadata.Advanceable (m : Metadata) : Prop :=
  m.generation.value + 1 < 2 ^ 63

/-- A stopped worker's proof for this object and generation. -/
def HasProof (stopped : List StoppedIo) (m : Metadata) : Prop :=
  ∃ proof ∈ stopped, proof.key = m.key ∧ proof.generation = m.generation

/-- A finding about a known row, beside the transitions of the row. -/
structure Agrees (process : ObjectKey) (stopped : List StoppedIo) (now : Timestamp) (row : BlobRow)
    (kind : FindingKind) : Prop where
  claims : row.metadata.Advanceable →
    ((kind = .claimExpiredStage ∨ kind = .claimUnreferenced)
      ↔ ∃ result, row.metadata.claim row.metadata.generation now = .ok result)
  expired : kind = .claimExpiredStage → row.metadata.state = .staged
  unreferenced : kind = .claimUnreferenced → row.metadata.state = .unreferenced
  stoppedUpload : kind = .claimStoppedUpload → row.process = process ∧ ∃ proof ∈ stopped,
    row.metadata.Advanceable →
      ∃ result, row.metadata.claimStoppedUpload row.metadata.generation now proof = .ok result
  recovered : kind = .recoverPriorProcessUpload → row.process ≠ process
    ∧ (row.metadata.Advanceable → ∃ result, row.metadata.recoverPriorUpload = .ok result)
  resumed : kind = .resumeStoppedDeletion → HasProof stopped row.metadata
    ∧ (row.metadata.Advanceable → ∃ result, row.metadata.resumeDeletion = .ok result)
  reclaimed : kind = .recoverPriorProcessDeletion → row.process ≠ process
    ∧ (row.metadata.Advanceable → ∃ result, row.metadata.resumeDeletion = .ok result)
  attached : kind.recoverableHint = true → row.metadata.state ≠ .attached
  live : kind.recoverableHint = true → row.metadata.state = .staged →
    row.metadata.expires.millis ≤ now.millis
  running : kind.recoverableHint = true → row.process = process →
    row.metadata.state = .uploading ∨ row.metadata.state = .deleting → HasProof stopped row.metadata

section Agreement

variable {process : ObjectKey} {stopped : List StoppedIo} {now : Timestamp} {item : SnapshotItem}
  {row : BlobRow}

theorem findProof_some {proof : StoppedIo} (same : row.metadata.key = item.key)
    (h : findProof item row stopped = some proof) :
    proof ∈ stopped ∧ proof.key = row.metadata.key ∧ proof.generation = row.metadata.generation := by
  have found := List.find?_some h
  simp only [decide_eq_true_eq] at found
  rw [same]
  exact ⟨List.mem_of_find?_eq_some h, found⟩

/-- What is retained promises nothing. -/
theorem retainKind_hint (item : SnapshotItem) (row : BlobRow) :
    (retainKind item row).recoverableHint = false := by
  unfold retainKind
  split
  · rfl
  · split <;> rfl

/-- A kind that offers no action agrees with a row that cannot be claimed. -/
theorem agrees_retained {kind : FindingKind} (hint : kind.recoverableHint = false)
    (unclaimed : ¬ (row.metadata.state = .unreferenced
      ∨ row.metadata.state = .staged ∧ row.metadata.expires.millis ≤ now.millis)) :
    Agrees process stopped now row kind := by
  have none : ∀ other : FindingKind, other.recoverableHint = true → kind ≠ other := by
    rintro other offered rfl
    rw [hint] at offered
    cases offered
  have silent : kind.recoverableHint ≠ true := by
    rw [hint]
    exact Bool.false_ne_true
  constructor
  · intro _
    rw [claim_exists]
    constructor
    · rintro (same | same)
      · exact absurd same (none _ rfl)
      · exact absurd same (none _ rfl)
    · rintro ⟨claimed, _⟩
      exact absurd claimed unclaimed
  · exact fun same => absurd same (none _ rfl)
  · exact fun same => absurd same (none _ rfl)
  · exact fun same => absurd same (none _ rfl)
  · exact fun same => absurd same (none _ rfl)
  · exact fun same => absurd same (none _ rfl)
  · exact fun same => absurd same (none _ rfl)
  · exact fun offered => absurd offered silent
  · exact fun offered => absurd offered silent
  · exact fun offered => absurd offered silent

/-- Another kind of claim is no claim of a stage or of an unreferenced row. -/
theorem not_collected {kind : FindingKind} (expired : kind ≠ .claimExpiredStage)
    (unreferenced : kind ≠ .claimUnreferenced) (staged : row.metadata.state ≠ .staged)
    (referenced : row.metadata.state ≠ .unreferenced) :
    (kind = .claimExpiredStage ∨ kind = .claimUnreferenced)
      ↔ ∃ result, row.metadata.claim row.metadata.generation now = .ok result := by
  rw [claim_exists]
  constructor
  · rintro (same | same)
    · exact absurd same expired
    · exact absurd same unreferenced
  · rintro ⟨same | ⟨same, _⟩, _⟩
    · exact absurd same referenced
    · exact absurd same staged

theorem agrees_uploading (same : row.metadata.key = item.key)
    (state : row.metadata.state = .uploading) :
    Agrees process stopped now row (rowKind process stopped now item row) := by
  have collected : ∀ {kind : FindingKind}, kind ≠ .claimExpiredStage → kind ≠ .claimUnreferenced →
      row.metadata.Advanceable → ((kind = .claimExpiredStage ∨ kind = .claimUnreferenced)
        ↔ ∃ result, row.metadata.claim row.metadata.generation now = .ok result) := by
    intro kind expired unreferenced _
    exact not_collected expired unreferenced (by rw [state]; nofun) (by rw [state]; nofun)
  unfold rowKind
  rw [state]
  dsimp only
  split
  · rename_i prior
    exact {
      claims := collected nofun nofun
      expired := nofun
      unreferenced := nofun
      stoppedUpload := nofun
      recovered := fun _ => ⟨prior, fun room => recoverPriorUpload_exists.mpr ⟨state, room⟩⟩
      resumed := nofun
      reclaimed := nofun
      attached := fun _ => by rw [state]; nofun
      live := fun _ staged => by rw [state] at staged; cases staged
      running := fun _ current => absurd current prior }
  · rename_i current
    split
    · rename_i ended
      rcases (Option.any_eq_true_iff_get _ _).mp ended with ⟨some, ended⟩
      rcases findProof_some same (Option.some_get some).symm with ⟨member, key, generation⟩
      exact {
        claims := collected nofun nofun
        expired := nofun
        unreferenced := nofun
        stoppedUpload := fun _ => ⟨not_not.mp current, _, member, fun room =>
          claimStoppedUpload_exists.mpr ⟨⟨state, key, generation, of_decide_eq_true ended⟩, room⟩⟩
        recovered := nofun
        resumed := nofun
        reclaimed := nofun
        attached := fun _ => by rw [state]; nofun
        live := fun _ staged => by rw [state] at staged; cases staged
        running := fun _ _ _ => ⟨_, member, key, generation⟩ }
    · refine agrees_retained rfl ?_
      rw [state]
      rintro (staged | ⟨staged, _⟩)
      · cases staged
      · cases staged

theorem agrees_deleting (same : row.metadata.key = item.key)
    (state : row.metadata.state = .deleting) :
    Agrees process stopped now row (rowKind process stopped now item row) := by
  have collected : ∀ {kind : FindingKind}, kind ≠ .claimExpiredStage → kind ≠ .claimUnreferenced →
      row.metadata.Advanceable → ((kind = .claimExpiredStage ∨ kind = .claimUnreferenced)
        ↔ ∃ result, row.metadata.claim row.metadata.generation now = .ok result) := by
    intro kind expired unreferenced _
    exact not_collected expired unreferenced (by rw [state]; nofun) (by rw [state]; nofun)
  unfold rowKind
  rw [state]
  dsimp only
  split
  · rename_i prior
    exact {
      claims := collected nofun nofun
      expired := nofun
      unreferenced := nofun
      stoppedUpload := nofun
      recovered := nofun
      resumed := nofun
      reclaimed := fun _ => ⟨prior, fun room => resumeDeletion_exists.mpr ⟨state, room⟩⟩
      attached := fun _ => by rw [state]; nofun
      live := fun _ staged => by rw [state] at staged; cases staged
      running := fun _ current => absurd current prior }
  · split
    · rename_i ended
      rcases Option.isSome_iff_exists.mp ended with ⟨proof, found⟩
      have proven : HasProof stopped row.metadata := ⟨proof, findProof_some same found⟩
      exact {
        claims := collected nofun nofun
        expired := nofun
        unreferenced := nofun
        stoppedUpload := nofun
        recovered := nofun
        resumed := fun _ => ⟨proven, fun room => resumeDeletion_exists.mpr ⟨state, room⟩⟩
        reclaimed := nofun
        attached := fun _ => by rw [state]; nofun
        live := fun _ staged => by rw [state] at staged; cases staged
        running := fun _ _ _ => proven }
    · refine agrees_retained rfl ?_
      rw [state]
      rintro (staged | ⟨staged, _⟩)
      · cases staged
      · cases staged

theorem agrees_staged (state : row.metadata.state = .staged) :
    Agrees process stopped now row (rowKind process stopped now item row) := by
  unfold rowKind
  rw [state]
  dsimp only
  split
  · rename_i expired
    exact {
      claims := fun room => by
        rw [claim_exists]
        exact iff_of_true (Or.inl rfl) ⟨Or.inr ⟨state, expired⟩, room⟩
      expired := fun _ => state
      unreferenced := nofun
      stoppedUpload := nofun
      recovered := nofun
      resumed := nofun
      reclaimed := nofun
      attached := fun _ => by rw [state]; nofun
      live := fun _ _ => expired
      running := fun _ _ moving => by rw [state] at moving; rcases moving with h | h <;> cases h }
  · rename_i live
    refine agrees_retained (retainKind_hint _ _) ?_
    rw [state]
    rintro (referenced | ⟨_, expired⟩)
    · cases referenced
    · exact live expired

theorem agrees_unreferenced (state : row.metadata.state = .unreferenced) :
    Agrees process stopped now row (rowKind process stopped now item row) := by
  unfold rowKind
  rw [state]
  exact {
    claims := fun room => by
      rw [claim_exists]
      exact iff_of_true (Or.inr rfl) ⟨Or.inl state, room⟩
    expired := nofun
    unreferenced := fun _ => state
    stoppedUpload := nofun
    recovered := nofun
    resumed := nofun
    reclaimed := nofun
    attached := fun _ => by rw [state]; nofun
    live := fun _ staged => by rw [state] at staged; cases staged
    running := fun _ _ moving => by rw [state] at moving; rcases moving with h | h <;> cases h }

theorem agrees_deleted (state : row.metadata.state = .deleted) :
    Agrees process stopped now row (rowKind process stopped now item row) := by
  unfold rowKind
  rw [state]
  dsimp only
  split
  · exact {
      claims := fun _ => not_collected nofun nofun (by rw [state]; nofun) (by rw [state]; nofun)
      expired := nofun
      unreferenced := nofun
      stoppedUpload := nofun
      recovered := nofun
      resumed := nofun
      reclaimed := nofun
      attached := fun _ => by rw [state]; nofun
      live := fun _ staged => by rw [state] at staged; cases staged
      running := fun _ _ moving => by rw [state] at moving; rcases moving with h | h <;> cases h }
  · refine agrees_retained rfl ?_
    rw [state]
    rintro (staged | ⟨staged, _⟩)
    · cases staged
    · cases staged

/-- A finding about a known row promises no more than its transitions allow. -/
theorem rowKind_agrees (same : row.metadata.key = item.key) :
    Agrees process stopped now row (rowKind process stopped now item row) := by
  cases state : row.metadata.state with
  | uploading => exact agrees_uploading same state
  | staged => exact agrees_staged state
  | attached =>
      have kind : rowKind process stopped now item row = retainKind item row := by
        unfold rowKind
        rw [state]
      rw [kind]
      refine agrees_retained (retainKind_hint _ _) ?_
      rw [state]
      rintro (other | ⟨other, _⟩)
      · cases other
      · cases other
  | unreferenced => exact agrees_unreferenced state
  | deleting => exact agrees_deleting same state
  | deleted => exact agrees_deleted state

end Agreement

/-! ## Pages -/

/-- An item with evidence of its own about its object. -/
structure Evident (item : SnapshotItem) : Prop where
  physical : ∀ physical, item.physical = some physical → physical.key = item.key
    ∧ (physical.partialBytes.isSome = true ∨ physical.finalizedBytes.isSome = true)
    ∧ physical.partialBytes.getD 0 + physical.finalizedBytes.getD 0 < 2 ^ 64
  metadata : ∀ row, item.metadata = some row → row.metadata.key = item.key
  present : item.metadata = none → item.physical ≠ none

section Pages

variable {store process : ObjectKey} {stopped : List StoppedIo} {now : Timestamp}

/-- The finding about an item names its object, and an unknown object is only
quarantined. -/
structure Found (process : ObjectKey) (stopped : List StoppedIo) (now : Timestamp)
    (item : SnapshotItem) (finding : Finding) : Prop where
  object : finding.object = item.key.value
  known : ∀ row, item.metadata = some row → Agrees process stopped now row finding.kind
  unknown : item.metadata = none → finding.kind.recoverableHint = false

theorem physicalSize_exists {item : SnapshotItem} :
    (∃ size, physicalSize item = .ok size)
      ↔ ∀ physical, item.physical = some physical → physical.key = item.key
        ∧ (physical.partialBytes.isSome = true ∨ physical.finalizedBytes.isSome = true)
        ∧ physical.partialBytes.getD 0 + physical.finalizedBytes.getD 0 < 2 ^ 64 := by
  unfold physicalSize
  cases item.physical with
  | none => simp
  | some physical =>
      simp only [check, bind_eq_ok, ensure_eq_ok, Option.some.injEq, forall_eq']
      constructor
      · rintro ⟨_, _, own, _, small, _⟩
        exact ⟨own.1, own.2, small⟩
      · rintro ⟨key, some, small⟩
        exact ⟨_, (), ⟨key, some⟩, (), small, rfl⟩

/-- Evidence gives one finding. -/
theorem inspect_exists {item : SnapshotItem} :
    (∃ finding, inspect process stopped now item = .ok finding) ↔ Evident item := by
  unfold inspect
  constructor
  · rintro ⟨finding, h⟩
    rcases bind_eq_ok.mp h with ⟨size, sized, h⟩
    have physical := physicalSize_exists.mp ⟨size, sized⟩
    cases known : item.metadata with
    | none =>
        rw [known] at h
        rcases bind_eq_ok.mp h with ⟨_, present, _⟩
        have present := ensure_eq_ok.mp present
        refine ⟨physical, ?_, ?_⟩
        · intro row same
          rw [known] at same
          cases same
        · intro _ absent
          rw [absent] at present
          cases present
    | some row =>
        rw [known] at h
        rcases bind_eq_ok.mp h with ⟨_, own, _⟩
        refine ⟨physical, ?_, ?_⟩
        · intro other same
          rw [known] at same
          cases same
          exact ensure_eq_ok.mp own
        · intro absent
          rw [known] at absent
          cases absent
  · intro evident
    rcases physicalSize_exists.mpr evident.physical with ⟨size, sized⟩
    rw [sized, bind_ok]
    cases known : item.metadata with
    | none =>
        have present : item.physical.isSome = true :=
          Option.isSome_iff_ne_none.mpr (evident.present known)
        dsimp only
        rw [check, ensure_pos present]
        exact ⟨_, rfl⟩
    | some row =>
        dsimp only
        rw [check, ensure_pos (evident.metadata row known)]
        exact ⟨_, rfl⟩

theorem inspect_found {item : SnapshotItem} {finding : Finding}
    (h : inspect process stopped now item = .ok finding) : Found process stopped now item finding := by
  have evident := inspect_exists.mp ⟨finding, h⟩
  unfold inspect at h
  rcases bind_eq_ok.mp h with ⟨size, _, h⟩
  cases known : item.metadata with
  | none =>
      rw [known] at h
      rcases bind_eq_ok.mp h with ⟨_, _, h⟩
      cases h
      refine ⟨rfl, ?_, fun _ => rfl⟩
      intro row same
      rw [known] at same
      cases same
  | some row =>
      rw [known] at h
      rcases bind_eq_ok.mp h with ⟨_, _, h⟩
      cases h
      refine ⟨rfl, ?_, ?_⟩
      · intro other same
        rw [known] at same
        cases same
        exact rowKind_agrees (evident.metadata row known)
      · intro absent
        rw [known] at absent
        cases absent

/-- A page is planned exactly from evidence about different objects. -/
theorem planItems_exists {items : List SnapshotItem} {seen : List String} :
    (∃ findings, planItems process stopped now seen items = .ok findings)
      ↔ (items.map (·.key.value)).Nodup ∧ (∀ item ∈ items, item.key.value ∉ seen)
        ∧ ∀ item ∈ items, Evident item := by
  induction items generalizing seen with
  | nil => simp [planItems]
  | cons item rest ih =>
      simp only [planItems, check, bind_eq_ok, ensure_eq_ok, List.map_cons, List.nodup_cons,
        List.forall_mem_cons]
      constructor
      · rintro ⟨_, _, fresh, finding, inspected, findings, planned, _⟩
        rcases ih.mp ⟨findings, planned⟩ with ⟨distinct, unseen, evident⟩
        refine ⟨⟨?_, distinct⟩, ⟨fresh, ?_⟩, inspect_exists.mp ⟨finding, inspected⟩, evident⟩
        · intro member
          rcases List.mem_map.mp member with ⟨other, here, same⟩
          exact unseen other here (by rw [same]; exact List.mem_cons_self)
        · intro other here old
          exact unseen other here (List.mem_cons_of_mem _ old)
      · rintro ⟨⟨new, distinct⟩, ⟨fresh, unseen⟩, evident, others⟩
        rcases inspect_exists.mpr evident with ⟨finding, inspected⟩
        have later : ∀ other ∈ rest, other.key.value ∉ item.key.value :: seen := by
          intro other here old
          rcases List.mem_cons.mp old with same | old
          · exact new (List.mem_map.mpr ⟨other, here, same⟩)
          · exact unseen other here old
        rcases ih.mpr ⟨distinct, later, others⟩ with ⟨findings, planned⟩
        exact ⟨_, (), fresh, finding, inspected, findings, planned, rfl⟩

/-- One finding for each item, in order. -/
theorem planItems_found {items : List SnapshotItem} {seen : List String} {findings : List Finding}
    (h : planItems process stopped now seen items = .ok findings) :
    List.Forall₂ (Found process stopped now) items findings := by
  induction items generalizing seen findings with
  | nil =>
      cases h
      exact List.Forall₂.nil
  | cons item rest ih =>
      simp only [planItems, check, bind_eq_ok, ensure_eq_ok] at h
      rcases h with ⟨_, _, finding, inspected, others, planned, h⟩
      cases h
      exact List.Forall₂.cons (inspect_found inspected) (ih planned)

theorem found_objects {items : List SnapshotItem} {findings : List Finding}
    (h : List.Forall₂ (Found process stopped now) items findings) :
    findings.map (·.object) = items.map (·.key.value) := by
  induction h with
  | nil => rfl
  | cons one _ ih => rw [List.map_cons, List.map_cons, one.object, ih]

/-- A page is planned exactly from at most 16 items and proofs with evidence about
different objects.  Its findings are in order of their objects, one for each item, and a
finding promises no more than the transitions of its row allow while the generation is
not exhausted. -/
theorem inspection_plan_agrees (store process : ObjectKey) (items : List SnapshotItem)
    (stopped : List StoppedIo) (now : Timestamp) :
    ((∃ page, InspectionPage.plan store process items stopped now = .ok page)
      ↔ items.length ≤ inspectionPage ∧ stopped.length ≤ inspectionPage
        ∧ (items.map (·.key.value)).Nodup ∧ ∀ item ∈ items, Evident item)
      ∧ ∀ page, InspectionPage.plan store process items stopped now = .ok page →
        page.findings.Pairwise (fun a b => a.object < b.object)
          ∧ ∃ findings, findings.Perm page.findings
            ∧ List.Forall₂ (Found process stopped now) items findings := by
  simp only [InspectionPage.plan, check, bind_eq_ok, ensure_eq_ok]
  refine ⟨?_, ?_⟩
  · constructor
    · rintro ⟨page, _, limits, findings, planned, _⟩
      rcases planItems_exists.mp ⟨findings, planned⟩ with ⟨distinct, _, evident⟩
      exact ⟨limits.1, limits.2, distinct, evident⟩
    · rintro ⟨short, few, distinct, evident⟩
      have unseen : ∀ item ∈ items, item.key.value ∉ ([] : List String) := by
        intro item _
        exact List.not_mem_nil
      rcases planItems_exists.mpr ⟨distinct, unseen, evident⟩ with ⟨findings, planned⟩
      exact ⟨_, (), ⟨short, few⟩, findings, planned, rfl⟩
  · rintro page ⟨_, _, findings, planned, h⟩
    cases h
    have found := planItems_found planned
    have distinct := (planItems_exists.mp ⟨findings, planned⟩).1
    have objects := found_objects found
    have perm := List.mergeSort_perm findings fun a b => decide (a.object ≤ b.object)
    refine ⟨?_, findings, perm.symm, found⟩
    have sorted : (findings.mergeSort fun a b => decide (a.object ≤ b.object)).Pairwise
        fun a b => a.object ≤ b.object := by
      have ordered := @List.pairwise_mergeSort _ (fun a b : Finding => decide (a.object ≤ b.object))
        (fun a b c hab hbc => decide_eq_true
          (le_trans (of_decide_eq_true hab) (of_decide_eq_true hbc)))
        (fun a b => by simpa using le_total a.object b.object) findings
      exact ordered.imp of_decide_eq_true
    have different : (findings.mergeSort fun a b => decide (a.object ≤ b.object)).Pairwise
        fun a b => a.object ≠ b.object := by
      rw [← List.pairwise_map (f := fun finding : Finding => finding.object) (R := (· ≠ ·))]
      rw [← objects] at distinct
      exact (perm.map _).nodup_iff.mpr distinct
    exact (sorted.and different).imp fun both => lt_of_le_of_ne both.1 both.2

end Pages

/-- A row of another process at the last generation is reported for recovery, which then
fails. -/
theorem exhausted_recovery_reported :
    ¬ ∀ (store process : ObjectKey) (items : List SnapshotItem) (stopped : List StoppedIo)
      (now : Timestamp) (page : InspectionPage),
      InspectionPage.plan store process items stopped now = .ok page →
        ∀ item ∈ items, ∀ row, item.metadata = some row → ∀ finding ∈ page.findings,
          finding.object = item.key.value → finding.kind = .recoverPriorProcessUpload →
            ∃ result, row.metadata.recoverPriorUpload = .ok result := by
  intro h
  let last : Generation := ⟨2 ^ 63 - 1, by decide, by decide⟩
  let row : BlobRow := { sampleUpload with metadata := { sampleUpload.metadata with generation := last } }
  let item : SnapshotItem := ⟨sampleKey, none, some row⟩
  let finding : Finding := ⟨sampleKey.value, some sampleToken, some (2 ^ 63 - 1), 0, 0,
    .recoverPriorProcessUpload⟩
  have items : planItems otherKey [] .unixEpoch [] [item] = .ok [finding] := by
    decide
  have planned : InspectionPage.plan sampleKey otherKey [item] [] .unixEpoch
      = .ok ⟨sampleKey.value, .unixEpoch, [finding]⟩ := by
    simp only [InspectionPage.plan, items, bind_ok, List.mergeSort_singleton]
    rfl
  have recovered := h _ _ _ _ _ _ planned item List.mem_cons_self row rfl finding
    List.mem_cons_self rfl rfl
  exact absurd (recoverPriorUpload_exists.mp recovered).2 (by decide)

end Blobs
end Noxide
