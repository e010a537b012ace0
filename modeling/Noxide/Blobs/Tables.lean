import Noxide.Library.Table
import Noxide.Blobs.Rows

/-!
# Blob metadata transactions

The tables of the blob store, the statements over them, and the transactions that
persist each metadata transition with its quota change under the expected generation.
A transaction that stops leaves the tables as they were.

Main results:

- Theorems {lit}`updateStore_ok`, {lit}`updateSubject_ok` and {lit}`updateBlobs_one`: what
  a statement that changed one row found and left.
-/

namespace Noxide
namespace Blobs

open Checked

/-! ## Tables -/

structure StoreRow where
  identity : String
  pairId : String
  pairState : String
  serial : Int
  reservedBytes : Int
  usedBytes : Int
  objects : Int
  anonymousReservedBytes : Int
  anonymousUsedBytes : Int
  deriving DecidableEq

structure SubjectRow where
  subject : String
  anonymous : Int
  reservedBytes : Int
  usedBytes : Int
  objects : Int
  deriving DecidableEq

structure OrphanRow where
  objectKey : String
  firstSeenMs : Int
  chargedBytes : Int
  chargedObjects : Int
  ownerProcess : String
  deriving DecidableEq

/-- The singleton store row and the rows of the other tables. -/
structure BlobTables where
  store : Option StoreRow
  subjects : List SubjectRow
  blobs : List (BlobColumns Int)
  orphans : List OrphanRow
  deriving DecidableEq

/-- The primary key and the unique indexes of {lit}`nx_blobs`. -/
structure Indexed (blobs : List (BlobColumns Int)) : Prop where
  slot : (blobs.map (·.slot)).Nodup
  ref : (blobs.map (·.blobRef)).Nodup
  handle : (blobs.map (·.uploadHandle)).Nodup
  key : (blobs.map (·.objectKey)).Nodup
  attached : ((blobs.filter fun c => c.state = "attached").map fun c =>
    (c.ownerResource, c.ownerId, c.ownerIncarnation, c.ownerField)).Nodup

instance (blobs : List (BlobColumns Int)) : Decidable (Indexed blobs) :=
  decidable_of_iff ((blobs.map (·.slot)).Nodup ∧ (blobs.map (·.blobRef)).Nodup
    ∧ (blobs.map (·.uploadHandle)).Nodup ∧ (blobs.map (·.objectKey)).Nodup
    ∧ ((blobs.filter fun c => c.state = "attached").map fun c =>
      (c.ownerResource, c.ownerId, c.ownerIncarnation, c.ownerField)).Nodup)
    ⟨fun ⟨a, b, c, d, e⟩ => ⟨a, b, c, d, e⟩, fun ⟨a, b, c, d, e⟩ => ⟨a, b, c, d, e⟩⟩

/-! ## Statements -/

/-- Change the store row, which must satisfy the condition. -/
def updateStore (text : String) (condition : StoreRow → Bool) (change : StoreRow → StoreRow)
    (t : BlobTables) : Result BlobTables := do
  let row ← need text (t.store.filter condition)
  return { t with store := some (change row) }

/-- Change the one subject row that satisfies the condition. -/
def updateSubject (text : String) (condition : SubjectRow → Bool)
    (change : SubjectRow → SubjectRow) (t : BlobTables) : Result BlobTables := do
  check text (t.subjects.countP condition = 1)
  return { t with subjects := Table.update condition change t.subjects }

/-- Change as many blob rows as expected, within the unique indexes. -/
def updateBlobs (text : String) (expected : Nat) (condition : BlobColumns Int → Bool)
    (change : BlobColumns Int → BlobColumns Int) (t : BlobTables) : Result BlobTables := do
  check text (t.blobs.countP condition = expected)
  let blobs := Table.update condition change t.blobs
  check "UNIQUE constraint failed" (Indexed blobs)
  return { t with blobs := blobs }

/-- {lit}`serial<9223372036854775807` and the identity of the paired store. -/
def StoreRow.isPaired (row : StoreRow) (identity : String) : Bool :=
  row.identity = identity ∧ row.pairState = "paired"

def StoreRow.hasSerial (row : StoreRow) : Bool :=
  row.serial < 9223372036854775807

/-- Add to the counters of the store, and to the anonymous ones for an anonymous row. -/
def StoreRow.charge (row : StoreRow) (reserved used objects anonymous : Int) : StoreRow :=
  { row with
    reservedBytes := row.reservedBytes + reserved
    usedBytes := row.usedBytes + used
    objects := row.objects + objects
    anonymousReservedBytes := row.anonymousReservedBytes + reserved * anonymous
    anonymousUsedBytes := row.anonymousUsedBytes + used * anonymous
    serial := row.serial + 1 }

def SubjectRow.charge (row : SubjectRow) (reserved used objects : Int) : SubjectRow :=
  { row with
    reservedBytes := row.reservedBytes + reserved
    usedBytes := row.usedBytes + used
    objects := row.objects + objects }

def anonymousColumn (anonymous : Bool) : Int :=
  if anonymous then 1 else 0

/-! ## What a statement does -/

section Statements

variable {text : String} {t t' : BlobTables}

theorem updateStore_ok {condition : StoreRow → Bool} {change : StoreRow → StoreRow} :
    updateStore text condition change t = .ok t' ↔ ∃ row, t.store = some row
      ∧ condition row = true ∧ t' = { t with store := some (change row) } := by
  simp only [updateStore, need, bind_eq_ok, context_eq_ok, Option.filter_eq_some_iff]
  constructor
  · rintro ⟨row, ⟨found, holds⟩, h⟩
    exact ⟨row, found, holds, (Except.ok.inj h).symm⟩
  · rintro ⟨row, found, holds, rfl⟩
    exact ⟨row, ⟨found, holds⟩, rfl⟩

theorem updateSubject_ok {condition : SubjectRow → Bool} {change : SubjectRow → SubjectRow}
    (h : updateSubject text condition change t = .ok t') : ∃ row, condition row = true
      ∧ Table.Replaced row (change row) t.subjects t'.subjects
      ∧ t' = { t with subjects := t'.subjects } := by
  simp only [updateSubject, check, bind_eq_ok, ensure_eq_ok] at h
  rcases h with ⟨_, one, h⟩
  cases h
  rcases Table.update_one one with ⟨row, holds, replaced⟩
  exact ⟨row, holds, replaced, rfl⟩

theorem updateBlobs_ok {expected : Nat} {condition : BlobColumns Int → Bool}
    {change : BlobColumns Int → BlobColumns Int}
    (h : updateBlobs text expected condition change t = .ok t') :
    t.blobs.countP condition = expected ∧ t' = { t with blobs := Table.update condition change t.blobs }
      ∧ Indexed t'.blobs := by
  simp only [updateBlobs, check, bind_eq_ok, ensure_eq_ok] at h
  rcases h with ⟨_, count, _, indexed, h⟩
  cases h
  exact ⟨count, rfl, indexed⟩

theorem updateBlobs_one {condition : BlobColumns Int → Bool}
    {change : BlobColumns Int → BlobColumns Int}
    (h : updateBlobs text 1 condition change t = .ok t') : ∃ c, condition c = true
      ∧ Table.Replaced c (change c) t.blobs t'.blobs ∧ t' = { t with blobs := t'.blobs }
      ∧ Indexed t'.blobs := by
  rcases updateBlobs_ok h with ⟨one, rfl, indexed⟩
  rcases Table.update_one one with ⟨c, holds, replaced⟩
  exact ⟨c, holds, replaced, rfl, indexed⟩

end Statements

/-! ## Policies -/

structure BlobLimits where
  fileBytes : Nat
  appBytes : Nat
  objects : Nat
  liveStages : Nat
  uploads : Nat
  downloads : Nat
  deriving DecidableEq

/-- A number of stages and of bytes. -/
structure StageQuota where
  stages : Nat
  bytes : Nat
  deriving DecidableEq

structure UploadPolicy where
  id : Nat
  webBinding : Nat
  anonymous : Option StageQuota
  deriving DecidableEq

structure BlobPolicy where
  limits : BlobLimits
  anonymous : Option StageQuota
  uploads : List UploadPolicy
  deriving DecidableEq

def maxAppBlobBytes : Nat := 1024 * 1024 * 1024

def maxAppBlobObjects : Nat := 65536

def maxLiveStages : Nat := 4

def maxConcurrentUploads : Nat := 4

def maxConcurrentDownloads : Nat := 8

def maxUploadBindings : Nat := 16

def maxAnonymousStages : Nat := 16

def maxAnonymousBytes : Nat := 160 * 1024 * 1024

def maxCapabilityBytes : Nat := 40 * 1024 * 1024

def BlobLimits.validate (limits : BlobLimits) : Result Unit :=
  check "invalid blob limits"
    (0 < limits.fileBytes ∧ limits.fileBytes ≤ maxUploadBytes
      ∧ 0 < limits.appBytes ∧ limits.appBytes ≤ maxAppBlobBytes
      ∧ limits.fileBytes ≤ limits.appBytes
      ∧ 0 < limits.objects ∧ limits.objects ≤ maxAppBlobObjects
      ∧ 0 < limits.liveStages ∧ limits.liveStages ≤ maxLiveStages
      ∧ 0 < limits.uploads ∧ limits.uploads ≤ maxConcurrentUploads
      ∧ 0 < limits.downloads ∧ limits.downloads ≤ maxConcurrentDownloads)

/-- The quota of all anonymous uploads. -/
def StageQuota.validateDeployment (quota : StageQuota) : Result Unit :=
  check "invalid anonymous deployment quota"
    (0 < quota.stages ∧ quota.stages ≤ maxAnonymousStages
      ∧ 0 < quota.bytes ∧ quota.bytes ≤ maxAnonymousBytes)

/-- The quota of one anonymous capability. -/
def StageQuota.validateCapability (quota : StageQuota) : Result Unit :=
  check "invalid anonymous capability quota"
    (0 < quota.stages ∧ quota.stages ≤ maxLiveStages
      ∧ 0 < quota.bytes ∧ quota.bytes ≤ maxCapabilityBytes)

/-- The anonymous quota of an upload needs one for the deployment. -/
def UploadPolicy.validateAnonymous (policy : BlobPolicy) : Option StageQuota → Result Unit
  | none => .ok ()
  | some quota => do
      quota.validateCapability
      check "anonymous upload lacks deployment quota" (policy.anonymous.isSome = true)

/-- The uploads, which must have different identities and web bindings. -/
def validateUploads (policy : BlobPolicy) : List Nat → List Nat → List UploadPolicy → Result Unit
  | _, _, [] => .ok ()
  | ids, bindings, upload :: rest => do
      check "duplicate or invalid upload binding" (upload.id ≠ 0 ∧ upload.webBinding ≠ 0
        ∧ upload.id ∉ ids ∧ upload.webBinding ∉ bindings)
      UploadPolicy.validateAnonymous policy upload.anonymous
      validateUploads policy (upload.id :: ids) (upload.webBinding :: bindings) rest

/-- Without a quota there is nothing to validate. -/
def validateAnonymous : Option StageQuota → Result Unit
  | none => .ok ()
  | some quota => quota.validateDeployment

def BlobPolicy.validateLimits (policy : BlobPolicy) : Result Unit := do
  policy.limits.validate
  check "upload binding limit" (policy.uploads.length ≤ maxUploadBindings)
  validateAnonymous policy.anonymous
  validateUploads policy [] [] policy.uploads
  check "unused anonymous deployment quota" (policy.anonymous.isSome = true →
    policy.uploads.any (·.anonymous.isSome) = true)

/-! ## Reading -/

section Transactions

variable (sha256 : List UInt8 → Digest)

/-- Read the row with this value in an indexed column. -/
def load (column : BlobColumns Int → String) (value : String) (t : BlobTables) :
    Result (Option BlobRow) :=
  match t.blobs.filter fun c => column c = value with
  | [] => .ok none
  | [c] => do
      let texts ← c.select
      let row ← BlobRow.parse sha256 texts
      return some row
  | _ => .error (.message "duplicate blob identity")

/-! ## Reserving -/

structure Reservation where
  binding : UploadBinding
  filename : AttachmentName
  limit : Nat
  now : Timestamp
  policy : BlobPolicy
  capability : Option StageQuota
  store : ObjectKey
  process : ObjectKey

inductive ReservationOutcome where
  | created (row : BlobRow)
  | existing (row : BlobRow)

/-- The random identities of a new object. -/
structure FreshIdentity where
  key : ObjectKey
  blob : BlobRef
  handle : UploadHandle

/-- The stage and byte limits of a reservation. -/
structure ReservationQuota where
  deploymentStages : Nat
  deploymentBytes : Nat
  stages : Nat
  capabilityBytes : Nat

def Reservation.quota (request : Reservation) : Result ReservationQuota :=
  match request.capability with
  | some cap => do
      cap.validateCapability
      let deployment ← need "anonymous upload not declared" request.policy.anonymous
      check "anonymous file exceeds quota"
        (request.limit ≤ cap.bytes ∧ request.limit ≤ deployment.bytes)
      return ⟨deployment.stages, deployment.bytes,
        min cap.stages request.policy.limits.liveStages, cap.bytes⟩
  | none => .ok ⟨1, 1, request.policy.limits.liveStages, 2 ^ 64 - 1⟩

/-- A live stage: an upload or a staged object. -/
def isStage (c : BlobColumns Int) : Bool :=
  c.state = "uploading" ∨ c.state = "staged"

/-- The condition of {lit}`reserve_store`. -/
def canReserveStore (request : Reservation) (quota : ReservationQuota) (t : BlobTables)
    (row : StoreRow) : Bool :=
  let anonymous := anonymousColumn request.capability.isSome
  row.isPaired request.store.value ∧ t.orphans = [] ∧ row.hasSerial
    ∧ row.reservedBytes ≤ request.policy.limits.appBytes - row.usedBytes - request.limit
    ∧ row.objects < request.policy.limits.objects
    ∧ (anonymous = 0 ∨ row.anonymousReservedBytes
      ≤ quota.deploymentBytes - row.anonymousUsedBytes - request.limit)
    ∧ min 5 (t.blobs.countP fun c => c.subject = request.binding.subject.value ∧ isStage c)
      < quota.stages
    ∧ (anonymous = 0 ∨ min 17 (t.blobs.countP fun c => c.anonymous = 1 ∧ isStage c)
      < quota.deploymentStages)

def reserveStore (request : Reservation) (quota : ReservationQuota) (t : BlobTables) :
    Result BlobTables :=
  updateStore "blob app quota unavailable" (canReserveStore request quota t)
    (fun row => row.charge request.limit 0 1 (anonymousColumn request.capability.isSome)) t

/-- Insert the subject's row, or add to it. -/
def reserveSubject (request : Reservation) (quota : ReservationQuota) (t : BlobTables) :
    Result BlobTables :=
  let subject := request.binding.subject.value
  let anonymous := anonymousColumn request.capability.isSome
  if t.subjects.any fun row => row.subject = subject then
    updateSubject "blob subject quota unavailable" (fun row => row.subject = subject
        ∧ row.anonymous = anonymous ∧ row.objects < 65536
        ∧ (anonymous = 0 ∨ row.reservedBytes
          ≤ min quota.capabilityBytes (2 ^ 63 - 1) - row.usedBytes - request.limit))
      (fun row => row.charge request.limit 0 1) t
  else .ok { t with subjects := t.subjects ++ [⟨subject, anonymous, request.limit, 0, 1⟩] }

/-- {lit}`INSERT_BLOB`: unless an orphan has the key or a row has the slot. -/
def insertBlob (row : BlobRow) (t : BlobTables) : Result BlobTables := do
  check "upload slot raced or object identity unavailable"
    ((∀ orphan ∈ t.orphans, orphan.objectKey ≠ row.metadata.key.value)
      ∧ ∀ c ∈ t.blobs, c.slot ≠ row.metadata.binding.slot.value)
  let blobs := t.blobs ++ [row.columns]
  check "UNIQUE constraint failed" (Indexed blobs)
  return { t with blobs := blobs }

/-- The row of a new upload. -/
def Reservation.row (request : Reservation) (fresh : FreshIdentity) (expires : Timestamp) : BlobRow where
  metadata := {
    blob := fresh.blob
    handle := fresh.handle
    key := fresh.key
    binding := request.binding
    state := .uploading
    generation := .first
    expires := expires
    reserved := request.limit
    bytes := 0
    digest := none
    association := none }
  anonymous := request.capability.isSome
  filename := request.filename
  created := request.now
  claimed := .unixEpoch
  process := request.process

/-- Charge the store and the subject, and insert the row. -/
def reserveNew (request : Reservation) (fresh : FreshIdentity) (t : BlobTables) :
    Result (ReservationOutcome × BlobTables) := do
  let quota ← request.quota
  let t ← reserveStore request quota t
  let t ← reserveSubject request quota t
  let expires ← request.now.checkedAdd stageLifetimeMillis
  let row := request.row fresh expires
  let t ← insertBlob row t
  return (.created row, t)

/-- An existing slot is returned without a fresh charge. -/
def reserve (request : Reservation) (fresh : FreshIdentity) (t : BlobTables) :
    Result (ReservationOutcome × BlobTables) := do
  request.policy.validateLimits
  check "upload reservation ceiling"
    (0 < request.limit ∧ request.limit ≤ request.policy.limits.fileBytes)
  match ← load sha256 (·.slot) request.binding.slot.value t with
  | some row => do
      check "foreign upload slot" (row.metadata.binding = request.binding)
      return (.existing row, t)
  | none => reserveNew request fresh t

/-! ## Publishing and attaching -/

/-- Convert a reservation of the store into used bytes. -/
def stageStore (store : ObjectKey) (row : BlobRow) (bytes : Nat) (t : BlobTables) :
    Result BlobTables :=
  let reserved : Int := row.metadata.reserved
  let anonymous := anonymousColumn row.anonymous
  updateStore "blob app reservation mismatch" (fun s => s.isPaired store.value
      ∧ reserved ≤ s.reservedBytes ∧ reserved * anonymous ≤ s.anonymousReservedBytes
      ∧ 0 < s.objects ∧ s.hasSerial ∧ s.usedBytes ≤ 9223372036854775807 - bytes
      ∧ s.anonymousUsedBytes ≤ 9223372036854775807 - bytes * anonymous)
    (fun s => s.charge (-reserved) bytes 0 anonymous) t

def stageSubject (row : BlobRow) (bytes : Nat) (t : BlobTables) : Result BlobTables :=
  let reserved : Int := row.metadata.reserved
  updateSubject "blob subject reservation mismatch" (fun s =>
      s.subject = row.metadata.binding.subject.value ∧ s.anonymous = anonymousColumn row.anonymous
      ∧ reserved ≤ s.reservedBytes ∧ 0 < s.objects ∧ s.usedBytes ≤ 9223372036854775807 - bytes)
    (fun s => s.charge (-reserved) bytes 0) t

/-- {lit}`STAGE_BLOB`, under the expected generation, the process and the binding. -/
def stageBlob (row : BlobRow) (transition : Transition) (digest : Digest) (now : Timestamp)
    (t : BlobTables) : Result BlobTables :=
  let next := transition.next
  updateBlobs "upload publication fence rejected" 1 (fun c =>
      c.slot = next.binding.slot.value ∧ c.state = "uploading"
      ∧ c.generation = transition.expected.value ∧ c.ownerProcess = row.process.value
      ∧ now.millis < c.expiresMs ∧ c.subject = next.binding.subject.value
      ∧ c.context = next.binding.context.value ∧ c.input = next.binding.input.value)
    (fun c => { c with
      state := "staged", generation := next.generation.value, reservedBytes := 0,
      actualBytes := next.bytes, sha256 := hex digest, uploadHandle := next.handle.value }) t

/-- Actual completion is not publication authority by itself. -/
def publish (row : BlobRow) (object : DurableObject) (now : Timestamp) (store : ObjectKey)
    (t : BlobTables) : Result (BlobRow × BlobTables) := do
  let transition ← row.metadata.stage sha256 row.metadata.generation object now row.metadata.binding
  check "upload quota transition mismatch"
    (transition.quota = ⟨-row.metadata.reserved, transition.next.bytes, 0⟩)
  let t ← stageStore store row transition.next.bytes t
  let t ← stageSubject row transition.next.bytes t
  let digest ← need "missing finalized digest" transition.next.digest
  let t ← stageBlob row transition digest now t
  return ({ row with metadata := transition.next }, t)

/-- {lit}`ATTACH_BLOB`, under the expected generation and the handle. -/
def attachBlob (row : BlobRow) (transition : Transition) (association : Association) (t : BlobTables) :
    Result BlobTables :=
  updateBlobs "upload association fence rejected" 1 (fun c =>
      c.slot = row.metadata.binding.slot.value ∧ c.state = "staged"
      ∧ c.generation = transition.expected.value ∧ c.uploadHandle = row.metadata.handle.value)
    (fun c => { c with
      state := "attached", generation := transition.next.generation.value,
      ownerResource := association.resource.val, ownerId := association.id.val,
      ownerIncarnation := association.incarnation, ownerField := association.field }) t

def associate (row : BlobRow) (association : Association) (now : Timestamp) (t : BlobTables) :
    Result (BlobRef × BlobTables) := do
  let transition ← row.metadata.attach row.metadata.generation now row.metadata.binding
    row.metadata.handle association
  let t ← attachBlob row transition association t
  return (row.metadata.blob, t)

/-! ## Detaching -/

/-- An attached row of this owner. -/
def isOwned (resource id : I64) (incarnation : String) (c : BlobColumns Int) : Bool :=
  c.state = "attached" ∧ c.ownerResource = resource.val ∧ c.ownerId = id.val
    ∧ c.ownerIncarnation = incarnation

/-- The texts that {lit}`attached_blobs` selects of one row. -/
def selectAttached (c : BlobColumns Int) : Result (String × String × String × String) := do
  check "unexpected null" (c.slot.utf8ByteSize ≤ 64 ∧ c.ownerField.utf8ByteSize ≤ 32
    ∧ c.blobRef.utf8ByteSize ≤ 67 ∧ (toString c.generation).utf8ByteSize ≤ 20)
  return (c.slot, c.ownerField, c.blobRef, toString c.generation)

/-- Check each selected row against the expected references, and keep its slot and
generation. -/
def selectDetached (expected : List (String × BlobRef)) :
    List String → List (String × String × String × String) → Result (List (String × Nat))
  | _, [] => .ok []
  | seen, (slot, field, reference, generation) :: rest => do
      let slot ← Commitment.parse slot
      let reference ← BlobRef.parse reference
      let generation ← readGeneration generation
      check "foreign or exhausted blob association during deletion"
        (generation.value < 2 ^ 63 - 1 ∧ field ∉ seen ∧ expected.lookup field = some reference)
      let others ← selectDetached expected (field :: seen) rest
      return (slot.value, generation.value) :: others

/-- {lit}`unreference_blobs`: each selected row, under its generation. -/
def unreferenceBlobs (resource id : I64) (incarnation : String) (selected : List (String × Nat))
    (expected : Nat) (t : BlobTables) : Result BlobTables :=
  updateBlobs "blob detachment fence rejected" expected
    (fun c => isOwned resource id incarnation c
      ∧ selected.any fun choice => choice.1 = c.slot ∧ (choice.2 : Int) = c.generation)
    (fun c => { c with state := "unreferenced", generation := c.generation + 1 }) t

/-- The record's deletion releases all its blobs. -/
def detachResource (resource id : I64) (incarnation : String) (expected : List (String × BlobRef))
    (t : BlobTables) : Result BlobTables := do
  check "invalid blob detachment scope" (0 < resource.val ∧ 0 < id.val ∧ incarnation ≠ ""
    ∧ incarnation.utf8ByteSize ≤ 64 ∧ expected.length ≤ 8)
  -- The query's order by slot decides nothing: every selected row is checked.
  let rows ← ((t.blobs.filter (isOwned resource id incarnation)).take (expected.length + 1)).mapM
    selectAttached
  check "blob detachment association mismatch" (rows.length = expected.length)
  let selected ← selectDetached expected [] rows
  if selected = [] then .ok t
  else unreferenceBlobs resource id incarnation selected expected.length t

/-! ## Claims and deletion -/

/-- {lit}`CLAIM_FOR_DELETION`, under the state, the generation and the process. -/
def claimForDeletion (row : BlobRow) (transition : Transition) (process : ObjectKey)
    (now : Timestamp) (t : BlobTables) : Result BlobTables :=
  updateBlobs "blob GC claim fence rejected" 1 (fun c =>
      c.slot = row.metadata.binding.slot.value ∧ c.state = row.metadata.state.text
      ∧ c.generation = transition.expected.value ∧ c.ownerProcess = row.process.value)
    (fun c => { c with
      state := "deleting", generation := transition.next.generation.value,
      claimedMs := now.millis, ownerProcess := process.value }) t

def persistClaim (row : BlobRow) (transition : Transition) (process : ObjectKey) (now : Timestamp)
    (t : BlobTables) : Result (BlobRow × BlobTables) := do
  check "foreign metadata transition" (row.metadata.generation = transition.expected
    ∧ row.metadata.key = transition.next.key)
  check "invalid GC claim state" (transition.next.state = .deleting)
  let t ← claimForDeletion row transition process now t
  return ({ row with metadata := transition.next, claimed := now, process := process }, t)

def claimCollectable (row : BlobRow) (process : ObjectKey) (now : Timestamp) (t : BlobTables) :
    Result ((BlobRow × GcClaim) × BlobTables) := do
  let (transition, claim) ← row.metadata.claim row.metadata.generation now
  let (next, t) ← persistClaim row transition process now t
  return ((next, claim), t)

/-- A matching completed worker is mandatory for this process's uploads. -/
def claimStoppedUpload (row : BlobRow) (process : ObjectKey) (now : Timestamp)
    (stopped : StoppedIo) (t : BlobTables) : Result ((BlobRow × GcClaim) × BlobTables) := do
  check "foreign blob upload process" (row.process = process)
  let (transition, claim) ← row.metadata.claimStoppedUpload row.metadata.generation now stopped
  let (next, t) ← persistClaim row transition process now t
  return ((next, claim), t)

/-- The store and the process that own the directory. -/
structure ProcessFence where
  store : ObjectKey
  process : ObjectKey

def isPairedStore (store : ObjectKey) (t : BlobTables) : Bool :=
  t.store.any fun row => row.isPaired store.value

def recoverPriorUpload (row : BlobRow) (fence : ProcessFence) (now : Timestamp) (t : BlobTables) :
    Result ((BlobRow × GcClaim) × BlobTables) := do
  check "blob process fence belongs to another store" (isPairedStore fence.store t = true)
  check "live process upload cannot be abandoned" (row.process ≠ fence.process)
  let (transition, claim) ← row.metadata.recoverPriorUpload
  let (next, t) ← persistClaim row transition fence.process now t
  return ((next, claim), t)

def resumeDeletion (row : BlobRow) (fence : ProcessFence) (now : Timestamp)
    (stopped : Option StoppedIo) (t : BlobTables) :
    Result ((BlobRow × GcClaim) × BlobTables) := do
  check "blob process fence belongs to another store" (isPairedStore fence.store t = true)
  check "deletion worker may still be running" (row.process ≠ fence.process
    ∨ ∃ proof ∈ stopped, proof.key = row.metadata.key ∧ proof.generation = row.metadata.generation)
  let (transition, claim) ← row.metadata.resumeDeletion
  let (next, t) ← persistClaim row transition fence.process now t
  return ((next, claim), t)

def releaseStore (store : ObjectKey) (row : BlobRow) (t : BlobTables) : Result BlobTables :=
  let reserved : Int := row.metadata.reserved
  let used : Int := row.metadata.bytes
  let anonymous := anonymousColumn row.anonymous
  updateStore "blob deletion app counter mismatch" (fun s => s.isPaired store.value
      ∧ reserved ≤ s.reservedBytes ∧ used ≤ s.usedBytes ∧ 0 < s.objects
      ∧ reserved * anonymous ≤ s.anonymousReservedBytes ∧ used * anonymous ≤ s.anonymousUsedBytes
      ∧ s.hasSerial)
    (fun s => s.charge (-reserved) (-used) (-1) anonymous) t

def releaseSubject (row : BlobRow) (t : BlobTables) : Result BlobTables :=
  let reserved : Int := row.metadata.reserved
  let used : Int := row.metadata.bytes
  updateSubject "blob deletion subject counter mismatch" (fun s =>
      s.subject = row.metadata.binding.subject.value ∧ s.anonymous = anonymousColumn row.anonymous
      ∧ reserved ≤ s.reservedBytes ∧ used ≤ s.usedBytes ∧ 0 < s.objects)
    (fun s => s.charge (-reserved) (-used) (-1)) t

/-- {lit}`MARK_DELETED`, under the generation and the process. -/
def markDeleted (row : BlobRow) (transition : Transition) (now : Timestamp) (t : BlobTables) :
    Result BlobTables :=
  updateBlobs "blob deletion fence rejected" 1 (fun c =>
      c.slot = row.metadata.binding.slot.value ∧ c.state = "deleting"
      ∧ c.generation = transition.expected.value ∧ c.ownerProcess = row.process.value)
    (fun c => { c with
      state := "deleted", generation := transition.next.generation.value, reservedBytes := 0,
      actualBytes := 0, claimedMs := now.millis }) t

def deleteEmptySubject (subject : Commitment) (t : BlobTables) : BlobTables :=
  { t with subjects := t.subjects.filter fun s => ¬ (s.subject = subject.value
    ∧ s.reservedBytes = 0 ∧ s.usedBytes = 0 ∧ s.objects = 0) }

/-- Only after the object is removed under a committed claim. -/
def deleted (row : BlobRow) (claim : GcClaim) (store : ObjectKey) (now : Timestamp) (t : BlobTables) :
    Result (BlobRow × BlobTables) := do
  let transition ← row.metadata.deleted claim
  check "deletion quota transition mismatch"
    (transition.quota = ⟨-row.metadata.reserved, -row.metadata.bytes, -1⟩)
  let t ← releaseStore store row t
  let t ← releaseSubject row t
  let t ← markDeleted row transition now t
  return ({ row with metadata := transition.next, claimed := now },
    deleteEmptySubject row.metadata.binding.subject t)

/-! ## Unknown objects -/

/-- Charge an object that no row knows, once. -/
def quarantineUnknown (key : ObjectKey) (bytes paths : Nat) (store process : ObjectKey)
    (now : Timestamp) (t : BlobTables) : Result BlobTables := do
  check "invalid orphan evidence" (1 ≤ paths ∧ paths ≤ 2)
  check "blob integer overflow" (bytes < 2 ^ 63)
  if (∃ c ∈ t.blobs, c.objectKey = key.value) ∨ ∃ orphan ∈ t.orphans, orphan.objectKey = key.value
  then .ok t
  else
    updateStore "orphan quota accounting overflow" (fun s => s.isPaired store.value
        ∧ s.usedBytes ≤ 9223372036854775807 - bytes ∧ s.objects ≤ 9223372036854775807 - paths
        ∧ s.hasSerial)
      (fun s => s.charge 0 bytes paths 0)
      { t with orphans := t.orphans ++ [⟨key.value, now.millis, bytes, paths, process.value⟩] }

end Transactions

end Blobs
end Noxide
