import Mathlib.Data.Nat.Bitwise
import Noxide.Protocol.Scalar

/-!
# Blob metadata transitions

The pure state machine of one uploaded blob: its identities, its generation, the
association with a record field, and the transitions that a database transaction
persists under the expected generation.

Main results:

- Theorems {lit}`stage_ok`, {lit}`attach_ok`, {lit}`unreference_ok`, {lit}`claim_ok`,
  {lit}`claimStoppedUpload_ok`, {lit}`deleted_ok`, {lit}`recoverPriorUpload_ok` and
  {lit}`resumeDeletion_ok`: what each transition checks and what it changes.
- Theorem {lit}`claim_exists` and its siblings: when a claim succeeds.
-/

namespace Noxide
namespace Blobs

open Checked

/-! ## Identities -/

/-- 64 lowercase hexadecimal digits. -/
def hexToken (value : String) : Bool :=
  value.utf8ByteSize == 64 && value.toList.all lowerHex

structure Commitment where
  value : String
  valid : hexToken value = true
  deriving DecidableEq

def Commitment.parse (value : String) : Result Commitment :=
  if h : hexToken value = true then .ok ⟨value, h⟩ else .error (.message "invalid blob binding")

structure ObjectKey where
  value : String
  valid : hexToken value = true
  deriving DecidableEq

def ObjectKey.parse (value : String) : Result ObjectKey :=
  if h : hexToken value = true then .ok ⟨value, h⟩ else .error (.message "invalid object identity")

structure BlobRef where
  value : String
  valid : blobRef value = true
  deriving DecidableEq

def BlobRef.parse (value : String) : Result BlobRef :=
  if h : blobRef value = true then .ok ⟨value, h⟩ else .error (.message "invalid blob token")

structure UploadHandle where
  value : String
  valid : uploadHandle value = true
  deriving DecidableEq

def UploadHandle.parse (value : String) : Result UploadHandle :=
  if h : uploadHandle value = true then .ok ⟨value, h⟩ else .error (.message "invalid blob token")

/-- Milliseconds since the epoch, in the signed storage range. -/
structure Timestamp where
  millis : Nat
  bound : millis < 2 ^ 63
  deriving DecidableEq

def Timestamp.fromUnixMillis (value : Int) : Result Timestamp :=
  if h : 0 ≤ value ∧ value < 2 ^ 63 then .ok ⟨value.toNat, by omega⟩
  else .error (.message "lifecycle time cannot be negative")

def Timestamp.unixEpoch : Timestamp := ⟨0, by decide⟩

def Timestamp.checkedAdd (time : Timestamp) (millis : Nat) : Result Timestamp :=
  if h : time.millis + millis < 2 ^ 63 then .ok ⟨time.millis + millis, h⟩
  else .error (.message "lifecycle time overflow")

/-- Monotonic database fencing generation, never reused after a transition. -/
structure Generation where
  value : Nat
  pos : 0 < value
  bound : value < 2 ^ 63
  deriving DecidableEq

/-- The generation of a new row. -/
def Generation.first : Generation := ⟨1, by decide, by decide⟩

def Generation.parse (value : Int) : Result Generation :=
  if h : 0 < value ∧ value < 2 ^ 63 then .ok ⟨value.toNat, by omega, by omega⟩
  else .error (.message "invalid blob generation")

def Generation.next (generation : Generation) : Result Generation :=
  if h : generation.value + 1 < 2 ^ 63 then .ok ⟨generation.value + 1, by omega, h⟩
  else .error (.message "blob generation exhausted")

/-- 32 bytes of a hash. -/
structure Digest where
  bytes : List UInt8
  sized : bytes.length = 32
  deriving DecidableEq

/-! ## Metadata -/

def maxUploadBytes : Nat := 10 * 1024 * 1024

/-- Commitments of the host to the slot, the subject that is charged, the form's
context and the named input. -/
structure UploadBinding where
  slot : Commitment
  subject : Commitment
  context : Commitment
  input : Commitment
  deriving DecidableEq

structure Association where
  resource : I64
  id : I64
  incarnation : String
  field : String
  deriving DecidableEq

def isIncarnationChar (c : Char) : Bool :=
  c.isAlphanum || c == '-' || c == '_'

def isFieldChar (c : Char) : Bool :=
  c.isAlphanum || c == '_'

def Association.validate (association : Association) : Result Unit :=
  check "invalid blob association"
    (0 < association.resource.val ∧ 0 < association.id.val
      ∧ association.incarnation ≠ "" ∧ association.incarnation.utf8ByteSize ≤ 64
      ∧ association.incarnation.toList.all isIncarnationChar = true
      ∧ association.field ≠ "" ∧ association.field.utf8ByteSize ≤ 64
      ∧ association.field.toList.all isFieldChar = true)

inductive State where
  | uploading
  | staged
  | attached
  | unreferenced
  | deleting
  | deleted
  deriving DecidableEq, Repr

structure Metadata where
  blob : BlobRef
  handle : UploadHandle
  key : ObjectKey
  binding : UploadBinding
  state : State
  generation : Generation
  expires : Timestamp
  reserved : Nat
  bytes : Nat
  digest : Option Digest
  association : Option Association
  deriving DecidableEq

structure QuotaDelta where
  reserved : Int
  used : Int
  objects : Int
  deriving DecidableEq, Repr

/-- No charge moves. -/
def QuotaDelta.zero : QuotaDelta := ⟨0, 0, 0⟩

/-- A candidate and the old generation it expects. -/
structure Transition where
  expected : Generation
  next : Metadata
  quota : QuotaDelta
  deriving DecidableEq

/-- A claim to delete an object, which must be committed before the deletion. -/
structure GcClaim where
  key : ObjectKey
  generation : Generation
  deriving DecidableEq

/-- An object whose bytes and directory entries are synced. -/
structure DurableObject where
  key : ObjectKey
  bytes : Nat
  sha256 : Digest

/-- Proof that the worker of an object and generation has stopped. -/
structure StoppedIo where
  key : ObjectKey
  generation : Generation
  failedOrCancelled : Bool

/-! ## The finalized handle -/

def hexDigit (n : Nat) : Char :=
  ['0', '1', '2', '3', '4', '5', '6', '7', '8', '9', 'a', 'b', 'c', 'd', 'e', 'f'].getD n '0'

def hexChars : List UInt8 → List Char
  | [] => []
  | byte :: rest => hexDigit (byte.toNat / 16) :: hexDigit (byte.toNat % 16) :: hexChars rest

def hex (value : Digest) : String := String.ofList (hexChars value.bytes)

/-- The eight bytes of a number, the highest first. -/
def toBeBytes (n : Nat) : List UInt8 :=
  (List.range 8).reverse.map fun i => (n / 256 ^ i).toUInt8

section Transitions

variable (sha256 : List UInt8 → Digest)

/-- The handle that names the slot, the object and its content. -/
def Metadata.expectedHandle (m : Metadata) (bytes : Nat) (digest : Digest) : Result UploadHandle :=
  let hashed := sha256 ("noxide/finalized-upload/v1\x00".toUTF8.toList
    ++ m.binding.slot.value.toUTF8.toList ++ m.key.value.toUTF8.toList
    ++ m.blob.value.toUTF8.toList ++ toBeBytes bytes ++ digest.bytes)
  UploadHandle.parse ("u1_" ++ hex hashed)

/-! ## Transitions -/

def Metadata.candidate (m : Metadata) (expected : Generation) (state : State) (quota : QuotaDelta) :
    Result Transition := do
  check "stale blob generation" (m.generation = expected)
  let generation ← expected.next
  return ⟨expected, { m with generation := generation, state := state }, quota⟩

def Metadata.fresh (m : Metadata) (now : Timestamp) (binding : UploadBinding) : Result Unit :=
  check "foreign or expired upload handle" (m.binding = binding ∧ now.millis < m.expires.millis)

def Metadata.stage (m : Metadata) (expected : Generation) (object : DurableObject)
    (now : Timestamp) (binding : UploadBinding) : Result Transition := do
  m.fresh now binding
  check "invalid staged object" (m.state = .uploading ∧ m.reserved ≤ maxUploadBytes ∧ m.bytes = 0
    ∧ m.digest = none ∧ m.association = none ∧ object.key = m.key ∧ object.bytes ≤ m.reserved)
  check "blob reservation overflow" (m.reserved < 2 ^ 63)
  check "blob size overflow" (object.bytes < 2 ^ 63)
  let transition ← m.candidate expected .staged ⟨-m.reserved, object.bytes, 0⟩
  let handle ← m.expectedHandle sha256 object.bytes object.sha256
  return { transition with next := { transition.next with
    reserved := 0, bytes := object.bytes, digest := some object.sha256, handle := handle } }

def Metadata.attach (m : Metadata) (expected : Generation) (now : Timestamp)
    (binding : UploadBinding) (handle : UploadHandle) (association : Association) :
    Result Transition := do
  m.fresh now binding
  association.validate
  check "upload handle is not attachable" (m.state = .staged ∧ m.association = none
    ∧ m.handle = handle ∧ m.digest.isSome = true)
  let transition ← m.candidate expected .attached .zero
  return { transition with next := { transition.next with association := some association } }

/-- The owning record is deleted in the same transaction. -/
def Metadata.unreference (m : Metadata) (expected : Generation) (association : Association) :
    Result Transition := do
  check "blob association does not match"
    (m.state = .attached ∧ m.association = some association)
  m.candidate expected .unreferenced .zero

/-- Move to deletion, with the claim to the object. -/
def Metadata.deleting (m : Metadata) (expected : Generation) : Result (Transition × GcClaim) := do
  let transition ← m.candidate expected .deleting .zero
  return (transition, ⟨m.key, transition.next.generation⟩)

/-- Uploading rows are deliberately excluded. -/
def Metadata.claim (m : Metadata) (expected : Generation) (now : Timestamp) :
    Result (Transition × GcClaim) := do
  check "blob is not collectable"
    (m.state = .unreferenced ∨ m.state = .staged ∧ m.expires.millis ≤ now.millis)
  m.deleting expected

/-- A known stopped worker permits cleanup of a failed upload at once, and of an
unpublished one when its stage expires. -/
def Metadata.claimStoppedUpload (m : Metadata) (expected : Generation) (now : Timestamp)
    (stopped : StoppedIo) : Result (Transition × GcClaim) := do
  check "upload worker is not collectable" (m.state = .uploading ∧ stopped.key = m.key
    ∧ stopped.generation = m.generation
    ∧ (stopped.failedOrCancelled = true ∨ m.expires.millis ≤ now.millis))
  m.deleting expected

/-- Call only after the object is removed. -/
def Metadata.deleted (m : Metadata) (claim : GcClaim) : Result Transition := do
  check "stale blob GC claim"
    (m.state = .deleting ∧ m.key = claim.key ∧ m.generation = claim.generation)
  check "blob reservation overflow" (m.reserved < 2 ^ 63)
  check "blob size overflow" (m.bytes < 2 ^ 63)
  let transition ← m.candidate claim.generation .deleted ⟨-m.reserved, -m.bytes, -1⟩
  return { transition with next := { transition.next with reserved := 0, bytes := 0 } }

def Metadata.recoverPriorUpload (m : Metadata) : Result (Transition × GcClaim) := do
  check "not an uploading reservation" (m.state = .uploading)
  m.deleting m.generation

def Metadata.resumeDeletion (m : Metadata) : Result (Transition × GcClaim) := do
  check "not a deletion claim" (m.state = .deleting)
  m.deleting m.generation

end Transitions

/-! ## What a transition does -/

theorem Generation.next_ok {generation result : Generation} :
    generation.next = .ok result ↔ result.value = generation.value + 1 := by
  unfold Generation.next
  constructor
  · intro h
    split at h
    · cases h
      rfl
    · cases h
  · intro h
    have bound := result.bound
    rw [h] at bound
    rw [dif_pos bound]
    cases result
    cases h
    rfl

theorem candidate_ok {m : Metadata} {expected : Generation} {state : State} {quota : QuotaDelta}
    {t : Transition} (h : m.candidate expected state quota = .ok t) :
    t.expected = m.generation ∧ expected = m.generation ∧ t.quota = quota
      ∧ t.next.generation.value = m.generation.value + 1
      ∧ t.next = { m with generation := t.next.generation, state := state } := by
  simp only [Metadata.candidate, check, bind_eq_ok, ensure_eq_ok, Generation.next_ok] at h
  rcases h with ⟨_, rfl, generation, advanced, h⟩
  cases h
  exact ⟨rfl, rfl, rfl, advanced, rfl⟩

/-- A candidate exists exactly where the generation is not the last. -/
theorem candidate_exists {m : Metadata} (state : State) (quota : QuotaDelta) :
    (∃ t, m.candidate m.generation state quota = .ok t) ↔ m.generation.value + 1 < 2 ^ 63 := by
  constructor
  · rintro ⟨t, h⟩
    rcases candidate_ok h with ⟨_, _, _, advanced, _⟩
    rw [← advanced]
    exact t.next.generation.bound
  · intro room
    have next : m.generation.next = .ok ⟨m.generation.value + 1, by omega, room⟩ :=
      Generation.next_ok.mpr rfl
    unfold Metadata.candidate
    rw [check, ensure_pos rfl, bind_ok, next]
    exact ⟨_, rfl⟩

/-- What every transition keeps, and how it moves the generation. -/
structure Advances (m : Metadata) (t : Transition) : Prop where
  expected : t.expected = m.generation
  generation : t.next.generation.value = m.generation.value + 1
  blob : t.next.blob = m.blob
  key : t.next.key = m.key
  binding : t.next.binding = m.binding
  expires : t.next.expires = m.expires

theorem stage_ok {sha256 : List UInt8 → Digest} {m : Metadata} {expected : Generation}
    {object : DurableObject} {now : Timestamp} {binding : UploadBinding} {t : Transition}
    (h : m.stage sha256 expected object now binding = .ok t) :
    Advances m t ∧ m.state = .uploading ∧ m.reserved ≤ maxUploadBytes ∧ m.bytes = 0
      ∧ m.association = none ∧ object.bytes ≤ m.reserved
      ∧ t.quota = ⟨-m.reserved, object.bytes, 0⟩
      ∧ m.expectedHandle sha256 object.bytes object.sha256 = .ok t.next.handle
      ∧ t.next = { m with
          generation := t.next.generation, state := .staged, reserved := 0, bytes := object.bytes,
          digest := some object.sha256, handle := t.next.handle } := by
  simp only [Metadata.stage, check, bind_eq_ok, ensure_eq_ok] at h
  rcases h with ⟨_, _, _, ⟨uploading, sized, empty, _, unowned, _, fits⟩, _, _, _, _, c, candidate,
    handle, expected, h⟩
  rcases candidate_ok candidate with ⟨same, _, quota, advanced, next⟩
  cases h
  refine ⟨⟨same, advanced, ?_, ?_, ?_, ?_⟩, uploading, sized, empty, unowned, fits, quota,
    expected, ?_⟩
  · rw [next]
  · rw [next]
  · rw [next]
  · rw [next]
  · dsimp only
    rw [next]

theorem attach_ok {m : Metadata} {expected : Generation} {now : Timestamp}
    {binding : UploadBinding} {handle : UploadHandle} {association : Association} {t : Transition}
    (h : m.attach expected now binding handle association = .ok t) :
    Advances m t ∧ m.state = .staged ∧ m.handle = handle ∧ association.validate = .ok ()
      ∧ m.digest.isSome = true ∧ t.quota = .zero
      ∧ t.next = { m with
          generation := t.next.generation, state := .attached, association := some association } := by
  simp only [Metadata.attach, check, bind_eq_ok, ensure_eq_ok] at h
  rcases h with ⟨_, _, _, valid, _, ⟨staged, _, same, hashed⟩, c, candidate, h⟩
  rcases candidate_ok candidate with ⟨equal, _, quota, advanced, next⟩
  cases h
  refine ⟨⟨equal, advanced, ?_, ?_, ?_, ?_⟩, staged, same, valid, hashed, quota, ?_⟩
  · rw [next]
  · rw [next]
  · rw [next]
  · rw [next]
  · dsimp only
    rw [next]

theorem unreference_ok {m : Metadata} {expected : Generation} {association : Association}
    {t : Transition} (h : m.unreference expected association = .ok t) :
    Advances m t ∧ m.state = .attached ∧ m.association = some association ∧ t.quota = .zero
      ∧ t.next = { m with generation := t.next.generation, state := .unreferenced } := by
  simp only [Metadata.unreference, check, bind_eq_ok, ensure_eq_ok] at h
  rcases h with ⟨_, ⟨attached, owner⟩, candidate⟩
  rcases candidate_ok candidate with ⟨same, _, quota, advanced, next⟩
  refine ⟨⟨same, advanced, ?_, ?_, ?_, ?_⟩, attached, owner, quota, next⟩
  all_goals rw [next]

/-- A claim moves a row to deletion and changes nothing else. -/
structure Claims (m : Metadata) (t : Transition) (claim : GcClaim) : Prop where
  advances : Advances m t
  quota : t.quota = .zero
  next : t.next = { m with generation := t.next.generation, state := .deleting }
  claim : claim = ⟨m.key, t.next.generation⟩

theorem deleting_ok {m : Metadata} {expected : Generation} {t : Transition} {claim : GcClaim}
    (h : m.deleting expected = .ok (t, claim)) : expected = m.generation ∧ Claims m t claim := by
  simp only [Metadata.deleting, bind_eq_ok] at h
  rcases h with ⟨c, candidate, h⟩
  cases h
  rcases candidate_ok candidate with ⟨same, expected, quota, advanced, next⟩
  refine ⟨expected, ⟨⟨same, advanced, ?_, ?_, ?_, ?_⟩, quota, next, rfl⟩⟩
  all_goals rw [next]

theorem deleting_exists {m : Metadata} :
    (∃ result, m.deleting m.generation = .ok result) ↔ m.generation.value + 1 < 2 ^ 63 := by
  rw [← candidate_exists .deleting .zero]
  constructor
  · rintro ⟨result, h⟩
    simp only [Metadata.deleting, bind_eq_ok] at h
    rcases h with ⟨t, candidate, _⟩
    exact ⟨t, candidate⟩
  · rintro ⟨t, candidate⟩
    refine ⟨(t, ⟨m.key, t.next.generation⟩), ?_⟩
    simp only [Metadata.deleting, candidate, bind_ok]
    rfl

theorem claim_ok {m : Metadata} {expected : Generation} {now : Timestamp} {t : Transition}
    {claim : GcClaim} (h : m.claim expected now = .ok (t, claim)) :
    Claims m t claim
      ∧ (m.state = .unreferenced ∨ m.state = .staged ∧ m.expires.millis ≤ now.millis) := by
  simp only [Metadata.claim, check, bind_eq_ok, ensure_eq_ok] at h
  rcases h with ⟨_, collectable, h⟩
  exact ⟨(deleting_ok h).2, collectable⟩

theorem claimStoppedUpload_ok {m : Metadata} {expected : Generation} {now : Timestamp}
    {stopped : StoppedIo} {t : Transition} {claim : GcClaim}
    (h : m.claimStoppedUpload expected now stopped = .ok (t, claim)) :
    Claims m t claim ∧ m.state = .uploading ∧ stopped.key = m.key
      ∧ stopped.generation = m.generation
      ∧ (stopped.failedOrCancelled = true ∨ m.expires.millis ≤ now.millis) := by
  simp only [Metadata.claimStoppedUpload, check, bind_eq_ok, ensure_eq_ok] at h
  rcases h with ⟨_, ⟨uploading, key, generation, ended⟩, h⟩
  exact ⟨(deleting_ok h).2, uploading, key, generation, ended⟩

theorem deleted_ok {m : Metadata} {claim : GcClaim} {t : Transition}
    (h : m.deleted claim = .ok t) :
    Advances m t ∧ m.state = .deleting ∧ t.quota = ⟨-m.reserved, -m.bytes, -1⟩
      ∧ t.next = { m with
          generation := t.next.generation, state := .deleted, reserved := 0, bytes := 0 } := by
  simp only [Metadata.deleted, check, bind_eq_ok, ensure_eq_ok] at h
  rcases h with ⟨_, ⟨deleting, _, _⟩, _, _, _, _, c, candidate, h⟩
  rcases candidate_ok candidate with ⟨same, expected, quota, advanced, next⟩
  cases h
  refine ⟨⟨same, advanced, ?_, ?_, ?_, ?_⟩, deleting, quota, ?_⟩
  · rw [next]
  · rw [next]
  · rw [next]
  · rw [next]
  · dsimp only
    rw [next]

theorem recoverPriorUpload_ok {m : Metadata} {t : Transition} {claim : GcClaim}
    (h : m.recoverPriorUpload = .ok (t, claim)) : Claims m t claim ∧ m.state = .uploading := by
  simp only [Metadata.recoverPriorUpload, check, bind_eq_ok, ensure_eq_ok] at h
  rcases h with ⟨_, uploading, h⟩
  exact ⟨(deleting_ok h).2, uploading⟩

theorem resumeDeletion_ok {m : Metadata} {t : Transition} {claim : GcClaim}
    (h : m.resumeDeletion = .ok (t, claim)) : Claims m t claim ∧ m.state = .deleting := by
  simp only [Metadata.resumeDeletion, check, bind_eq_ok, ensure_eq_ok] at h
  rcases h with ⟨_, deleting, h⟩
  exact ⟨(deleting_ok h).2, deleting⟩

/-! ## When a claim succeeds -/

theorem claim_exists {m : Metadata} {now : Timestamp} :
    (∃ result, m.claim m.generation now = .ok result)
      ↔ (m.state = .unreferenced ∨ m.state = .staged ∧ m.expires.millis ≤ now.millis)
        ∧ m.generation.value + 1 < 2 ^ 63 := by
  simp only [Metadata.claim, check, bind_eq_ok, ensure_eq_ok, ← deleting_exists]
  constructor
  · rintro ⟨result, _, collectable, h⟩
    exact ⟨collectable, result, h⟩
  · rintro ⟨collectable, result, h⟩
    exact ⟨result, (), collectable, h⟩

theorem claimStoppedUpload_exists {m : Metadata} {now : Timestamp} {stopped : StoppedIo} :
    (∃ result, m.claimStoppedUpload m.generation now stopped = .ok result)
      ↔ (m.state = .uploading ∧ stopped.key = m.key ∧ stopped.generation = m.generation
          ∧ (stopped.failedOrCancelled = true ∨ m.expires.millis ≤ now.millis))
        ∧ m.generation.value + 1 < 2 ^ 63 := by
  simp only [Metadata.claimStoppedUpload, check, bind_eq_ok, ensure_eq_ok, ← deleting_exists]
  constructor
  · rintro ⟨result, _, ended, h⟩
    exact ⟨ended, result, h⟩
  · rintro ⟨ended, result, h⟩
    exact ⟨result, (), ended, h⟩

theorem recoverPriorUpload_exists {m : Metadata} :
    (∃ result, m.recoverPriorUpload = .ok result)
      ↔ m.state = .uploading ∧ m.generation.value + 1 < 2 ^ 63 := by
  simp only [Metadata.recoverPriorUpload, check, bind_eq_ok, ensure_eq_ok, ← deleting_exists]
  constructor
  · rintro ⟨result, _, uploading, h⟩
    exact ⟨uploading, result, h⟩
  · rintro ⟨uploading, result, h⟩
    exact ⟨result, (), uploading, h⟩

theorem resumeDeletion_exists {m : Metadata} :
    (∃ result, m.resumeDeletion = .ok result)
      ↔ m.state = .deleting ∧ m.generation.value + 1 < 2 ^ 63 := by
  simp only [Metadata.resumeDeletion, check, bind_eq_ok, ensure_eq_ok, ← deleting_exists]
  constructor
  · rintro ⟨result, _, deleting, h⟩
    exact ⟨deleting, result, h⟩
  · rintro ⟨deleting, result, h⟩
    exact ⟨result, (), deleting, h⟩

end Blobs
end Noxide
