import Noxide.Library.Table
import Noxide.Protocol.Manifest
import Noxide.Store.Runtime

/-!
# Captured effects and the outbox

A captured effect is an immutable disclosure to a granted endpoint.  Its outbox row
carries the mutable envelope: state, attempts, fence, lease and times.  This module
gives the captures, the tables and what a worker reads of them.

JSON columns hold the value that their text decodes to.  Hashes, the size of the
encoded capture and the checks on its JSON body are parameters.

Main results:

- Theorem {lit}`readRow_ok`: which rows are read back without complaint.
-/

namespace Noxide.Effects

open Checked

/-! ## Limits -/

def maxCaptureBytes : Nat := 196608

def maxEffectsPerAction : Nat := 2

def maxPayloadFields : Nat := 32

def maxEffectBodyBytes : Nat := 65536

def maxEffectAttempts : Int := 5

def effectRetryWindowMillis : Int := 24 * 60 * 60 * 1000

def effectLeaseMillis : Int := 60000

def maxEffectConcurrency : Nat := 2

/-! ## Captures -/

structure EffectScope where
  deployment : String
  tenant : String
  deriving DecidableEq, Repr

def EffectScope.validate (scope : EffectScope) : Result Unit :=
  check "invalid effect scope" (opaqueText scope.deployment = true
    ∧ (scope.tenant = "" ∨ identifier scope.tenant = true))

structure EffectiveEffectGrant where
  tenant : String
  endpoint : EffectEndpoint
  host : String
  port : Nat
  path : String
  deriving DecidableEq, Repr

structure EndpointGrant where
  scope : EffectScope
  binding : EffectiveEffectGrant
  contract : String
  epoch : String
  version : Int
  secretVersion : Int
  deriving DecidableEq, Repr

structure CapturedEffect where
  scope : EffectScope
  origin : String
  ordinal : Nat
  sourceAction : Nat
  sourceActionVersion : Nat
  contract : String
  epoch : String
  grantVersion : Int
  secretVersion : Int
  binding : EffectiveEffectGrant
  schemaDigest : String
  fields : List Input
  body : String
  created : Int
  deriving DecidableEq, Repr

/-- The pure functions of a capture that rest on JSON and SHA-256, and the address
check of the transport. -/
structure Encoding where
  /-- The digest of the capture's identity: its scope, origin and ordinal. -/
  identityDigest : EffectScope → String → Nat → String
  captureDigest : CapturedEffect → String
  emissionDigest : EmitEffect → String
  /-- The bytes of the encoded capture. -/
  captureBytes : CapturedEffect → Nat
  /-- The body is a canonical JSON object of the declared fields. -/
  bodyAccepted : List Input → String → Bool
  /-- The transport accepts the endpoint's address. -/
  addressAccepted : String → Nat → String → Bool
  /-- The first two digest bytes of identity and attempt. -/
  retryHash : String → Int → Nat

section Captures

variable (encoding : Encoding)

def EndpointGrant.validate (grant : EndpointGrant) : Result Unit := do
  grant.scope.validate
  check "invalid endpoint grant" (grant.scope.tenant = grant.binding.tenant
    ∧ opaqueText grant.contract = true ∧ opaqueText grant.epoch = true ∧ 0 < grant.version
    ∧ if grant.binding.endpoint.secretSlot.isSome = true then 0 < grant.secretVersion
      else grant.secretVersion = 0)
  check "invalid endpoint identity" (identifier grant.binding.endpoint.name = true
    ∧ ∀ slot ∈ grant.binding.endpoint.secretSlot, identifier slot = true)
  check "invalid granted endpoint" (encoding.addressAccepted grant.binding.host grant.binding.port
    grant.binding.path = true)

def CapturedEffect.grant (capture : CapturedEffect) : EndpointGrant where
  scope := capture.scope
  binding := capture.binding
  contract := capture.contract
  epoch := capture.epoch
  version := capture.grantVersion
  secretVersion := capture.secretVersion

def CapturedEffect.validate (capture : CapturedEffect) : Result Unit := do
  capture.scope.validate
  check "invalid effect capture identity" (capture.origin ≠ "" ∧ capture.origin.utf8ByteSize ≤ 128
    ∧ ¬ '\x00' ∈ capture.origin.toList ∧ capture.ordinal < maxEffectsPerAction
    ∧ 0 < capture.sourceAction ∧ 0 < capture.sourceActionVersion
    ∧ opaqueText capture.schemaDigest = true)
  capture.grant.validate encoding
  check "effect body limit" (capture.body.utf8ByteSize ≤ maxEffectBodyBytes
    ∧ ¬ '\x00' ∈ capture.body.toList)
  check "noncanonical captured JSON object" (encoding.bodyAccepted capture.fields capture.body = true)
  check "effect capture limit" (encoding.captureBytes capture ≤ maxCaptureBytes)

/-- Immutable identity, independent of grant changes, rounds, epoch or fence. -/
def CapturedEffect.id (capture : CapturedEffect) : String :=
  "e1_" ++ encoding.identityDigest capture.scope capture.origin capture.ordinal

def CapturedEffect.receiverKey (capture : CapturedEffect) : String :=
  capture.id encoding

def CapturedEffect.endpoint (capture : CapturedEffect) : String :=
  capture.binding.endpoint.name

end Captures

/-! ## Tables -/

inductive EffectState where
  | pending
  | running
  | delivered
  | dead
  | paused
  | cancelled
  deriving DecidableEq, Repr

structure OutboxRow where
  id : String
  deployment : String
  tenant : String
  origin : String
  ordinal : Nat
  endpoint : String
  contract : String
  epoch : String
  grantVersion : Int
  secretVersion : Int
  payload : CapturedEffect
  payloadDigest : String
  eligible : Int
  first : Int
  attempts : Int
  fence : Int
  lease : Int
  round : Int
  state : EffectState
  reason : String
  deriving DecidableEq

inductive GrantState where
  | active
  | revoked
  deriving DecidableEq, Repr

structure GrantRow where
  deployment : String
  tenant : String
  endpoint : String
  version : Int
  contract : String
  epoch : String
  state : GrantState
  declaration : EffectiveEffectGrant
  deriving DecidableEq

structure SecretRow where
  deployment : String
  slot : String
  version : Int
  contract : String
  epoch : String
  state : GrantState
  deriving DecidableEq

structure TenantRow where
  deployment : String
  tenant : String
  claimSeq : Int
  deriving DecidableEq

structure QueueRow where
  claimSeq : Int
  storeId : String
  ownerDirectory : String
  pendingLimit : Int
  tenantLimit : Int
  concurrency : Int
  deriving DecidableEq

/-- The tables that effects use, with the durable watermark of lifecycle time. -/
structure EffectTables where
  runtime : RuntimeTables
  watermark : Int
  queue : Option QueueRow
  tenants : List TenantRow
  grants : List GrantRow
  secrets : List SecretRow
  outbox : List OutboxRow
  deriving DecidableEq

/-- The column checks of {lit}`nx_outbox` on the mutable envelope. -/
structure OutboxRow.Checked (row : OutboxRow) : Prop where
  contract : opaqueText row.contract = true
  epoch : opaqueText row.epoch = true
  version : 1 ≤ row.grantVersion
  secret : 0 ≤ row.secretVersion
  eligible : 0 ≤ row.eligible
  first : 0 ≤ row.first
  attempts : 0 ≤ row.attempts ∧ row.attempts ≤ 5
  fence : 0 ≤ row.fence
  lease : 0 ≤ row.lease
  round : 0 ≤ row.round

instance (row : OutboxRow) : Decidable row.Checked :=
  decidable_of_iff (opaqueText row.contract = true ∧ opaqueText row.epoch = true
    ∧ 1 ≤ row.grantVersion ∧ 0 ≤ row.secretVersion ∧ 0 ≤ row.eligible ∧ 0 ≤ row.first
    ∧ (0 ≤ row.attempts ∧ row.attempts ≤ 5) ∧ 0 ≤ row.fence ∧ 0 ≤ row.lease ∧ 0 ≤ row.round)
    ⟨fun ⟨a, b, c, d, e, f, g, h, i, j⟩ => ⟨a, b, c, d, e, f, g, h, i, j⟩,
      fun ⟨a, b, c, d, e, f, g, h, i, j⟩ => ⟨a, b, c, d, e, f, g, h, i, j⟩⟩

/-- The primary key, the unique index and the column checks of {lit}`nx_outbox`. -/
structure Constrained (outbox : List OutboxRow) : Prop where
  ids : (outbox.map (·.id)).Nodup
  captures : (outbox.map fun row => (row.deployment, row.tenant, row.origin, row.ordinal)).Nodup
  rows : ∀ row ∈ outbox, row.Checked

instance (outbox : List OutboxRow) : Decidable (Constrained outbox) :=
  decidable_of_iff ((outbox.map (·.id)).Nodup
    ∧ (outbox.map fun row => (row.deployment, row.tenant, row.origin, row.ordinal)).Nodup
    ∧ ∀ row ∈ outbox, row.Checked)
    ⟨fun ⟨a, b, c⟩ => ⟨a, b, c⟩, fun ⟨a, b, c⟩ => ⟨a, b, c⟩⟩

/-- Replace the outbox, within its constraints. -/
def EffectTables.withOutbox (t : EffectTables) (outbox : List OutboxRow) : Result EffectTables := do
  check "constraint failed" (Constrained outbox)
  return { t with outbox := outbox }

/-- An {lit}`UPDATE nx_outbox`, with the number of rows it changed. -/
def updateOutbox (condition : OutboxRow → Bool) (change : OutboxRow → OutboxRow)
    (t : EffectTables) : Result (Nat × EffectTables) := do
  let t' ← t.withOutbox (Table.update condition change t.outbox)
  return (t.outbox.countP condition, t')

/-! ## What a worker reads -/

/-- A claim that a worker holds. -/
structure EffectClaim where
  id : String
  scope : EffectScope
  fence : Int
  leaseUntil : Int
  epoch : String
  exhausted : Bool
  deriving DecidableEq

/-- A row as {lit}`row` returns it. -/
structure Row where
  capture : CapturedEffect
  state : EffectState
  attempts : Int
  first : Int
  eligible : Int
  epoch : String
  contract : String
  version : Int
  secretVersion : Int
  lease : Int
  deriving DecidableEq

/-- {lit}`WHERE id AND deployment AND tenant AND fence` of a claim. -/
def EffectClaim.holds (claim : EffectClaim) (row : OutboxRow) : Bool :=
  decide (row.id = claim.id ∧ row.deployment = claim.scope.deployment
    ∧ row.tenant = claim.scope.tenant ∧ row.fence = claim.fence)

def effectInteger (value : Int) : Result Int :=
  integerColumn "noncanonical effect integer" value

/-- The shape of a row by its state. -/
def Row.shape (row : Row) (claim : EffectClaim) : Bool :=
  match row.state with
  | .running => decide (0 < row.attempts ∧ row.lease = claim.leaseUntil ∧ 0 < claim.fence)
  | .pending => decide (row.attempts < 5 ∧ row.lease = 0)
  | .delivered | .dead | .paused | .cancelled => decide (row.lease = 0)

section Reading

variable (encoding : Encoding)

/-- The checks of {lit}`row` on the columns it read. -/
def readRow (claim : EffectClaim) (columns : OutboxRow) : Result Row := do
  check "payload is NULL" (encoding.captureBytes columns.payload ≤ maxCaptureBytes)
  let capture := columns.payload
  capture.validate encoding
  let ordinal ← effectInteger columns.ordinal
  let fence ← effectInteger columns.fence
  check "effect capture storage mismatch" (capture.id encoding = claim.id
    ∧ encoding.captureDigest capture = columns.payloadDigest
    ∧ capture.scope.tenant = claim.scope.tenant ∧ capture.origin = columns.origin
    ∧ (capture.ordinal : Int) = ordinal ∧ capture.endpoint = columns.endpoint
    ∧ fence = claim.fence)
  let attempts ← effectInteger columns.attempts
  let first ← effectInteger columns.first
  let eligible ← effectInteger columns.eligible
  let version ← effectInteger columns.grantVersion
  let secretVersion ← effectInteger columns.secretVersion
  let lease ← effectInteger columns.lease
  let row : Row :=
    { capture := capture, state := columns.state, attempts := attempts, first := first,
      eligible := eligible, epoch := columns.epoch, contract := columns.contract,
      version := version, secretVersion := secretVersion, lease := lease }
  check "invalid effect attempt metadata" (row.attempts ≤ 5 ∧ row.first ≤ row.eligible
    ∧ row.capture.created ≤ row.first ∧ opaqueText row.contract = true
    ∧ opaqueText row.epoch = true ∧ 0 < row.version)
  check "invalid effect state shape" (row.shape claim = true)
  return row

/-- The columns as {lit}`row` returns them. -/
def OutboxRow.read (columns : OutboxRow) : Row where
  capture := columns.payload
  state := columns.state
  attempts := columns.attempts
  first := columns.first
  eligible := columns.eligible
  epoch := columns.epoch
  contract := columns.contract
  version := columns.grantVersion
  secretVersion := columns.secretVersion
  lease := columns.lease

/-- The stored capture is the one the row's key columns name. -/
structure OutboxRow.Captured (columns : OutboxRow) : Prop where
  bytes : encoding.captureBytes columns.payload ≤ maxCaptureBytes
  valid : columns.payload.validate encoding = .ok ()
  id : columns.payload.id encoding = columns.id
  digest : encoding.captureDigest columns.payload = columns.payloadDigest
  tenant : columns.payload.scope.tenant = columns.tenant
  origin : columns.payload.origin = columns.origin
  ordinal : columns.payload.ordinal = columns.ordinal
  endpoint : columns.payload.endpoint = columns.endpoint

/-- The times of a row are in order and the attempts within the maximum. -/
structure OutboxRow.Ordered (columns : OutboxRow) : Prop where
  attempts : columns.attempts ≤ 5
  eligible : columns.first ≤ columns.eligible
  first : columns.payload.created ≤ columns.first
  contract : opaqueText columns.contract = true
  epoch : opaqueText columns.epoch = true
  version : 0 < columns.grantVersion

/-- A selected row is read back exactly when it stores its capture, its metadata is in
order and it has the shape of its state. -/
theorem readRow_ok {claim : EffectClaim} {columns : OutboxRow} {row : Row}
    (checked : columns.Checked) (selected : claim.holds columns = true) :
    readRow encoding claim columns = .ok row ↔ columns.Captured encoding ∧ columns.Ordered
      ∧ columns.read.shape claim = true ∧ row = columns.read := by
  simp only [EffectClaim.holds, decide_eq_true_eq] at selected
  rcases selected with ⟨id, deployment, tenant, fence⟩
  simp only [readRow, effectInteger, bind_eq_ok, ensure_eq_ok, integerColumn_ok]
  constructor
  · rintro ⟨_, bytes, _, valid, ordinal, ⟨_, rfl⟩, _, ⟨_, rfl⟩, _, ⟨same, digest, tenant', origin,
      ordinal', endpoint, _⟩, _, ⟨_, rfl⟩, _, ⟨_, rfl⟩, _, ⟨_, rfl⟩, _, ⟨_, rfl⟩, _, ⟨_, rfl⟩,
      _, ⟨_, rfl⟩, _, ⟨attempts, eligible, first, contract, epoch, version⟩, _, shape, h⟩
    cases h
    refine ⟨⟨bytes, valid, same.trans id.symm, digest, tenant'.trans tenant.symm, origin, ?_, endpoint⟩,
      ⟨attempts, eligible, first, contract, epoch, version⟩, shape, rfl⟩
    exact Int.ofNat.inj ordinal'
  · rintro ⟨captured, ordered, shape, rfl⟩
    refine ⟨(), captured.bytes, (), captured.valid, _, ⟨Int.natCast_nonneg _, rfl⟩, _,
      ⟨checked.fence, rfl⟩, (), ⟨captured.id.trans id, captured.digest, captured.tenant.trans tenant,
        captured.origin, by rw [captured.ordinal], captured.endpoint, fence⟩,
      _, ⟨checked.attempts.1, rfl⟩, _, ⟨checked.first, rfl⟩, _, ⟨checked.eligible, rfl⟩,
      _, ⟨by have := checked.version; omega, rfl⟩, _, ⟨checked.secret, rfl⟩, _,
      ⟨checked.lease, rfl⟩, (), ⟨ordered.attempts, ordered.eligible, ordered.first, ordered.contract,
        ordered.epoch, ordered.version⟩, (), shape, rfl⟩

/-- The source's {lit}`row`, which its lock leaves unchanged. -/
def row (claim : EffectClaim) (lock : Bool) (t : EffectTables) : Result (Option Row) :=
  if lock = true ∧ t.outbox.countP claim.holds = 0 then .ok none
  else
    match t.outbox.filter claim.holds with
    | [] => .ok none
    | columns :: _ => do
        let read ← readRow encoding claim columns
        return some read

end Reading

end Noxide.Effects
