import Noxide.Effects.Outbox

/-!
# Outbox transactions

Capture, claim, preflight, release and finalization, and the operator's commands.  Every
transaction reads the durable watermark as its time.  A transaction that stops leaves the
tables as they were.

Main results:

- Definitions {lit}`enqueue`, {lit}`claim`, {lit}`preflight`, {lit}`releaseUnsent`,
  {lit}`finalize` and {lit}`resumeEffect`: the transactions of the outbox.
-/

namespace Noxide.Effects

open Checked

/-! ## Runtime and grants -/

/-- The runtime as one scope sees it: a scope of another deployment sees a change. -/
inductive ScopeState where
  | active
  | paused
  | changed
  deriving DecidableEq, Repr

structure ScopeRuntime where
  contract : String
  epoch : String
  state : ScopeState
  deriving DecidableEq

def scopeState (scope : EffectScope) (row : RuntimeRow) : ScopeState :=
  if row.deployment = scope.deployment then
    match row.state with
    | .active => .active
    | .paused => .paused
  else .changed

/-- The source's {lit}`OutboxContext::runtime`. -/
def scopeRuntime (scope : EffectScope) (t : EffectTables) : Result ScopeRuntime := do
  scope.validate
  let row ← lockedRuntime "effect runtime unavailable" "invalid effect runtime identity" t.runtime
  return { contract := row.contract, epoch := row.epoch, state := scopeState scope row }

section Transactions

variable (encoding : Encoding)

/-- The state of a grant's secret: its version, and whether it still covers the grant.
Without its row there is no grant. -/
def grantSecret (scope : EffectScope) (row : GrantRow) (t : EffectTables) :
    Result (Option (Int × GrantState)) :=
  match row.declaration.endpoint.secretSlot with
  | none => .ok (some (0, row.state))
  | some slot =>
      match t.secrets.filter fun secret =>
          secret.deployment = scope.deployment ∧ secret.slot = slot with
      | [] => .ok none
      | secret :: _ => do
          let version ← effectInteger secret.version
          return some (version, if secret.state ≠ .active ∨ secret.contract ≠ row.contract
            ∨ secret.epoch ≠ row.epoch then .revoked else row.state)

/-- The source's {lit}`OutboxContext::grant`. -/
def endpointGrantRow (scope : EffectScope) (endpoint : String) (t : EffectTables) :
    Result (Option (EndpointGrant × GrantState)) :=
  match t.grants.filter fun row =>
      row.deployment = scope.deployment ∧ row.tenant = scope.tenant ∧ row.endpoint = endpoint with
  | [] => .ok none
  | row :: _ => do
      let binding := row.declaration
      check "effect grant identity mismatch"
        (binding.tenant = scope.tenant ∧ binding.endpoint.name = endpoint)
      match ← grantSecret scope row t with
      | none => return none
      | some (secretVersion, state) =>
          let version ← effectInteger row.version
          let grant : EndpointGrant :=
            { scope := scope, binding := binding, contract := row.contract, epoch := row.epoch,
              version := version, secretVersion := secretVersion }
          grant.validate encoding
          return some (grant, state)

/-- The source's {lit}`endpoint_grant`. -/
def endpointGrant (scope : EffectScope) (endpoint contract : String) (t : EffectTables) :
    Result EndpointGrant := do
  let runtime ← scopeRuntime scope t
  check "effect runtime changed" (runtime.state = .active ∧ runtime.contract = contract)
  let found ← endpointGrantRow encoding scope endpoint t
  let (grant, state) ← need "endpoint not granted" found
  check "endpoint or secret grant changed"
    (state = .active ∧ grant.contract = runtime.contract ∧ grant.epoch = runtime.epoch)
  return grant

/-! ## Capture -/

def OutboxRow.isActive (row : OutboxRow) : Bool :=
  match row.state with
  | .pending | .running | .paused => true
  | .delivered | .dead | .cancelled => false

/-- {lit}`ACTIVE_COUNTS` with its row limit, and the quotas that both callers check. -/
def withinQuota (tenant : String) (t : EffectTables) : Result Unit := do
  let queue ← need "effect queue unavailable" t.queue
  let active := (t.outbox.filter (·.isActive)).take 1001
  check "effect queue full" ((active.length : Int) < queue.pendingLimit
    ∧ ((active.countP fun row => row.tenant = tenant : Nat) : Int) < queue.tenantLimit
    ∧ queue.pendingLimit ≤ 1000 ∧ queue.tenantLimit ≤ queue.pendingLimit)

/-- {lit}`ENSURE_TENANT`. -/
def ensureTenant (deployment tenant : String) (t : EffectTables) : EffectTables :=
  if t.tenants.any fun row => row.deployment = deployment ∧ row.tenant = tenant then t
  else { t with tenants := t.tenants ++ [⟨deployment, tenant, 0⟩] }

/-- {lit}`INSERT_CAPTURE`. -/
def CapturedEffect.row (capture : CapturedEffect) (now : Int) : OutboxRow where
  id := capture.id encoding
  deployment := capture.scope.deployment
  tenant := capture.scope.tenant
  origin := capture.origin
  ordinal := capture.ordinal
  endpoint := capture.endpoint
  contract := capture.contract
  epoch := capture.epoch
  grantVersion := capture.grantVersion
  secretVersion := capture.secretVersion
  payload := capture
  payloadDigest := encoding.captureDigest capture
  eligible := now
  first := now
  attempts := 0
  fence := 0
  lease := 0
  round := 0
  state := .pending
  reason := ""

/-- Idempotent admission, atomic with the originating action. -/
def enqueue (capture : CapturedEffect) (t : EffectTables) : Result EffectTables := do
  let now := t.watermark
  capture.validate encoding
  check "effect capture time changed" (capture.created = now)
  let runtime ← scopeRuntime capture.scope t
  check "effect runtime changed" (runtime.state = .active ∧ runtime.contract = capture.contract
    ∧ runtime.epoch = capture.epoch)
  check "effect queue unavailable" (t.queue.isSome = true)
  let found ← endpointGrantRow encoding capture.scope capture.endpoint t
  let (grant, state) ← need "endpoint unavailable" found
  check "effect grant changed" (state = .active ∧ grant = capture.grant)
  match t.outbox.filter fun row => row.id = capture.id encoding with
  | stored :: _ => do
      check "effect ordinal reused with different capture"
        (stored.payloadDigest = encoding.captureDigest capture)
      return t
  | [] => do
      withinQuota capture.scope.tenant t
      let t := ensureTenant capture.scope.deployment capture.scope.tenant t
      t.withOutbox (t.outbox ++ [capture.row encoding now])

/-! ## Claim -/

def TenantRow.named (row : TenantRow) (deployment tenant : String) : Bool :=
  decide (row.deployment = deployment ∧ row.tenant = tenant)

/-- The condition of {lit}`next_claimable` on one row. -/
def OutboxRow.claimable (row : OutboxRow) (generation : String) (now : Int) (active : List String)
    (t : EffectTables) : Bool :=
  decide (row.deployment = generation
    ∧ (row.state = .pending ∧ row.eligible ≤ now ∨ row.state = .running ∧ row.lease ≤ now)
    ∧ row.id ∉ active
    ∧ ∃ queue ∈ t.queue, (active.length : Int) < queue.concurrency)

/-- The claim sequence of the row's tenant. -/
def OutboxRow.claimSeq (row : OutboxRow) (t : EffectTables) : Option Int :=
  (t.tenants.find? fun tenant => tenant.named row.deployment row.tenant).map (·.claimSeq)

/-- The order of {lit}`next_claimable`. -/
def claimOrder (t : EffectTables) (a b : OutboxRow) : Bool :=
  match a.claimSeq t, b.claimSeq t with
  | some x, some y => decide (x < y ∨ x = y ∧ (a.eligible < b.eligible
      ∨ a.eligible = b.eligible ∧ a.id ≤ b.id))
  | _, _ => true

/-- The source's {lit}`next_claimable`.  Rows that other transactions hold locked are
skipped on PostgreSQL. -/
def nextClaimable (generation : String) (now : Int) (active skipped : List String)
    (t : EffectTables) : Option OutboxRow :=
  ((t.outbox.filter fun row => row.claimable generation now active t
    ∧ (row.claimSeq t).isSome = true ∧ row.id ∉ skipped).mergeSort (claimOrder t)).head?

/-- {lit}`CLAIM_CAPTURE` on one row. -/
def OutboxRow.claimed (row : OutboxRow) (fence lease : Int) : OutboxRow :=
  { row with
    state := .running
    fence := fence
    lease := lease
    attempts := if row.attempts < 5 then row.attempts + 1 else row.attempts }

/-- {lit}`ADVANCE_CLAIM_SEQUENCE` and {lit}`RECORD_TENANT_CLAIM`. -/
def advanceClaims (generation tenant directory : String) (t : EffectTables) : Result EffectTables := do
  let queue ← need "effect queue unavailable or owned by another directory"
    (t.queue.filter fun row => row.ownerDirectory = directory ∧ row.claimSeq < maxI64)
  let claimSeq := queue.claimSeq + 1
  return { t with
    queue := some { queue with claimSeq := claimSeq }
    tenants := t.tenants.map fun row =>
      if row.named generation tenant then { row with claimSeq := claimSeq } else row }

/-- Called only while the exclusive owner and a physical slot live. -/
def claim (generation expectedContract ownerDirectory : String) (active skipped : List String)
    (t : EffectTables) : Result (Option EffectClaim × EffectTables) := do
  let now := t.watermark
  check "too many active delivery slots" (active.length ≤ 2)
  let runtime ← scopeRuntime ⟨generation, ""⟩ t
  check "effect runtime paused or approval changed"
    (runtime.state = .active ∧ runtime.contract = expectedContract)
  check "effect queue unavailable or owned by another directory"
    (∃ queue ∈ t.queue, queue.ownerDirectory = ownerDirectory)
  match nextClaimable generation now active skipped t with
  | none => return (none, t)
  | some row => do
      let t ← advanceClaims generation row.tenant ownerDirectory t
      let attempts ← effectInteger row.attempts
      let old ← effectInteger row.fence
      check "effect fence exhausted" (old + 1 ≤ maxI64)
      let fence := old + 1
      let lease ← laterBy now effectLeaseMillis
      let (changed, t) ← updateOutbox (fun stored => decide (stored.id = row.id
        ∧ stored.deployment = generation ∧ stored.fence = old)) (·.claimed fence lease) t
      check "effect claim raced" (changed = 1)
      return (some { id := row.id, scope := ⟨generation, row.tenant⟩, fence := fence,
                     leaseUntil := lease, epoch := runtime.epoch,
                     exhausted := decide (maxEffectAttempts ≤ attempts) }, t)

/-! ## Preflight, release and finalization -/

inductive Finalized where
  | delivered
  | retrying (at' : Int)
  | dead
  | paused
  | superseded
  deriving DecidableEq, Repr

inductive Preflight where
  | send (captured : CapturedEffect)
  | settled (outcome : Finalized)
  deriving DecidableEq

inductive DeliveryResult where
  | delivered
  | retry (retryAfterSeconds : Option Nat)
  | terminal
  deriving DecidableEq, Repr

/-- {lit}`FINISH_RUNNING` on one row. -/
def OutboxRow.finished (row : OutboxRow) (state : EffectState) (reason : String) (eligible : Int) :
    OutboxRow :=
  { row with state := state, reason := reason, eligible := eligible, lease := 0 }

/-- The source's {lit}`transition`. -/
def transition (claim : EffectClaim) (state : EffectState) (reason : String) (eligible : Int)
    (t : EffectTables) : Result EffectTables := do
  let (changed, t) ← updateOutbox (fun row => claim.holds row && decide (row.state = .running))
    (·.finished state reason eligible) t
  check "effect finalization superseded" (changed = 1)
  return t

/-- The source's {lit}`authority`. -/
def authority (claim : EffectClaim) (row : Row) (runtime : ScopeRuntime) (t : EffectTables) :
    Result Bool := do
  match ← endpointGrantRow encoding claim.scope row.capture.endpoint t with
  | none => return false
  | some (grant, state) =>
      return decide (runtime.state = .active ∧ runtime.contract = row.contract
        ∧ runtime.epoch = row.epoch ∧ state = .active ∧ grant.contract = row.contract
        ∧ grant.epoch = row.epoch ∧ grant.version = row.version
        ∧ grant.secretVersion = row.secretVersion ∧ grant.binding = row.capture.binding)

/-- What a preflight answers where the row is no longer running. -/
def settledState : EffectState → Finalized
  | .delivered => .delivered
  | .dead => .dead
  | .paused => .paused
  | .pending | .running | .cancelled => .superseded

/-- A preflight of a row that is running under the claim. -/
def preflightRunning (claim : EffectClaim) (row : Row) (allowed : Bool) (t : EffectTables) :
    Result (Preflight × EffectTables) := do
  let now := t.watermark
  if allowed = false then
    let t ← transition claim .paused "authority_changed" (max now row.eligible) t
    return (.settled .paused, t)
  else
    let window ← laterBy row.first effectRetryWindowMillis
    if window ≤ now ∨ claim.exhausted = true then
      let t ← transition claim .dead "retry_window" (max now row.eligible) t
      return (.settled .dead, t)
    else if row.lease ≤ now then
      -- nothing was sent under this expired lease; the charged attempt stays charged
      let eligible := max now row.eligible
      let t ← transition claim .pending "lease_expired" eligible t
      return (.settled (.retrying eligible), t)
    else
      return (.send row.capture, t)

/-- Rechecks authority immediately before external I/O. -/
def preflight (claim : EffectClaim) (t : EffectTables) : Result (Preflight × EffectTables) := do
  let runtime ← scopeRuntime claim.scope t
  match ← row encoding claim false t with
  | none => return (.settled .superseded, t)
  | some preview =>
      let allowed ← authority encoding claim preview runtime t
      match ← row encoding claim true t with
      | none => return (.settled .superseded, t)
      | some row =>
          if row.state ≠ .running then return (.settled (settledState row.state), t)
          else preflightRunning claim row allowed t

/-- {lit}`RELEASE_AFTER_PREFLIGHT` on one row. -/
def OutboxRow.released (row : OutboxRow) (refund : Int) : OutboxRow :=
  { row with
    state := .pending
    reason := "preflight_unavailable"
    lease := 0
    attempts := row.attempts - refund }

/-- Returns a claim whose preflight failed before any send. -/
def releaseUnsent (claim : EffectClaim) (t : EffectTables) : Result EffectTables := do
  let (_, t) ← updateOutbox (fun row => claim.holds row && decide (row.state = .running))
    (·.released (if claim.exhausted then 0 else 1)) t
  return t

/-- {lit}`MARK_DELIVERED` on one row. -/
def OutboxRow.markDelivered (row : OutboxRow) (eligible : Int) : OutboxRow :=
  { row with state := .delivered, reason := "", lease := 0, eligible := eligible }

/-- The pause before the next attempt. -/
def retryDelay (attempts : Int) : Result Int :=
  if attempts = 1 then .ok 60000
  else if attempts = 2 then .ok 300000
  else if attempts = 3 then .ok 1800000
  else if attempts = 4 then .ok 7200000
  else .error (.message "invalid effect attempt")

/-- The source's {lit}`retry_at`. -/
def retryAt (id : String) (attempts first now : Int) (retryAfter : Option Nat) :
    Result (Option Int) := do
  let window ← laterBy first effectRetryWindowMillis
  if maxEffectAttempts ≤ attempts ∨ window ≤ now then return none
  else
    let delay ← retryDelay attempts
    let jitter : Int := (encoding.retryHash id attempts % 1001 : Nat)
    let seconds : Int := (min (retryAfter.getD 0) 86400 : Nat)
    let next ← laterBy now (max (delay + jitter) (seconds * 1000))
    return if next < window then some next else none

/-- A delivery is a known receiver observation, not permission to send: revocation,
cancellation and an expired lease cannot retract it. -/
def finalizeDelivered (claim : EffectClaim) (runtime : ScopeRuntime) (t : EffectTables) :
    Result (Finalized × EffectTables) := do
  let now := t.watermark
  match ← row encoding claim true t with
  | none => return (.superseded, t)
  | some row =>
      if runtime.state = .changed ∨ runtime.epoch ≠ claim.epoch ∨ row.epoch ≠ claim.epoch then
        return (.superseded, t)
      else
        let (changed, t) ← updateOutbox (fun stored => claim.holds stored && decide (stored.epoch = claim.epoch))
          (·.markDelivered (max now row.eligible)) t
        check "delivery observation superseded" (changed = 1)
        return (.delivered, t)

/-- A finalization that still holds the running row. -/
def finalizeRunning (claim : EffectClaim) (row : Row) (result : DeliveryResult) (t : EffectTables) :
    Result (Finalized × EffectTables) := do
  let now := t.watermark
  match result with
  | .delivered => do
      let t ← transition claim .delivered "" (max now row.eligible) t
      return (.delivered, t)
  | .terminal => do
      let t ← transition claim .dead "terminal_response" (max now row.eligible) t
      return (.dead, t)
  | .retry retryAfterSeconds => do
      match ← retryAt encoding claim.id row.attempts row.first now retryAfterSeconds with
      | some next => do
          let t ← transition claim .pending "transient" next t
          return (.retrying next, t)
      | none => do
          let t ← transition claim .dead "retry_window" (max now row.eligible) t
          return (.dead, t)

/-- The source's {lit}`finalize`. -/
def finalize (claim : EffectClaim) (result : DeliveryResult) (t : EffectTables) :
    Result (Finalized × EffectTables) := do
  let now := t.watermark
  let runtime ← scopeRuntime claim.scope t
  if result = .delivered then finalizeDelivered encoding claim runtime t
  else
    match ← row encoding claim false t with
    | none => return (.superseded, t)
    | some preview =>
        let allowed ← authority encoding claim preview runtime t
        match ← row encoding claim true t with
        | none => return (.superseded, t)
        | some row =>
            if row.state = .delivered then return (.delivered, t)
            else if row.state ≠ .running then return (.superseded, t)
            else if allowed = false ∨ row.lease ≤ now then do
              let t ← transition claim .paused "authority_changed" (max now row.eligible) t
              return (.paused, t)
            else finalizeRunning encoding claim row result t

end Transactions

/-! ## Operator commands -/

/-- The source's {lit}`lock_effect_operator`. -/
def lockEffectOperator (generation : String) (t : EffectTables) : Result RuntimeRow := do
  check "invalid effect generation" (opaqueText generation = true)
  let row ← lockedRuntime "effect runtime retired" "invalid effect runtime" t.runtime
  check "effect runtime retired" (row.deployment = generation)
  return row

/-- What {lit}`inspect_effects` reports of a row. -/
structure EffectSummary where
  id : String
  deployment : String
  tenant : String
  endpoint : String
  state : EffectState
  attempts : Int
  round : Int
  eligible : Int
  deriving DecidableEq

/-- The source's reading of one row of {lit}`LIST_CAPTURES`. -/
def effectSummary (row : OutboxRow) : Result EffectSummary := do
  let attempts ← effectInteger row.attempts
  check "out of range integral type conversion attempted" (attempts ≤ 255)
  let round ← effectInteger row.round
  let eligible ← effectInteger row.eligible
  return { id := row.id, deployment := row.deployment, tenant := row.tenant, endpoint := row.endpoint,
           state := row.state, attempts := attempts, round := round, eligible := eligible }

/-- The states that {lit}`CANCEL_CAPTURE` changes. -/
def OutboxRow.cancellable (row : OutboxRow) : Bool :=
  match row.state with
  | .pending | .running | .paused | .dead => true
  | .delivered | .cancelled => false

/-- {lit}`CANCEL_CAPTURE` on one row. -/
def OutboxRow.cancel (row : OutboxRow) : OutboxRow :=
  { row with state := .cancelled, reason := "operator_cancelled", lease := 0 }

def cancelEffect (generation id : String) (t : EffectTables) : Result EffectTables := do
  let _ ← lockEffectOperator generation t
  check "invalid effect identity" (opaqueText id = true)
  let (changed, t) ← updateOutbox (fun row => decide (row.id = id) && row.cancellable) (·.cancel) t
  check "effect unavailable for cancellation" (changed = 1)
  return t

/-- The states that every pause changes. -/
def OutboxRow.pausable (row : OutboxRow) : Bool :=
  match row.state with
  | .pending | .running => true
  | .delivered | .dead | .paused | .cancelled => false

def OutboxRow.pause (row : OutboxRow) (reason : String) : OutboxRow :=
  { row with state := .paused, reason := reason, lease := 0 }

/-- The source's {lit}`PAUSE_ENDPOINT`; {lit}`PAUSE_REVOKED_ENDPOINT` and
{lit}`PAUSE_CHANGED_ENDPOINT` fix its reason. -/
def pauseEndpoint (reason tenant endpoint : String) (t : EffectTables) : Result EffectTables := do
  let (_, t) ← updateOutbox (fun row => decide (row.tenant = tenant ∧ row.endpoint = endpoint)
    && row.pausable) (·.pause reason) t
  return t

/-- The source's {lit}`pause_effects_for_epoch`. -/
def pauseEffectsForEpoch (t : EffectTables) : Result EffectTables := do
  let (_, t) ← updateOutbox (·.pausable) (·.pause "runtime_changed") t
  return { t with
    grants := t.grants.map fun row =>
      if row.state = .active then { row with state := .revoked } else row
    secrets := t.secrets.map fun row =>
      if row.state = .active then { row with state := .revoked } else row }

def GrantRow.named (row : GrantRow) (deployment tenant endpoint : String) : Bool :=
  decide (row.deployment = deployment ∧ row.tenant = tenant ∧ row.endpoint = endpoint
    ∧ row.version < maxI64)

/-- Change the one grant row that satisfies the condition. -/
def updateGrant (text : String) (condition : GrantRow → Bool) (change : GrantRow → GrantRow)
    (t : EffectTables) : Result EffectTables := do
  check text (t.grants.countP condition = 1)
  return { t with grants := Table.update condition change t.grants }

/-- Change the one secret row of a slot. -/
def updateSecret (deployment slot : String) (change : SecretRow → SecretRow) (t : EffectTables) :
    Result EffectTables := do
  let condition : SecretRow → Bool := fun row =>
    decide (row.deployment = deployment ∧ row.slot = slot ∧ row.version < maxI64)
  check "secret grant missing" (t.secrets.countP condition = 1)
  return { t with secrets := Table.update condition change t.secrets }

def revokeEffectEndpoint (generation tenant endpoint : String) (t : EffectTables) :
    Result EffectTables := do
  let _ ← lockEffectOperator generation t
  let t ← updateGrant "endpoint grant missing" (·.named generation tenant endpoint)
    (fun row => { row with state := .revoked, version := row.version + 1 }) t
  pauseEndpoint "endpoint_revoked" tenant endpoint t

/-- Pause the captures of every grant that uses the slot. -/
def pauseGrants (slot reason : String) : List GrantRow → EffectTables → Result EffectTables
  | [], t => .ok t
  | row :: rest, t => do
      if row.declaration.endpoint.secretSlot = some slot then
        let t ← pauseEndpoint reason row.tenant row.endpoint t
        pauseGrants slot reason rest t
      else pauseGrants slot reason rest t

/-- The source's {lit}`pause_effect_secret_rows`. -/
def pauseEffectSecretRows (generation slot reason : String) (t : EffectTables) :
    Result EffectTables := do
  let rows := (t.grants.filter fun row => row.deployment = generation).mergeSort
    fun a b => a.tenant < b.tenant ∨ a.tenant = b.tenant ∧ a.endpoint ≤ b.endpoint
  check "effect grant limit" (rows.length ≤ 64)
  pauseGrants slot reason rows t

def revokeEffectSecret (generation slot : String) (t : EffectTables) : Result EffectTables := do
  let _ ← lockEffectOperator generation t
  let t ← updateSecret generation slot
    (fun row => { row with state := .revoked, version := row.version + 1 }) t
  pauseEffectSecretRows generation slot "secret_revoked" t

/-- The approved deployment that commands are checked against. -/
structure EffectiveEffectDeployment where
  grants : List EffectiveEffectGrant
  contract : EffectContract
  secretSlots : List String

def grantEffectEndpoint (generation contract : String) (binding : EffectiveEffectGrant)
    (t : EffectTables) : Result EffectTables := do
  let runtime ← lockEffectOperator generation t
  check "effect approval changed" (runtime.contract = contract)
  let t ← updateGrant "endpoint is not currently approved"
    (fun row => row.named generation binding.tenant binding.endpoint.name
      && decide (row.declaration = binding))
    (fun row => { row with state := .active, version := row.version + 1, contract := contract,
                           epoch := runtime.epoch }) t
  let t ← pauseEndpoint "grant_changed" binding.tenant binding.endpoint.name t
  return { t with runtime := { t.runtime with
    runtime := t.runtime.runtime.map fun row => { row with state := .active } } }

def grantEffectSecret (generation contract slot : String) (effective : EffectiveEffectDeployment)
    (t : EffectTables) : Result EffectTables := do
  let runtime ← lockEffectOperator generation t
  check "secret slot is not currently approved"
    (runtime.contract = contract ∧ slot ∈ effective.secretSlots)
  let t ← updateSecret generation slot
    (fun row => { row with state := .active, version := row.version + 1, contract := contract,
                           epoch := runtime.epoch }) t
  pauseEffectSecretRows generation slot "grant_changed" t

section Reschedule

variable (encoding : Encoding)

/-- The source's {lit}`effect_operator_source`. -/
def effectOperatorSource (generation id : String) (t : EffectTables) : Result CapturedEffect := do
  let _ ← lockEffectOperator generation t
  check "invalid effect identity" (opaqueText id = true)
  let row ← need "effect missing" (t.outbox.find? fun row => row.id = id)
  check "payload is NULL" (encoding.captureBytes row.payload ≤ maxCaptureBytes)
  row.payload.validate encoding
  check "effect source mismatch" (row.payload.id encoding = id
    ∧ encoding.captureDigest row.payload = row.payloadDigest)
  return row.payload

/-- {lit}`RESCHEDULE_CAPTURE` on one row. -/
def OutboxRow.rescheduled (row : OutboxRow) (generation contract : String) (grant : EndpointGrant)
    (eligible first attempts round : Int) : OutboxRow :=
  { row with
    deployment := generation
    contract := contract
    epoch := grant.epoch
    grantVersion := grant.version
    secretVersion := grant.secretVersion
    state := .pending
    reason := ""
    eligible := eligible
    first := first
    attempts := attempts
    lease := 0
    round := round
    fence := row.fence + 1 }

/-- The grant that a reconciled capture continues under: the disclosure and its
destination must be unchanged. -/
def currentGrant (generation contract : String) (effective : EffectiveEffectDeployment)
    (source : CapturedEffect) (currentSourceVersion : Nat) (t : EffectTables) :
    Result EndpointGrant := do
  check "effect source action version changed" (source.sourceActionVersion = currentSourceVersion)
  let emission ← need "effect disclosure no longer declared"
    (effective.contract.emissions.find? fun e =>
      e.sourceAction = source.sourceAction ∧ e.ordinal = source.ordinal)
  check "effect disclosure changed" (encoding.emissionDigest emission = source.schemaDigest)
  let binding ← need "effect endpoint no longer approved"
    (effective.grants.find? fun b =>
      b.tenant = source.scope.tenant ∧ b.endpoint.name = source.binding.endpoint.name)
  check "effect destination changed" (binding = source.binding)
  endpointGrant encoding ⟨generation, source.scope.tenant⟩ binding.endpoint.name contract t

/-- Which states an operator may resume or retry. -/
def eligibleState (retry : Bool) (state : EffectState) : Bool :=
  if retry then decide (state = .dead ∨ state = .paused) else decide (state = .paused)

/-- The first eligible time and the attempts that a capture continues with: a retry opens
a round of its own, a resume stays within the automatic allowance. -/
def continued (retry : Bool) (row : OutboxRow) (now : Int) : Result (Int × Int) := do
  if retry then return (now, 0)
  else
    let attempts ← effectInteger row.attempts
    let first ← effectInteger row.first
    let window ← laterBy first effectRetryWindowMillis
    check "effect automatic retry allowance exhausted; explicit retry required"
      (attempts < 5 ∧ now < window)
    return (first, attempts)

/-- The source's {lit}`check_operator_quota`. -/
def checkOperatorQuota (tenant : String) (increment : Bool) (t : EffectTables) : Result Unit := do
  check "effect queue unavailable" (t.queue.isSome = true)
  if increment then withinQuota tenant t

/-- Explicit current-authority reconciliation changes only the mutable envelope. -/
def resumeEffect (generation contract : String) (effective : EffectiveEffectDeployment) (id : String)
    (currentSourceVersion : Nat) (retry : Bool) (t : EffectTables) : Result EffectTables := do
  let now := t.watermark
  let source ← effectOperatorSource encoding generation id t
  let grant ← currentGrant encoding generation contract effective source currentSourceVersion t
  let row ← need "effect missing" (t.outbox.find? fun row => row.id = id)
  check "effect not eligible for operator retry/resume" (eligibleState retry row.state = true)
  let (first, attempts) ← continued retry row now
  let round ← effectInteger row.round
  check "effect retry round exhausted" (round + (if retry then 1 else 0) ≤ maxI64)
  checkOperatorQuota source.scope.tenant (decide (row.state ≠ .paused)) t
  let t := ensureTenant generation source.scope.tenant t
  let (changed, t) ← updateOutbox (fun stored => decide (stored.id = id ∧ stored.fence < maxI64))
    (·.rescheduled generation contract grant now first attempts
      (round + if retry then 1 else 0)) t
  check "effect fence exhausted" (changed = 1)
  return t

end Reschedule

end Noxide.Effects
