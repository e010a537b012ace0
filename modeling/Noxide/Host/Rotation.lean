import Noxide.Authority.Capability
import Noxide.Authority.Evaluate
import Noxide.Host.Submission
import Noxide.Http.Links
import Noxide.Repository.Computation
import Noxide.Store.Edits

/-!
# Capability rotation

One rotation of an edit secret against the committed database: admission, the claim of its
receipt, the proof of the current secret and the advance of the capability version, or the
replay of an earlier rotation, and the handover page.

Main results:

- Theorem {lit}`editHandover_shows`: a page with a secret names the current version and
  incarnation of its record.
- Theorem {lit}`prepareRotation_cases`: a rotation fails, replays its receipt and writes no
  record, or moves the proven version of one record on under a fresh receipt.
-/

namespace Noxide

open Checked

/-! ## Receipts and pages -/

structure EditReceipt where
  resource : Nat
  id : Nat
  incarnation : String
  capVersion : Nat
  keyId : Nat
  deriving DecidableEq, Repr

/-- The JSON of a receipt, its size for record fields, and SHA-256 over the JSON of the version
and the resource, record and secret of a request. -/
structure RotationCodec where
  print : EditReceipt → String
  parse : String → Option EditReceipt
  parse_print : ∀ receipt, parse (print receipt) = some receipt
  fieldsBytes : Fields → Nat
  digest : Nat → Nat → Nat → String → String

inductive RotationPage where
  | handover (secret link : Option String)
  | success
  deriving DecidableEq, Repr

/-- A submitted rotation form. -/
structure RotationForm where
  resource : Nat
  id : Nat
  cookie : String
  csrf : String
  submission : String
  secret : String

/-- One rotation attempt's verified identity and target. -/
structure RotationClaim where
  nonce : String
  subject : String
  input : String
  secret : String
  resource : Nat
  id : Nat
  target : RecordTarget
  expires : Int

/-- A rotation that committed. -/
structure Rotation where
  nonce : String
  subject : String
  input : String
  storage : Nat
  id : Nat
  version : Nat
  expires : Int
  scope : String

def Rotation.key (rotation : Rotation) : Nat × Nat := (rotation.storage, rotation.id)

/-- What a rotation depends on outside its own logic: what a submission does, and the time that
records expire by. -/
structure RotationConditions extends Conditions AuthorityTables where
  time : AuthorityTables → Answered (Option Int)

/-- What the host brings to rotations: its codecs. -/
structure RotationHost where
  url : FormUrlencoded
  secrets : EditCodec
  receipts : RotationCodec

section Attempt

variable (host : RotationHost) (app : Application) (keys : EditKeys)
  (conditions : RotationConditions)

/-! ## Records -/

/-- The source's {lit}`repository::load`. -/
def load (tables : AuthorityTables) (resource id : Nat) : Result (Option StoredRecord) := do
  check "invalid resource target" (0 < id ∧ id ≤ i64Max)
  let storage ← storageResource tables app.manifest resource
  match tables.records.find? fun row => row.resource = storage ∧ row.id = id with
  | none => return none
  | some row => do
      check "UnexpectedNullError"
        (host.receipts.fieldsBytes row.fields ≤ 20000 ∧ row.incarnation.utf8ByteSize ≤ 64)
      validateFields (← app.manifest.resource resource) row.fields
      check "invalid record metadata" (0 < row.revision ∧ row.incarnation ≠ "")
      return some {
        record := ⟨resource, id, row.fields⟩
        owner := row.ownerText
        tenant := row.tenant
        incarnation := row.incarnation
        revision := row.revision
        capVersion := row.capVersion.map Int.ofNat }

def capabilityRoute (resource : Nat) : Answered Nat :=
  needRequest ((app.manifest.routes.find? fun route => route.resource = some resource).map (·.id))

/-! ## The handover -/

def capabilityHandover (secret link : Option String) : Answered RotationPage := do
  ensure Fault.internal (conditions.renders = true)
  return .handover secret link

/-- The secret of a receipt, while its version and incarnation are the current ones. -/
def editHandover (tables : AuthorityTables) (receipt : EditReceipt) (route : Option Nat) :
    Answered RotationPage := do
  let record ← asInternal (load host app tables receipt.resource receipt.id)
  match record with
  | none => capabilityHandover conditions none none
  | some record =>
      if record.incarnation = receipt.incarnation ∧ receipt.capVersion ≠ 0
          ∧ record.capVersion = some (receipt.capVersion : Int) then do
        let storage ← asInternal (storageResource tables app.manifest receipt.resource)
        ensure Fault.internal (storage ≤ u32Max)
        match editSecret host.secrets keys receipt.keyId storage receipt.id receipt.capVersion with
        | .error _ => capabilityHandover conditions none none
        | .ok secret => do
            let link ← route.mapM fun route =>
              asInternal (resolve host.url app.manifest ⟨∅, route, some receipt.id⟩)
            capabilityHandover conditions (some secret) link
      else capabilityHandover conditions none none

/-! ## The attempt -/

/-- The checks of a rotation before its claim. -/
def admitRotation (form : RotationForm) (now : Int) : Answered RotationClaim := do
  let anonymous ← asRequest .invalidRequest (app.keys.anonymous form.cookie now)
  checkRequest (app.keys.csrfMatches anonymous.nonce form.csrf = true)
  let token ← asRequest .invalidRequest (app.keys.verify form.submission now)
  match token.kind with
  | .anonymousSubmission scope => do
      checkRequest (scope.action = 0 ∧ scope.version = 1)
      checkRequest (scope.targets.length = 1)
      let target ← needRequest (scope.targets.lookup "target")
      checkRequest (scope.contract = app.submissionContract ∧ token.subject = anonymous.nonce
        ∧ target.resource = form.resource ∧ target.id = form.id)
      let route ← capabilityRoute app form.resource
      checkRequest (some route = target.route)
      checkRequest (form.secret.utf8ByteSize ≤ 128)
      return {
        nonce := token.nonce
        subject := anonymous.nonce
        input := host.receipts.digest protocolVersion form.resource form.id form.secret
        secret := form.secret
        resource := form.resource
        id := form.id
        target := target
        expires := token.expires }
  | _ => .error (.request .invalidRequest)

/-- The receipt that {lit}`CLAIM_CAPABILITY_RECEIPT` inserts. -/
def RotationClaim.receipt (claim : RotationClaim) : Receipt where
  nonce := claim.nonce
  subject := claim.subject
  contract := app.contract
  action := 0
  input := claim.input
  outcome := ""
  expires := claim.expires

/-- A claim that already exists must be this visitor's identical request. -/
def verifyRotationReceipt (receipts : Receipts) (claim : RotationClaim) : Answered EditReceipt := do
  let row ← needRequest (receipts.find? claim.nonce)
  ensure Fault.internal (row.outcome.utf8ByteSize ≤ 1024)
  checkRequest (row.subject = claim.subject ∧ row.contract = app.contract ∧ row.input = claim.input)
  let receipt ← context Fault.internal (host.receipts.parse row.outcome)
  checkRequest (receipt.resource = claim.resource ∧ receipt.id = claim.id
    ∧ receipt.incarnation = claim.target.incarnation)
  return receipt

/-- Prove the secret against the current row, then move its capability version on. -/
def advanceCapability (claim : RotationClaim) (tx : Database AuthorityTables) :
    Answered (Database AuthorityTables × EditReceipt × Rotation) := do
  let time ← conditions.time tx.records
  let stored ← needRequest (← asInternal (load host app tx.records claim.resource claim.id))
  checkRequest (stored.incarnation = claim.target.incarnation)
  let resource ← asInternal (app.manifest.resource claim.resource)
  let unexpired ← asInternal (available resource stored.record.fields time)
  checkRequest (unexpired = true)
  let current ← needRequest stored.capVersion
  let storage ← asInternal (storageResource tx.records app.manifest claim.resource)
  ensure Fault.internal (storage ≤ u32Max)
  asRequest .invalidRequest (verifyEdit host.secrets keys claim.secret storage claim.id current)
  ensure (Fault.request .rejected) (current < i64Max)
  let next := current.toNat + 1
  let (changed, rows) := advanceCapabilityVersion next storage claim.id current.toNat tx.records.records
  ensure Fault.internal (changed = 1)
  let keyId ← asInternal (signingEditKey keys)
  let receipt : EditReceipt := ⟨claim.resource, claim.id, stored.incarnation, next, keyId⟩
  return (
    { tx with
      records := { tx.records with records := rows }
      receipts := tx.receipts.setOutcome (host.receipts.print receipt) claim.nonce },
    receipt,
    ⟨claim.nonce, claim.subject, claim.input, storage, claim.id, next, claim.expires,
      app.submissionContract⟩)

/-- A prepared rotation.  {lit}`receiptCommit` says that a verified receipt proves that an
earlier rotation committed. -/
inductive PreparedRotation where
  | failed (fault : Fault) (receiptCommit : Bool)
  | ready (tx : Database AuthorityTables) (rotation : Option Rotation) (page : RotationPage)
      (receiptCommit : Bool)

/-- A rotation whose receipt is claimed already. -/
def replayRotation (claim : RotationClaim) (tx : Database AuthorityTables) : PreparedRotation :=
  match verifyRotationReceipt host app tx.receipts claim with
  | .error fault => .failed fault false
  | .ok receipt =>
      match editHandover host app keys conditions tx.records receipt claim.target.route with
      | .error fault => .failed fault true
      | .ok page => .ready tx none page true

/-- A rotation that claimed its receipt. -/
def freshRotation (claim : RotationClaim) (tx : Database AuthorityTables) : PreparedRotation :=
  match advanceCapability host app keys conditions claim tx with
  | .error fault => .failed fault false
  | .ok (tx, receipt, rotation) =>
      match editHandover host app keys conditions tx.records receipt claim.target.route with
      | .error fault => .failed fault false
      | .ok page => .ready tx (some rotation) page false

/-- {lit}`prepare_rotation`: one transaction up to its commit, and the clock memory
afterwards. -/
def prepareRotation (form : RotationForm) (memory : Int) (db : Database AuthorityTables) :
    Int × PreparedRotation :=
  match observeNow app conditions.toConditions memory db with
  | (memory, .error fault) => (memory, .failed fault false)
  | (memory, .ok (tx, now)) =>
      (memory,
        match admitRotation host app form now with
        | .error fault => .failed fault false
        | .ok claim =>
            let (claimed, receipts) := tx.receipts.claim (claim.receipt app)
            if claimed = 0 then replayRotation host app keys conditions claim tx
            else freshRotation host app keys conditions claim { tx with receipts := receipts })

end Attempt

/-! ## The commit and the retry loop -/

inductive RotationNext where
  | answer (result : Except RequestError RotationPage)
  | again

/-- The answer once the commit has ended. -/
def afterRotation (page : RotationPage) (receiptCommit : Bool) : CommitOutcome → RotationNext
  | .acknowledged => .answer (.ok page)
  | .acknowledgedLate => .answer (.ok page)
  | .statementLimit rolledBack =>
      if receiptCommit then .answer (.ok page)
      else if rolledBack then .answer (.error .busy)
      else .answer (.error .outcomeUnknown)
  | .refused rolledBack =>
      if receiptCommit then .answer (.ok page)
      else if rolledBack then .again
      else .answer (.error .outcomeUnknown)
  | .notSent => if receiptCommit then .answer (.ok page) else .answer (.error .outcomeUnknown)
  | .uncertain => if receiptCommit then .answer (.ok page) else .answer (.error .outcomeUnknown)

def PreparedRotation.receiptCommit : PreparedRotation → Bool
  | .failed _ receiptCommit => receiptCommit
  | .ready _ _ _ receiptCommit => receiptCommit

/-- One round of {lit}`rotate_capability`.  {lit}`cut` says that the deadline passed during
preparation, and whether the receipt had been verified by then. -/
def rotationRound (cut : Option Bool) (inTime : Bool) (outcome : CommitOutcome) :
    PreparedRotation → RotationNext := fun prepared =>
  match cut with
  | some verified =>
      if verified = true ∧ prepared.receiptCommit = true then .answer (.ok .success)
      else .answer (.error .busy)
  | none =>
      match prepared with
      | .failed _ true => .answer (.ok .success)
      | .failed fault false =>
          if fault = .retryable ∧ inTime = true then .again else .answer (.error fault.answer)
      | .ready _ _ page receiptCommit => afterRotation page receiptCommit outcome

/-! ## What a rotation can do -/

section Outcomes

variable {host : RotationHost} {app : Application} {keys : EditKeys}
  {conditions : RotationConditions}

theorem load_spec {tables : AuthorityTables} {resource id : Nat} {record : StoredRecord}
    (h : load host app tables resource id = .ok (some record)) :
    ∃ storage, storageResource tables app.manifest resource = .ok storage
      ∧ ∃ row ∈ tables.records, row.key = (storage, id) ∧ record.incarnation = row.incarnation
        ∧ record.capVersion = row.capVersion.map Int.ofNat := by
  simp only [load, bind_eq_ok] at h
  rcases h with ⟨_, _, storage, bound, h⟩
  refine ⟨storage, bound, ?_⟩
  cases found : tables.records.find? fun row => row.resource = storage ∧ row.id = id with
  | none =>
      rw [found] at h
      cases h
  | some row =>
      rw [found] at h
      simp only [bind_eq_ok] at h
      rcases h with ⟨_, _, _, _, _, _, _, _, result⟩
      cases result
      have named := List.find?_some found
      rw [decide_eq_true_eq] at named
      exact ⟨row, List.mem_of_find?_eq_some found, Prod.ext named.1 named.2, rfl, rfl⟩

/-- The record of a receipt still has the receipt's incarnation and version. -/
structure EditReceipt.CurrentIn (receipt : EditReceipt) (app : Application)
    (tables : AuthorityTables) (storage : Nat) : Prop where
  bound : storageResource tables app.manifest receipt.resource = .ok storage
  row : ∃ row ∈ tables.records, row.key = (storage, receipt.id)
    ∧ row.incarnation = receipt.incarnation ∧ row.capVersion = some receipt.capVersion

/-- A page with a secret names the current version and incarnation of its record. -/
theorem editHandover_shows {tables : AuthorityTables} {receipt : EditReceipt} {route : Option Nat}
    {secret : String} {link : Option String}
    (h : editHandover host app keys conditions tables receipt route = .ok (.handover (some secret) link)) :
    ∃ storage, receipt.CurrentIn app tables storage
      ∧ editSecret host.secrets keys receipt.keyId storage receipt.id receipt.capVersion = .ok secret := by
  have silent : ¬ capabilityHandover conditions none none = .ok (.handover (some secret) link) := by
    intro h
    simp only [capabilityHandover, bind_eq_ok] at h
    rcases h with ⟨_, _, result⟩
    cases result
  simp only [editHandover, asInternal, bind_eq_ok, mapError_eq_ok] at h
  rcases h with ⟨record, loaded, h⟩
  cases record with
  | none => exact absurd h silent
  | some record =>
      simp only at h
      split at h
      · rename_i current
        simp only [bind_eq_ok, mapError_eq_ok] at h
        rcases h with ⟨storage, bound, _, _, h⟩
        rcases load_spec loaded with ⟨storage', bound', row, member, key, incarnation, version⟩
        rw [bound] at bound'
        cases bound'
        refine ⟨storage, ⟨bound, row, member, key, incarnation.symm.trans current.1, ?_⟩, ?_⟩
        · rw [current.2.2] at version
          rcases Option.map_eq_some_iff.mp version.symm with ⟨stored, same, equal⟩
          rw [same, Int.ofNat.inj equal]
        · split at h
          · exact absurd h silent
          · rename_i shown revealed
            simp only [bind_eq_ok] at h
            rcases h with ⟨_, _, h⟩
            simp only [capabilityHandover, bind_eq_ok] at h
            rcases h with ⟨_, _, result⟩
            cases result
            exact revealed
      · exact absurd h silent

/-- The token behind an admitted rotation, and what it fixes. -/
structure RotationClaim.AdmittedBy (claim : RotationClaim) (host : RotationHost)
    (app : Application) (form : RotationForm) (token : Token) (now : Int) : Prop where
  opened : app.keys.openToken form.submission = some token
  live : now < token.expires
  scope : ∃ scope, token.kind = .anonymousSubmission scope ∧ scope.action = 0
    ∧ scope.contract = app.submissionContract
  nonce : claim.nonce = token.nonce
  subject : claim.subject = token.subject
  expires : claim.expires = token.expires
  resource : claim.resource = form.resource
  id : claim.id = form.id
  secret : claim.secret = form.secret
  input : claim.input = host.receipts.digest protocolVersion form.resource form.id form.secret

theorem admitRotation_spec {form : RotationForm} {now : Int} {claim : RotationClaim}
    (h : admitRotation host app form now = .ok claim) :
    ∃ token, claim.AdmittedBy host app form token now := by
  simp only [admitRotation, checkRequest, bind_eq_ok, ensure_eq_ok, asRequest_eq_ok] at h
  rcases h with ⟨anonymous, _, _, _, token, verified, h⟩
  have verified := HostKeys.verify_spec verified
  split at h
  · rename_i scope kind
    simp only [needRequest, bind_eq_ok, ensure_eq_ok, context_eq_ok] at h
    rcases h with ⟨_, ⟨action, _⟩, _, _, target, _, _, ⟨contract, subject, _, _⟩, route, _, _, _, _, _,
      result⟩
    cases result
    exact ⟨token, verified.1, verified.2.2.2, ⟨scope, kind, action, contract⟩, rfl, subject.symm, rfl,
      rfl, rfl, rfl, rfl⟩
  · cases h

/-- The receipt of a claim, written by the same request. -/
structure RotationClaim.Repeats (claim : RotationClaim) (row : Receipt) (receipts : Receipts) : Prop where
  found : receipts.find? claim.nonce = some row
  subject : row.subject = claim.subject
  input : row.input = claim.input

theorem verifyRotationReceipt_spec {receipts : Receipts} {claim : RotationClaim}
    {receipt : EditReceipt} (h : verifyRotationReceipt host app receipts claim = .ok receipt) :
    ∃ row, claim.Repeats row receipts := by
  simp only [verifyRotationReceipt, needRequest, checkRequest, bind_eq_ok, ensure_eq_ok,
    context_eq_ok] at h
  rcases h with ⟨row, found, _, _, _, ⟨subject, _, input⟩, _⟩
  exact ⟨row, found, subject, input⟩

/-- What an advance does: one record's proven version moves on, under the claim's receipt. -/
structure Rotation.Advances (rotation : Rotation) (claim : RotationClaim) (receipt : EditReceipt)
    (host : RotationHost) (app : Application) (keys : EditKeys) (db tx : Database AuthorityTables) :
    Prop where
  row : ∃ row version, row.key = rotation.key ∧ row.capVersion = some version
    ∧ rotation.version = version + 1
    ∧ storageResource db.records app.manifest claim.resource = .ok row.resource
    ∧ verifyEdit host.secrets keys claim.secret row.resource row.id (version : Int) = .ok ()
    ∧ Table.Replaced row { row with capVersion := some rotation.version }
        db.records.records tx.records.records
  catalog : tx.records = { db.records with records := tx.records.records }
  receipts : tx.receipts = db.receipts.setOutcome (host.receipts.print receipt) claim.nonce
  observed : tx.observed = db.observed
  deployment : tx.deployment = db.deployment
  nonce : rotation.nonce = claim.nonce
  subject : rotation.subject = claim.subject
  input : rotation.input = claim.input
  expires : rotation.expires = claim.expires
  scope : rotation.scope = app.submissionContract
  id : rotation.id = claim.id

theorem advanceCapability_spec {claim : RotationClaim} {db tx : Database AuthorityTables}
    {receipt : EditReceipt} {rotation : Rotation}
    (h : advanceCapability host app keys conditions claim db = .ok (tx, receipt, rotation)) :
    rotation.Advances claim receipt host app keys db tx := by
  simp only [advanceCapability, needRequest, checkRequest, asInternal, bind_eq_ok, ensure_eq_ok,
    context_eq_ok, mapError_eq_ok, asRequest_eq_ok] at h
  rcases h with ⟨_, _, _, _, stored, rfl, _, _, _, _, _, _, _, _, current, _, storage,
    bound, _, _, _, proven, _, _, _, changed, keyId, _, result⟩
  cases result
  have positive : 0 < current := by
    rcases verifyEdit_ok.mp proven with ⟨_, _, positive, _⟩
    exact positive
  have natural : (current.toNat : Int) = current := Int.toNat_of_nonneg (le_of_lt positive)
  have advanced := advance_one (Prod.ext changed rfl : advanceCapabilityVersion (current.toNat + 1) storage
    claim.id current.toNat db.records.records = (1, _))
  rcases advanced with ⟨row, key, version, replaced⟩
  have resource : row.resource = storage := congrArg Prod.fst key
  have id : row.id = claim.id := congrArg Prod.snd key
  refine ⟨⟨row, current.toNat, key, version, rfl, ?_, ?_, replaced⟩, rfl, rfl, rfl, rfl, rfl, rfl, rfl, rfl,
    rfl, rfl⟩
  · rw [resource]
    exact bound
  · rw [resource, id, natural]
    exact proven

/-- The outcome of a rotation against the committed database. -/
inductive RotationOutcome (host : RotationHost) (app : Application) (keys : EditKeys)
    (conditions : RotationConditions) (db : Database AuthorityTables) (form : RotationForm) :
    PreparedRotation → Prop where
  | failed (fault : Fault) : RotationOutcome host app keys conditions db form (.failed fault false)
  | proven {claim : RotationClaim} {token : Token} {now : Int} {tx : Database AuthorityTables}
      {row : Receipt} (time : tx.ObservedAt db app now)
      (admitted : claim.AdmittedBy host app form token now)
      (repeats : claim.Repeats row db.receipts) (fault : Fault) :
      RotationOutcome host app keys conditions db form (.failed fault true)
  | replayed {claim : RotationClaim} {token : Token} {now : Int} {tx : Database AuthorityTables}
      {row : Receipt} {receipt : EditReceipt} {route : Option Nat} {page : RotationPage}
      (time : tx.ObservedAt db app now) (admitted : claim.AdmittedBy host app form token now)
      (repeats : claim.Repeats row db.receipts)
      (shown : editHandover host app keys conditions tx.records receipt route = .ok page) :
      RotationOutcome host app keys conditions db form (.ready tx none page true)
  | rotated {claim : RotationClaim} {token : Token} {now : Int}
      {observed tx : Database AuthorityTables} {rotation : Rotation} {receipt : EditReceipt}
      {route : Option Nat} {page : RotationPage} (time : observed.ObservedAt db app now)
      (admitted : claim.AdmittedBy host app form token now)
      (free : db.receipts.find? claim.nonce = none)
      (advances : rotation.Advances claim receipt host app keys
        { observed with receipts := (db.receipts.claim (claim.receipt app)).2 } tx)
      (shown : editHandover host app keys conditions tx.records receipt route = .ok page) :
      RotationOutcome host app keys conditions db form (.ready tx (some rotation) page false)

/-- A rotation fails, replays its receipt and writes no record, or moves one record's proven
version on under a fresh receipt. -/
theorem prepareRotation_cases (host : RotationHost) (app : Application) (keys : EditKeys)
    (conditions : RotationConditions) (form : RotationForm) (memory : Int)
    (db : Database AuthorityTables) :
    RotationOutcome host app keys conditions db form
      (prepareRotation host app keys conditions form memory db).2 := by
  unfold prepareRotation
  split
  · exact .failed _
  · rename_i memory' tx now observed
    have accepted : (observeNow app conditions.toConditions memory db).2 = .ok (tx, now) := by
      rw [observed]
    have time := observeNow_spec accepted
    cases admission : admitRotation host app form now with
    | error fault => exact .failed fault
    | ok claim =>
        rcases admitRotation_spec admission with ⟨token, admitted⟩
        cases stored : db.receipts.find? claim.nonce with
        | some row =>
            have taken : tx.receipts.claim (claim.receipt app) = (0, tx.receipts) := by
              refine Receipts.claim_taken ?_
              have found : tx.receipts.find? (claim.receipt app).nonce = some row :=
                time.receipts ▸ stored
              rw [found]
              exact Option.some_ne_none row
            simp only [taken, if_true, replayRotation]
            cases verified : verifyRotationReceipt host app tx.receipts claim with
            | error fault => exact .failed fault
            | ok receipt =>
                rcases verifyRotationReceipt_spec verified with ⟨row, repeats⟩
                have repeats := time.receipts ▸ repeats
                cases shown : editHandover host app keys conditions tx.records receipt claim.target.route with
                | error fault =>
                    simp only [shown]
                    exact .proven time admitted repeats fault
                | ok page =>
                    simp only [shown]
                    exact .replayed time admitted repeats shown
        | none =>
            have free : tx.receipts.find? (claim.receipt app).nonce = none := time.receipts ▸ stored
            simp only [(Receipts.claim_free free).1, one_ne_zero, if_false, freshRotation]
            cases advanced : advanceCapability host app keys conditions claim
                { tx with receipts := (tx.receipts.claim (claim.receipt app)).2 } with
            | error fault => exact .failed fault
            | ok result =>
                rcases result with ⟨written, receipt, rotation⟩
                have advances := advanceCapability_spec advanced
                rw [time.receipts] at advances
                cases shown : editHandover host app keys conditions written.records receipt
                    claim.target.route with
                | error fault =>
                    simp only [shown]
                    exact .failed fault
                | ok page =>
                    simp only [shown]
                    exact .rotated time admitted stored advances shown

end Outcomes

end Noxide
