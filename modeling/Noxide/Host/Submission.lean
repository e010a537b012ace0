import Noxide.Host.Invocation
import Noxide.Store.Clock
import Noxide.Store.Receipts

/-!
# Submissions

One form submission against the committed database: admission, the claim of its
receipt, the action or its replay, and the commit.  What an attempt depends on
outside this logic (the wall clock, the action's own work, page rendering,
deadlines) is one {lit}`Conditions` value; the results hold for every choice of
it.

Main results:

- Theorem {lit}`transact_cases`: an attempt that prepares a transaction either
  executes the action under a fresh receipt or replays the stored one.
- Theorem {lit}`transact_refused`: an attempt whose identity differs from that
  of the stored receipt fails and prepares nothing.
-/

namespace Noxide

open Checked

/-! ## The database -/

/-- The row of {lit}`nx_deployment`. -/
structure DeploymentRow where
  contract : String
  incarnation : String
  generation : String
  deriving DecidableEq, Repr

/-- What a token of this deployment is bound to. -/
def DeploymentRow.scope (deployment : DeploymentRow) : String :=
  deployment.contract ++ ":" ++ deployment.generation

/-- The committed database.  {lit}`records` is everything outside the tables
that submissions are fenced by. -/
structure Database (Records : Type) where
  records : Records
  receipts : Receipts
  observed : Int
  deployment : DeploymentRow

/-! ## Outside conditions -/

/-- Why an action was refused without committing anything. -/
inductive Settled where
  | unavailable
  | conflict
  | targetConflict
  | rejected
  deriving DecidableEq, Repr

/-- What target resolution, the guest and the action transaction come to. -/
inductive Ran (Records : Type) where
  | settled (settled : Settled)
  | aborted (fault : Fault)
  | failed (fault : Fault)
  | executed (records : Records) (payload : String)

/-- Everything one attempt depends on outside the receipt logic. -/
structure Conditions (Records : Type) where
  now : Int
  schemaMatches : Records → Bool
  sessions : Records → Sessions
  run : Records → Ran Records
  resolves : Records → Answered (Option Settled)
  validates : Targets → String → Bool
  responds : Records → String → Bool
  renders : Bool
  beforeDeadline : Bool

/-- A submitted form, as the browser sends it. -/
structure Submission where
  cookie : String
  action : Nat
  submission : String
  csrf : String
  input : Fields

/-! ## Admission -/

/-- The execution identity of one attempt. -/
structure InvocationContext where
  action : Action
  input : Fields
  targets : Targets
  identity : String
  nonce : String
  subject : String
  expires : Int
  invocation : InvocationIdentity

/-- An action that committed. -/
structure Execution where
  nonce : String
  identity : String
  invocation : InvocationIdentity
  action : Action
  input : Fields
  payload : String
  expires : Int
  scope : String

section Attempt

variable {Records : Type} (app : Application) (conditions : Conditions Records)

/-- The schema and the deployment still are the ones this process serves. -/
def admission (db : Database Records) : Answered Unit := do
  ensure Fault.internal (conditions.schemaMatches db.records = true)
  ensure Fault.internal (db.deployment.contract = app.contract
    ∧ db.deployment.incarnation = app.keys.incarnation)
  ensure Fault.internal (app.generation = db.deployment.generation)

/-- Admission, then the clock observation.  The process memory of the clock
moves even when the transaction is later rolled back. -/
def observeNow (memory : Int) (db : Database Records) :
    Int × Answered (Database Records × Int) :=
  match admission app conditions db with
  | .error fault => (memory, .error fault)
  | .ok _ =>
      let (memory, observed) := observeClockWrite db.observed conditions.now memory
      (memory, do
        let observed ← asInternal observed
        return ({ db with observed := observed.persisted }, observed.effective))

/-- The web binding and the action behind it. -/
def webAction (id : Nat) : Answered (WebBinding × Action) := do
  let binding ← asInternal (app.manifest.webBinding id)
  let action ← asInternal (app.manifest.action binding.action)
  return (binding, action)

/-- Whether the first step makes the action one that anonymous sessions submit. -/
def anonymousCore (action : Action) : Answered Bool := do
  let first ← context Fault.internal action.steps.head?
  let op ← asInternal (app.manifest.operation first.operation)
  return op.anonymousAction

/-- Browser admission verifies its own credentials, at the observed time. -/
def admitWebInvocation (form : Submission) (db : Database Records) (now : Int) :
    Answered InvocationContext := do
  let (binding, action) ← webAction app form.action
  let canonical ← app.canonicalActionInput action.id form.input
  checkRequest (canonical.action = action.id ∧ canonical.version = action.version
    ∧ canonical.contract = app.contract)
  let anonymous ← anonymousCore app action
  let (token, session, principal) ← submissionIdentity app.keys
    (conditions.sessions db.records) anonymous form.cookie form.submission form.csrf now
  let targets ← webTargetGrants app token action binding canonical.selections session
    principal now
  let invocation ← webInvocation app binding token session principal canonical.digest targets
  return {
    action := action
    input := canonical.fields
    targets := targets
    identity := app.digests.invocation invocation
    nonce := token.nonce
    subject := session.nonce
    expires := token.expires
    invocation := invocation }

/-! ## The attempt -/

/-- One action attempt; completed mutations still await response preparation
and commit. -/
inductive ActionAttempt (Records : Type) where
  | commit (tx : Database Records) (payload nonce : String)
  | replay (tx : Database Records) (payload : String)
  | settled (settled : Settled)
  | aborted (fault : Fault)

/-- The digest and outcome of a receipt, for the session that claimed it.  An
outcome over 4096 bytes does not cross the driver. -/
def loadReceipt (db : Database Records) (nonce subject : String) :
    Answered (Option (String × String)) :=
  match db.receipts.find? nonce with
  | none => .ok none
  | some receipt => do
      ensure Fault.internal (receipt.outcome.utf8ByteSize ≤ 4096)
      checkRequest (receipt.subject = subject ∧ receipt.contract = app.contract)
      return some (receipt.input, receipt.outcome)

/-- A claimed receipt must be for the same input; its stored outcome answers
again. -/
def replayAttempt (tx : Database Records) (context : InvocationContext) :
    Answered (ActionAttempt Records) := do
  let (digest, outcome) ← Checked.context Fault.internal
    (← loadReceipt app tx context.nonce context.subject)
  checkRequest (digest = context.identity)
  return .replay tx outcome

/-- The receipt an attempt claims. -/
def InvocationContext.receipt (context : InvocationContext) : Receipt where
  nonce := context.nonce
  subject := context.subject
  contract := app.contract
  action := context.action.id
  input := context.identity
  outcome := ""
  expires := context.expires

def attemptAction (context : InvocationContext) (db : Database Records) :
    Answered (ActionAttempt Records) :=
  let (claimed, receipts) := db.receipts.claim (context.receipt app)
  let tx := { db with receipts := receipts }
  if claimed = 0 then replayAttempt app tx context
  else
    match conditions.run tx.records with
    | .settled settled => .ok (.settled settled)
    | .aborted fault => .ok (.aborted fault)
    | .failed fault => .error fault
    | .executed records payload =>
        .ok (.commit { tx with records := records } payload context.nonce)

/-! ## Response preparation -/

/-- The answer to a form.  A committed answer rests on a receipt payload;
{lit}`prepared` tells the response built from that payload from the plain
confirmation that stands in when it cannot be built. -/
inductive Reply where
  | committed (payload : String) (prepared : Bool)
  | settled (settled : Settled)
  | alreadyUsed
  | retry
  deriving DecidableEq, Repr

/-- A prepared attempt.  {lit}`evidence` is the answer owed to a receipt that
already committed, whatever happens to this transaction. -/
inductive Prepared (Records : Type) where
  | failed (fault : Fault) (evidence : Option Reply)
  | settled (reply : Reply)
  | ready (tx : Database Records) (execution : Option Execution) (reply : Reply)
      (evidence : Option Reply)

def InvocationContext.execution (context : InvocationContext) (payload : String) :
    Execution where
  nonce := context.nonce
  identity := context.identity
  invocation := context.invocation
  action := context.action
  input := context.input
  payload := payload
  expires := context.expires
  scope := app.submissionContract

/-- Validate the receipt, prepare the response, then write the outcome. -/
def prepareResponse (context : InvocationContext) : ActionAttempt Records → Prepared Records
  | .aborted fault => .failed fault none
  | .settled settled =>
      if conditions.renders then .settled (.settled settled) else .failed .internal none
  | .replay tx payload =>
      if conditions.validates context.targets payload then
        let evidence := some (Reply.committed payload false)
        if conditions.responds tx.records payload then
          .ready tx none (.committed payload true) evidence
        else if conditions.renders then .ready tx none (.committed payload false) evidence
        else .failed .internal evidence
      else .failed .internal none
  | .commit tx payload nonce =>
      if conditions.validates context.targets payload ∧ conditions.responds tx.records payload
          ∧ conditions.beforeDeadline then
        .ready { tx with receipts := tx.receipts.setOutcome payload nonce }
          (some (context.execution app payload)) (.committed payload true) none
      else .failed .internal none

/-- {lit}`prepare_with_commit_evidence` once time is observed. -/
def prepareAdmitted (form : Submission) (db : Database Records) (now : Int) :
    Prepared Records :=
  match admitWebInvocation app conditions form db now with
  | .error fault => .failed fault none
  | .ok context =>
      match attemptAction app conditions context db with
      | .error fault => .failed fault none
      | .ok attempt => prepareResponse app conditions context attempt

/-- {lit}`prepare_with_commit_evidence`: one transaction up to its commit, and
the clock memory afterwards. -/
def transact (form : Submission) (memory : Int) (db : Database Records) :
    Int × Prepared Records :=
  match observeNow app conditions memory db with
  | (memory, .error fault) => (memory, .failed fault none)
  | (memory, .ok (tx, now)) => (memory, prepareAdmitted app conditions form tx now)

/-- The identity under which an attempt is admitted, where it is. -/
def submissionContext (form : Submission) (memory : Int) (db : Database Records) :
    Answered InvocationContext := do
  let (tx, now) ← (observeNow app conditions memory db).2
  admitWebInvocation app conditions form tx now

end Attempt

/-! ## The commit and the retry loop -/

/-- How the commit of a prepared transaction ends. -/
inductive CommitOutcome where
  /-- Acknowledged in time. -/
  | acknowledged
  /-- Acknowledged, then cleanup failed or the deadline passed. -/
  | acknowledgedLate
  /-- Refused before sending by the statement budget. -/
  | statementLimit (rolledBack : Bool)
  /-- Refused by the provider, retryable. -/
  | refused (rolledBack : Bool)
  /-- Failed or cut off before sending, not retryable. -/
  | notSent
  /-- Sent without acknowledgement. -/
  | uncertain
  deriving DecidableEq, Repr

def CommitOutcome.isAcknowledged : CommitOutcome → Bool
  | .acknowledged => true
  | .acknowledgedLate => true
  | _ => false

/-- What the submit loop does after one round. -/
inductive Next where
  | answer (result : Except RequestError Reply)
  | again
  deriving Repr

variable {Records : Type}

def Prepared.evidence : Prepared Records → Option Reply
  | .failed _ evidence => evidence
  | .settled _ => none
  | .ready _ _ _ evidence => evidence

/-- The answer once the commit has ended. -/
def afterCommit (reply : Reply) (evidence : Option Reply) : CommitOutcome → Next
  | .acknowledged => .answer (.ok reply)
  | .acknowledgedLate => .answer (.ok reply)
  | .statementLimit rolledBack =>
      if evidence.isSome then .answer (.ok reply)
      else if rolledBack then .answer (.error .busy)
      else .answer (.error .outcomeUnknown)
  | .refused rolledBack =>
      if evidence.isSome then .answer (.ok reply)
      else if rolledBack then .again
      else .answer (.error .outcomeUnknown)
  | .notSent =>
      if evidence.isSome then .answer (.ok reply) else .answer (.error .outcomeUnknown)
  | .uncertain =>
      if evidence.isSome then .answer (.ok reply) else .answer (.error .outcomeUnknown)

/-- One round of the submit loop.  {lit}`cut` says that the deadline passed
during preparation, and whether the receipt had been validated by then. -/
def submitRound (cut : Option Bool) (inTime : Bool) (outcome : CommitOutcome)
    (prepared : Prepared Records) : Next :=
  match cut with
  | some validated =>
      match if validated then prepared.evidence else none with
      | some reply => .answer (.ok reply)
      | none => .answer (.error .rejected)
  | none =>
      match prepared with
      | .failed _ (some reply) => .answer (.ok reply)
      | .failed fault none =>
          if fault = .retryable ∧ inTime = true then .again
          else .answer (.error fault.answer)
      | .settled reply => .answer (.ok reply)
      | .ready _ _ reply evidence => afterCommit reply evidence outcome

/-! ## What an attempt can do -/

section Outcomes

variable {app : Application} {conditions : Conditions Records}

/-- What a successful observation fixes: the transaction sees a database of
this process's deployment, with only the clock mark moved. -/
structure Database.ObservedAt (tx db : Database Records) (app : Application) (now : Int) :
    Prop where
  records : tx.records = db.records
  receipts : tx.receipts = db.receipts
  deployment : tx.deployment = db.deployment
  serving : db.deployment.scope = app.submissionContract
  keeps : db.observed ≤ tx.observed
  covers : tx.observed ≤ now

theorem observeNow_spec {memory now : Int} {db tx : Database Records}
    (h : (observeNow app conditions memory db).2 = .ok (tx, now)) :
    tx.ObservedAt db app now := by
  unfold observeNow at h
  split at h
  · cases h
  · next admitted =>
    simp only [admission, bind_eq_ok, ensure_eq_ok] at admitted
    rcases admitted with ⟨_, _, _, ⟨contract, _⟩, generation⟩
    simp only [bind_eq_ok, asInternal, mapError_eq_ok] at h
    rcases h with ⟨observed, accepted, result⟩
    cases result
    have advance := observeClockWrite_spec accepted
    refine ⟨rfl, rfl, rfl, ?_, advance.keeps, advance.covers⟩
    rw [DeploymentRow.scope, Application.submissionContract, contract, generation]

/-- A form token that this process accepts at the given time. -/
structure Token.AcceptedAt (token : Token) (app : Application) (form : Submission)
    (now : Int) : Prop where
  opened : app.keys.openToken form.submission = some token
  live : now < token.expires
  scope : ∃ scope, token.kind.submissionScope = some scope ∧
    scope.contract = app.submissionContract ∧
    ∃ binding, app.manifest.webBinding scope.action = .ok binding

/-- The token behind an admitted submission, and what it fixes. -/
structure InvocationContext.AdmittedBy (context : InvocationContext) (app : Application)
    (form : Submission) (token : Token) (now : Int) : Prop where
  accepted : token.AcceptedAt app form now
  nonce : context.nonce = token.nonce
  expires : context.expires = token.expires
  identity : context.identity = app.digests.invocation context.invocation
  input : context.invocation.input =
    app.digests.input context.action.version context.action.inputs context.input

theorem canonicalActionInput_spec {action : Nat} {raw : Fields}
    {canonical : CanonicalActionInput} (h : app.canonicalActionInput action raw = .ok canonical) :
    ∃ found, app.manifest.action action = .ok found ∧
      canonical.digest = app.digests.input found.version found.inputs canonical.fields := by
  simp only [Application.canonicalActionInput, bind_eq_ok, mapError_eq_ok] at h
  rcases h with ⟨found, hfound, _, _, fields, _, _, _, result⟩
  cases result
  exact ⟨found, hfound, rfl⟩

theorem canonicalActionInput_selections {action : Nat} {raw : Fields}
    {canonical : CanonicalActionInput} (h : app.canonicalActionInput action raw = .ok canonical) :
    ∃ found scalar, app.manifest.action action = .ok found ∧
      actionInput found raw = .ok (scalar, canonical.selections) := by
  simp only [Application.canonicalActionInput, bind_eq_ok, mapError_eq_ok] at h
  rcases h with ⟨found, hfound, ⟨scalar, selections⟩, hinput, fields, _, _, _, result⟩
  cases result
  exact ⟨found, scalar, hfound, hinput⟩

theorem webAction_spec {id : Nat} {binding : WebBinding} {action : Action}
    (h : webAction app id = .ok (binding, action)) :
    app.manifest.webBinding binding.id = .ok binding ∧
      app.manifest.action action.id = .ok action := by
  simp only [webAction, asInternal, bind_eq_ok, mapError_eq_ok] at h
  rcases h with ⟨bound, hbound, found, lookup, result⟩
  cases result
  rw [(Manifest.action_mem lookup).2, Manifest.webBinding_id hbound]
  exact ⟨hbound, lookup⟩

/-- Verified identity and granted targets make the token acceptable. -/
theorem acceptedAt_of_granted {form : Submission} {binding : WebBinding} {action : Action}
    {sessions : Sessions} {anonymous : Bool} {now : Int} {token session : Token}
    {principal : Principal} {selections : Fields} {targets : Targets}
    (bound : webAction app form.action = .ok (binding, action))
    (identified : submissionIdentity app.keys sessions anonymous form.cookie form.submission
      form.csrf now = .ok (token, session, principal))
    (granted : webTargetGrants app token action binding selections session principal now
      = .ok targets) : token.AcceptedAt app form now := by
  have verified := HostKeys.verify_spec (submissionIdentity_spec identified).1
  rcases webTargetGrants_scope granted with ⟨scope, hscope, hcontract, hbinding, _⟩
  refine ⟨verified.1, verified.2.2.2, scope, hscope, hcontract, binding, ?_⟩
  rw [hbinding]
  exact (webAction_spec bound).1

theorem admitWebInvocation_spec {form : Submission} {db : Database Records} {now : Int}
    {context : InvocationContext}
    (h : admitWebInvocation app conditions form db now = .ok context) :
    ∃ token, context.AdmittedBy app form token now := by
  simp only [admitWebInvocation, checkRequest, bind_eq_ok, ensure_eq_ok] at h
  rcases h with ⟨⟨binding, action⟩, bound, canonical, hcanonical, _, _, _, _,
    ⟨token, session, principal⟩, identified, targets, granted, invocation, hinvocation, result⟩
  cases result
  rcases canonicalActionInput_spec hcanonical with ⟨found, hfound, hdigest⟩
  have same : found = action := Except.ok.inj (hfound.symm.trans (webAction_spec bound).2)
  refine ⟨token, acceptedAt_of_granted bound identified granted, rfl, rfl, rfl, ?_⟩
  rw [(webInvocation_spec hinvocation).2.1, hdigest, same]

/-! ### The claim decides -/

theorem loadReceipt_spec {db : Database Records} {nonce subject digest outcome : String}
    (h : loadReceipt app db nonce subject = .ok (some (digest, outcome))) :
    ∃ receipt, db.receipts.find? nonce = some receipt ∧ receipt.input = digest ∧
      receipt.outcome = outcome := by
  unfold loadReceipt at h
  split at h
  · cases h
  · next receipt found =>
    simp only [bind_eq_ok] at h
    rcases h with ⟨_, _, _, _, result⟩
    cases result
    exact ⟨receipt, found, rfl, rfl⟩

theorem loadReceipt_ne_none {db : Database Records} {nonce subject : String} {receipt : Receipt}
    (stored : db.receipts.find? nonce = some receipt) :
    loadReceipt app db nonce subject ≠ .ok none := by
  simp only [loadReceipt, stored]
  intro h
  simp only [bind_eq_ok] at h
  rcases h with ⟨_, _, _, _, result⟩
  cases result

/-- Without a receipt the attempt runs the action; it never replays. -/
theorem attemptAction_free {context : InvocationContext} {db : Database Records}
    {attempt : ActionAttempt Records} (free : db.receipts.find? context.nonce = none)
    (h : attemptAction app conditions context db = .ok attempt) :
    (∃ settled, attempt = .settled settled) ∨ (∃ fault, attempt = .aborted fault) ∨
      ∃ records payload, attempt = .commit
        { db with
          records := records
          receipts := (db.receipts.claim (context.receipt app)).2 } payload context.nonce := by
  have claimed : (db.receipts.claim (context.receipt app)).1 = 1 := (Receipts.claim_free free).1
  simp only [attemptAction, claimed, one_ne_zero, if_false] at h
  split at h
  · exact .inl ⟨_, (Except.ok.inj h).symm⟩
  · exact .inr (.inl ⟨_, (Except.ok.inj h).symm⟩)
  · cases h
  · exact .inr (.inr ⟨_, _, (Except.ok.inj h).symm⟩)

/-- With a receipt the attempt changes nothing and replays its outcome, for the
identity the receipt was claimed with only. -/
theorem attemptAction_taken {context : InvocationContext} {db : Database Records}
    {receipt : Receipt} {attempt : ActionAttempt Records}
    (taken : db.receipts.find? context.nonce = some receipt)
    (h : attemptAction app conditions context db = .ok attempt) :
    attempt = .replay db receipt.outcome ∧ receipt.input = context.identity := by
  have claimed : db.receipts.claim (context.receipt app) = (0, db.receipts) := by
    refine Receipts.claim_taken ?_
    rw [show (context.receipt app).nonce = context.nonce from rfl, taken]
    exact Option.some_ne_none receipt
  simp only [attemptAction, claimed, if_true, replayAttempt, checkRequest, bind_eq_ok,
    context_eq_ok, ensure_eq_ok] at h
  rcases h with ⟨_, loaded, ⟨digest, outcome⟩, rfl, _, hdigest, result⟩
  rcases loadReceipt_spec loaded with ⟨found, hfound, rfl, rfl⟩
  rw [taken] at hfound
  cases hfound
  exact ⟨(Except.ok.inj result).symm, hdigest⟩

/-! ### Prepared transactions -/

/-- The execution a context stands for records that context. -/
structure Execution.Of (execution : Execution) (context : InvocationContext)
    (app : Application) : Prop where
  nonce : execution.nonce = context.nonce
  identity : execution.identity = context.identity
  invocation : execution.invocation = context.invocation
  action : execution.action = context.action
  input : execution.input = context.input
  expires : execution.expires = context.expires
  scope : execution.scope = app.submissionContract

/-- The action ran under a nonce without a receipt, and its receipt is written
with it. -/
structure Execution.Claims (execution : Execution) (db tx : Database Records) : Prop where
  free : db.receipts.find? execution.nonce = none
  written : ∃ receipt, tx.receipts.find? execution.nonce = some receipt ∧
    receipt.input = execution.identity ∧ receipt.outcome = execution.payload ∧
    receipt.expires = execution.expires
  others : ∀ nonce, nonce ≠ execution.nonce →
    tx.receipts.find? nonce = db.receipts.find? nonce

/-- A replay changes neither records nor receipts and answers from the stored
outcome. -/
structure Receipt.Answers (receipt : Receipt) (context : InvocationContext)
    (db : Database Records) : Prop where
  found : db.receipts.find? context.nonce = some receipt
  identity : receipt.input = context.identity

theorem execution_of (context : InvocationContext) (payload : String) :
    (context.execution app payload).Of context app :=
  ⟨rfl, rfl, rfl, rfl, rfl, rfl, rfl⟩

/-- The claim and the outcome together write one complete receipt. -/
theorem execution_claims {context : InvocationContext} {db tx : Database Records}
    {payload : String} (free : db.receipts.find? context.nonce = none)
    (written : tx.receipts = (db.receipts.claim (context.receipt app)).2.setOutcome payload
      context.nonce) :
    (context.execution app payload).Claims db tx := by
  have key : (context.execution app payload).nonce = context.nonce := rfl
  refine ⟨free, ⟨{ context.receipt app with outcome := payload }, ?_, rfl, rfl, rfl⟩, ?_⟩
  · have claimed : (db.receipts.claim (context.receipt app)).2.find? context.nonce
        = some (context.receipt app) := (Receipts.claim_free free).2
    have same : (context.receipt app).nonce = context.nonce := rfl
    rw [written, key, Receipts.setOutcome_find, claimed, Option.map_some, if_pos same]
  · intro nonce other
    have ne : (context.receipt app).nonce ≠ nonce := fun h => other h.symm
    rw [written, Receipts.setOutcome_find, Receipts.claim_find_ne ne]
    cases hfound : db.receipts.find? nonce with
    | none => rfl
    | some row =>
        have hrow : row.nonce ≠ context.nonce := by
          rw [(Receipts.find?_eq_some.mp hfound).2]
          exact other
        rw [Option.map_some, if_neg hrow]

/-- Preparation either runs the action under a fresh receipt or replays the
stored one. -/
theorem prepareResponse_cases {context : InvocationContext} {db : Database Records}
    {attempt : ActionAttempt Records}
    (h : attemptAction app conditions context db = .ok attempt) :
    (∃ fault, prepareResponse app conditions context attempt = .failed fault none) ∨
      (∃ settled, prepareResponse app conditions context attempt = .settled (.settled settled)) ∨
      (∃ tx payload, prepareResponse app conditions context attempt = .ready tx
          (some (context.execution app payload)) (.committed payload true) none ∧
        (context.execution app payload).Claims db tx ∧
        tx.observed = db.observed ∧ tx.deployment = db.deployment) ∨
      ∃ receipt : Receipt, receipt.Answers context db ∧
        ((∃ prepared, prepareResponse app conditions context attempt = .ready db none
            (.committed receipt.outcome prepared) (some (.committed receipt.outcome false))) ∨
          prepareResponse app conditions context attempt =
            .failed .internal (some (.committed receipt.outcome false))) := by
  cases stored : db.receipts.find? context.nonce with
  | none =>
      rcases attemptAction_free stored h with ⟨settled, rfl⟩ | ⟨fault, rfl⟩ | ⟨records, payload, rfl⟩
      · by_cases renders : conditions.renders = true
        · exact .inr (.inl ⟨settled, by simp [prepareResponse, renders]⟩)
        · exact .inl ⟨.internal, by simp [prepareResponse, renders]⟩
      · exact .inl ⟨fault, rfl⟩
      · by_cases answered : conditions.validates context.targets payload ∧
            conditions.responds records payload ∧ conditions.beforeDeadline
        · let tx : Database Records :=
            { db with
              records := records
              receipts := (db.receipts.claim (context.receipt app)).2.setOutcome payload
                context.nonce }
          have claims : (context.execution app payload).Claims db tx := execution_claims stored rfl
          refine .inr (.inr (.inl ⟨tx, payload, ?_, claims, rfl, rfl⟩))
          simp only [prepareResponse, answered, and_self, if_true, tx]
        · exact .inl ⟨.internal, by simp only [prepareResponse, answered, if_false]⟩
  | some receipt =>
      rcases attemptAction_taken stored h with ⟨rfl, identity⟩
      by_cases valid : conditions.validates context.targets receipt.outcome = true
      · refine .inr (.inr (.inr ⟨receipt, ⟨stored, identity⟩, ?_⟩))
        by_cases responds : conditions.responds db.records receipt.outcome = true
        · exact .inl ⟨true, by simp [prepareResponse, valid, responds]⟩
        · by_cases renders : conditions.renders = true
          · exact .inl ⟨false, by simp [prepareResponse, valid, responds, renders]⟩
          · exact .inr (by simp [prepareResponse, valid, responds, renders])
      · exact .inl ⟨.internal, by simp [prepareResponse, valid]⟩

/-- The outcome of an attempt against the committed database. -/
inductive Transacted (app : Application) (db : Database Records) (form : Submission) :
    Prepared Records → Prop where
  | failed (fault : Fault) : Transacted app db form (.failed fault none)
  | settled (settled : Settled) : Transacted app db form (.settled (.settled settled))
  | executed {context : InvocationContext} {token : Token} {observed tx : Database Records}
      {now : Int} {payload : String} (time : observed.ObservedAt db app now)
      (admitted : context.AdmittedBy app form token now)
      (claims : (context.execution app payload).Claims db tx)
      (clock : tx.observed = observed.observed) (deployment : tx.deployment = db.deployment) :
      Transacted app db form
        (.ready tx (some (context.execution app payload)) (.committed payload true) none)
  | replayed {context : InvocationContext} {token : Token} {tx : Database Records} {now : Int}
      {receipt : Receipt} (time : tx.ObservedAt db app now)
      (admitted : context.AdmittedBy app form token now)
      (answers : receipt.Answers context db) (prepared : Bool) :
      Transacted app db form (.ready tx none (.committed receipt.outcome prepared)
        (some (.committed receipt.outcome false)))
  | confirmed {context : InvocationContext} {token : Token} {tx : Database Records} {now : Int}
      {receipt : Receipt} (time : tx.ObservedAt db app now)
      (admitted : context.AdmittedBy app form token now)
      (answers : receipt.Answers context db) :
      Transacted app db form
        (.failed .internal (some (.committed receipt.outcome false)))

theorem Execution.Claims.observed {execution : Execution} {db observed tx : Database Records}
    {now : Int} (time : observed.ObservedAt db app now) (h : execution.Claims observed tx) :
    execution.Claims db tx := by
  have same := time.receipts
  refine ⟨same ▸ h.free, h.written, fun nonce other => ?_⟩
  rw [h.others nonce other, same]

/-- An attempt fails without evidence, settles without a transaction, executes
under a fresh receipt, or answers from the stored one. -/
theorem transact_cases (app : Application) (conditions : Conditions Records) (form : Submission) (memory : Int) (db : Database Records) :
    Transacted app db form (transact app conditions form memory db).2 := by
  unfold transact
  split
  · exact .failed _
  · next memory' tx now observed =>
    have accepted : (observeNow app conditions memory db).2 = .ok (tx, now) := by rw [observed]
    have time := observeNow_spec accepted
    unfold prepareAdmitted
    split
    · exact .failed _
    · next context admitted =>
      rcases admitWebInvocation_spec admitted with ⟨token, by_⟩
      split
      · exact .failed _
      · next attempt attempted =>
        rcases prepareResponse_cases attempted with ⟨fault, h⟩ | ⟨settled, h⟩ |
          ⟨tx', payload, h, claims, clock, deployment⟩ | ⟨receipt, answers, h⟩
        · exact h ▸ .failed fault
        · exact h ▸ .settled settled
        · rw [h]
          exact .executed time by_ (claims.observed time) clock (deployment.trans time.deployment)
        · have answers' : receipt.Answers context db :=
            ⟨time.receipts ▸ answers.found, answers.identity⟩
          rcases h with ⟨prepared, h⟩ | h
          · rw [h]
            exact .replayed time by_ answers' prepared
          · rw [h]
            exact .confirmed time by_ answers'

/-! ### Refusals -/

/-- Without an admitted identity an attempt fails and prepares nothing. -/
theorem transact_unadmitted {form : Submission} {memory : Int} {db : Database Records}
    {fault : Fault} (h : submissionContext app conditions form memory db = .error fault) :
    (transact app conditions form memory db).2 = .failed fault none := by
  unfold submissionContext at h
  unfold transact
  split
  · next observed =>
    rw [observed] at h
    cases h
    rfl
  · next memory' tx now observed =>
    rw [observed] at h
    have refused : admitWebInvocation app conditions form tx now = .error fault := h
    simp only [prepareAdmitted, refused]

/-- An attempt whose identity differs from that of the stored receipt fails and
prepares nothing. -/
theorem transact_refused {form : Submission} {memory : Int} {db : Database Records}
    {context : InvocationContext} {receipt : Receipt}
    (admitted : submissionContext app conditions form memory db = .ok context)
    (stored : db.receipts.find? context.nonce = some receipt)
    (differs : receipt.input ≠ context.identity) :
    ∃ fault, (transact app conditions form memory db).2 = .failed fault none := by
  simp only [submissionContext, bind_eq_ok] at admitted
  rcases admitted with ⟨⟨tx, now⟩, observed, hcontext⟩
  have time := observeNow_spec observed
  unfold transact
  split
  · exact ⟨_, rfl⟩
  · next memory' tx' now' split =>
    rw [split] at observed
    cases observed
    simp only [prepareAdmitted, hcontext]
    cases attempted : attemptAction app conditions context tx with
    | error fault => exact ⟨fault, rfl⟩
    | ok attempt =>
        have taken : tx.receipts.find? context.nonce = some receipt := time.receipts ▸ stored
        exact absurd (attemptAction_taken taken attempted).2 differs

end Outcomes

end Noxide
