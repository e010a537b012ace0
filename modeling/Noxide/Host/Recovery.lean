import Noxide.Host.Submission

/-!
# Commit recovery

After an unknown commit outcome the browser asks for its form back.  Recovery
verifies the same credentials, reads the receipt of the token, and answers from
it; it runs no action.

Main results:

- Theorem {lit}`recoverForm_spec`: recovery writes no record and no receipt, and
  a committed answer is the stored outcome.
- Theorem {lit}`recoverForm_refused`: a form whose identity differs from that of
  the stored receipt is told that it is already used.
-/

namespace Noxide

open Checked

variable {Records : Type}

/-! ## The recovery path -/

section Recovery

variable (app : Application) (conditions : Conditions Records)

/-- The identity the recovered form would have now.  A form whose input is no
longer canonical has none. -/
def expectedIdentity (binding : WebBinding) (action : Action) (token session : Token)
    (principal : Principal) (targets : Targets) (input : Fields) : Answered (Option String) :=
  match app.canonicalActionInput action.id input with
  | .error _ => .ok none
  | .ok canonical => do
      let invocation ← webInvocation app binding token session principal canonical.digest targets
      return some (app.digests.invocation invocation)

/-- The reply to a recovery that finds a receipt. -/
def recoverReceipt (targets : Targets) (records : Records) (digest outcome : String)
    (expected : Option String) : Answered Reply :=
  if expected = some digest then do
    ensure Fault.internal (conditions.validates targets outcome = true)
    return .committed outcome (conditions.responds records outcome)
  else do
    ensure Fault.internal (conditions.renders = true)
    return .alreadyUsed

/-- The reply to a recovery that finds none: current authority over the
targets, then the form again. -/
def recoverUnclaimed (records : Records) : Answered Reply := do
  match ← conditions.resolves records with
  | some settled => return .settled settled
  | none => do
      ensure Fault.internal (conditions.renders = true)
      return .retry

/-- Recovery once time is observed. -/
def recoverAdmitted (form : Submission) (db : Database Records) (now : Int) :
    Answered Reply := do
  let (binding, action) ← webAction app form.action
  let anonymous ← anonymousCore app action
  let (token, session, principal) ← submissionIdentity app.keys
    (conditions.sessions db.records) anonymous form.cookie form.submission form.csrf now
  let (_, selections) ← actionInput action form.input
  let targets ← webTargetGrants app token action binding selections session principal now
  match ← loadReceipt app db token.nonce session.nonce with
  | some (digest, outcome) => do
      let expected ← expectedIdentity app binding action token session principal targets form.input
      recoverReceipt conditions targets db.records digest outcome expected
  | none => recoverUnclaimed conditions db.records

/-- {lit}`recover_form` up to its commit: the clock memory, and the database it
would commit with the reply. -/
def recoverForm (form : Submission) (memory : Int) (db : Database Records) :
    Int × Answered (Database Records × Reply) :=
  match observeNow app conditions memory db with
  | (memory, .error fault) => (memory, .error fault)
  | (memory, .ok (tx, now)) =>
      (memory, do
        let reply ← recoverAdmitted app conditions form tx now
        return (tx, reply))

end Recovery

/-- A settled recovery returns without committing. -/
def Reply.commits : Reply → Bool
  | .settled _ => false
  | _ => true

/-- The answer once the recovery's commit has ended: a found receipt answers
whatever became of this transaction. -/
def afterRecovery (outcome : CommitOutcome) : Reply → Answered Reply
  | .committed payload prepared =>
      .ok (.committed payload (prepared && outcome == .acknowledged))
  | .alreadyUsed => .ok .alreadyUsed
  | .settled settled => .ok (.settled settled)
  | .retry => if outcome = .acknowledged then .ok .retry else .error .internal

/-! ## What recovery can answer -/

section Outcomes

variable {app : Application} {conditions : Conditions Records}

theorem recoverReceipt_committed {targets : Targets} {records : Records}
    {digest outcome payload : String} {prepared : Bool} {expected : Option String}
    (h : recoverReceipt conditions targets records digest outcome expected
      = .ok (.committed payload prepared)) : expected = some digest ∧ payload = outcome := by
  unfold recoverReceipt at h
  split at h
  · next same =>
    simp only [bind_eq_ok, ensure_eq_ok] at h
    rcases h with ⟨_, _, result⟩
    cases result
    exact ⟨same, rfl⟩
  · simp only [bind_eq_ok, ensure_eq_ok] at h
    rcases h with ⟨_, _, result⟩
    cases result

theorem recoverUnclaimed_not_committed {records : Records} {payload : String} {prepared : Bool} :
    recoverUnclaimed conditions records ≠ .ok (.committed payload prepared) := by
  intro h
  simp only [recoverUnclaimed, bind_eq_ok] at h
  rcases h with ⟨found, _, result⟩
  cases found with
  | some settled => cases result
  | none =>
      simp only [bind_eq_ok, ensure_eq_ok] at result
      rcases result with ⟨_, _, result⟩
      cases result

/-- A recovery that answers accepted the form's token; a committed answer is the
outcome of that token's receipt. -/
theorem recoverAdmitted_spec {form : Submission} {db : Database Records} {now : Int}
    {reply : Reply} (h : recoverAdmitted app conditions form db now = .ok reply) :
    ∃ token : Token, token.AcceptedAt app form now ∧
      ∀ payload prepared, reply = .committed payload prepared →
        ∃ receipt, db.receipts.find? token.nonce = some receipt ∧ receipt.outcome = payload := by
  simp only [recoverAdmitted, bind_eq_ok] at h
  rcases h with ⟨⟨binding, action⟩, bound, anonymous, _, ⟨token, session, principal⟩, identified,
    ⟨scalar, selections⟩, _, targets, granted, loaded, hloaded, result⟩
  refine ⟨token, acceptedAt_of_granted bound identified granted, ?_⟩
  rintro payload prepared rfl
  cases loaded with
  | none => exact absurd result recoverUnclaimed_not_committed
  | some found =>
      simp only [bind_eq_ok] at result
      rcases result with ⟨expected, _, answered⟩
      rcases loadReceipt_spec hloaded with ⟨receipt, hreceipt, _, houtcome⟩
      exact ⟨receipt, hreceipt, houtcome.trans (recoverReceipt_committed answered).2.symm⟩

/-- Recovery writes no record and no receipt. -/
theorem recoverForm_spec {form : Submission} {memory : Int} {db tx : Database Records}
    {reply : Reply} (h : (recoverForm app conditions form memory db).2 = .ok (tx, reply)) :
    ∃ (token : Token) (now : Int), tx.ObservedAt db app now ∧ token.AcceptedAt app form now ∧
      ∀ payload prepared, reply = .committed payload prepared →
        ∃ receipt, db.receipts.find? token.nonce = some receipt ∧ receipt.outcome = payload := by
  unfold recoverForm at h
  split at h
  · cases h
  · next memory' observed now accepted =>
    simp only [bind_eq_ok] at h
    rcases h with ⟨reply', answered, result⟩
    cases result
    have observed : (observeNow app conditions memory db).2 = .ok (tx, now) := by rw [accepted]
    have time := observeNow_spec observed
    rcases recoverAdmitted_spec answered with ⟨token, by_, stored⟩
    exact ⟨token, now, time, by_, time.receipts ▸ stored⟩

theorem recoverReceipt_differs {targets : Targets} {records : Records}
    {digest outcome : String} {expected : Option String} {reply : Reply}
    (differs : expected ≠ some digest)
    (h : recoverReceipt conditions targets records digest outcome expected = .ok reply) :
    reply = .alreadyUsed := by
  simp only [recoverReceipt, if_neg differs, bind_eq_ok] at h
  rcases h with ⟨_, _, result⟩
  exact (Except.ok.inj result).symm

/-- A submittable form recovers under the identity it would be submitted with. -/
theorem recoverAdmitted_refused {form : Submission} {db : Database Records} {now : Int}
    {context : InvocationContext} {receipt : Receipt} {reply : Reply}
    (admitted : admitWebInvocation app conditions form db now = .ok context)
    (stored : db.receipts.find? context.nonce = some receipt)
    (differs : receipt.input ≠ context.identity)
    (h : recoverAdmitted app conditions form db now = .ok reply) : reply = .alreadyUsed := by
  simp only [admitWebInvocation, checkRequest, bind_eq_ok, ensure_eq_ok] at admitted
  rcases admitted with ⟨⟨binding, action⟩, bound, canonical, hcanonical, _, _, anonymous,
    hanonymous, ⟨token, session, principal⟩, identified, targets, granted, invocation,
    hinvocation, result⟩
  cases result
  rcases canonicalActionInput_selections hcanonical with ⟨found, scalar, hfound, hselections⟩
  have same : found = action := Except.ok.inj (hfound.symm.trans (webAction_spec bound).2)
  subst same
  simp only [recoverAdmitted, bound, hanonymous, identified, hselections, granted, bind_ok] at h
  rcases bind_eq_ok.mp h with ⟨loaded, hloaded, answered⟩
  cases loaded with
  | none => exact absurd hloaded (loadReceipt_ne_none stored)
  | some pair =>
      rcases pair with ⟨digest, outcome⟩
      rcases loadReceipt_spec hloaded with ⟨row, hrow, rfl, rfl⟩
      rw [stored] at hrow
      cases hrow
      simp only [expectedIdentity, hcanonical, hinvocation, bind_ok] at answered
      refine recoverReceipt_differs (fun h => differs ?_) answered
      exact (Option.some.inj h).symm

/-- Only a found receipt becomes a committed answer. -/
theorem afterRecovery_committed {outcome : CommitOutcome} {reply : Reply} {payload : String}
    {shown : Bool} (h : afterRecovery outcome reply = .ok (.committed payload shown)) :
    ∃ prepared, reply = .committed payload prepared := by
  cases reply with
  | committed stored prepared =>
      cases h
      exact ⟨prepared, rfl⟩
  | settled settled => cases h
  | alreadyUsed => cases h
  | retry =>
      simp only [afterRecovery] at h
      split at h <;> cases h

/-- A form whose identity differs from that of the stored receipt recovers
nothing of it. -/
theorem recoverForm_refused {form : Submission} {memory : Int} {db tx : Database Records}
    {context : InvocationContext} {receipt : Receipt} {reply : Reply}
    (admitted : submissionContext app conditions form memory db = .ok context)
    (stored : db.receipts.find? context.nonce = some receipt)
    (differs : receipt.input ≠ context.identity)
    (h : (recoverForm app conditions form memory db).2 = .ok (tx, reply)) :
    reply = .alreadyUsed := by
  simp only [submissionContext, bind_eq_ok] at admitted
  rcases admitted with ⟨⟨observed, now⟩, hobserved, hcontext⟩
  have time := observeNow_spec hobserved
  unfold recoverForm at h
  split at h
  · cases h
  · next memory' tx' now' accepted =>
    rw [accepted] at hobserved
    cases hobserved
    simp only [bind_eq_ok] at h
    rcases h with ⟨reply', answered, result⟩
    cases result
    exact recoverAdmitted_refused hcontext (time.receipts ▸ stored) differs answered

end Outcomes

end Noxide
