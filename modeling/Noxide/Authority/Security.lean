import Mathlib.Data.List.Sort
import Noxide.Admission.Expiry
import Noxide.Protocol.Manifest

/-!
# Sealed tokens

Tokens are sealed by the host keys and carry their own issue and expiry
seconds.  Verification opens the envelope and checks the token against the
effective time of the credential clock.

Main results:

- Theorem {lit}`HostKeys.verify_spec`: an accepted token is one the keys opened,
  inside its validity window.
- Theorem {lit}`submissionIdentity_spec`: an accepted submission token belongs
  to the presented session.
-/

namespace Noxide

open Checked

/-! ## Failures of a request -/

inductive RequestError where
  | authentication
  | invalidRequest
  | invalidCursor
  | rejected
  | busy
  | outcomeUnknown
  deriving DecidableEq, Repr

/-- The failures a request path tells apart: a typed request error, an
unavailable reference, a review conflict, a failure that the store declares
retryable, a refused statement budget, a closed lifecycle, or anything else. -/
inductive Fault where
  | request (error : RequestError)
  | referenceUnavailable
  | reviewConflict
  | retryable
  | statementLimit
  | unavailable
  | internal
  deriving DecidableEq, Repr

abbrev Answered := Except Fault

/-- {lit}`RequestError::database`, after the typed errors. -/
def Fault.answer : Fault → RequestError
  | .request error => error
  | .retryable => .busy
  | .statementLimit => .busy
  | .unavailable => .busy
  | .referenceUnavailable => .rejected
  | .reviewConflict => .rejected
  | .internal => .rejected

abbrev checkRequest (condition : Prop) [Decidable condition] : Answered Unit :=
  ensure (Fault.request .invalidRequest) condition

abbrev needRequest {α : Type} (value : Option α) : Answered α :=
  context (Fault.request .invalidRequest) value

/-- Any failure of a lookup becomes a typed request error. -/
def asRequest {ε α : Type} (error : RequestError) : Except ε α → Answered α
  | .ok value => .ok value
  | .error _ => .error (.request error)

@[simp]
theorem asRequest_eq_ok {ε α : Type} {error : RequestError} {x : Except ε α} {a : α} :
    asRequest error x = .ok a ↔ x = .ok a := by
  cases x <;> simp [asRequest]

/-! ## Tokens -/

/-- Private, authenticated scope of one record. -/
structure RecordTarget where
  resource : Nat
  id : Nat
  incarnation : String
  revision : Int
  route : Option Nat
  deriving DecidableEq, Repr

/-- Record targets by alias, in alias order. -/
abbrev Targets := List (String × RecordTarget)

/-- Insert into the ordered map, replacing the alias. -/
def Targets.insert (targets : Targets) (name : String) (target : RecordTarget) : Targets :=
  (targets.filter fun entry => entry.1 ≠ name).orderedInsert
    (fun a b => a.1 ≤ b.1) (name, target)

/-- What a form token is bound to: the contract with its generation, the web
binding and its version, and the sealed targets. -/
structure SubmissionScope where
  contract : String
  action : Nat
  version : Nat
  targets : Targets
  deriving DecidableEq

structure SelectionScope where
  contract : String
  action : Nat
  binding : Nat
  name : String
  query : Nat
  eligible : Nat
  targets : Targets
  deriving DecidableEq

/-- Cursor and download tokens carry further scope that no form reads. -/
inductive TokenKind where
  | cursor
  | download
  | login
  | session
  | anonymous
  | selection (scope : SelectionScope)
  | anonymousSubmission (scope : SubmissionScope)
  | submission (scope : SubmissionScope)
  deriving DecidableEq

structure Token where
  kind : TokenKind
  subject : String
  nonce : String
  issued : Int
  expires : Int
  incarnation : String
  deriving DecidableEq

def TokenKind.isSubmission : TokenKind → Bool
  | .submission _ => true
  | _ => false

def TokenKind.isAnonymousSubmission : TokenKind → Bool
  | .anonymousSubmission _ => true
  | _ => false

def TokenKind.isSelection : TokenKind → Bool
  | .selection _ => true
  | _ => false

def anonymousTtl : Int := 900

def maxTokenBytes : Nat := 2048

/-- Host keys: their incarnation, authenticated opening of an encoded token
envelope, and the check of a form's {lit}`csrf` value for a session. -/
structure HostKeys where
  incarnation : String
  openToken : String → Option Token
  csrfMatches : String → String → Bool

namespace HostKeys

/-- {lit}`verify_domain` in the token domain.  Only a selection proof may have
expired, where the caller defers its expiry. -/
def verifyDomain (keys : HostKeys) (encoded : String) (now : Int) (selection : Bool) :
    Result Token := do
  check "token limit" (encoded.utf8ByteSize ≤ maxTokenBytes)
  let token ← need "invalid token" (keys.openToken encoded)
  check "expired token or authority"
    (token.incarnation = keys.incarnation
      ∧ 0 ≤ token.issued
      ∧ token.issued < token.expires
      ∧ token.issued ≤ now
      ∧ (now < token.expires ∨ selection = true ∧ token.kind.isSelection = true)
      ∧ token.expires - token.issued ≤ 86400)
  return token

def verify (keys : HostKeys) (encoded : String) (now : Int) : Result Token :=
  keys.verifyDomain encoded now false

/-- Selection proof verification defers expiry until after receipt lookup. -/
def verifySelection (keys : HostKeys) (encoded : String) (now : Int) : Result Token := do
  let token ← keys.verifyDomain encoded now true
  check "not a selection proof" (token.kind.isSelection = true)
  return token

def anonymous (keys : HostKeys) (cookie : String) (now : Int) : Result Token := do
  let token ← keys.verify cookie now
  check "invalid anonymous cookie"
    (token.kind = .anonymous ∧ token.subject = "" ∧ token.expires - token.issued ≤ anonymousTtl)
  return token

/-- An accepted token was opened by the keys and has not expired. -/
theorem verify_spec {keys : HostKeys} {encoded : String} {now : Int} {token : Token}
    (h : keys.verify encoded now = .ok token) :
    keys.openToken encoded = some token ∧ token.incarnation = keys.incarnation ∧
      token.issued ≤ now ∧ now < token.expires := by
  simp only [verify, verifyDomain, check, need, bind_eq_ok, ensure_eq_ok, context_eq_ok] at h
  rcases h with ⟨_, _, opened, hopened, _, window, result⟩
  cases result
  rcases window with ⟨incarnation, _, _, issued, live, _⟩
  refine ⟨hopened, incarnation, issued, ?_⟩
  simpa using live

end HostKeys

/-! ## The identity behind a submission -/

/-- Finds the account behind a session token: the session and role rows. -/
abbrev Sessions := Token → Int → Answered Principal

/-- {lit}`auth::authenticate`. -/
def authenticate (keys : HostKeys) (sessions : Sessions) (cookie : String) (now : Int) :
    Answered (Token × Principal) := do
  let token ← asRequest .authentication (keys.verify cookie now)
  ensure (Fault.request .authentication) (token.kind = .session)
  let principal ← sessions token now
  return (token, principal)

/-- The submission token, the session that presents it, and its principal.  An
anonymous action takes an anonymous cookie in the session's place. -/
def submissionIdentity (keys : HostKeys) (sessions : Sessions) (anonymousAction : Bool)
    (cookie submission csrf : String) (now : Int) : Answered (Token × Token × Principal) :=
  if anonymousAction = true then do
    let anonymous ← asRequest .invalidRequest (keys.anonymous cookie now)
    checkRequest (keys.csrfMatches anonymous.nonce csrf = true)
    let token ← asRequest .invalidRequest (keys.verify submission now)
    checkRequest (token.kind.isAnonymousSubmission = true ∧ token.subject = anonymous.nonce)
    return (token, anonymous, .anonymous)
  else do
    let token ← asRequest .invalidRequest (keys.verify submission now)
    checkRequest (token.kind.isSubmission = true)
    let (session, principal) ← authenticate keys sessions cookie now
    checkRequest (token.subject = session.nonce)
    checkRequest (keys.csrfMatches session.nonce csrf = true)
    return (token, session, principal)

/-- An accepted submission token is verified at the time of admission and bound
to the session. -/
theorem submissionIdentity_spec {keys : HostKeys} {sessions : Sessions}
    {anonymousAction : Bool} {cookie submission csrf : String} {now : Int}
    {token session : Token} {principal : Principal}
    (h : submissionIdentity keys sessions anonymousAction cookie submission csrf now
      = .ok (token, session, principal)) :
    keys.verify submission now = .ok token ∧ token.subject = session.nonce := by
  unfold submissionIdentity at h
  split at h
  · simp only [checkRequest, bind_eq_ok, ensure_eq_ok, asRequest_eq_ok] at h
    rcases h with ⟨anonymous, _, _, _, opened, verified, _, ⟨_, subject⟩, result⟩
    cases result
    exact ⟨verified, subject⟩
  · simp only [checkRequest, bind_eq_ok, ensure_eq_ok, asRequest_eq_ok] at h
    rcases h with ⟨opened, verified, _, _, ⟨presented, account⟩, _, _, subject, _, _, result⟩
    cases result
    exact ⟨verified, subject⟩

end Noxide
