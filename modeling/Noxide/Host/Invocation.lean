import Noxide.Authority.Security

/-!
# Web invocations

What a submitted form becomes before its action runs: canonical input, the
targets its sealed token and picker choices grant, and the digest that
identifies this invocation in the receipt.

Main results:

- Theorem {lit}`webTargetGrants_scope`: granted targets belong to a token of
  this contract, generation, binding and version.
- Theorem {lit}`webInvocation_spec`: the digest material names the token, the
  form and the canonical input.
-/

namespace Noxide

open Checked

/-- The source's protocol {lit}`VERSION`. -/
def protocolVersion : Nat := 13

def maxInputBytes : Nat := 32768

/-! ## Processes -/

/-- The fields the receipt digest binds. -/
structure InvocationIdentity where
  contract : String
  subject : String × String × String
  session : String
  action : Nat
  actionVersion : Nat
  binding : Nat
  bindingVersion : Nat
  input : String
  targets : Targets
  nonce : String
  deriving DecidableEq

/-- The digests of the host: SHA-256 over the JSON of a canonical input, of a
selection subject and of an invocation. -/
structure Digests where
  input : Nat → List Input → Fields → String
  subject : String × String × String → String
  invocation : InvocationIdentity → String

/-- One serving process: the approved manifest and its contract digest, the
generation that its activation obtained, and the host keys. -/
structure Application where
  manifest : Manifest
  contract : String
  generation : String
  keys : HostKeys
  digests : Digests

/-- Contract and generation: what every form token is bound to. -/
def Application.submissionContract (app : Application) : String :=
  app.contract ++ ":" ++ app.generation

/-! ## Canonical input -/

/-- A host-canonicalized request bound to the approved execution contract. -/
structure CanonicalActionInput where
  action : Nat
  version : Nat
  contract : String
  fields : Fields
  selections : Fields
  digest : String

def TargetSource.isSelected : TargetSource → Bool
  | .selected _ _ _ => true
  | _ => false

/-- Take the handle of one picker out of the raw form. -/
def takeSelection (name : String) (raw selections : Fields) : Answered (Fields × Fields) :=
  match raw.lookup ("_target_" ++ name) with
  | none => .ok (raw, selections)
  | some handle => do
      checkRequest (handle ≠ "" ∧ handle.utf8ByteSize ≤ 2048)
      return (raw.erase ("_target_" ++ name), selections.insert name handle)

/-- Separate the scalar inputs of a form from its picker handles. -/
def actionInput (action : Action) (input : Fields) : Answered (Fields × Fields) := do
  checkRequest (input.keys.card ≤ action.inputs.length + 4 ∧ input.bytes ≤ maxInputBytes)
  let (scalar, selections) ←
    (action.targets.filter fun target => target.source.isSelected).foldlM
      (fun split target => takeSelection target.name split.1 split.2) (input, ∅)
  checkRequest (scalar.bytes ≤ maxInputBytes)
  return (scalar, selections)

def Application.canonicalActionInput (app : Application) (action : Nat) (raw : Fields) :
    Answered CanonicalActionInput := do
  let action ← (app.manifest.action action).mapError fun _ => Fault.internal
  let (scalar, selections) ← actionInput action raw
  let fields ← asRequest .invalidRequest (canonicalInput action scalar)
  let _ ← asRequest .invalidRequest (validateInputs action.inputs fields)
  return {
    action := action.id
    version := action.version
    contract := app.contract
    fields := fields
    selections := selections
    digest := app.digests.input action.version action.inputs fields }

/-! ## Target grants -/

def validTargetIdentity (declaration : ActionTarget) (target : RecordTarget) : Prop :=
  target.resource = declaration.resource
    ∧ 0 < target.id
    ∧ (target.id : Int) ≤ i64Max
    ∧ 0 < target.revision
    ∧ target.incarnation ≠ ""
    ∧ target.incarnation.utf8ByteSize ≤ 64

instance (declaration : ActionTarget) (target : RecordTarget) :
    Decidable (validTargetIdentity declaration target) := by
  unfold validTargetIdentity
  infer_instance

def TargetSource.isPage : TargetSource → Bool
  | .page _ => true
  | _ => false

/-- The source of a signed target: a page, or a reference from a page target. -/
def signedSource (targets : List ActionTarget) (source : TargetSource) : Result Bool :=
  match source with
  | .page _ => .ok true
  | .reference parent _ _ => do
      let parent ← actionTarget targets parent
      return parent.source.isPage
  | _ => .ok false

/-- An admission failure that carries no typed request error. -/
abbrev asInternal {α : Type} (x : Result α) : Answered α :=
  x.mapError fun _ => Fault.internal

/-- The page a signed page target was issued on still shows this form. -/
def checkIssuingRoute (m : Manifest) (binding : WebBinding) (declaration : ActionTarget)
    (target : RecordTarget) : Answered Unit :=
  if declaration.source.isPage = true then do
    let id ← needRequest target.route
    let route ← asInternal (m.route id)
    checkRequest (route.resource = some declaration.resource ∧ binding.id ∈ route.forms)
  else checkRequest (target.route = none)

/-- A signed target must be a page target, or a reference from one. -/
def checkSignedTarget (m : Manifest) (action : Action) (binding : WebBinding) (name : String)
    (target : RecordTarget) : Answered Unit := do
  let declaration ← asInternal (actionTarget action.targets name)
  let page ← asInternal (signedSource action.targets declaration.source)
  checkRequest (page = true ∧ validTargetIdentity declaration target)
  checkIssuingRoute m binding declaration target

/-- Accounts and anonymous sessions as digests name them. -/
def Principal.subject (principal : Principal) (anonymous : String) :
    Answered (String × String × String) :=
  match principal with
  | .anonymous => .ok ("anonymous", anonymous, "")
  | .service _ => .error (.request .invalidRequest)
  | .user account => .ok ("user", account.id, account.tenant)

/-- A target granted by a picker's choice may not be granted already. -/
def insertSelected (action : Action) (grants : Targets) (entry : String × RecordTarget) :
    Answered Targets := do
  let declaration ← asInternal (actionTarget action.targets entry.1)
  checkRequest (entry.2.route = none
    ∧ validTargetIdentity declaration entry.2
    ∧ grants.lookup entry.1 = none)
  return grants.insert entry.1 entry.2

def TargetSource.readsFrom (name : String) : TargetSource → Bool
  | .reference parent _ _ => parent == name
  | _ => false

/-- The aliases a picker's choice must name: its own and those read from it. -/
def selectedAliases (action : Action) (name : String) : Finset String :=
  ((action.targets.filter fun target =>
    target.name == name || target.source.readsFrom name).map ActionTarget.name).toFinset

/-- Verify a picker's signed choice, then grant the targets it names. -/
def insertSelectedGrants (app : Application) (action : Action) (binding : WebBinding)
    (selections : Fields) (subject : String) (now : Int) (grants : Targets)
    (declaration : ActionTarget) : Answered Targets := do
  let handle ← needRequest (selections.lookup declaration.name)
  let proof ← asRequest .invalidRequest (app.keys.verifySelection handle now)
  match proof.kind, declaration.source with
  | .selection scope, .selected query eligible _ => do
      checkRequest (scope.contract = app.submissionContract
        ∧ scope.action = action.id
        ∧ scope.binding = binding.id
        ∧ scope.name = declaration.name
        ∧ scope.query = query
        ∧ scope.eligible = eligible
        ∧ proof.subject = subject
        ∧ proof.expires - proof.issued ≤ 600)
      checkRequest ((scope.targets.map Prod.fst).toFinset
        = selectedAliases action declaration.name)
      scope.targets.foldlM (insertSelected action) grants
  | _, _ => .error (.request .invalidRequest)

/-- The scope of a form token, signed in or anonymous. -/
def TokenKind.submissionScope : TokenKind → Option SubmissionScope
  | .submission scope => some scope
  | .anonymousSubmission scope => some scope
  | _ => none

/-- The targets of one form: the signed ones and those its pickers chose. -/
def webTargetGrants (app : Application) (token : Token) (action : Action)
    (binding : WebBinding) (selections : Fields) (session : Token) (principal : Principal)
    (now : Int) : Answered Targets := do
  let scope ← needRequest token.kind.submissionScope
  checkRequest (scope.contract = app.submissionContract
    ∧ scope.action = binding.id ∧ scope.version = binding.version)
  scope.targets.forM fun entry => checkSignedTarget app.manifest action binding entry.1 entry.2
  let subject ← principal.subject session.nonce
  let grants ← (action.targets.filter fun target => target.source.isSelected).foldlM
    (insertSelectedGrants app action binding selections (app.digests.subject subject) now)
    (scope.targets.foldl (fun grants entry => grants.insert entry.1 entry.2) [])
  checkRequest (grants.length = action.targets.length
    ∧ ∀ target ∈ action.targets, grants.lookup target.name ≠ none)
  return grants

/-! ## The identity of an invocation -/

/-- A target reviewed by identity alone does not bind its revision. -/
def identityTarget (action : Action) (entry : String × RecordTarget) :
    Answered (String × RecordTarget) := do
  let declaration ← asInternal (actionTarget action.targets entry.1)
  return (entry.1,
    if declaration.revision = .identity then { entry.2 with revision := 0 } else entry.2)

/-- The material of the receipt digest; it binds every execution identity field. -/
def webInvocation (app : Application) (binding : WebBinding) (token session : Token)
    (principal : Principal) (inputHash : String) (targets : Targets) :
    Answered InvocationIdentity := do
  let subject ← principal.subject ""
  let action ← asInternal (app.manifest.action binding.action)
  let targets ← targets.mapM (identityTarget action)
  return {
    contract := app.submissionContract
    subject := subject
    session := session.nonce
    action := action.id
    actionVersion := action.version
    binding := binding.id
    bindingVersion := binding.version
    input := inputHash
    targets := targets
    nonce := token.nonce }

/-- Granted targets belong to a token issued for this form, under this contract
and this generation of it. -/
theorem webTargetGrants_scope {app : Application} {token session : Token} {action : Action}
    {binding : WebBinding} {selections : Fields} {principal : Principal} {now : Int}
    {grants : Targets}
    (h : webTargetGrants app token action binding selections session principal now
      = .ok grants) :
    ∃ scope, token.kind.submissionScope = some scope ∧
      scope.contract = app.submissionContract ∧ scope.action = binding.id ∧
      scope.version = binding.version := by
  simp only [webTargetGrants, needRequest, checkRequest, bind_eq_ok, context_eq_ok,
    ensure_eq_ok] at h
  rcases h with ⟨scope, hscope, _, bound, _⟩
  exact ⟨scope, hscope, bound⟩

/-- The material names the token, the action and the input it was built from. -/
theorem webInvocation_spec {app : Application} {binding : WebBinding} {token session : Token}
    {principal : Principal} {inputHash : String} {targets : Targets}
    {invocation : InvocationIdentity}
    (h : webInvocation app binding token session principal inputHash targets = .ok invocation) :
    invocation.nonce = token.nonce ∧ invocation.input = inputHash ∧
      invocation.binding = binding.id ∧ invocation.contract = app.submissionContract := by
  simp only [webInvocation, bind_eq_ok] at h
  rcases h with ⟨subject, _, action, _, identified, _, result⟩
  cases result
  exact ⟨rfl, rfl, rfl, rfl⟩

end Noxide
