import Noxide.Protocol.Scalar

/-!
# The application contract

The data types of an application manifest: resources, operations with their
policies and queries, routes, actions with their steps and expressions, and the
declared background schedules and effects.  Identifiers of resources,
operations, routes and actions are the source's 32-bit numbers; sorted maps are
association lists in key order.
-/

namespace Noxide

/-! ## Expressions and guards -/

/-- A literal's scalar type is explicit. -/
inductive Literal where
  | text (value : String)
  | integer (value : I64)
  | boolean (value : Bool)
  | choice (value : String)
  | account (value : String)
  | timestamp (millis : Int)
  | duration (millis : Int)
  deriving DecidableEq, Repr

inductive Value where
  | input (name : String)
  | literal (value : Literal)
  | target (name : String)
  | created (step : Nat)
  | principal
  | transactionTime
  | snapshotField (target field : String) (reviewed : Bool)
  | currentField (target field : String)
  | add (left right : Value)
  | subtract (left right : Value)
  | multiply (left right : Value)
  deriving DecidableEq, Repr

inductive Comparison where
  | equal
  | notEqual
  | less
  | lessOrEqual
  | greater
  | greaterOrEqual
  deriving DecidableEq, Repr

inductive GuardCondition where
  | compare (left : Value) (comparison : Comparison) (right : Value)
  | all (conditions : List GuardCondition)

structure GuardRejection where
  input : Option String
  message : String
  deriving DecidableEq, Repr

structure Guard where
  condition : GuardCondition
  rejection : GuardRejection

/-! ## Membership and policies -/

inductive RelatedTarget where
  | selfRecord
  | reference (field : String)
  deriving DecidableEq, Repr

inductive MembershipLiteral where
  | boolean (value : Bool)
  | choice (value : String)
  deriving DecidableEq, Repr

/-- Authority to test these membership fields; the conditions are in field
order. -/
structure ExistsRelated where
  resource : String
  reference : String
  target : RelatedTarget
  account : String
  conditions : List (String × MembershipLiteral)
  deriving DecidableEq, Repr

structure MembershipUnique where
  reference : String
  account : String
  deriving DecidableEq, Repr

inductive Predicate where
  | everyone
  | capability
  | owner
  | sameTenant
  | service (worker : String)
  | principalIs (field : String)
  | role (name : String) (tenantScoped : Bool)
  | existsRelated (related : ExistsRelated)
  deriving DecidableEq, Repr

/-- Grants access if every predicate in at least one nonempty rule matches. -/
structure Policy where
  any : List (List Predicate)
  deriving DecidableEq, Repr

/-! ## Queries -/

inductive Operand where
  | literal (value : String)
  | param (name : String)
  deriving DecidableEq, Repr

/-- The one tokenizer this host implements. -/
def tokenizerId : String :=
  "noxide-token-and-v1;nfkc=0.1.25/unicode17.0.0;category=0.1.4/unicode17.0.0;" ++
    "lower=str-default/unicode17.0.0/rust1.98.0"

structure SearchIndex where
  tokenizer : String
  fields : List String
  maxBytes : Nat
  deriving DecidableEq, Repr

structure Search where
  fields : List String
  parameter : String
  deriving DecidableEq, Repr

structure Bound where
  value : Operand
  inclusive : Bool
  deriving DecidableEq, Repr

structure Range where
  field : String
  lower : Option Bound
  upper : Option Bound
  deriving DecidableEq, Repr

inductive Direction where
  | ascending
  | descending
  deriving DecidableEq, Repr

inductive SortMode where
  | immutable
  | liveView
  deriving DecidableEq, Repr

inductive AggregateFunction where
  | count
  | sum (field : String)
  | min (field : String)
  | max (field : String)
  deriving DecidableEq, Repr

structure Aggregate where
  source : Nat
  function : AggregateFunction
  deriving DecidableEq, Repr

inductive Disclosure where
  | search (field : String)
  | order (field : String)
  | range (field : String)
  | aggregate (field : Option String)
  deriving DecidableEq, Repr

structure Query where
  search : Option Search
  range : Option Range
  aggregate : Option Aggregate
  disclose : List Disclosure
  deriving DecidableEq, Repr

/-! ## Resources -/

structure ResourceExpiry where
  field : String
  maxAfter : Int
  deriving DecidableEq, Repr

structure Visibility where
  field : String
  equals : String
  deriving DecidableEq, Repr

structure Gate where
  field : String
  visible : Visibility
  createWhen : Visibility
  deriving DecidableEq, Repr

structure Resource where
  search : Option SearchIndex
  expiry : Option ResourceExpiry
  unique : List MembershipUnique
  gate : Option Gate
  id : Nat
  name : String
  fields : List TextField
  deriving DecidableEq, Repr

/-! ## Operations -/

inductive OperationKind where
  | aggregate
  | list
  | read
  | create
  | update
  | delete
  deriving DecidableEq, Repr

structure Condition where
  field : String
  equals : Operand
  deriving DecidableEq, Repr

inductive ListOrder where
  | field (field : String) (direction : Direction) (mode : SortMode)
  | createdAsc
  | createdDesc
  deriving DecidableEq, Repr

structure Preview where
  seeAll : Option Nat
  deriving DecidableEq, Repr

structure ListSettings where
  preview : Option Preview
  order : ListOrder
  pageSize : Nat
  deriving DecidableEq, Repr

structure Via where
  source : Nat
  field : String
  deriving DecidableEq, Repr

structure Operation where
  maintenance : Bool
  query : Option Query
  bind : List (String × Nat)
  scope : Option String
  via : Option Via
  filter : List Condition
  disclose : List String
  list : Option ListSettings
  id : Nat
  resource : Nat
  kind : OperationKind
  policy : Policy
  visibility : Option Visibility
  fields : Option (List String)
  deriving DecidableEq, Repr

/-! ## Routes and actions -/

inductive Access where
  | authenticated
  | everyone
  | publicOptional
  deriving DecidableEq, Repr

structure Route where
  params : List String
  id : Nat
  path : String
  resource : Option Nat
  operations : List Nat
  forms : List Nat
  access : Access
  deriving DecidableEq, Repr

inductive RedirectSource where
  | target (name : String)
  | step (index : Nat)
  | reference (step : Nat) (field : String)
  deriving DecidableEq, Repr

structure Redirect where
  route : Nat
  source : RedirectSource
  deriving DecidableEq, Repr

inductive Revision where
  | exact
  | identity
  deriving DecidableEq, Repr

structure Inspection where
  operation : Nat
  fields : List String
  deriving DecidableEq, Repr

inductive TargetSource where
  | page (reads : List Nat)
  | service (eligible : Nat)
  | selected (query eligible : Nat) (label : List String)
  | reference (target field : String) (eligible : Nat)
  deriving DecidableEq, Repr

structure ActionTarget where
  name : String
  resource : Nat
  source : TargetSource
  revision : Revision
  projection : Option Inspection
  inspect : Option Inspection
  deriving DecidableEq, Repr

inductive Change where
  | set (value : Value)
  | decrease (by_ : Value) (rejection : GuardRejection)
  | increase (by_ : Value) (rejection : GuardRejection)
  deriving DecidableEq, Repr

structure Assignment where
  field : String
  change : Change
  deriving DecidableEq, Repr

inductive Target where
  | none
  | named (name : String)
  deriving DecidableEq, Repr

structure Step where
  guards : List Guard
  operation : Nat
  target : Target
  assign : List Assignment

structure Action where
  id : Nat
  version : Nat
  name : String
  targets : List ActionTarget
  inputs : List Input
  steps : List Step

/-- A form of one action: its own identifier and version, and the route the
browser is sent to afterwards. -/
structure WebBinding where
  id : Nat
  version : Nat
  action : Nat
  redirect : Redirect
  deriving DecidableEq, Repr

/-! ## Background declarations -/

inductive ScheduledTarget where
  | target (name : String)
  | created (step : Nat)
  deriving DecidableEq, Repr

structure Schedule where
  sourceAction : Nat
  ordinal : Nat
  worker : String
  action : Nat
  targets : List (String × ScheduledTarget)
  inputs : List (String × Value)
  dueAt : Value
  deriving DecidableEq, Repr

structure PayloadField where
  schema : Input
  value : Value
  deriving DecidableEq, Repr

structure EmitEffect where
  sourceAction : Nat
  ordinal : Nat
  endpoint : String
  fields : List PayloadField
  deriving DecidableEq, Repr

structure EffectEndpoint where
  name : String
  secretSlot : Option String
  deriving DecidableEq, Repr

structure EffectContract where
  endpoints : List EffectEndpoint
  emissions : List EmitEffect
  deriving DecidableEq, Repr

/-- The record a worker action may act on, and the read it must be eligible for. -/
structure WorkerTarget where
  resource : Nat
  eligible : Nat
  deriving DecidableEq, Repr

/-- One action of a worker, with the bindings of its targets by alias. -/
structure WorkerAction where
  action : Nat
  targets : List (String × WorkerTarget)
  deriving DecidableEq, Repr

structure Worker where
  name : String
  actions : List WorkerAction
  deriving DecidableEq, Repr

structure RecurringSelection where
  operation : Nat
  target : String
  expiryRepair : Bool
  deriving DecidableEq, Repr

structure RecurringSchedule where
  name : String
  worker : String
  action : Nat
  interval : Int
  inputs : List (String × Literal)
  selection : Option RecurringSelection
  deriving DecidableEq, Repr

structure JobContract where
  workers : List Worker
  schedules : List Schedule
  recurring : List RecurringSchedule
  deriving DecidableEq, Repr

/-! ## Manifests -/

structure Manifest where
  effects : Option EffectContract
  jobs : Option JobContract
  version : Nat
  resources : List Resource
  operations : List Operation
  routes : List Route
  actions : List Action
  webBindings : List WebBinding

/-! ## Lookups -/

/-- First resource of the identifier. -/
def Manifest.resource (m : Manifest) (id : Nat) : Result Resource :=
  need "unknown resource" (m.resources.find? fun r => r.id == id)

def Manifest.operation (m : Manifest) (id : Nat) : Result Operation :=
  need "unknown operation" (m.operations.find? fun op => op.id == id)

def Manifest.route (m : Manifest) (id : Nat) : Result Route :=
  need "unknown route" (m.routes.find? fun r => r.id == id)

def Manifest.action (m : Manifest) (id : Nat) : Result Action :=
  need "unknown action" (m.actions.find? fun a => a.id == id)

def Manifest.webBinding (m : Manifest) (id : Nat) : Result WebBinding :=
  need "unknown web binding" (m.webBindings.find? fun binding => binding.id == id)

def actionTarget (targets : List ActionTarget) (name : String) : Result ActionTarget :=
  need "unknown named target" (targets.find? fun target => target.name == name)

def Operation.isPublic (op : Operation) : Bool :=
  op.policy.any.flatten.any fun p => p == .everyone

def Operation.isCapability (op : Operation) : Bool :=
  op.policy.any.flatten.any fun p => p == .capability

/-- Actions that an anonymous session submits. -/
def Operation.anonymousAction (op : Operation) : Bool :=
  (op.isPublic && op.kind == .create) || op.isCapability

/-- The declared field of the name. -/
def Resource.field? (r : Resource) (name : String) : Option TextField :=
  r.fields.find? fun f => f.name == name

theorem Manifest.resource_mem {m : Manifest} {id : Nat} {r : Resource}
    (h : m.resource id = .ok r) : r ∈ m.resources ∧ r.id = id := by
  simp only [Manifest.resource, need, Checked.context_eq_ok] at h
  exact ⟨List.mem_of_find?_eq_some h, by simpa using List.find?_some h⟩

theorem Manifest.operation_mem {m : Manifest} {id : Nat} {op : Operation}
    (h : m.operation id = .ok op) : op ∈ m.operations ∧ op.id = id := by
  simp only [Manifest.operation, need, Checked.context_eq_ok] at h
  exact ⟨List.mem_of_find?_eq_some h, by simpa using List.find?_some h⟩

theorem Manifest.action_mem {m : Manifest} {id : Nat} {a : Action}
    (h : m.action id = .ok a) : a ∈ m.actions ∧ a.id = id := by
  simp only [Manifest.action, need, Checked.context_eq_ok] at h
  exact ⟨List.mem_of_find?_eq_some h, by simpa using List.find?_some h⟩

theorem Manifest.route_mem {m : Manifest} {id : Nat} {r : Route}
    (h : m.route id = .ok r) : r ∈ m.routes ∧ r.id = id := by
  simp only [Manifest.route, need, Checked.context_eq_ok] at h
  exact ⟨List.mem_of_find?_eq_some h, by simpa using List.find?_some h⟩

theorem Manifest.webBinding_id {m : Manifest} {id : Nat} {binding : WebBinding}
    (h : m.webBinding id = .ok binding) : binding.id = id := by
  simp only [Manifest.webBinding, need, Checked.context_eq_ok] at h
  simpa using List.find?_some h

theorem Resource.field?_mem {r : Resource} {name : String} {f : TextField}
    (h : r.field? name = some f) : f ∈ r.fields ∧ f.name = name :=
  ⟨List.mem_of_find?_eq_some h, by simpa using List.find?_some h⟩

/-! ## Stored fields -/

/-- A value is stored in its canonical form only. -/
def validateValue (field : TextField) (value : String) : Result Unit := do
  let canonical ← (field.canonical value).mapError Failure.message
  check "noncanonical stored value" (canonical = value)

def validateField (f : TextField) (fields : Fields) : Result Unit := do
  let value ← need "missing field" (fields.lookup f.name)
  validateValue f value

/-- Exactly the declared fields, each canonical. -/
def validateFields (resource : Resource) (fields : Fields) : Result Unit := do
  check "unexpected fields" (fields.keys.card = resource.fields.length)
  resource.fields.forM fun f => validateField f fields

/-- The value is the canonical form of itself. -/
theorem validateValue_iff {field : TextField} {value : String} :
    validateValue field value = .ok () ↔ field.canonical value = .ok value := by
  unfold validateValue
  cases hcanonical : field.canonical value with
  | error e => simp [Except.mapError, bind, Except.bind]
  | ok canonical =>
      simp only [Except.mapError, bind, Except.bind, check, Checked.ensure_eq_ok,
        Except.ok.injEq]

theorem validateField_iff {f : TextField} {fields : Fields} :
    validateField f fields = .ok () ↔
      ∃ value, fields.lookup f.name = some value ∧ f.canonical value = .ok value := by
  simp only [validateField, Checked.bind_eq_ok, need, Checked.context_eq_ok,
    validateValue_iff]

/-- Valid records hold a canonical value for every declared field. -/
theorem validateFields_iff {resource : Resource} {fields : Fields} :
    validateFields resource fields = .ok () ↔
      fields.keys.card = resource.fields.length ∧
        ∀ f ∈ resource.fields, ∃ value,
          fields.lookup f.name = some value ∧ f.canonical value = .ok value := by
  simp only [validateFields, Checked.bind_eq_ok, check, Checked.ensure_eq_ok,
    Checked.forM_eq_ok, validateField_iff, exists_const]

/-! ## Action inputs -/

/-- The total size of all values. -/
def Fields.bytes (fields : Fields) : Nat :=
  (fields.entries.map fun entry => entry.2.utf8ByteSize).sum

def validateInputs (inputs : List Input) (fields : Fields) : Result Unit := do
  check "unexpected action fields" (fields.keys.card = inputs.length)
  inputs.forM fun input => do
    let value ← need "missing input" (fields.lookup input.name)
    check "noncanonical action input" (input.canonical value = .ok value)

/-- The value an input takes when the form leaves it out. -/
def rawInput (input : Input) (fields : Fields) : Result String :=
  match fields.lookup input.name with
  | some value => .ok value
  | none =>
      if input.optional = true then .ok ""
      else if input.kind = .boolean then .ok "false"
      else .error (.message "missing required field")

/-- Normalize browser input once, before receipt binding and guest execution. -/
def canonicalInput (action : Action) (input : Fields) : Result Fields := do
  check "unexpected action field"
    (∀ key ∈ input.keys, ∃ declared ∈ action.inputs, declared.name = key)
  let entries ← action.inputs.mapM fun field => do
    let raw ← rawInput field input
    let value ← (field.canonical raw).mapError Failure.message
    return (field.name, value)
  return entries.foldl (fun fields entry => fields.insert entry.1 entry.2) ∅

/-- Validated inputs hold a canonical value for every declared input. -/
theorem validateInputs_iff {inputs : List Input} {fields : Fields} :
    validateInputs inputs fields = .ok () ↔
      fields.keys.card = inputs.length ∧
        ∀ input ∈ inputs, ∃ value,
          fields.lookup input.name = some value ∧ input.canonical value = .ok value := by
  simp only [validateInputs, Checked.bind_eq_ok, check, Checked.ensure_eq_ok,
    Checked.forM_eq_ok, need, Checked.context_eq_ok, exists_const]

end Noxide
