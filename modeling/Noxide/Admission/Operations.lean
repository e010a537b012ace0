import Noxide.Admission.Jobs
import Noxide.Admission.Queries

/-!
# Operations and manifests

Admission of operations, of the derived index shapes, of web bindings and
effects, and of a whole manifest.

Main results:

- Theorem {lit}`validate_spec`: the parts of an accepted manifest are admitted.
- Theorem {lit}`schedule_visit_accepts_iff_acyclic`: schedules are accepted exactly
  when their calls have no cycle.
-/

namespace Noxide

open Checked

/-! ## Selections -/

/-- One filter condition on a boolean or choice field. -/
def validateCondition (op : Operation) (r : Resource) (condition : Condition) : Result Unit := do
  let field ← need "unknown filter field" (r.field? condition.field)
  check "invalid filter kind" (field.kind.isFinite = true)
  match condition.equals with
  | .literal value => check "noncanonical filter value" (field.canonical value = .ok value)
  | .param name =>
      check "invalid filter parameter" (identifier name = true ∧ name ≠ "cursor")
  check "filter duplicates visibility" (∀ v ∈ op.visibility, v.field ≠ condition.field)

def validateConditionsFrom (op : Operation) (r : Resource) :
    List String → List Condition → Result Unit
  | _, [] => .ok ()
  | earlier, condition :: rest => do
      check "duplicate filter field" (condition.field ∉ earlier)
      validateCondition op r condition
      validateConditionsFrom op r (condition.field :: earlier) rest

def OperationKind.selects (kind : OperationKind) : Bool :=
  kind == .list || kind == .aggregate

def validateSelection (m : Manifest) (op : Operation) : Result Unit := do
  check "filter requires list" (op.filter = [] ∨ op.kind.selects = true)
  check "disclose requires public list"
    (op.disclose = [] ∨ op.kind.selects = true ∧ op.isPublic = true)
  check "filter limit" (op.filter.length ≤ 4)
  let r ← m.resource op.resource
  validateConditionsFrom op r [] op.filter
  check "invalid filter disclosure" (op.disclose.Nodup
    ∧ op.disclose.toFinset = ((op.filter.map Condition.field).filter op.unprojected).toFinset)

/-! ## Operations -/

def validateScope (op : Operation) (r : Resource) : Result Unit := do
  check "scope requires reference field"
    (∀ scope ∈ op.scope, (r.referenceField scope).isSome = true)
  check "gated list requires scope"
    (op.kind.selects = true → ∀ gate ∈ r.gate, op.scope = some gate.field)

/-- A follow reads the target of a reference of its source. -/
def validateVia (m : Manifest) (op : Operation) : Result Unit :=
  match op.via with
  | none => .ok ()
  | some via => do
      let source ← m.operation via.source
      check "invalid follow source"
        (source.via = none ∧ (source.kind = .read ∨ source.kind = .list))
      let sourceResource ← m.resource source.resource
      let target ← referenceResource m source.resource via.field
      check "invalid follow reference"
        ((sourceResource.referenceField via.field).isSome = true
          ∧ target.map Resource.id = some op.resource)
      check "follow source projection hides reference"
        (∀ fields ∈ source.fields, via.field ∈ fields)

def validateBinding (m : Manifest) (op : Operation) (entry : String × Nat) : Result Unit := do
  let parent ← referenceResource m op.resource entry.1
  let target ← need "binding requires reference field" parent
  let eligible ← m.operation entry.2
  check "invalid binding eligibility"
    (eligible.kind = .read ∧ eligible.via = none ∧ eligible.resource = target.id)

def validateList (m : Manifest) (op : Operation) : Result Unit :=
  if op.kind = .list then do
    let _ ← compilePlan m op
    return ()
  else .ok ()

def validateOperation (m : Manifest) (op : Operation) : Result Unit := do
  check "scope requires list" (op.scope = none ∨ op.kind.selects = true)
  check "via requires read" (op.via = none ∨ op.kind = .read)
  check "scope and via are exclusive" (op.scope = none ∨ op.via = none)
  let r ← m.resource op.resource
  validateScope op r
  validateVia m op
  check "binding eligibility requires create" (op.bind = [] ∨ op.kind = .create)
  check "every reference requires eligibility"
    (op.kind = .create → op.bind.length = r.referenceFields.length)
  op.bind.forM (validateBinding m op)
  validateSelection m op
  validateList m op
  check "invalid list settings"
    (∀ settings ∈ op.list, op.kind = .list ∧ 1 ≤ settings.pageSize ∧ settings.pageSize ≤ 20)
  validatePolicy m op

def validateOperations (m : Manifest) : Result Unit :=
  m.operations.forM (validateOperation m)

/-- What a public operation shows: a fixed visibility and declared fields. -/
def validatePublicRead (m : Manifest) (op : Operation) : Result Unit := do
  check "public operations must read"
    (op.kind = .list ∨ op.kind = .read ∨ op.kind = .aggregate)
  let visibility ← need "public visibility required" op.visibility
  let r ← m.resource op.resource
  let field ← need "unknown visibility field" (r.field? visibility.field)
  check "visibility must be boolean or choice" (field.kind.isFinite = true)
  check "visibility must be canonical" (field.canonical visibility.equals = .ok visibility.equals)
  let fields ← need "public fields required" op.fields
  check "empty public fields" (fields ≠ [])
  projectedFields r fields

def validatePublicOperation (m : Manifest) (op : Operation) : Result Unit :=
  if op.isPublic then do
    check "public policy must stand alone" (op.policy.any = [[.everyone]])
    if op.kind = .create then
      check "public create cannot project or filter" (op.visibility = none ∧ op.fields = none)
    else validatePublicRead m op
  else
    check "private operations cannot declare public visibility or fields"
      (op.visibility = none ∧ op.fields = none)

def validateCapabilityOperation (op : Operation) : Result Unit :=
  check "capability policy requires standalone update or delete"
    (op.isCapability = true →
      op.policy.any = [[.capability]] ∧ (op.kind = .update ∨ op.kind = .delete))

/-! ## Expiry and memberships -/

def maxUniqueTuples : Nat := 4

/-- The fields of a unique tuple: a required reference and a required account. -/
def uniqueFields (r : Resource) (tuple : MembershipUnique) : Result (TextField × TextField) := do
  let reference ← membershipField r tuple.reference
  let account ← membershipField r tuple.account
  check "invalid membership unique tuple"
    (reference.optional = false ∧ reference.initial = none ∧ reference.kind.isReference = true
      ∧ account.optional = false ∧ account.initial = none ∧ account.kind.isAccount = true)
  return (reference, account)

def validateUnique (r : Resource) : Result Unit := do
  check "membership unique tuple limit" (r.unique.length ≤ maxUniqueTuples)
  check "duplicate membership unique tuple" r.unique.Nodup
  r.unique.forM fun tuple => do
    let _ ← uniqueFields r tuple
    return ()

def validateAuthority (m : Manifest) : Result Unit := do
  m.resources.forM fun r => do
    validateExpiry r
    validateUnique r
  m.operations.forM fun op => do
    let _ ← plans m op
    return ()

/-! ## Derived indexes -/

inductive IndexTable where
  | records
  | postings
  deriving DecidableEq, Repr

inductive IndexColumn where
  | owner
  | tenant
  | field (name : String)
  | timestamp (name : String)
  deriving DecidableEq, Repr

inductive ScalarRepresentation where
  | numeric
  | binary
  deriving DecidableEq, Repr

inductive IndexOrder where
  | created
  | scalar (field : String) (representation : ScalarRepresentation)
  deriving DecidableEq, Repr

/-- An index shape of a resource: its equality prefix and its ordered key. -/
structure IndexRequirement where
  resource : String
  table : IndexTable
  columns : List IndexColumn
  order : IndexOrder
  deriving DecidableEq, Repr

def Predicate.isTenant : Predicate → Bool
  | .sameTenant | .service _ => true
  | .role _ tenantScoped => tenantScoped
  | _ => false

def Predicate.identityColumn : Predicate → Option IndexColumn
  | .owner => some .owner
  | .principalIs field => some (.field field)
  | _ => none

/-- The equality columns of a scan's rule. -/
def indexPrefix (policy : Policy) (scan : Option ScanRule) : List IndexColumn :=
  let atoms := match scan with
    | some scan => policy.any.getD scan.rule []
    | none => if policy.any.length = 1 then policy.any.getD 0 [] else []
  let identity := (atoms.findSome? Predicate.identityColumn).toList
  let tenant := atoms.any Predicate.isTenant
  let service := atoms.any Predicate.isService
  if tenant && (service || scan.all ScanRule.exact) && (scan.isSome || identity.isEmpty) then
    identity ++ [.tenant]
  else identity

def ListStrategy.scans : ListStrategy → List (Option ScanRule)
  | .single => [none]
  | .merge scans => scans.map some

/-- The order of a list's index. -/
def indexOrder (r : Resource) : ListOrder → Result IndexOrder
  | .createdAsc | .createdDesc => .ok .created
  | .field name _ _ => do
      let schema ← need "unknown scalar field" (r.field? name)
      if schema.kind.isNumeric then return .scalar name .numeric
      else if schema.kind.isBinary then return .scalar name .binary
      else .error (.message "unsupported scalar index")

def Manifest.isAggregateSource (m : Manifest) (op : Operation) : Bool :=
  m.operations.any fun consumer =>
    (consumer.query.bind Query.aggregate).any fun aggregate => aggregate.source == op.id

def Operation.isSearch (op : Operation) : Bool :=
  (op.query.bind Query.search).isSome

def Operation.isScalar (op : Operation) : Bool :=
  ((op.list.map ListSettings.order).bind ListOrder.field?).isSome

/-- Lists whose pages are read through residual frontiers. -/
def Manifest.isExtended (m : Manifest) (op : Operation) : Bool :=
  op.isSearch || op.isScalar || m.isAggregateSource op

/-- The index columns of one scan of a list. -/
def scanColumns (m : Manifest) (op : Operation) (plan : ListPlan) (scan : Option ScanRule) :
    List IndexColumn :=
  indexPrefix op.policy scan
    ++ (if m.isExtended op || plan.strategy == .single then
      plan.scope.toList.map IndexColumn.field
        ++ op.visibility.toList.map fun visibility => IndexColumn.field visibility.field
      else [])
    ++ ((op.filter.map Condition.field).insertionSort (· ≤ ·)).map IndexColumn.field

/-- The index shapes of one list. -/
def listIndexes (m : Manifest) (op : Operation) : Result (List IndexRequirement) := do
  let r ← m.resource op.resource
  if op.isSearch && !op.isScalar && op.scope.isNone then do
    check "search declaration required" (r.search.isSome = true)
    return []
  else if op.filter.isEmpty && !m.isExtended op then return []
  else do
    let plan ← compilePlan m op
    let order ← indexOrder r plan.order
    let bounded := if m.isExtended op then residualStrategy op.policy else plan.strategy
    let legacy := if m.isAggregateSource op && !op.isSearch && !op.isScalar && !op.filter.isEmpty
      then plan.strategy.scans else []
    return (bounded.scans ++ legacy).map fun scan =>
      ⟨r.name, .records, scanColumns m op plan scan, order⟩

/-- The index shape of a membership subquery. -/
def Plan.index (plan : Plan) : IndexRequirement where
  resource := plan.declaration.resource
  table := .records
  columns := [.tenant, .field plan.declaration.reference, .field plan.declaration.account]
    ++ plan.declaration.conditions.map (fun entry => .field entry.1)
    ++ plan.resource.expiry.toList.map fun expiry => .timestamp expiry.field
  order := .created

/-- Every searchable resource is accounted the one postings index. -/
def Manifest.searchIndexes (m : Manifest) : List IndexRequirement :=
  (m.resources.filter fun r => r.search.isSome).map fun r => ⟨r.name, .postings, [], .created⟩

def maxDerivedIndexes : Nat := 8

/-- The distinct index shapes of a manifest, at most eight for a resource. -/
def requiredIndexes (m : Manifest) : Result (List IndexRequirement) := do
  let lists ← (m.operations.filter fun op => op.kind == .list).mapM (listIndexes m)
  let memberships ← m.operations.mapM (plans m)
  let shapes := (m.searchIndexes ++ lists.flatten ++ memberships.flatten.map Plan.index).dedup
  check "derived index limit"
    (∀ r ∈ m.resources, (shapes.filter fun shape => shape.resource == r.name).length
      ≤ maxDerivedIndexes)
  return shapes

/-! ## Web bindings -/

def isDeleteStep (m : Manifest) (step : Step) : Result Bool := do
  let op ← m.operation step.operation
  return op.kind == .delete

/-- Whether a redirect names the record that the only step deletes. -/
def redirectsDeleted (m : Manifest) (a : Action) (source : RedirectSource) : Result Bool :=
  match a.steps with
  | [step] => do
      let deletes ← isDeleteStep m step
      return deletes && match source with
        | .step index => index == 0
        | .target name => step.target == .named name
        | .reference _ _ => false
  | _ => .ok false

def Manifest.readsRoute (m : Manifest) (destination : Route) (id : Nat) : Bool :=
  match m.operation id with
  | .ok read => read.kind == .read && read.via.isNone && destination.resource == some read.resource
  | .error _ => false

/-- The resource of the page a step's outcome redirects to, unless it was deleted. -/
def outcomeResource (m : Manifest) (a : Action) (destination : Route) (index : Nat)
    (reference : Option String) : Result (Option Nat) := do
  let step ← need "redirect step out of range" a.steps[index]?
  let op ← m.operation step.operation
  match reference with
  | some field => do
      let r ← m.resource op.resource
      check "redirect requires reference field" ((r.referenceField field).isSome = true)
      check "parent destination requires one unambiguous resource read"
        ((destination.operations.filter (m.readsRoute destination)).length = 1)
      let parent ← referenceResource m op.resource field
      return parent.map Resource.id
  | none =>
      if op.kind = .delete then do
        check "delete destination requires collection route" (destination.resource = none)
        return none
      else return some op.resource

def redirectResource (m : Manifest) (a : Action) (destination : Route) :
    RedirectSource → Result (Option Nat)
  | .target name => do
      let target ← actionTarget a.targets name
      return some target.resource
  | .step index => outcomeResource m a destination index none
  | .reference index field => outcomeResource m a destination index (some field)

/-- Where a form sends the browser afterwards. -/
def validateRedirect (m : Manifest) (a : Action) (redirect : Redirect) : Result Unit := do
  let destination ← m.route redirect.route
  check "mutation redirect requires an unparameterized route" (destination.params = [])
  let deleted ← redirectsDeleted m a redirect.source
  if deleted then check "delete destination requires collection route" (destination.resource = none)
  else do
    let resource ← redirectResource m a destination redirect.source
    check "invalid outcome route" (resource = none ∨ destination.resource = resource)

def validateWebBinding (m : Manifest) (binding : WebBinding) : Result Unit := do
  let a ← m.action binding.action
  check "invalid web binding version" (0 < binding.version)
  validateRedirect m a binding.redirect

/-! ## Effects -/

def maxEndpoints : Nat := 32

def maxEffectsPerAction : Nat := 2

def maxPayloadFields : Nat := 32

def validateEndpointsFrom : List String → List EffectEndpoint → Result Unit
  | _, [] => .ok ()
  | earlier, endpoint :: rest => do
      check "invalid or duplicate effect endpoint"
        (identifier endpoint.name = true ∧ endpoint.name ∉ earlier
          ∧ ∀ slot ∈ endpoint.secretSlot, identifier slot = true)
      validateEndpointsFrom (endpoint.name :: earlier) rest

def validateEmission (m : Manifest) (endpoints : List String) (earlier : List (Nat × Nat))
    (emission : EmitEffect) : Result Unit := do
  let _ ← m.action emission.sourceAction
  check "invalid or duplicate effect position/endpoint"
    (emission.ordinal < maxEffectsPerAction ∧ (emission.sourceAction, emission.ordinal) ∉ earlier
      ∧ emission.endpoint ∈ endpoints)
  check "effect field limit" (emission.fields.length ≤ maxPayloadFields)
  check "duplicate effect payload field"
    (emission.fields.map fun field => field.schema.name).Nodup
  emission.fields.forM fun field => validatePayloadSchema m field.schema

def validateEmissionsFrom (m : Manifest) (endpoints : List String) :
    List (Nat × Nat) → List EmitEffect → Result Unit
  | _, [] => .ok ()
  | earlier, emission :: rest => do
      validateEmission m endpoints earlier emission
      validateEmissionsFrom m endpoints ((emission.sourceAction, emission.ordinal) :: earlier) rest

def validateEffects (m : Manifest) : Result Unit :=
  match m.effects with
  | none => .ok ()
  | some contract => do
      check "effect declaration limit" (contract.endpoints.length ≤ maxEndpoints
        ∧ contract.emissions.length ≤ m.actions.length * maxEffectsPerAction)
      validateEndpointsFrom [] contract.endpoints
      validateEmissionsFrom m (contract.endpoints.map EffectEndpoint.name) [] contract.emissions

/-! ## Manifests -/

def manifestVersion : Nat := 13

/-- Admission of a manifest.  Assets, uploads and form layouts are checked
elsewhere. -/
def validate (m : Manifest) : Result Unit := do
  check "unsupported manifest version" (m.version = manifestVersion)
  validateDeclarations m
  validateContractLimits m
  validateResources m
  validateResourceGates m
  validateOperations m
  m.operations.forM (validatePublicOperation m)
  m.operations.forM validateCapabilityOperation
  validateAuthority m
  let _ ← requiredIndexes m
  validateRoutes m
  check "missing index route"
    (m.routes = [] ∨ ∃ r ∈ m.routes, r.path = "/" ∧ r.resource = none)
  m.actions.forM (validateAction m)
  m.webBindings.forM (validateWebBinding m)
  validateJobs m
  validateEffects m

/-- The admitted parts of an accepted manifest. -/
structure AdmittedManifest (m : Manifest) : Prop where
  declarations : validateDeclarations m = .ok ()
  limits : validateContractLimits m = .ok ()
  resources : ∀ r ∈ m.resources, AdmittedResource m r
  names : (m.resources.map Resource.name).Nodup
  gates : validateResourceGates m = .ok ()
  operations : ∀ op ∈ m.operations, validateOperation m op = .ok ()
  publics : ∀ op ∈ m.operations, validatePublicOperation m op = .ok ()
  capabilities : ∀ op ∈ m.operations, validateCapabilityOperation op = .ok ()
  authority : validateAuthority m = .ok ()
  indexes : ∃ shapes, requiredIndexes m = .ok shapes
  routes : validateRoutes m = .ok ()
  actions : ∀ a ∈ m.actions, validateAction m a = .ok ()
  jobs : validateJobs m = .ok ()
  effects : validateEffects m = .ok ()

/-- The parts of an accepted manifest are admitted. -/
theorem validate_spec {m : Manifest} (h : validate m = .ok ()) : AdmittedManifest m := by
  simp only [validate, validateOperations, check, bind_eq_ok, ensure_eq_ok, forM_eq_ok] at h
  rcases h with ⟨_, _, _, declarations, _, limits, _, resources, _, gates, _, operations, _,
    publics, _, capabilities, _, authority, shapes, indexes, _, routes, _, _, _, actions, _, _, _,
    jobs, effects⟩
  have spec := validateResources_spec resources
  exact ⟨declarations, limits, spec.1, spec.2, gates, operations, publics, capabilities, authority,
    ⟨shapes, indexes⟩, routes, actions, jobs, effects⟩

/-! ## A sample application -/

def sampleTask : Resource where
  search := none
  expiry := none
  unique := []
  gate := none
  id := 1
  name := "task"
  fields := [⟨false, .text, false, none, "title", "Title", 100⟩]

/-- An operation on tasks, without a list or a query. -/
def sampleTaskOperation (id : Nat) (kind : OperationKind) (policy : List (List Predicate)) :
    Operation where
  maintenance := false
  query := none
  bind := []
  scope := none
  via := none
  filter := []
  disclose := []
  list := none
  id := id
  resource := 1
  kind := kind
  policy := ⟨policy⟩
  visibility := none
  fields := none

/-- A new task is marked late by the clock. -/
def sampleTaskContract : JobContract where
  workers := [⟨"clock", [⟨2, [("task", ⟨1, 1⟩)]⟩]⟩]
  schedules := [⟨1, 0, "clock", 2, [("task", .created 0)], [], .transactionTime⟩]
  recurring := []

def sampleTaskManifest : Manifest where
  effects := none
  jobs := some sampleTaskContract
  version := 13
  resources := [sampleTask]
  operations := [sampleTaskOperation 1 .read [[.service "clock", .sameTenant]],
    sampleTaskOperation 2 .update [[.service "clock", .sameTenant]],
    sampleTaskOperation 3 .create [[.owner]]]
  routes := []
  actions := [⟨1, 1, "add", [], [⟨"title", "Title", .text, false, 100⟩],
      [⟨[], 3, .none, [⟨"title", .set (.input "title")⟩]⟩]⟩,
    ⟨2, 1, "expire", [⟨"task", 1, .service 1, .exact, some ⟨1, ["title"]⟩, none⟩], [],
      [⟨[], 2, .named "task", [⟨"title", .set (.literal (.text "late"))⟩]⟩]⟩]
  webBindings := []

theorem sampleTaskManifest_accepted : validate sampleTaskManifest = .ok () := by decide +kernel

/-! ## Schedules call no cycle -/

/-- The search of the schedules ends, whatever their order; it accepts them exactly
when no action calls itself over any number of schedules, and then a submission in an
accepted application starts a chain of at most 64 jobs. -/
theorem schedule_visit_accepts_iff_acyclic (m : Manifest) (contract : JobContract) :
    ((∃ marks, visitCalls (callGraph contract.schedules) = some (.ok marks)) ∨
      visitCalls (callGraph contract.schedules) =
        some (.error (.message "schedule call graph must be acyclic"))) ∧
    (validateCalls contract.schedules = .ok () ↔
      ∀ action, ¬ Relation.TransGen (Calls contract.schedules) action action) ∧
    (∀ other, contract.schedules.Perm other →
      (validateCalls other = .ok () ↔ validateCalls contract.schedules = .ok ())) ∧
    (validate m = .ok () → m.jobs = some contract → ∀ submitted jobs,
      (submitted :: jobs).IsChain (Calls contract.schedules) → jobs.length ≤ 64) := by
  refine ⟨?_, validateCalls_ok_iff _, ?_, ?_⟩
  · have ends := visitCalls_ends (callGraph contract.schedules)
    generalize visitCalls (callGraph contract.schedules) = result at ends ⊢
    cases ends with
    | accepted => exact Or.inl ⟨_, rfl⟩
    | refused => exact Or.inr rfl
  · intro other permuted
    rw [validateCalls_ok_iff, validateCalls_ok_iff, calls_perm permuted]
  · intro accepted declared submitted jobs chain
    rcases validateJobs_acyclic declared (validate_spec accepted).jobs with ⟨limit, acyclic⟩
    have bound := calls_chain_le acyclic chain
    rw [List.length_cons] at bound
    omega

/-- Adding a task causes chains of bounded length, such as the one of the clock. -/
theorem schedule_visit_accepts_iff_acyclic_sample :
    [1, 2].IsChain (Calls sampleTaskContract.schedules) ∧
      ∀ submitted jobs, (submitted :: jobs).IsChain (Calls sampleTaskContract.schedules) →
        jobs.length ≤ 64 := by
  have general := schedule_visit_accepts_iff_acyclic sampleTaskManifest sampleTaskContract
  refine ⟨?_, general.2.2.2 sampleTaskManifest_accepted rfl⟩
  simp [Calls, sampleTaskContract]

end Noxide
