import Mathlib.Data.Finset.Sort
import Mathlib.Data.String.Basic
import Noxide.Admission.Routing

/-!
# Route parameters

The query parameters a route declares, the field rules they take from the lists
they select from, and the admission of routes.

Main results:

- Theorem {lit}`validateParams_keys`: accepted parameters name exactly the
  declared ones.
- Theorem {lit}`validateRoutes_spec`: admitted routes have distinct declared
  parameters, none of them {lit}`cursor`, and pairwise disjoint paths.
-/

namespace Noxide

open Checked

/-! ## Declared parameters -/

/-- The rule behind a route parameter: a field's, or any nonempty search text. -/
inductive ParameterField where
  | field (field : TextField)
  | search
  deriving DecidableEq, Repr

namespace ParameterField

def compatibleDestination : ParameterField → ParameterField → Bool
  | .search, .search => true
  | .field source, .field target =>
      source.kind == target.kind && (!source.optional || target.optional)
  | _, _ => false

/-- The web transport's bound for every path, then the parameter's own rule. -/
def validate (parameter : ParameterField) (value : String) : Result Unit := do
  check "route parameter limit" (value.utf8ByteSize ≤ 1024)
  match parameter with
  | .search => check "empty search parameter" (value ≠ "")
  | .field rule => check "invalid route parameter" (rule.canonical value = .ok value)

/-- Two uses of one parameter: the same kind, under both uses' limits. -/
def merge : ParameterField → ParameterField → Result ParameterField
  | .search, .search => .ok .search
  | .field previous, .field next => do
      check "inconsistent parameter kind" (previous.kind = next.kind)
      return .field { previous with
        optional := previous.optional && next.optional
        maxBytes := min previous.maxBytes next.maxBytes }
  | _, _ => .error (.message "inconsistent parameter kind")

end ParameterField

/-- Parameters by name. -/
abbrev ParameterFields := List (String × ParameterField)

def addParameter (route : Route) (fields : ParameterFields) (name : String)
    (value : ParameterField) : Result ParameterFields := do
  check "undeclared route parameter" (name ∈ route.params)
  match fields.lookup name with
  | none => return fields ++ [(name, value)]
  | some previous => do
      let merged ← previous.merge value
      return fields.map fun entry => if entry.1 = name then (name, merged) else entry

/-- The fields a query names with parameters, in the order they are read. -/
def Operation.parameters (op : Operation) : List (String × Option String) :=
  (op.filter.filterMap fun condition =>
    match condition.equals with
    | .param name => some (name, some condition.field)
    | .literal _ => none) ++
  ((op.query.bind Query.search).toList.map fun search => (search.parameter, none)) ++
  ((op.query.bind Query.range).toList.flatMap fun range =>
    [range.lower, range.upper].filterMap fun bound =>
      match bound with
      | some ⟨.param name, _⟩ => some (name, some range.field)
      | _ => none)

/-- Add one use of a parameter, with the field it is compared with. -/
def addUse (route : Route) (resource : Resource) (fields : ParameterFields)
    (use : String × Option String) : Result ParameterFields :=
  match use.2 with
  | none => addParameter route fields use.1 .search
  | some name => do
      let field ← need "unknown query field" (resource.field? name)
      addParameter route fields use.1 (.field field)

def Operation.isAggregate (op : Operation) : Bool :=
  (op.query.bind Query.aggregate).isSome

/-- The list an operation selects from: an aggregate uses its source's. -/
def parameterSource (m : Manifest) (op : Operation) : Result Operation :=
  match op.query.bind Query.aggregate with
  | none => .ok op
  | some aggregate => do
      let source ← m.operation aggregate.source
      check "invalid aggregate source" (source.kind = .list ∧ source.isAggregate = false)
      return source

def addOperation (m : Manifest) (route : Route) (fields : ParameterFields) (id : Nat) :
    Result ParameterFields := do
  let declared ← m.operation id
  let op ← parameterSource m declared
  let resource ← m.resource op.resource
  op.parameters.foldlM (addUse route resource) fields

def parameterFields (m : Manifest) (route : Route) : Result ParameterFields :=
  route.operations.foldlM (addOperation m route) []

def validateRouteParams (m : Manifest) (route : Route) : Result Unit := do
  check "index route cannot declare parameters" (route.path ≠ "/" ∨ route.params = [])
  check "invalid route parameters"
    (route.params.length ≤ 4 ∧ route.params.Nodup
      ∧ ∀ name ∈ route.params, identifier name = true ∧ name ≠ "cursor")
  let fields ← parameterFields m route
  check "unused route parameter" (fields.length = route.params.length)

def validateParams (m : Manifest) (route : Route) (values : Fields) : Result Unit := do
  let fields ← parameterFields m route
  check "invalid route parameters"
    (values.keys.card = route.params.length ∧ ∀ name ∈ route.params, name ∈ values.keys)
  fields.forM fun entry => do
    let value ← need "missing route parameter" (values.lookup entry.1)
    entry.2.validate value

/-! ## Admission of routes -/

def unique (ids : List Nat) : Result Unit :=
  check "duplicate or zero identifier" (0 ∉ ids ∧ ids.Nodup)

def Operation.isPreview (op : Operation) : Bool :=
  (op.list.bind ListSettings.preview).isSome

def referenceResource (m : Manifest) (child : Nat) (name : String) : Result (Option Resource) := do
  let resource ← m.resource child
  match (resource.fields.filter fun field => field.kind.isReference).find?
      fun field => field.name == name with
  | some ⟨_, .reference key, _, _, _, _, _⟩ => do
      let parent ← need "unknown reference resource" (m.resources.find? fun r => r.name == key)
      return some parent
  | _ => return none

/-- Filters as a map from field to operand. -/
def selectionEqual (left right : Operation) : Bool :=
  decide (∀ name ∈ (left.filter ++ right.filter).map Condition.field,
    (left.filter.reverse.find? fun c => c.field == name).map Condition.equals =
      (right.filter.reverse.find? fun c => c.field == name).map Condition.equals)

/-- The full list behind a preview's link. -/
def Operation.fullListOf (full op : Operation) : Bool :=
  full.kind == .list && !full.isPreview && full.resource == op.resource
    && full.policy == op.policy && full.visibility == op.visibility && full.scope == op.scope
    && selectionEqual full op

def Manifest.showsFullList (m : Manifest) (op : Operation) (id : Nat) : Bool :=
  match m.operation id with
  | .ok full => full.fullListOf op
  | .error _ => false

/-- A preview links to a route that takes the preview's parameters and shows the
full list. -/
def validateSeeAll (m : Manifest) (r : Route) (op : Operation) : Result Unit :=
  match op.list.bind ListSettings.preview >>= Preview.seeAll with
  | none => .ok ()
  | some seeAll => do
      let destination ← m.route seeAll
      check "preview destination parameters" (∀ name ∈ destination.params, name ∈ r.params)
      let sourceFields ← parameterFields m r
      let destinationFields ← parameterFields m destination
      destinationFields.forM fun entry => do
        let source ← need "preview destination parameters" (sourceFields.lookup entry.1)
        check "incompatible preview destination parameter"
          (source.compatibleDestination entry.2 = true)
      check "invalid preview destination"
        (destination.operations.any (m.showsFullList op) = true)

def Operation.pageSize (op : Operation) : Nat :=
  (op.list.map ListSettings.pageSize).getD 3

/-- The lists of a route: at most four, one of them paginated, forty rows. -/
def validateLists (m : Manifest) (r : Route) : Result Unit := do
  let operations ← r.operations.mapM m.operation
  let lists := operations.filter fun op => op.kind == .list
  check "route list limit" (lists.length ≤ 4)
  check "route paginated list limit" ((lists.filter fun op => !op.isPreview).length ≤ 1)
  check "route list row budget" ((lists.map Operation.pageSize).sum ≤ 40)
  lists.forM (validateSeeAll m r)

/-- The resource whose records scope a list, if it is scoped. -/
def scopeTarget (m : Manifest) (op : Operation) : Result (Option Nat) := do
  let metadata ← match op.query.bind Query.aggregate with
    | none => .ok op
    | some aggregate => m.operation aggregate.source
  match metadata.scope with
  | none => return none
  | some scope => do
      let parent ← referenceResource m metadata.resource scope
      return parent.map Resource.id

/-- Where each operation may stand on a route. -/
def validateOperationPlace (m : Manifest) (r : Route) (id : Nat) : Result Unit := do
  let op ← m.operation id
  match op.via with
  | some via => check "follow route requires source" (via.source ∈ r.operations)
  | none =>
      if op.kind = .list ∨ op.kind = .aggregate then do
        let target ← scopeTarget m op
        check "list requires scope route or collection route" (r.resource = target)
      else check "route operation mismatch" (op.kind = .read ∧ r.resource = some op.resource)

def Manifest.readsRecord (m : Manifest) (resource id : Nat) : Bool :=
  match m.operation id with
  | .ok op => op.kind == .read && op.via.isNone && op.resource == resource
  | .error _ => false

def validateRecordRoute (m : Manifest) (r : Route) : Result Unit :=
  match r.resource with
  | none => .ok ()
  | some id => do
      let _ ← m.resource id
      check "record route requires a read operation" (r.operations.any (m.readsRecord id) = true)

/-- The resource of the page targets of an action. -/
def pageResource (targets : List ActionTarget) : Result (Option Nat) :=
  targets.foldlM (fun (resource : Option Nat) target =>
    match target.source with
    | .page _ => do
        check "page target resource mismatch" (∀ known ∈ resource, known = target.resource)
        return some target.resource
    | _ => return resource) none

/-- A reference to a page target needs its eligibility operation on the page. -/
def validateFormAssignment (r : Route) (a : Action) (op : Operation)
    (assignment : Assignment) : Result Unit :=
  match assignment.change with
  | .set (.target name) => do
      let target ← actionTarget a.targets name
      match target.source with
      | .page _ => do
          let eligible ← need "reference create requires field eligibility"
            (op.bind.lookup assignment.field)
          check "page reference eligibility must be on form route" (eligible ∈ r.operations)
      | _ => return ()
  | _ => .ok ()

def validateForm (m : Manifest) (r : Route) (id : Nat) : Result Unit := do
  let binding ← m.webBinding id
  let a ← m.action binding.action
  a.steps.forM fun step => do
    let op ← m.operation step.operation
    step.assign.forM (validateFormAssignment r a op)
  match ← pageResource a.targets with
  | none => return ()
  | some target =>
      check "mutation form requires its signed target route" (r.resource = some target)

def validateAccess (m : Manifest) (r : Route) : Result Unit :=
  if r.access = .everyone then do
    check "public routes cannot have forms" (r.forms = [])
    r.operations.forM fun id => do
      let op ← m.operation id
      check "public routes require public operations" (op.isPublic = true)
  else .ok ()

/-- One route against the paths admitted before it and every other route. -/
def validateRoute (m : Manifest) (earlier : List String) (r : Route) : Result Unit := do
  validateRouteParams m r
  validatePath r
  check "duplicate route path" (r.path ∉ earlier)
  check "ambiguous route patterns"
    (∀ other ∈ m.routes, other.id ≠ r.id → pathsOverlap r other = false)
  unique r.operations
  unique r.forms
  validateAccess m r
  validateLists m r
  r.operations.forM (validateOperationPlace m r)
  validateRecordRoute m r
  r.forms.forM (validateForm m r)

def validateRoutesFrom (m : Manifest) : List String → List Route → Result Unit
  | _, [] => .ok ()
  | earlier, r :: rest => do
      validateRoute m earlier r
      validateRoutesFrom m (r.path :: earlier) rest

def validateRoutes (m : Manifest) : Result Unit :=
  validateRoutesFrom m [] m.routes

def validateContractLimits (m : Manifest) : Result Unit := do
  check "reserved asset path"
    (∀ r ∈ m.routes, ¬ "/_noxide/assets".toList <+: r.path.toList ∧ r.path ≠ "/_noxide/download")
  check "resource limit" (m.resources ≠ [] ∧ m.resources.length ≤ 16)
  check "route limit" (m.routes.length ≤ 32)
  check "empty application" (m.routes ≠ [] ∨ m.actions ≠ [])
  check "contract limit"
    (m.operations.length ≤ 64 ∧ m.actions.length ≤ 32 ∧ m.webBindings.length ≤ 32)
  unique (m.resources.map Resource.id)
  unique (m.operations.map Operation.id)
  unique (m.routes.map Route.id)
  unique (m.actions.map Action.id)
  unique (m.webBindings.map WebBinding.id)

/-! ## What admission guarantees of routes -/

theorem unique_eq_ok {ids : List Nat} {u : Unit} : unique ids = .ok u ↔ 0 ∉ ids ∧ ids.Nodup := by
  simp only [unique, check, ensure_eq_ok]

/-- Distinct identifiers make lookups unambiguous. -/
theorem validateContractLimits_routes {m : Manifest} (h : validateContractLimits m = .ok ()) :
    (m.routes.map Route.id).Nodup := by
  simp only [validateContractLimits, check, bind_eq_ok, ensure_eq_ok, unique_eq_ok] at h
  rcases h with ⟨_, _, _, _, _, _, _, _, _, _, _, _, _, _, _, routes, _⟩
  exact routes.2

/-- An admitted route: distinct parameters that are no cursor, and a path no
other route overlaps. -/
structure AdmittedRoute (m : Manifest) (r : Route) : Prop where
  distinct : r.params.Nodup
  names : ∀ name ∈ r.params, identifier name = true ∧ name ≠ "cursor"
  disjoint : ∀ other ∈ m.routes, other.id ≠ r.id → pathsOverlap r other = false

theorem validateRoute_spec {m : Manifest} {earlier : List String} {r : Route}
    (h : validateRoute m earlier r = .ok ()) : AdmittedRoute m r := by
  simp only [validateRoute, check, bind_eq_ok, ensure_eq_ok] at h
  rcases h with ⟨_, params, _, _, _, _, _, disjoint, _⟩
  simp only [validateRouteParams, check, bind_eq_ok, ensure_eq_ok] at params
  rcases params with ⟨_, _, _, ⟨_, distinct, names⟩, _⟩
  exact ⟨distinct, names, disjoint⟩

theorem validateRoutes_spec {m : Manifest} (h : validateRoutes m = .ok ()) :
    ∀ r ∈ m.routes, AdmittedRoute m r := by
  have general : ∀ (routes : List Route) (earlier : List String),
      validateRoutesFrom m earlier routes = .ok () → ∀ r ∈ routes, AdmittedRoute m r := by
    intro routes
    induction routes with
    | nil => intro _ _ r mem; cases mem
    | cons first rest ih =>
        intro earlier h r mem
        simp only [validateRoutesFrom, bind_eq_ok] at h
        rcases h with ⟨_, valid, later⟩
        rcases List.mem_cons.mp mem with rfl | mem
        · exact validateRoute_spec valid
        · exact ih _ later r mem
  exact general m.routes [] h

/-- Accepted parameters name exactly the declared ones. -/
theorem validateParams_keys {m : Manifest} {route : Route} {values : Fields}
    (distinct : route.params.Nodup) (h : validateParams m route values = .ok ()) :
    values.keys = route.params.toFinset := by
  simp only [validateParams, check, bind_eq_ok, ensure_eq_ok] at h
  rcases h with ⟨_, _, _, ⟨size, contained⟩, _⟩
  refine (Finset.eq_of_subset_of_card_le ?_ ?_).symm
  · intro name mem
    exact contained name (List.mem_toFinset.mp mem)
  · rw [size, List.toFinset_card_of_nodup distinct]

end Noxide
