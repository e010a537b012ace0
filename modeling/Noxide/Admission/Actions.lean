import Noxide.Admission.Computation
import Noxide.Admission.Policy

/-!
# Actions

Admission of actions: their inputs, targets and steps, with every assignment
checked against its destination field, and the values they send to scheduled
actions and effects.

Main results:

- Theorem {lit}`validateAction_spec`: an admitted action has typed guards, every
  assignment of a step is admitted at its destination, and the values sent to
  schedules and effects are typed and fit.
-/

namespace Noxide

open Checked

/-! ## Inputs -/

/-- The schema rules of an action input. -/
def validateInputKind (input : Input) : Result Unit :=
  match input.kind with
  | .blob _ => .error (.message "Blob fields are storage only")
  | .uploadHandle maxBytes =>
      check "invalid UploadHandle input"
        (0 < maxBytes ∧ maxBytes ≤ maxUploadBytes ∧ input.maxBytes = 67)
  | .text => .ok ()
  | .timestamp => check "timestamp input budget" (20 ≤ input.maxBytes)
  | .duration maxMillis => check "duration input schema" (20 ≤ input.maxBytes ∧ 0 ≤ maxMillis)
  | .boolean => check "boolean input budget" (5 ≤ input.maxBytes)
  | .integer min max =>
      check "integer input schema" (20 ≤ input.maxBytes ∧ ∀ lo ∈ min, ∀ hi ∈ max, lo ≤ hi)
  | .choice variants => do
      check "choice input limit" (variants ≠ [] ∧ variants.length ≤ 32)
      validateVariantsFrom "choice input key" "choice input label" input.maxBytes [] variants
  | .account _ =>
      check "account inputs must be required and hold an ID"
        (43 ≤ input.maxBytes ∧ input.optional = false)
  | .reference _ => .error (.message "invalid input kind")

def validateInputSchema (input : Input) : Result Unit := do
  check "invalid input label" (validLabel input.label = true)
  check "input byte limit" (0 < input.maxBytes ∧ input.maxBytes ≤ 4096)
  validateInputKind input

/-- Inputs with distinct names; target aliases have names of their own. -/
def validateInputsFrom : List String → List Input → Result Unit
  | _, [] => .ok ()
  | earlier, input :: rest => do
      check "invalid or duplicate input"
        (identifier input.name = true ∧ ¬ "_target_".toList <+: input.name.toList
          ∧ input.name ∉ earlier)
      validateInputSchema input
      validateInputsFrom (input.name :: earlier) rest

/-! ## Targets -/

/-- The declared fields of distinct names. -/
def projectedFields (r : Resource) (names : List String) : Result Unit := do
  check "field projection limit" (names.length ≤ r.fields.length)
  check "duplicate projected field" names.Nodup
  check "unknown projected field" (∀ name ∈ names, (r.field? name).isSome = true)

def targetProjection (m : Manifest) (target : ActionTarget) (projection : Inspection)
    (guest : Bool) : Result Unit := do
  let read ← m.operation projection.operation
  check "invalid target projection operation"
    (read.kind = .read ∧ read.via = none ∧ read.resource = target.resource)
  check "inspection cannot use a public operation" (guest = true → read.isPublic = false)
  check "empty inspection" (guest = true → projection.fields ≠ [])
  let resource ← m.resource read.resource
  projectedFields resource projection.fields
  check "target projection exceeds approved read"
    (∀ fields ∈ read.fields, ∀ field ∈ projection.fields, field ∈ fields)

def Manifest.isCapabilityStep (m : Manifest) (step : Step) : Bool :=
  match m.operation step.operation with
  | .ok op => op.isCapability
  | .error _ => false

/-- The reads of a page target; only a capability edit needs none. -/
def validatePageReads (m : Manifest) (a : Action) (target : ActionTarget) (reads : List Nat) :
    Result (Option Nat) := do
  unique reads
  check "target read limit" (reads.length ≤ 8)
  reads.forM fun id => do
    let read ← m.operation id
    check "invalid page target read"
      (read.kind = .read ∧ read.via = none ∧ read.resource = target.resource)
  check "page target requires eligible reads"
    (reads ≠ [] ∨ a.steps.any (fun step =>
      step.target == .named target.name && m.isCapabilityStep step) = true)
  return none

def TargetSource.isReference : TargetSource → Bool
  | .reference _ _ _ => true
  | _ => false

def Operand.isLiteral : Operand → Bool
  | .literal _ => true
  | .param _ => false

/-- Where a target comes from, and the operation it must be eligible for. -/
def validateTargetSource (m : Manifest) (a : Action) (target : ActionTarget) :
    Result (Option Nat) :=
  match target.source with
  | .page reads => validatePageReads m a target reads
  | .service eligible => .ok (some eligible)
  | .selected query eligible label => do
      let resource ← m.resource target.resource
      projectedFields resource label
      check "picker labels exceed approved target projection"
        (∃ projection ∈ target.projection, ∀ field ∈ label, field ∈ projection.fields)
      let query ← m.operation query
      check "invalid selection query"
        (query.kind = .list ∧ query.via = none ∧ query.scope = none
          ∧ query.resource = target.resource
          ∧ query.filter.all (fun condition => condition.equals.isLiteral) = true)
      return some eligible
  | .reference source field eligible => do
      let source ← actionTarget a.targets source
      check "derived target depth limit" (source.source.isReference = false)
      let parent ← referenceResource m source.resource field
      check "derived target reference mismatch" (parent.map Resource.id = some target.resource)
      check "derived target requires an approved source projection"
        (∃ projection ∈ source.projection, field ∈ projection.fields)
      return some eligible

def validateEligible (m : Manifest) (target : ActionTarget) : Option Nat → Result Unit
  | none => .ok ()
  | some eligible => do
      let read ← m.operation eligible
      check "invalid target eligibility"
        (read.kind = .read ∧ read.via = none ∧ read.resource = target.resource)
      check "selected and derived targets require explicit eligible-read projections"
        (∃ projection ∈ target.projection, projection.operation = eligible)

def validateInspect (m : Manifest) (target : ActionTarget) : Result Unit :=
  match target.inspect with
  | none => .ok ()
  | some inspect => do
      targetProjection m target inspect true
      check "inspection requires exact review" (target.revision = .exact)

/-- One target's source, eligibility and projections. -/
def validateActionTarget (m : Manifest) (a : Action) (target : ActionTarget) : Result Unit := do
  check "invalid target name" (identifier target.name = true)
  let _ ← m.resource target.resource
  let eligible ← validateTargetSource m a target
  validateEligible m target eligible
  target.projection.toList.forM fun projection => targetProjection m target projection false
  validateInspect m target

/-! ## Assignments -/

def protectedNames : List String := ["owner", "tenant", "id", "incarnation", "revision"]

/-- The rules of a destination that do not depend on the assigned value. -/
def validateDestination (op : Operation) (field : TextField) : Result Unit := do
  check "initial value is host-applied" (op.kind = .create → field.initial = none)
  check "account fields are immutable" (op.kind = .create ∨ field.kind.isAccount = false)
  check "reference is immutable"
    (op.kind = .update → field.kind.isReference = false ∧ field.kind.isBlob = false)
  check "declared immutable field cannot be updated" (op.kind = .update → field.immutable = false)

/-- A blob field takes one host upload input. -/
def blobSource (a : Action) (op : Operation) (field : TextField) (maxBytes : Nat) :
    Value → Result Input
  | .input name => do
      let input ← need "unknown upload input" (a.input? name)
      match input.kind with
      | .uploadHandle limit =>
          check "invalid Blob assignment" (op.kind = .create ∧ limit ≤ maxBytes
            ∧ (input.optional = true → field.optional = true))
      | _ => .error (.message "invalid Blob assignment")
      return input
  | _ => .error (.message "Blob requires one host upload input")

def Value.isIdentity : Value → Bool
  | .target _ | .created _ => true
  | _ => false

/-- The rule of a set value at its destination field. -/
def admitSet (field : TextField) (value : Value) (domain : Domain) : Result Unit :=
  if field.kind.isReference then do
    check "reference requires a declared target or earlier create" (value.isIdentity = true)
    check "wrong named or created reference type" (domain.kind = field.kind)
  else check "expression/input domain does not fit destination" (fits domain field = true)

/-- The rule of an adjustment's amount. -/
def admitAmount (field : TextField) (domain : Domain) : Result Unit := do
  let range ← boundedRange "adjustment requires bounded integer field" field.kind
  let amount ← boundedRange "adjustment requires bounded integer expression" domain.kind
  check "invalid adjustment amount domain"
    (domain.optional = false ∧ 1 ≤ amount.lo ∧ amount.hi ≤ range.hi - range.lo)

def Target.isNamed : Target → Bool
  | .named _ => true
  | .none => false

/-- An adjustment: a named update step, an amount and its rejection. -/
def admitAdjustment (m : Manifest) (a : Action) (index : Nat) (step : Step) (op : Operation)
    (field : TextField) (by_ : Value) (r : GuardRejection) : Counted Unit := do
  StateT.lift (check "adjustments require named update steps"
    (op.kind = .update ∧ step.target.isNamed = true))
  let domain ← admitValue m a index by_ false
  StateT.lift (admitAmount field domain)
  StateT.lift (rejection a r)

/-- A set assignment needs exact review of the step's target. -/
def reviewTarget (step : Step) (s : Admission) : Admission :=
  match step.target with
  | .named name => s.needExact name
  | .none => s

def admitChange (m : Manifest) (a : Action) (index : Nat) (step : Step) (op : Operation)
    (field : TextField) : Change → Counted Unit
  | .set value => do
      modify (reviewTarget step)
      match field.kind.blobLimit with
      | some maxBytes => do
          let input ← StateT.lift (blobSource a op field maxBytes value)
          modify (Admission.use (.input input.name))
      | none => do
          let domain ← admitValue m a index value false
          StateT.lift (admitSet field value domain)
  | .decrease by_ r => admitAdjustment m a index step op field by_ r
  | .increase by_ r => admitAdjustment m a index step op field by_ r

/-- One assignment against its destination field. -/
def validateAssignment (m : Manifest) (a : Action) (index : Nat) (step : Step) (op : Operation)
    (resource : Resource) (assignment : Assignment) : Counted Unit := do
  StateT.lift (check "protected assignment" (assignment.field ∉ protectedNames))
  let field ← StateT.lift (need "unknown or protected assignment"
    (resource.field? assignment.field))
  StateT.lift (validateDestination op field)
  admitChange m a index step op field assignment.change

def validateAssignments (m : Manifest) (a : Action) (index : Nat) (step : Step) (op : Operation)
    (resource : Resource) : List String → List Assignment → Counted Unit
  | _, [] => pure ()
  | earlier, assignment :: rest => do
      StateT.lift (check "duplicate assignment" (assignment.field ∉ earlier))
      validateAssignment m a index step op resource assignment
      validateAssignments m a index step op resource (assignment.field :: earlier) rest

/-! ## Steps -/

/-- The kind of a step's operation and its target; answers the creations so far. -/
def validateStepKind (a : Action) (step : Step) (op : Operation) (creates : Nat) :
    Result Nat :=
  match op.kind, step.target with
  | .create, target => do
      check "transaction create limit" (creates + 1 ≤ 2)
      check "create has no target" (target = .none)
      check "create requires writable fields" (step.assign ≠ [])
      return creates + 1
  | .update, .named name => do
      let target ← actionTarget a.targets name
      check "mutation target resource mismatch" (target.resource = op.resource)
      check "update requires writable fields" (step.assign ≠ [])
      return creates
  | .delete, .named name => do
      let target ← actionTarget a.targets name
      check "mutation target resource mismatch" (target.resource = op.resource)
      check "delete must be the only step without assignments"
        (a.steps.length = 1 ∧ step.assign = [])
      return creates
  | .update, .none | .delete, .none => .error (.message "mutation requires named target")
  | _, _ => .error (.message "action must declare a mutation")

/-- The fields a creation must assign: those without an initial value, except
optional blobs it leaves out. -/
def Resource.writableFields (r : Resource) (step : Step) : List TextField :=
  r.fields.filter fun field => field.initial.isNone
    && !(field.optional && field.kind.isBlob
      && !step.assign.any fun assignment => assignment.field == field.name)

def validateStep (m : Manifest) (a : Action) (index creates : Nat) (step : Step) :
    Counted Nat := do
  let op ← StateT.lift (m.operation step.operation)
  let resource ← StateT.lift (m.resource op.resource)
  StateT.lift (check "multi-step action cannot use public or capability operations"
    (1 < a.steps.length → op.isPublic = false ∧ op.isCapability = false))
  let creates ← StateT.lift (validateStepKind a step op creates)
  modify fun s => if op.kind = .delete then reviewTarget step s else s
  admitGuards m a index step.guards
  validateAssignments m a index step op resource [] step.assign
  StateT.lift (check "creation requires every writable field"
    (op.kind = .create → step.assign.length = (resource.writableFields step).length))
  return creates

def validateStepsFrom (m : Manifest) (a : Action) : Nat → Nat → List Step → Counted Unit
  | _, _, [] => pure ()
  | index, creates, step :: rest => do
      let creates ← validateStep m a index creates step
      validateStepsFrom m a (index + 1) creates rest

/-! ## Values sent to schedules and effects -/

def scheduleInputs (m : Manifest) (a called : Action) : List (String × Value) → Counted Unit
  | [] => pure ()
  | (name, value) :: rest => do
      let input ← StateT.lift (need "unknown scheduled action input" (called.input? name))
      let domain ← admitValue m a a.steps.length value false
      StateT.lift (check "scheduled input domain does not fit destination"
        (fitsInput domain input = true))
      scheduleInputs m a called rest

def scheduleValues (m : Manifest) (a : Action) : List Schedule → Counted Unit
  | [] => pure ()
  | schedule :: rest => do
      let called ← StateT.lift (m.action schedule.action)
      scheduleInputs m a called schedule.inputs
      let due ← admitValue m a a.steps.length schedule.dueAt false
      StateT.lift (check "schedule due time requires a nonoptional timestamp"
        (due.kind = .timestamp ∧ due.optional = false))
      scheduleValues m a rest

/-- A payload field is an input schema, or the identity of a declared resource. -/
def validatePayloadSchema (m : Manifest) (schema : Input) : Result Unit := do
  check "invalid effect payload field" (identifier schema.name = true)
  check "opaque blob identity cannot be disclosed"
    (schema.kind.isBlob = false ∧ schema.kind.isUploadHandle = false)
  match schema.kind with
  | .reference resource => do
      validateInputSchema { schema with kind := .text }
      check "invalid effect resource identity schema"
        (19 ≤ schema.maxBytes ∧ ∃ declared ∈ m.resources, declared.name = resource)
  | _ => validateInputSchema schema

def payloadFits (domain : Domain) (schema : Input) : Bool :=
  match domain.kind, schema.kind with
  | .reference source, .reference destination =>
      source == destination && (!domain.optional || schema.optional)
        && decide (19 ≤ schema.maxBytes)
  | _, _ => fitsInput domain schema

def effectFields (m : Manifest) (a : Action) : List PayloadField → Counted Unit
  | [] => pure ()
  | field :: rest => do
      StateT.lift (validatePayloadSchema m field.schema)
      let domain ← effectValue m a field.value
      StateT.lift (check "effect source domain does not fit payload schema"
        (payloadFits domain field.schema = true))
      effectFields m a rest

def effectValues (m : Manifest) (a : Action) : List EmitEffect → Counted Unit
  | [] => pure ()
  | emission :: rest => do
      effectFields m a emission.fields
      effectValues m a rest

def Manifest.schedules (m : Manifest) (a : Action) : List Schedule :=
  (m.jobs.toList.flatMap JobContract.schedules).filter fun schedule =>
    schedule.sourceAction == a.id

def Manifest.emissions (m : Manifest) (a : Action) : List EmitEffect :=
  (m.effects.toList.flatMap EffectContract.emissions).filter fun emission =>
    emission.sourceAction == a.id

/-! ## Actions -/

def validName (name : String) (limit : Nat) : Bool :=
  name != "" && decide (name.utf8ByteSize ≤ limit) && !name.toList.any isControl

/-- Whether a target's source fixes its revision. -/
def TargetSource.isDerived : TargetSource → Bool
  | .service _ | .reference _ _ _ => true
  | _ => false

def validateExact (a : Action) (name : String) : Result Unit := do
  let target ← actionTarget a.targets name
  check "identity revision is weaker than required exact revision"
    (target.source.isDerived = true ∨ target.revision = .exact)

/-- Steps, then the values sent onward, over one count. -/
def admitSteps (m : Manifest) (a : Action) : Counted Unit := do
  validateStepsFrom m a 0 0 a.steps
  scheduleValues m a (m.schedules a)
  effectValues m a (m.emissions a)

def validateAction (m : Manifest) (a : Action) : Result Unit := do
  check "invalid action" (0 < a.version ∧ validName a.name 64 = true)
  check "transaction step limit" (1 ≤ a.steps.length ∧ a.steps.length ≤ 4)
  check "existing target limit" (a.targets.length ≤ 4)
  check "action input count limit" (a.inputs.length ≤ 32)
  check "duplicate target name" (a.targets.map ActionTarget.name).Nodup
  let _ ← pageResource a.targets
  a.targets.forM (validateActionTarget m a)
  validateInputsFrom [] a.inputs
  check "action input limit" ((a.inputs.map Input.maxBytes).sum ≤ 32768)
  let (_, counted) ← admitSteps m a Admission.new
  (counted.exact.sort (· ≤ ·)).forM (validateExact a)
  check "unused action input" (counted.used = (a.inputs.map Input.name).toFinset)

/-! ## What admission guarantees of actions -/

/-- An expression admitted at a site. -/
def Admits (m : Manifest) (a : Action) (site : ValueSite) (value : Value) (d : Domain) : Prop :=
  ∃ depth s s', walk m a site value depth s = .ok (d, s')

/-- Guard conditions with typed operands. -/
inductive GuardTyped (m : Manifest) (a : Action) (index : Nat) : GuardCondition → Prop where
  | compare {left right : Value} {comparison : Comparison} {l r : Domain} :
      Typed m a (.step index true) left l → Typed m a (.step index true) right r →
        admitComparison l r comparison = .ok () →
          GuardTyped m a index (.compare left comparison right)
  | all {conditions : List GuardCondition} :
      (∀ condition ∈ conditions, GuardTyped m a index condition) →
        GuardTyped m a index (.all conditions)

theorem admitValue_step {m : Manifest} {a : Action} {index : Nat} {value : Value} {guard : Bool}
    {s s' : Admission} {d : Domain} (inside : index < a.steps.length)
    (h : admitValue m a index value guard s = .ok (d, s')) :
    Admits m a (.step index guard) value d := by
  unfold admitValue at h
  rw [if_pos inside] at h
  exact ⟨1, s, s', h⟩

theorem Admits.typed {m : Manifest} {a : Action} {site : ValueSite} {value : Value} {d : Domain}
    (h : Admits m a site value d) : Typed m a site value d := by
  rcases h with ⟨depth, s, s', walked⟩
  exact walk_typed walked

mutual

theorem admitCondition_typed {m : Manifest} {a : Action} {index : Nat}
    (inside : index < a.steps.length) : ∀ (condition : GuardCondition) {depth : Nat}
    {s s' : Admission} {u : Unit}, admitCondition m a index condition depth s = .ok (u, s') →
      GuardTyped m a index condition
  | .compare left comparison right => by
      intro h
      simp only [admitCondition, run_bind_eq_ok, run_lift_eq_ok] at h
      rcases h with ⟨_, _, _, l, _, hl, r, _, hr, rule, _⟩
      exact GuardTyped.compare (admitValue_step inside hl).typed (admitValue_step inside hr).typed rule
  | .all conditions => by
      intro h
      simp only [admitCondition, run_bind_eq_ok, run_lift_eq_ok] at h
      rcases h with ⟨_, _, _, _, _, _, hconditions⟩
      exact GuardTyped.all (admitConditions_typed inside conditions hconditions)

theorem admitConditions_typed {m : Manifest} {a : Action} {index : Nat}
    (inside : index < a.steps.length) : ∀ (conditions : List GuardCondition) {depth : Nat}
    {s s' : Admission} {u : Unit}, admitConditions m a index conditions depth s = .ok (u, s') →
      ∀ condition ∈ conditions, GuardTyped m a index condition
  | [] => by
      intro h condition mem
      cases mem
  | first :: rest => by
      intro h condition mem
      simp only [admitConditions, run_bind_eq_ok] at h
      rcases h with ⟨_, _, hfirst, hrest⟩
      rcases List.mem_cons.mp mem with same | mem
      · rw [same]
        exact admitCondition_typed inside first hfirst
      · exact admitConditions_typed inside rest hrest condition mem

end

theorem admitGuards_typed {m : Manifest} {a : Action} {index : Nat}
    (inside : index < a.steps.length) {guards : List Guard} {s s' : Admission} {u : Unit}
    (h : admitGuards m a index guards s = .ok (u, s')) :
    ∀ guard ∈ guards, GuardTyped m a index guard.condition := by
  induction guards generalizing s with
  | nil => intro guard mem; cases mem
  | cons first rest ih =>
      simp only [admitGuards, run_bind_eq_ok, run_lift_eq_ok] at h
      rcases h with ⟨_, _, _, _, _, hfirst, hrest⟩
      intro guard mem
      rcases List.mem_cons.mp mem with rfl | mem
      · exact admitCondition_typed inside _ hfirst
      · exact ih hrest guard mem

/-- A change admitted at its destination field. -/
def ChangeAdmitted (m : Manifest) (a : Action) (index : Nat) (step : Step) (op : Operation)
    (field : TextField) : Change → Prop
  | .set value => field.kind.blobLimit.isSome = true ∨
      ∃ d, Admits m a (.step index false) value d ∧ admitSet field value d = .ok ()
  | .decrease by_ _ | .increase by_ _ => op.kind = .update ∧ step.target.isNamed = true ∧
      ∃ d, Admits m a (.step index false) by_ d ∧ admitAmount field d = .ok ()

theorem admitAdjustment_spec {m : Manifest} {a : Action} {index : Nat} {step : Step}
    {op : Operation} {field : TextField} {by_ : Value} {r : GuardRejection} {s s' : Admission}
    {u : Unit} (inside : index < a.steps.length)
    (h : admitAdjustment m a index step op field by_ r s = .ok (u, s')) :
    op.kind = .update ∧ step.target.isNamed = true ∧
      ∃ d, Admits m a (.step index false) by_ d ∧ admitAmount field d = .ok () := by
  simp only [admitAdjustment, check, run_bind_eq_ok, run_lift_eq_ok, ensure_eq_ok] at h
  rcases h with ⟨_, _, ⟨shape, _⟩, d, _, walked, _, _, ⟨amount, _⟩, _⟩
  exact ⟨shape.1, shape.2, d, admitValue_step inside walked, amount⟩

theorem admitChange_spec {m : Manifest} {a : Action} {index : Nat} {step : Step} {op : Operation}
    {field : TextField} {change : Change} {s s' : Admission} {u : Unit}
    (inside : index < a.steps.length)
    (h : admitChange m a index step op field change s = .ok (u, s')) :
    ChangeAdmitted m a index step op field change := by
  cases change with
  | set value =>
      simp only [admitChange] at h
      rcases run_bind_eq_ok.mp h with ⟨_, _, _, assigned⟩
      cases limit : field.kind.blobLimit with
      | some maxBytes => exact Or.inl (by rw [limit]; rfl)
      | none =>
          right
          rw [limit] at assigned
          simp only [run_bind_eq_ok, run_lift_eq_ok] at assigned
          rcases assigned with ⟨d, _, walked, rule, _⟩
          exact ⟨d, admitValue_step inside walked, rule⟩
  | decrease by_ r => exact admitAdjustment_spec inside h
  | increase by_ r => exact admitAdjustment_spec inside h

/-- An assignment admitted for a step of the operation. -/
def AssignmentAdmitted (m : Manifest) (a : Action) (index : Nat) (step : Step) (op : Operation)
    (resource : Resource) (assignment : Assignment) : Prop :=
  ∃ field, resource.field? assignment.field = some field ∧ validateDestination op field = .ok () ∧
    ChangeAdmitted m a index step op field assignment.change

theorem validateAssignments_spec {m : Manifest} {a : Action} {index : Nat} {step : Step}
    {op : Operation} {resource : Resource} {earlier : List String} {assignments : List Assignment}
    {s s' : Admission} {u : Unit} (inside : index < a.steps.length)
    (h : validateAssignments m a index step op resource earlier assignments s = .ok (u, s')) :
    (∀ assignment ∈ assignments, AssignmentAdmitted m a index step op resource assignment ∧
      assignment.field ∉ earlier) ∧ (assignments.map Assignment.field).Nodup := by
  induction assignments generalizing earlier s with
  | nil => simp
  | cons first rest ih =>
      simp only [validateAssignments, validateAssignment, check, need, run_bind_eq_ok,
        run_lift_eq_ok, ensure_eq_ok, context_eq_ok] at h
      rcases h with ⟨_, _, ⟨fresh, _⟩, _, _, ⟨_, _, _, field, _, ⟨found, _⟩, _, _, ⟨rule, _⟩, changed⟩,
        later⟩
      have rest_spec := ih later
      constructor
      · intro assignment mem
        rcases List.mem_cons.mp mem with rfl | mem
        · exact ⟨⟨field, found, rule, admitChange_spec inside changed⟩, fresh⟩
        · have spec := rest_spec.1 assignment mem
          exact ⟨spec.1, fun old => spec.2 (List.mem_cons_of_mem _ old)⟩
      · rw [List.map_cons, List.nodup_cons]
        refine ⟨fun mem => ?_, rest_spec.2⟩
        rcases List.mem_map.mp mem with ⟨assignment, hassignment, same⟩
        exact (rest_spec.1 assignment hassignment).2 (same ▸ List.mem_cons_self)

/-- An admitted step: its operation and resource, its kind and target, its guards
and its assignments. -/
structure StepAdmitted (m : Manifest) (a : Action) (index : Nat) (step : Step) (op : Operation)
    (resource : Resource) : Prop where
  operation_eq : m.operation step.operation = .ok op
  resource_eq : m.resource op.resource = .ok resource
  kind : ∃ creates creates', validateStepKind a step op creates = .ok creates'
  guards : ∀ guard ∈ step.guards, GuardTyped m a index guard.condition
  assigned : ∀ assignment ∈ step.assign, AssignmentAdmitted m a index step op resource assignment
  distinct : (step.assign.map Assignment.field).Nodup
  complete : op.kind = .create → step.assign.length = (resource.writableFields step).length

theorem validateStep_spec {m : Manifest} {a : Action} {index creates creates' : Nat} {step : Step}
    {s s' : Admission} (inside : index < a.steps.length)
    (h : validateStep m a index creates step s = .ok (creates', s')) :
    ∃ op resource, StepAdmitted m a index step op resource := by
  simp only [validateStep, check, run_bind_eq_ok, run_lift_eq_ok, ensure_eq_ok] at h
  rcases h with ⟨op, _, ⟨hop, _⟩, resource, _, ⟨hresource, _⟩, _, _, _, _, _, ⟨kind, _⟩, _, _, _,
    _, _, guards, _, _, assigned, _, _, ⟨complete, _⟩, _⟩
  have assignments := validateAssignments_spec inside assigned
  exact ⟨op, resource, hop, hresource, ⟨_, _, kind⟩, admitGuards_typed inside guards,
    fun assignment mem => (assignments.1 assignment mem).1, assignments.2, complete⟩

theorem validateStepsFrom_spec {m : Manifest} {a : Action} {index creates : Nat}
    {steps : List Step} {s s' : Admission} {u : Unit} (inside : index + steps.length ≤ a.steps.length)
    (h : validateStepsFrom m a index creates steps s = .ok (u, s')) :
    ∀ (offset : Nat) (step : Step), steps[offset]? = some step →
      ∃ op resource, StepAdmitted m a (index + offset) step op resource := by
  induction steps generalizing index creates s with
  | nil => intro offset step found; simp at found
  | cons first rest ih =>
      simp only [validateStepsFrom, run_bind_eq_ok] at h
      rcases h with ⟨_, _, hfirst, hrest⟩
      rw [List.length_cons] at inside
      intro offset step found
      cases offset with
      | zero =>
          cases found
          exact validateStep_spec (by omega) hfirst
      | succ offset =>
          rw [List.getElem?_cons_succ] at found
          have spec := ih (by omega) hrest offset step found
          rwa [Nat.add_right_comm] at spec

theorem admitValue_schedule {m : Manifest} {a : Action} {value : Value} {guard : Bool}
    {s s' : Admission} {d : Domain}
    (h : admitValue m a a.steps.length value guard s = .ok (d, s')) :
    Admits m a .schedule value d := by
  unfold admitValue at h
  rw [if_neg (Nat.lt_irrefl _)] at h
  exact ⟨1, s, s', h⟩

/-- An admitted schedule: its inputs and its due time are typed and fit. -/
structure ScheduleAdmitted (m : Manifest) (a : Action) (schedule : Schedule) (called : Action) :
    Prop where
  called_eq : m.action schedule.action = .ok called
  inputs : ∀ entry ∈ schedule.inputs, ∃ input d, called.input? entry.1 = some input ∧
    Admits m a .schedule entry.2 d ∧ fitsInput d input = true
  due : ∃ d, Admits m a .schedule schedule.dueAt d ∧ d.kind = .timestamp ∧ d.optional = false

theorem scheduleInputs_spec {m : Manifest} {a called : Action} {inputs : List (String × Value)}
    {s s' : Admission} {u : Unit} (h : scheduleInputs m a called inputs s = .ok (u, s')) :
    ∀ entry ∈ inputs, ∃ input d, called.input? entry.1 = some input ∧
      Admits m a .schedule entry.2 d ∧ fitsInput d input = true := by
  induction inputs generalizing s with
  | nil => intro entry mem; cases mem
  | cons first rest ih =>
      simp only [scheduleInputs, check, need, run_bind_eq_ok, run_lift_eq_ok, ensure_eq_ok,
        context_eq_ok] at h
      rcases h with ⟨input, _, ⟨found, _⟩, d, _, walked, _, _, ⟨fit, _⟩, later⟩
      intro entry mem
      rcases List.mem_cons.mp mem with rfl | mem
      · exact ⟨input, d, found, admitValue_schedule walked, fit⟩
      · exact ih later entry mem

theorem scheduleValues_spec {m : Manifest} {a : Action} {schedules : List Schedule}
    {s s' : Admission} {u : Unit} (h : scheduleValues m a schedules s = .ok (u, s')) :
    ∀ schedule ∈ schedules, ∃ called, ScheduleAdmitted m a schedule called := by
  induction schedules generalizing s with
  | nil => intro schedule mem; cases mem
  | cons first rest ih =>
      simp only [scheduleValues, check, run_bind_eq_ok, run_lift_eq_ok, ensure_eq_ok] at h
      rcases h with ⟨called, _, ⟨hcalled, _⟩, _, _, inputs, d, _, walked, _, _, ⟨due, _⟩, later⟩
      intro schedule mem
      rcases List.mem_cons.mp mem with rfl | mem
      · exact ⟨called, hcalled, scheduleInputs_spec inputs, d, admitValue_schedule walked, due⟩
      · exact ih later schedule mem

/-- An admitted payload field: its schema is valid and its value fits it. -/
structure PayloadAdmitted (m : Manifest) (a : Action) (field : PayloadField) (d : Domain) :
    Prop where
  schema : validatePayloadSchema m field.schema = .ok ()
  admits : Admits m a .effect field.value d
  fit : payloadFits d field.schema = true

theorem effectFields_spec {m : Manifest} {a : Action} {fields : List PayloadField}
    {s s' : Admission} {u : Unit} (h : effectFields m a fields s = .ok (u, s')) :
    ∀ field ∈ fields, ∃ d, PayloadAdmitted m a field d := by
  induction fields generalizing s with
  | nil => intro field mem; cases mem
  | cons first rest ih =>
      simp only [effectFields, effectValue, check, run_bind_eq_ok, run_lift_eq_ok,
        ensure_eq_ok] at h
      rcases h with ⟨_, _, ⟨schema, _⟩, d, _, walked, _, _, ⟨fit, _⟩, later⟩
      intro field mem
      rcases List.mem_cons.mp mem with rfl | mem
      · exact ⟨d, schema, ⟨1, _, _, walked⟩, fit⟩
      · exact ih later field mem

theorem effectValues_spec {m : Manifest} {a : Action} {emissions : List EmitEffect}
    {s s' : Admission} {u : Unit} (h : effectValues m a emissions s = .ok (u, s')) :
    ∀ emission ∈ emissions, ∀ field ∈ emission.fields, ∃ d, PayloadAdmitted m a field d := by
  induction emissions generalizing s with
  | nil => intro emission mem; cases mem
  | cons first rest ih =>
      simp only [effectValues, run_bind_eq_ok] at h
      rcases h with ⟨_, _, fields, later⟩
      intro emission mem
      rcases List.mem_cons.mp mem with rfl | mem
      · exact effectFields_spec fields
      · exact ih later emission mem

theorem validateInputsFrom_schema {earlier : List String} {inputs : List Input}
    (h : validateInputsFrom earlier inputs = .ok ()) :
    ∀ input ∈ inputs, validateInputSchema input = .ok () := by
  induction inputs generalizing earlier with
  | nil => intro input mem; cases mem
  | cons first rest ih =>
      simp only [validateInputsFrom, bind_eq_ok] at h
      rcases h with ⟨_, _, _, schema, later⟩
      intro input mem
      rcases List.mem_cons.mp mem with rfl | mem
      · exact schema
      · exact ih later input mem

/-- An admitted action: valid input schemas, and admitted steps, schedules and
effects. -/
structure ActionAdmitted (m : Manifest) (a : Action) : Prop where
  inputs : ∀ input ∈ a.inputs, validateInputSchema input = .ok ()
  steps : ∀ index step, a.steps[index]? = some step →
    ∃ op resource, StepAdmitted m a index step op resource
  schedules : ∀ schedule ∈ m.schedules a, ∃ called, ScheduleAdmitted m a schedule called
  effects : ∀ emission ∈ m.emissions a, ∀ field ∈ emission.fields, ∃ d, PayloadAdmitted m a field d

theorem validateAction_spec {m : Manifest} {a : Action} (h : validateAction m a = .ok ()) :
    ActionAdmitted m a := by
  simp only [validateAction, check, bind_eq_ok, ensure_eq_ok] at h
  rcases h with ⟨_, _, _, _, _, _, _, _, _, _, _, _, _, _, _, inputs, _, _, ⟨⟨⟩, counted⟩, steps, _⟩
  simp only [admitSteps, run_bind_eq_ok] at steps
  rcases steps with ⟨_, _, steps, _, _, schedules, effects⟩
  have spec := validateStepsFrom_spec (by simp) steps
  refine ⟨validateInputsFrom_schema inputs, fun index step found => ?_,
    scheduleValues_spec schedules, effectValues_spec effects⟩
  have admitted := spec index step found
  rwa [Nat.zero_add] at admitted

end Noxide
