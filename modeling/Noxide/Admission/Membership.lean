import Noxide.Admission.Policy

/-!
# One-hop membership

A membership predicate asks whether some unexpired membership record ties the
active account to the protected record.  The same specialized subquery serves
list filtering, where the protected record is the row being filtered, and
batched witnesses, where it is a requested reference.

Main results:

- Theorem {lit}`existsSql_builds`: both forms of the subquery decide
  {lit}`Plan.member`, and the filtering form also compares the tenants.
-/

namespace Noxide

open Checked

/-- Predicates a policy may declare. -/
def maxMembershipPredicates : Nat := 2

def maxMembershipConditions : Nat := 4

/-! ## Plans -/

/-- An admitted membership predicate with the fields it resolved. -/
structure Plan where
  declaration : ExistsRelated
  reference : TextField
  account : TextField
  protectedReference : Option TextField
  resource : Resource
  deriving DecidableEq

def membershipField (resource : Resource) (name : String) : Result TextField := do
  check "invalid membership field" (identifier name)
  need "unknown membership field" (resource.field? name)

def literalText : MembershipLiteral → String
  | .boolean value => if value then "true" else "false"
  | .choice value => value

/-- A literal tests a field of its own kind. -/
def conditionTyped : FieldKind → MembershipLiteral → Bool
  | .boolean, .boolean _ => true
  | .choice _, .choice _ => true
  | _, _ => false

/-- The protected record's own identity, or one of its required references. -/
def admitTarget (protected_ : Resource) (target : String) :
    RelatedTarget → Result (Option TextField)
  | .selfRecord => do
      check "membership target resource mismatch" (target = protected_.name)
      return none
  | .reference name => do
      let f ← membershipField protected_ name
      check "protected reference must be required" (!f.optional ∧ f.initial.isNone)
      check "membership target resource mismatch" (f.kind = .reference target)
      return some f

def admitPlan (resources : List Resource) (protected_ : Resource)
    (declaration : ExistsRelated) : Result Plan := do
  check "invalid membership resource" (identifier declaration.resource)
  let membership ← need "unknown membership resource"
    (resources.find? fun r => r.name == declaration.resource)
  check "membership condition limit"
    (declaration.conditions.length ≤ maxMembershipConditions)
  let reference ← membershipField membership declaration.reference
  match reference.kind with
  | .reference target => do
      check "membership reference must be required"
        (!reference.optional ∧ reference.initial.isNone)
      let protectedReference ← admitTarget protected_ target declaration.target
      let account ← membershipField membership declaration.account
      check "membership account must be required"
        (!account.optional ∧ account.initial.isNone ∧ account.kind.isAccount)
      declaration.conditions.forM fun (name, literal) => do
        let condition ← membershipField membership name
        check "membership condition must be required" (!condition.optional)
        check "membership condition requires a typed literal"
          (conditionTyped condition.kind literal)
        validateValue condition (literalText literal)
      return ⟨declaration, reference, account, protectedReference, membership⟩
  | _ => .error (.message "membership match requires an immutable reference")

/-- The membership predicates of a policy. -/
def Policy.related (policy : Policy) : List ExistsRelated :=
  policy.any.flatten.filterMap fun
    | .existsRelated declaration => some declaration
    | _ => none

/-- The plans of an operation, one for each distinct declaration. -/
def plans (m : Manifest) (operation : Operation) : Result (List Plan) := do
  check "membership predicate limit"
    (operation.policy.related.length ≤ maxMembershipPredicates)
  let resource ← m.resource operation.resource
  operation.policy.related.dedup.mapM (admitPlan m.resources resource)

theorem admitPlan_declaration {resources : List Resource} {protected_ : Resource}
    {declaration : ExistsRelated} {plan : Plan}
    (h : admitPlan resources protected_ declaration = .ok plan) :
    plan.declaration = declaration := by
  simp only [admitPlan, bind_eq_ok] at h
  obtain ⟨_, _, membership, _, _, _, reference, _, h⟩ := h
  split at h
  · simp only [bind_eq_ok] at h
    obtain ⟨_, _, _, _, _, _, _, _, _, _, h⟩ := h
    rw [← Except.ok.inj h]
  · cases h

/-- Every membership predicate of the policy has its plan. -/
theorem plans_declarations {m : Manifest} {operation : Operation} {ps : List Plan}
    (h : plans m operation = .ok ps) :
    ps.map Plan.declaration = operation.policy.related.dedup := by
  simp only [plans, bind_eq_ok] at h
  obtain ⟨_, _, resource, _, hmap⟩ := h
  exact mapM_map_eq hmap fun _ _ => admitPlan_declaration

theorem mem_related {policy : Policy} {rule : List Predicate} {r : ExistsRelated}
    (hrule : rule ∈ policy.any) (hr : .existsRelated r ∈ rule) : r ∈ policy.related := by
  simp only [Policy.related, List.mem_filterMap, List.mem_flatten]
  exact ⟨.existsRelated r, ⟨rule, hrule, hr⟩, rfl⟩

/-! ## The subquery -/

/-- The account, tenant, deployment and time a lookup is made for. -/
structure LookupScope where
  account : String
  tenant : String
  deployment : Deployment
  time : Int
  deriving DecidableEq

/-- What the membership reference is compared with. -/
inductive MembershipTarget where
  | field (name : String)
  | recordId
  | requested
  deriving DecidableEq, Repr

/-- The specialized {lit}`EXISTS` subquery, by its parameter numbers. -/
structure MembershipQuery where
  storage : Nat
  target : MembershipTarget
  reference : String
  account : String
  accountParam : Nat
  tenantParam : Nat
  conditions : List (String × Nat)
  expiry : Option (RecordCondition Empty)
  contractParam : Nat
  incarnationParam : Nat
  generationParam : Nat

/-- A membership row inside the subquery. -/
def StoredRow.inner (m : StoredRow) : Sql.View RecordColumn Empty :=
  ⟨m.column, fun _ query => nomatch query⟩

/-- Whether a parameter is bound to the text. -/
def paramIs (params : List Sql.Datum) (param : Nat) (text : String) : Bool :=
  Sql.bound params param == some (.text text)

/-- Whether some membership row, account and deployment satisfy the subquery. -/
def MembershipQuery.holds (q : MembershipQuery) (tables : AuthorityTables)
    (params : List Sql.Datum) (target : Option Sql.Datum) : Bool :=
  tables.records.any fun m =>
    decide (m.resource = q.storage) &&
    (Sql.Condition.equals RecordColumn.tenant q.tenantParam).accepts m.inner params &&
    (Sql.isEqual (m.column (.field q.reference)) target).accepts &&
    (Sql.Condition.equals (RecordColumn.field q.account) q.accountParam).accepts
      m.inner params &&
    (q.conditions.all fun c =>
      (Sql.Condition.equals (RecordColumn.field c.1) c.2).accepts m.inner params) &&
    (tables.accounts.any fun a =>
      paramIs params q.accountParam a.id && paramIs params q.tenantParam a.tenant &&
        a.active) &&
    (tables.deployment.any fun d =>
      paramIs params q.contractParam d.contract &&
        paramIs params q.incarnationParam d.incarnation &&
        paramIs params q.generationParam d.generation) &&
    (q.expiry.elim true fun c => c.accepts m.inner params)

/-- The value a filtered row gives the subquery. -/
def StoredRow.target (row : StoredRow) : MembershipTarget → Option Sql.Datum
  | .field name => row.column (.field name)
  | .recordId => some (.text (toString row.id))
  | .requested => none

/-- A record row under a filter. -/
def StoredRow.view (tables : AuthorityTables) (row : StoredRow) :
    Sql.View RecordColumn MembershipQuery :=
  ⟨row.column, fun params q => q.holds tables params (row.target q.target)⟩

@[simp]
theorem StoredRow.view_column (tables : AuthorityTables) (row : StoredRow) :
    (row.view tables).column = row.column :=
  rfl

/-- A requested reference in a witness batch. -/
def requestedView (tables : AuthorityTables) (key : String) :
    Sql.View RecordColumn MembershipQuery :=
  ⟨fun _ => none, fun params q => q.holds tables params
    (match q.target with
      | .requested => some (.text key)
      | _ => none)⟩

def Plan.protectedTarget (plan : Plan) : MembershipTarget :=
  match plan.protectedReference with
  | some field => .field field.name
  | none => .recordId

def Plan.existsSql (plan : Plan) (storage : Nat) (scope : LookupScope)
    (protectedRow : Bool) : Sql.Build Failure (RecordCondition MembershipQuery) := do
  StateT.lift (check "membership scope unavailable"
    (0 < storage ∧ accountId scope.account ∧ scope.tenant ≠ ""))
  let accountParam ← Sql.push (.text scope.account)
  let tenantParam ← Sql.push (.text scope.tenant)
  let conditions ← plan.declaration.conditions.mapM fun c => do
    let param ← Sql.push (.text (literalText c.2))
    return (c.1, param)
  let expiry ← expirySql plan.resource (some scope.time)
  let contractParam ← Sql.push (.text scope.deployment.contract)
  let incarnationParam ← Sql.push (.text scope.deployment.incarnation)
  let generationParam ← Sql.push (.text scope.deployment.generation)
  let satisfied := Sql.Condition.satisfied {
    storage
    target := if protectedRow then plan.protectedTarget else .requested
    reference := plan.reference.name
    account := plan.account.name
    accountParam, tenantParam, conditions, expiry
    contractParam, incarnationParam, generationParam }
  return if protectedRow then .and (.equals .tenant tenantParam) satisfied else satisfied

/-! ## Its meaning -/

/-- The membership fact itself: a current membership row of the tenant ties the
account to the key, the account is active and the deployment is current. -/
def Plan.member (plan : Plan) (tables : AuthorityTables) (storage : Nat)
    (scope : LookupScope) (key : String) : Bool :=
  tables.records.any fun m =>
    decide (m.resource = storage) && decide (m.tenant = scope.tenant) &&
    decide (m.fields.lookup plan.reference.name = some key) &&
    decide (m.fields.lookup plan.account.name = some scope.account) &&
    (plan.declaration.conditions.all fun c =>
      decide (m.fields.lookup c.1 = some (literalText c.2))) &&
    (tables.accounts.any fun a =>
      decide (a.id = scope.account) && decide (a.tenant = scope.tenant) && a.active) &&
    decide (tables.deployment = some scope.deployment) &&
    unexpired plan.resource (some scope.time) m.fields

/-- The key of a protected record, if it has one. -/
def Plan.rowKey (plan : Plan) (id : Nat) (fields : Fields) : Option String :=
  match plan.protectedReference with
  | some field => fields.lookup field.name
  | none => some (toString id)

theorem paramIs_of_bound {params : List Sql.Datum} {param : Nat} {value : String}
    (h : Sql.bound params param = some (.text value)) (text : String) :
    paramIs params param text = decide (text = value) := by
  by_cases heq : text = value
  · simp [paramIs, h, heq]
  · simp [paramIs, h, heq, Ne.symm heq]

theorem inner_equals_field {m : StoredRow} {params : List Sql.Datum} {param : Nat}
    {value : String} (h : Sql.bound params param = some (.text value)) (name : String) :
    (Sql.Condition.equals (RecordColumn.field name) param).accepts m.inner params =
      decide (m.fields.lookup name = some value) := by
  rw [Sql.accepts_equals m.inner params _ _ h]
  cases hlookup : m.fields.lookup name with
  | none => simp [StoredRow.inner, StoredRow.column, hlookup]
  | some stored =>
      by_cases heq : stored = value
      · simp [StoredRow.inner, StoredRow.column, hlookup, heq]
      · simp [StoredRow.inner, StoredRow.column, hlookup, heq]

/-- A subquery names the plan's fields and its parameters are bound to the
lookup's values. -/
structure MembershipQuery.Describes (q : MembershipQuery) (plan : Plan) (storage : Nat)
    (scope : LookupScope) (params : List Sql.Datum) : Prop where
  storage_eq : q.storage = storage
  reference_eq : q.reference = plan.reference.name
  account_eq : q.account = plan.account.name
  account_bound : Sql.bound params q.accountParam = some (.text scope.account)
  tenant_bound : Sql.bound params q.tenantParam = some (.text scope.tenant)
  conditions_bound : List.Forall₂ (fun c (d : String × Nat) => d.1 = c.1 ∧
    Sql.bound params d.2 = some (.text (literalText c.2)))
    plan.declaration.conditions q.conditions
  expiry_means : ∀ m : StoredRow,
    (q.expiry.elim true fun c => c.accepts m.inner params) =
      unexpired plan.resource (some scope.time) m.fields
  contract_bound : Sql.bound params q.contractParam =
    some (.text scope.deployment.contract)
  incarnation_bound : Sql.bound params q.incarnationParam =
    some (.text scope.deployment.incarnation)
  generation_bound : Sql.bound params q.generationParam =
    some (.text scope.deployment.generation)

/-- A subquery that describes a lookup decides membership of its target. -/
theorem MembershipQuery.Describes.holds_eq {plan : Plan} {storage : Nat}
    {scope : LookupScope} {q : MembershipQuery} {params : List Sql.Datum}
    (h : q.Describes plan storage scope params) (tables : AuthorityTables)
    (key : Option String) :
    q.holds tables params (key.map .text) =
      key.any (plan.member tables storage scope) := by
  have hdeployment : (tables.deployment.any fun d =>
      paramIs params q.contractParam d.contract &&
        paramIs params q.incarnationParam d.incarnation &&
        paramIs params q.generationParam d.generation) =
      decide (tables.deployment = some scope.deployment) := by
    cases tables.deployment with
    | none => simp
    | some d =>
        simp only [Option.any_some, paramIs_of_bound h.contract_bound,
          paramIs_of_bound h.incarnation_bound, paramIs_of_bound h.generation_bound, Option.some.injEq]
        rcases d with ⟨c, i, g⟩
        rcases hscope : scope.deployment with ⟨c', i', g'⟩
        simp [Deployment.mk.injEq, Bool.decide_and, Bool.and_assoc]
  have haccounts : (tables.accounts.any fun a =>
      paramIs params q.accountParam a.id && paramIs params q.tenantParam a.tenant &&
        a.active) = tables.accounts.any fun a =>
      decide (a.id = scope.account) && decide (a.tenant = scope.tenant) && a.active := by
    simp only [paramIs_of_bound h.account_bound, paramIs_of_bound h.tenant_bound]
  have hliterals : ∀ m : StoredRow, (q.conditions.all fun c =>
      (Sql.Condition.equals (RecordColumn.field c.1) c.2).accepts m.inner params) =
      plan.declaration.conditions.all fun c =>
        decide (m.fields.lookup c.1 = some (literalText c.2)) := by
    intro m
    apply Sql.all_eq_of_forall₂
    refine h.conditions_bound.imp fun c d hcd => ?_
    rw [inner_equals_field hcd.2, hcd.1]
  have htenant : ∀ m : StoredRow,
      (Sql.Condition.equals RecordColumn.tenant q.tenantParam).accepts m.inner params =
        decide (m.tenant = scope.tenant) := by
    intro m
    rw [Sql.accepts_equals m.inner params _ _ h.tenant_bound]
    simp [StoredRow.inner, StoredRow.column]
  unfold MembershipQuery.holds Plan.member
  simp only [hdeployment, haccounts, hliterals, htenant, h.expiry_means, h.storage_eq,
    inner_equals_field h.account_bound, h.account_eq, h.reference_eq]
  cases key with
  | none =>
      have hnull : ∀ d : Option Sql.Datum, (Sql.isEqual d none).accepts = false := by
        intro d
        cases d <;> rfl
      simp [hnull]
  | some key =>
      have hkey : ∀ m : StoredRow,
          (Sql.isEqual (m.column (.field plan.reference.name)) (some (.text key))).accepts =
            decide (m.fields.lookup plan.reference.name = some key) := by
        intro m
        cases hlookup : m.fields.lookup plan.reference.name with
        | none => simp [StoredRow.column, hlookup, Sql.isEqual, Sql.Truth.accepts]
        | some stored =>
            by_cases heq : stored = key
            · simp [StoredRow.column, hlookup, Sql.isEqual, Sql.Truth.accepts, heq]
            · simp [StoredRow.column, hlookup, Sql.isEqual, Sql.Truth.accepts, heq]
      simp only [Option.map_some, Option.any_some, hkey]

/-- What the built clause decides, in its two forms. -/
def existsMeaning (plan : Plan) (tables : AuthorityTables) (storage : Nat)
    (scope : LookupScope) (protectedRow : Bool) (final : List Sql.Datum)
    (clause : RecordCondition MembershipQuery) : Prop :=
  (protectedRow = true → ∀ row : StoredRow, clause.accepts (row.view tables) final =
    (decide (row.tenant = scope.tenant) &&
      (plan.rowKey row.id row.fields).any (plan.member tables storage scope))) ∧
  (protectedRow = false → ∀ key, clause.accepts (requestedView tables key) final =
    plan.member tables storage scope key)

/-- Both forms of the subquery decide membership of the protected key. -/
theorem existsSql_builds (plan : Plan) (tables : AuthorityTables) (storage : Nat)
    (scope : LookupScope) (protectedRow : Bool) (params : List Sql.Datum) :
    Sql.Builds (plan.existsSql storage scope protectedRow) params
      (existsMeaning plan tables storage scope protectedRow) := by
  unfold Plan.existsSql
  apply Sql.Builds.bind (P := fun _ _ => True) (Sql.Builds.lift fun _ _ _ => trivial)
  intro _ checked _
  apply Sql.Builds.bind Sql.Builds.push
  intro accountParam accounts haccount
  apply Sql.Builds.bind Sql.Builds.push
  intro tenantParam tenants htenant
  apply Sql.Builds.bind
  · apply Sql.Builds.mapM (R := fun final c (d : String × Nat) => d.1 = c.1 ∧
      Sql.bound final d.2 = some (.text (literalText c.2)))
    intro c _ start
    apply Sql.Builds.bind Sql.Builds.push
    intro param _ hbound
    apply Sql.Builds.pure
    intro later
    exact ⟨rfl, hbound later⟩
  intro conditions literals hconditions
  -- The expiry clause is read on every membership row, so its meaning is kept
  -- for all of them.
  apply Sql.Builds.bind (P := fun final clause => ∀ m : StoredRow,
    (clause.elim true fun c => c.accepts m.inner final) =
      unexpired plan.resource (some scope.time) m.fields)
  · intro clause final hrun
    have hrow := fun m : StoredRow => expirySql_builds plan.resource (some scope.time) m
      m.inner rfl _ clause final hrun
    exact ⟨(hrow ⟨0, 0, none, "", ∅, "", 0, none, 0⟩).1, fun later m => (hrow m).2 later⟩
  intro expiry times hexpiry
  apply Sql.Builds.bind Sql.Builds.push
  intro contractParam contracts hcontract
  apply Sql.Builds.bind Sql.Builds.push
  intro incarnationParam incarnations hincarnation
  apply Sql.Builds.bind Sql.Builds.push
  intro generationParam generations hgeneration
  apply Sql.Builds.pure
  intro later
  generalize hfinal : params ++ checked ++ accounts ++ tenants ++ literals ++ times ++
    contracts ++ incarnations ++ generations ++ later = final
  have hdescribes : ∀ target : MembershipTarget,
      MembershipQuery.Describes ⟨storage, target, plan.reference.name, plan.account.name,
        accountParam, tenantParam, conditions, expiry, contractParam, incarnationParam,
        generationParam⟩ plan storage scope final := by
    intro target
    subst hfinal
    exact {
      storage_eq := rfl
      reference_eq := rfl
      account_eq := rfl
      account_bound := by
        simpa using haccount (tenants ++ literals ++ times ++ contracts ++ incarnations ++
          generations ++ later)
      tenant_bound := by
        simpa using htenant (literals ++ times ++ contracts ++ incarnations ++
          generations ++ later)
      conditions_bound := by
        simpa using hconditions (times ++ contracts ++ incarnations ++ generations ++ later)
      expiry_means := by
        simpa using hexpiry (contracts ++ incarnations ++ generations ++ later)
      contract_bound := by
        simpa using hcontract (incarnations ++ generations ++ later)
      incarnation_bound := by
        simpa using hincarnation (generations ++ later)
      generation_bound := by
        simpa using hgeneration later }
  constructor
  · rintro rfl row
    rw [if_pos rfl, Sql.accepts_and, Sql.accepts_satisfied,
      Sql.accepts_equals _ _ _ _ (hdescribes .recordId).tenant_bound]
    have hmember := (hdescribes plan.protectedTarget).holds_eq tables (plan.rowKey row.id row.fields)
    have htarget : row.target plan.protectedTarget = (plan.rowKey row.id row.fields).map .text := by
      unfold Plan.protectedTarget Plan.rowKey
      cases plan.protectedReference <;> rfl
    rw [← htarget] at hmember
    simp only [StoredRow.view, StoredRow.column, Option.some.injEq, Sql.Datum.text.injEq,
      if_true]
    rw [hmember]
  · rintro rfl key
    have hmember := (hdescribes .requested).holds_eq tables (some key)
    simpa [requestedView] using hmember

end Noxide
