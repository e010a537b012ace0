import Noxide.Admission.Expiry

/-!
# Policies

A policy predicate bound to a principal is one of six row conditions.  The row
evaluator tests the bound conditions of a rule; the filter compiler turns the
same bound conditions into a parameterized condition over the record columns.
Relaxed scans keep one selective predicate of a rule and leave the rest to the
evaluator.

Main results:

- Theorem {lit}`filterWith_builds`: the compiled filter selects a row exactly
  when the row evaluator allows it.
- Theorem {lit}`allowed_found`: a row the policy allows is selected by the
  relaxed scan of some rule.
- Theorem {lit}`exact_scan_allowed`: a scan marked exact selects allowed rows
  only.
-/

namespace Noxide

open Checked

/-! ## Binding -/

/-- A predicate bound to a principal. -/
inductive PolicyCondition where
  | allow
  | deny
  | owner (id : String)
  | tenant (tenant : String)
  | account (field id : String)
  | related (related : ExistsRelated)
  deriving DecidableEq

/-- Whether the user holds the role, globally or in the user's own tenant. -/
def User.granted (user : User) (name : String) (tenantScoped : Bool) : Bool :=
  user.roles.any fun role => decide (role.1 = name) &&
    if tenantScoped then decide (role.2 ≠ "") && decide (role.2 = user.tenant)
    else decide (role.2 = "")

def Predicate.bind : Principal → Predicate → PolicyCondition
  | .service identity, .everyone => .tenant identity.tenant
  | .service identity, .sameTenant => .tenant identity.tenant
  | _, .everyone => .allow
  | .service identity, .service worker =>
      if identity.worker = worker then .tenant identity.tenant else .deny
  | _, .service _ => .deny
  | .service _, _ => .deny
  | _, .capability => .deny
  | .anonymous, _ => .deny
  | .user account, .principalIs field => .account field account.id
  | .user account, .owner => .owner account.id
  | .user account, .sameTenant =>
      if account.tenant = "" then .deny else .tenant account.tenant
  | .user _, .existsRelated related => .related related
  | .user account, .role name tenantScoped =>
      if !account.granted name tenantScoped then .deny
      else if tenantScoped then .tenant account.tenant
      else .allow

/-! ## The row evaluator -/

/-- What the evaluator sees of a record. -/
structure PolicyRow where
  owner : String
  tenant : String
  fields : Fields

def PolicyCondition.holds (row : PolicyRow) (related : ExistsRelated → Bool) :
    PolicyCondition → Bool
  | .account field id => row.fields.lookup field == some id
  | .related predicate => related predicate
  | .allow => true
  | .deny => false
  | .owner value => row.owner == value
  | .tenant value => row.tenant == value

def allowedWith (policy : Policy) (principal : Principal) (row : PolicyRow)
    (related : ExistsRelated → Bool) : Bool :=
  policy.any.any fun rule =>
    !rule.isEmpty && rule.all fun p => (p.bind principal).holds row related

/-- Membership predicates denied. -/
def allowed (policy : Policy) (principal : Principal) (row : PolicyRow) : Bool :=
  allowedWith policy principal row fun _ => false

/-! ## The filter compiler -/

/-- Row predicate compiled from an admitted policy for one principal. -/
structure AuthorizedFilter (Subquery : Type) where
  clauses : List (RecordCondition Subquery)

/-- A membership check compiled from an admitted plan. -/
abbrev CompileRelated (Subquery : Type) :=
  ExistsRelated → Sql.Build Failure (RecordCondition Subquery)

section Filter

variable {Subquery : Type}

/-- The clause of one bound predicate. -/
def PolicyCondition.clause (related : CompileRelated Subquery) :
    PolicyCondition → Sql.Build Failure (RecordCondition Subquery)
  | .related predicate => related predicate
  | .account field id => do
      let param ← Sql.push (.text id)
      return .equals (.field field) param
  | .allow => return .constant true
  | .deny => return .constant false
  | .owner value => do
      let param ← Sql.push (.text value)
      return .equals .owner param
  | .tenant value => do
      let param ← Sql.push (.text value)
      return .equals .tenant param

/-- The clause of one rule: its predicates joined by AND. -/
def ruleClause (principal : Principal) (related : CompileRelated Subquery)
    (rule : List Predicate) : Sql.Build Failure (RecordCondition Subquery) :=
  if rule.isEmpty then return .constant false
  else do
    let terms ← rule.mapM fun p => (p.bind principal).clause related
    return Sql.joinAnd terms

def filterWith (policy : Policy) (principal : Principal)
    (related : CompileRelated Subquery) :
    Sql.Build Failure (AuthorizedFilter Subquery) :=
  if policy.any.isEmpty then return ⟨[.constant false]⟩
  else do
    let clauses ← policy.any.mapM (ruleClause principal related)
    return ⟨clauses⟩

/-- Compile a policy whose membership predicates are denied. -/
def filter (policy : Policy) (principal : Principal) :
    Sql.Build Failure (AuthorizedFilter Subquery) :=
  filterWith policy principal fun _ => return .constant false

/-- Narrow every clause to records that have not expired. -/
def AuthorizedFilter.unexpired (f : AuthorizedFilter Subquery) (resource : Resource)
    (time : Option Int) : Sql.Build Failure (AuthorizedFilter Subquery) := do
  let expires ← expirySql resource time
  return ⟨f.clauses.map fun clause => expires.elim clause clause.and⟩

def AuthorizedFilter.sql (f : AuthorizedFilter Subquery) : RecordCondition Subquery :=
  Sql.joinOr f.clauses

/-- Whether the filter selects the row. -/
def AuthorizedFilter.accepts (f : AuthorizedFilter Subquery)
    (view : Sql.View RecordColumn Subquery) (params : List Sql.Datum) : Bool :=
  f.sql.accepts view params

end Filter

/-! ## Scan strategies -/

structure ScanRule where
  rule : Nat
  exact : Bool
  deriving DecidableEq, Repr

inductive ListStrategy where
  | single
  | merge (scans : List ScanRule)
  deriving DecidableEq, Repr

def Predicate.isPrincipalIs : Predicate → Bool
  | .principalIs _ => true
  | _ => false

def Predicate.isExistsRelated : Predicate → Bool
  | .existsRelated _ => true
  | _ => false

def Predicate.isService : Predicate → Bool
  | .service _ => true
  | _ => false

/-- The predicates that compare a record column with the account. -/
def Predicate.isIdentity (p : Predicate) : Bool := p == .owner || p.isPrincipalIs

def residualStrategy (policy : Policy) : ListStrategy :=
  .merge ((List.range policy.any.length).map fun rule => ⟨rule, false⟩)

/-- Whether a rule's scan needs no evaluation of its candidates. -/
def exactRule (isScoped : Bool) (atoms : List Predicate) : Bool :=
  !isScoped && !atoms.any Predicate.isExistsRelated &&
    decide ((atoms.filter Predicate.isIdentity).length ≤ 1)

def listStrategy (policy : Policy) (isScoped : Bool) : ListStrategy :=
  if !(policy.any.flatten.any fun p => p.isPrincipalIs || p.isExistsRelated) then .single
  else .merge (policy.any.mapIdx fun rule atoms => ⟨rule, exactRule isScoped atoms⟩)

/-- The atoms a scan keeps of its rule. -/
def scanAtoms (atoms : List Predicate) (isExact : Bool) : List Predicate :=
  if isExact then atoms
  else if atoms.any Predicate.isService then
    atoms.filter fun p => p.isService || p == .sameTenant
  else (atoms.find? Predicate.isIdentity).toList

def scanPolicy (policy : Policy) (scan : ScanRule) : Policy :=
  let rule := scanAtoms (policy.any.getD scan.rule []) scan.exact
  ⟨[if rule.isEmpty then [.everyone] else rule]⟩

/-! ## The filter agrees with the evaluator -/

/-- The evaluator's view of a stored row. -/
def StoredRow.policyRow (row : StoredRow) : PolicyRow :=
  ⟨row.ownerText, row.tenant, row.fields⟩

/-- Bound conditions never compare the owner with the empty text. -/
def PolicyCondition.comparable : PolicyCondition → Prop
  | .owner value => value ≠ ""
  | _ => True

theorem Predicate.bind_comparable (principal : Principal) (p : Predicate) :
    (p.bind principal).comparable := by
  fun_cases Predicate.bind principal p
  -- Only the owner predicate of a signed-in user binds an owner comparison.
  case case11 account => exact account.id_ne_empty
  all_goals exact True.intro

section Agreement

variable {Subquery : Type} {row : StoredRow} {view : Sql.View RecordColumn Subquery}
  {related : CompileRelated Subquery} {truth : ExistsRelated → Bool}

/-- The compiled membership clauses have the given truth values on the row. -/
def RelatedBuilds (view : Sql.View RecordColumn Subquery)
    (related : CompileRelated Subquery) (truth : ExistsRelated → Bool) : Prop :=
  ∀ predicate params, Sql.Builds (related predicate) params
    fun final c => c.accepts view final = truth predicate

/-- Denied memberships build the constantly false clause. -/
theorem relatedBuilds_deny (view : Sql.View RecordColumn Subquery) :
    RelatedBuilds view (fun _ => return .constant false) fun _ => false := by
  intro predicate params
  apply Sql.Builds.pure
  intro later
  simp

/-- A NULL owner agrees with no account, like the empty owner text. -/
theorem owner_agrees (row : StoredRow) {value : String} (hvalue : value ≠ "") :
    decide (row.column .owner = some (.text value)) = (row.ownerText == value) := by
  cases howner : row.owner with
  | none =>
      have hne : ("" == value) = false := by simpa using Ne.symm hvalue
      simp [StoredRow.column, StoredRow.ownerText, howner, hne]
  | some owner =>
      by_cases heq : owner = value
      · simp [StoredRow.column, StoredRow.ownerText, howner, heq]
      · simp [StoredRow.column, StoredRow.ownerText, howner, heq]

theorem clause_builds (hview : view.column = row.column)
    (hrelated : RelatedBuilds view related truth) {c : PolicyCondition}
    (hc : c.comparable) (params : List Sql.Datum) :
    Sql.Builds (c.clause related) params fun final clause =>
      clause.accepts view final = c.holds row.policyRow truth := by
  cases c with
  | allow =>
      apply Sql.Builds.pure
      intro later
      simp [PolicyCondition.holds]
  | deny =>
      apply Sql.Builds.pure
      intro later
      simp [PolicyCondition.holds]
  | owner value =>
      apply Sql.Builds.bind Sql.Builds.push
      intro param middle hbound
      apply Sql.Builds.pure
      intro later
      rw [Sql.accepts_equals view _ _ _ (hbound later), hview, owner_agrees row hc]
      rfl
  | tenant value =>
      apply Sql.Builds.bind Sql.Builds.push
      intro param middle hbound
      apply Sql.Builds.pure
      intro later
      rw [Sql.accepts_equals view _ _ _ (hbound later), hview]
      by_cases heq : row.tenant = value
      · simp [StoredRow.column, PolicyCondition.holds, StoredRow.policyRow, heq]
      · simp [StoredRow.column, PolicyCondition.holds, StoredRow.policyRow, heq]
  | account field id =>
      apply Sql.Builds.bind Sql.Builds.push
      intro param middle hbound
      apply Sql.Builds.pure
      intro later
      rw [Sql.accepts_equals view _ _ _ (hbound later), hview]
      cases hlookup : row.fields.lookup field with
      | none => simp [StoredRow.column, PolicyCondition.holds, StoredRow.policyRow, hlookup]
      | some stored =>
          by_cases heq : stored = id
          · simp [StoredRow.column, PolicyCondition.holds, StoredRow.policyRow, hlookup, heq]
          · simp [StoredRow.column, PolicyCondition.holds, StoredRow.policyRow, hlookup, heq]
  | related predicate => exact hrelated predicate params

theorem ruleClause_builds (hview : view.column = row.column)
    (hrelated : RelatedBuilds view related truth) (principal : Principal)
    (rule : List Predicate) (params : List Sql.Datum) :
    Sql.Builds (ruleClause principal related rule) params fun final clause =>
      clause.accepts view final =
        (!rule.isEmpty && rule.all fun p => (p.bind principal).holds row.policyRow truth) := by
  unfold ruleClause
  by_cases hempty : rule.isEmpty = true
  · rw [if_pos hempty]
    apply Sql.Builds.pure
    intro later
    simp [hempty]
  · rw [if_neg hempty]
    apply Sql.Builds.bind
    · apply Sql.Builds.mapM
      intro p _ start
      exact clause_builds hview hrelated (p.bind_comparable principal) start
    · intro terms middle hterms
      apply Sql.Builds.pure
      intro later
      have hall := Sql.all_eq_of_forall₂ (hterms later)
      simp only [Sql.accepts_joinAnd, hall]
      simp [hempty]

/-- The compiled filter selects a row exactly when the evaluator allows it. -/
theorem filterWith_builds (hview : view.column = row.column)
    (hrelated : RelatedBuilds view related truth) (policy : Policy)
    (principal : Principal) (params : List Sql.Datum) :
    Sql.Builds (filterWith policy principal related) params fun final f =>
      f.accepts view final = allowedWith policy principal row.policyRow truth := by
  unfold filterWith
  by_cases hempty : policy.any.isEmpty = true
  · rw [if_pos hempty]
    apply Sql.Builds.pure
    intro later
    have hnil : policy.any = [] := List.isEmpty_iff.mp hempty
    simp [AuthorizedFilter.accepts, AuthorizedFilter.sql, allowedWith, hnil]
  · rw [if_neg hempty]
    apply Sql.Builds.bind
    · apply Sql.Builds.mapM
      intro rule _ start
      exact ruleClause_builds hview hrelated principal rule start
    · intro clauses middle hclauses
      apply Sql.Builds.pure
      intro later
      have hany := Sql.any_eq_of_forall₂ (hclauses later)
      simp only [AuthorizedFilter.accepts, AuthorizedFilter.sql, Sql.accepts_joinOr, hany]
      rfl

/-- A base policy always compiles. -/
theorem filter_total (policy : Policy) (principal : Principal) :
    Sql.Total (filter policy principal : Sql.Build Failure (AuthorizedFilter Subquery)) := by
  have hclause : ∀ c : PolicyCondition, Sql.Total (c.clause fun _ => return .constant false :
      Sql.Build Failure (RecordCondition Subquery)) := by
    intro c
    cases c with
    | allow => exact Sql.Total.pure _
    | deny => exact Sql.Total.pure _
    | related predicate => exact Sql.Total.pure _
    | owner value => exact (Sql.Total.push _).bind fun _ => Sql.Total.pure _
    | tenant value => exact (Sql.Total.push _).bind fun _ => Sql.Total.pure _
    | account field id => exact (Sql.Total.push _).bind fun _ => Sql.Total.pure _
  have hrule : ∀ rule, Sql.Total (ruleClause principal (fun _ => return .constant false) rule :
      Sql.Build Failure (RecordCondition Subquery)) := by
    intro rule
    unfold ruleClause
    split
    · exact Sql.Total.pure _
    · exact (Sql.Total.mapM fun p _ => hclause _).bind fun _ => Sql.Total.pure _
  unfold filter filterWith
  split
  · exact Sql.Total.pure _
  · exact (Sql.Total.mapM fun rule _ => hrule rule).bind fun _ => Sql.Total.pure _

/-- Narrowing keeps exactly the selected rows that have not expired. -/
theorem unexpired_builds (hview : view.column = row.column)
    (f : AuthorizedFilter Subquery) (resource : Resource) (time : Option Int)
    (params : List Sql.Datum) {selected : Bool}
    (hf : ∀ later, f.accepts view (params ++ later) = selected) :
    Sql.Builds (f.unexpired resource time) params fun final narrowed =>
      narrowed.accepts view final = (selected && unexpired resource time row.fields) := by
  intro narrowed final hrun
  obtain ⟨⟨expires, middle⟩, hexpires, hnarrowed⟩ := bind_eq_ok.mp hrun
  obtain ⟨rfl, rfl⟩ := Prod.mk.inj (Except.ok.inj hnarrowed)
  obtain ⟨⟨pushed, rfl⟩, hclause⟩ :=
    expirySql_builds resource time row view hview params expires _ hexpires
  refine ⟨⟨pushed, rfl⟩, fun later => ?_⟩
  have hselected := hf (pushed ++ later)
  rw [← List.append_assoc] at hselected
  rw [← hclause later, ← hselected]
  simp only [AuthorizedFilter.accepts, AuthorizedFilter.sql, Sql.accepts_joinOr, List.any_map]
  cases expires with
  | none => simp [Function.comp_def]
  | some clause =>
      simp only [Option.elim, Function.comp_def, Sql.accepts_and]
      induction f.clauses with
      | nil => simp
      | cons c cs ih =>
          simp only [List.any_cons, ih]
          cases c.accepts view (params ++ pushed ++ later) <;>
            cases clause.accepts view (params ++ pushed ++ later) <;> simp

end Agreement

/-! ## Relaxed scans -/

/-- The strategy of a compiled list: rows that can expire are never scanned
exactly. -/
def planStrategy (resource : Resource) (policy : Policy) (isScoped : Bool) : ListStrategy :=
  if resource.expiry.isSome then residualStrategy policy
  else listStrategy policy isScoped

/-- Operations that may compare an account field with the principal. -/
def OperationKind.admitsPrincipalIs : OperationKind → Bool
  | .read | .list | .aggregate | .create => true
  | .update | .delete => false

def validatePredicate (m : Manifest) (op : Operation) : Predicate → Result Unit
  | .principalIs field => do
      check "principal_is requires read, list, or create" op.kind.admitsPrincipalIs
      let resource ← m.resource op.resource
      check "principal_is requires an account field"
        (∃ f ∈ resource.fields, f.name = field ∧ f.kind.isAccount = true)
  | .role name _ => check "invalid role" (identifier name)
  | _ => .ok ()

/-- Admission of an operation's policy. -/
def validatePolicy (m : Manifest) (op : Operation) : Result Unit := do
  check "invalid policy" (op.policy.any ≠ [] ∧ op.policy.any.length ≤ 8)
  op.policy.any.forM fun rule => do
    check "invalid policy rule" (rule ≠ [] ∧ rule.length ≤ 4)
    rule.forM (validatePredicate m op)

/-- Policies as admission leaves them: every rule has a predicate. -/
def Policy.rulesNonempty (policy : Policy) : Prop := ∀ rule ∈ policy.any, rule ≠ []

theorem validatePolicy_rulesNonempty {m : Manifest} {op : Operation}
    (h : validatePolicy m op = .ok ()) : op.policy.rulesNonempty := by
  simp only [validatePolicy, bind_eq_ok, forM_eq_ok, check, ensure_eq_ok] at h
  obtain ⟨_, _, hrules⟩ := h
  intro rule hrule
  obtain ⟨_, hne, _⟩ := hrules rule hrule
  exact hne.1

section Scans

variable {principal : Principal} {row : PolicyRow} {related : ExistsRelated → Bool}

/-- Whether every predicate of a rule holds of the row. -/
def ruleHolds (principal : Principal) (row : PolicyRow) (related : ExistsRelated → Bool)
    (rule : List Predicate) : Bool :=
  rule.all fun p => (p.bind principal).holds row related

/-- Only membership predicates bind to a membership condition. -/
theorem Predicate.bind_ne_related (principal : Principal) {p : Predicate}
    (h : p.isExistsRelated = false) (r : ExistsRelated) :
    p.bind principal ≠ .related r := by
  fun_cases Predicate.bind principal p
  case case14 => simp [Predicate.isExistsRelated] at h
  all_goals exact PolicyCondition.noConfusion

theorem Predicate.holds_eq_of_not_related {p : Predicate} (h : p.isExistsRelated = false)
    (related other : ExistsRelated → Bool) :
    (p.bind principal).holds row related = (p.bind principal).holds row other := by
  have hne := p.bind_ne_related principal h
  cases hbind : p.bind principal with
  | related r => exact absurd hbind (hne r)
  | _ => rfl

theorem ruleHolds_iff {rule : List Predicate} :
    ruleHolds principal row related rule = true ↔
      ∀ p ∈ rule, (p.bind principal).holds row related = true := by
  simp [ruleHolds]

theorem allowedWith_iff {policy : Policy} :
    allowedWith policy principal row related = true ↔
      ∃ rule ∈ policy.any, rule ≠ [] ∧ ruleHolds principal row related rule = true := by
  simp [allowedWith, ruleHolds, List.any_eq_true]

/-- A predicate of a service's rule that holds confines the row to the tenant
of the service. -/
theorem Predicate.holds_service {identity : ServiceIdentity} {p : Predicate}
    (h : (p.bind (.service identity)).holds row related = true) :
    row.tenant = identity.tenant := by
  cases p with
  | everyone => simpa [Predicate.bind, PolicyCondition.holds] using h
  | sameTenant => simpa [Predicate.bind, PolicyCondition.holds] using h
  | service worker =>
      by_cases hworker : identity.worker = worker
      · simpa [Predicate.bind, PolicyCondition.holds, hworker] using h
      · simp [Predicate.bind, PolicyCondition.holds, hworker] at h
  | _ => simp [Predicate.bind, PolicyCondition.holds] at h

/-- The public predicate holds wherever a nonempty rule does. -/
theorem everyone_holds {rule : List Predicate} (hne : rule ≠ [])
    (h : ruleHolds principal row related rule = true) :
    (Predicate.everyone.bind principal).holds row (fun _ => false) = true := by
  cases principal with
  | anonymous => rfl
  | user account => rfl
  | service identity =>
      cases rule with
      | nil => exact absurd rfl hne
      | cons p rest =>
          have hp := ruleHolds_iff.mp h p (by simp)
          simp [Predicate.bind, PolicyCondition.holds, Predicate.holds_service hp]

/-- A rule that holds keeps holding when a scan drops some of its atoms. -/
theorem scanAtoms_hold {atoms : List Predicate} {isExact : Bool}
    (hexact : isExact = true → ∀ p ∈ atoms, p.isExistsRelated = false)
    (h : ruleHolds principal row related atoms = true) :
    ruleHolds principal row (fun _ => false) (scanAtoms atoms isExact) = true := by
  rw [ruleHolds_iff] at h ⊢
  intro p hp
  unfold scanAtoms at hp
  split at hp
  · rename_i hmode
    rw [Predicate.holds_eq_of_not_related (hexact hmode p hp) _ related]
    exact h p hp
  · split at hp
    · have hmem := List.mem_filter.mp hp
      have hplain : p.isExistsRelated = false := by
        cases p <;> simp_all [Predicate.isService, Predicate.isExistsRelated]
      rw [Predicate.holds_eq_of_not_related hplain _ related]
      exact h p hmem.1
    · have hfind : atoms.find? Predicate.isIdentity = some p := by
        simpa using hp
      have hidentity := List.find?_some hfind
      have hplain : p.isExistsRelated = false := by
        cases p <;> simp_all [Predicate.isIdentity, Predicate.isPrincipalIs,
          Predicate.isExistsRelated]
      rw [Predicate.holds_eq_of_not_related hplain _ related]
      exact h p (List.mem_of_find?_eq_some hfind)

/-- A scan whose rule allows the row selects it. -/
theorem scanPolicy_allows {policy : Policy} {scan : ScanRule} {atoms : List Predicate}
    (hrule : policy.any[scan.rule]? = some atoms) (hne : atoms ≠ [])
    (hexact : scan.exact = true → ∀ p ∈ atoms, p.isExistsRelated = false)
    (h : ruleHolds principal row related atoms = true) :
    allowed (scanPolicy policy scan) principal row = true := by
  have hatoms : policy.any.getD scan.rule [] = atoms := by
    simp [List.getD, hrule]
  unfold allowed
  rw [allowedWith_iff]
  refine ⟨_, List.mem_singleton.mpr rfl, ?_, ?_⟩
  · split
    · simp
    · rename_i hempty
      simpa using hempty
  · rw [hatoms]
    split
    · simpa [ruleHolds] using everyone_holds hne h
    · exact scanAtoms_hold hexact h

theorem exactRule_not_related {isScoped : Bool} {atoms : List Predicate}
    (h : exactRule isScoped atoms = true) : ∀ p ∈ atoms, p.isExistsRelated = false := by
  simp only [exactRule, Bool.and_eq_true, Bool.not_eq_true', List.any_eq_false] at h
  intro p hp
  simpa using h.1.2 p hp

/-- Every scan of a plan names a rule, and an exact scan's rule has no
membership predicate. -/
theorem planStrategy_scan {resource : Resource} {policy : Policy} {isScoped : Bool}
    {scans : List ScanRule} (hplan : planStrategy resource policy isScoped = .merge scans)
    {scan : ScanRule} (hscan : scan ∈ scans) :
    ∃ atoms, policy.any[scan.rule]? = some atoms ∧
      (scan.exact = true → ∀ p ∈ atoms, p.isExistsRelated = false) := by
  unfold planStrategy at hplan
  split at hplan
  · obtain rfl := ListStrategy.merge.inj hplan
    simp only [List.mem_map, List.mem_range] at hscan
    obtain ⟨rule, hlt, rfl⟩ := hscan
    exact ⟨policy.any[rule], by simp, by simp⟩
  · unfold listStrategy at hplan
    split at hplan
    · cases hplan
    · obtain rfl := ListStrategy.merge.inj hplan
      simp only [List.mem_mapIdx] at hscan
      obtain ⟨rule, hlt, rfl⟩ := hscan
      exact ⟨policy.any[rule], by simp, exactRule_not_related⟩

/-- Every rule of the policy has its scan in a merging plan. -/
theorem planStrategy_covers {resource : Resource} {policy : Policy} {isScoped : Bool}
    {scans : List ScanRule} (hplan : planStrategy resource policy isScoped = .merge scans)
    {rule : Nat} (hrule : rule < policy.any.length) :
    ∃ scan ∈ scans, scan.rule = rule := by
  unfold planStrategy at hplan
  split at hplan
  · obtain rfl := ListStrategy.merge.inj hplan
    exact ⟨⟨rule, false⟩, by simpa using hrule, rfl⟩
  · unfold listStrategy at hplan
    split at hplan
    · cases hplan
    · obtain rfl := ListStrategy.merge.inj hplan
      exact ⟨_, List.mem_mapIdx.mpr ⟨rule, hrule, rfl⟩, rfl⟩

/-- A row the policy allows is selected by the scan of some rule. -/
theorem allowed_found {resource : Resource} {policy : Policy} {isScoped : Bool}
    {scans : List ScanRule} (hplan : planStrategy resource policy isScoped = .merge scans)
    (h : allowedWith policy principal row related = true) :
    ∃ scan ∈ scans, allowed (scanPolicy policy scan) principal row = true := by
  obtain ⟨atoms, hmem, hne, hholds⟩ := allowedWith_iff.mp h
  obtain ⟨rule, hlt, rfl⟩ := List.getElem_of_mem hmem
  obtain ⟨scan, hscan, rfl⟩ := planStrategy_covers hplan hlt
  obtain ⟨atoms, hatoms, hexact⟩ := planStrategy_scan hplan hscan
  have hsame : policy.any[scan.rule] = atoms := by
    rw [List.getElem?_eq_getElem hlt] at hatoms
    exact Option.some.inj hatoms
  rw [hsame] at hne hholds
  exact ⟨scan, hscan, scanPolicy_allows hatoms hne hexact hholds⟩

/-- A scan marked exact selects allowed rows only. -/
theorem exact_scan_allowed {resource : Resource} {policy : Policy} {isScoped : Bool}
    {scans : List ScanRule} (hplan : planStrategy resource policy isScoped = .merge scans)
    (hrules : policy.rulesNonempty) {scan : ScanRule} (hscan : scan ∈ scans)
    (hexact : scan.exact = true)
    (h : allowed (scanPolicy policy scan) principal row = true) :
    allowedWith policy principal row related = true := by
  obtain ⟨atoms, hatoms, hplain⟩ := planStrategy_scan hplan hscan
  have hmem : atoms ∈ policy.any := List.mem_of_getElem? hatoms
  have hne := hrules atoms hmem
  have hscanned : scanPolicy policy scan = ⟨[atoms]⟩ := by
    simp [scanPolicy, scanAtoms, hexact, List.getD, hatoms, hne]
  unfold allowed at h
  rw [hscanned, allowedWith_iff] at h
  obtain ⟨rule, hrule, _, hholds⟩ := h
  obtain rfl := List.mem_singleton.mp hrule
  rw [allowedWith_iff]
  refine ⟨rule, hmem, hne, ruleHolds_iff.mpr fun p hp => ?_⟩
  rw [Predicate.holds_eq_of_not_related (hplain hexact p hp) related fun _ => false]
  exact ruleHolds_iff.mp hholds p hp

end Scans

end Noxide
