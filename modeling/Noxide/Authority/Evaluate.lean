import Noxide.Admission.Membership

/-!
# Request-attempt authority

One authority serves one transaction attempt: a fixed lifecycle time, the
deployment fence, cached storage identities and cached membership witnesses.
The row evaluator answers a batch of records; the filter compiler specializes
the same policy to a condition over the stored rows.
-/

namespace Noxide

open Checked

/-- Rows one evaluation accepts. -/
def maxBatch : Nat := 64

/-- Witnesses one authority holds. -/
def maxWitnesses : Nat := 128

/-! ## State -/

inductive PrincipalKey where
  | anonymous
  | user (id tenant : String)
  | service (deployment tenant worker : String)
  deriving DecidableEq, Repr

def Principal.authorityKey : Principal → PrincipalKey
  | .anonymous => .anonymous
  | .user account => .user account.id account.tenant
  | .service identity => .service identity.deployment identity.tenant identity.worker

structure WitnessScope where
  storageResource : Nat
  deployment : Deployment
  declaration : ExistsRelated
  deriving DecidableEq

/-- Membership answers of one account at one time. -/
structure Witnesses where
  account : String
  tenant : String
  attemptTime : Int
  values : List ((WitnessScope × String) × Bool)

structure Authority where
  time : Option Int
  deployment : Option Deployment
  storage : List (String × Nat)
  witnesses : Option Witnesses
  witnessPrincipal : Option PrincipalKey

/-- A computation on the authority and its remaining database calls. -/
abbrev Attempt (α : Type) := StateT (Authority × Nat) (Except Failure) α

/-- A record offered for evaluation. -/
structure AuthorityRow where
  id : Nat
  owner : String
  tenant : String
  fields : Fields

def AuthorityRow.policyRow (row : AuthorityRow) : PolicyRow :=
  ⟨row.owner, row.tenant, row.fields⟩

/-- How a scan hands a stored row to the evaluator. -/
def StoredRow.authorityRow (row : StoredRow) : AuthorityRow :=
  ⟨row.id, row.ownerText, row.tenant, row.fields⟩

/-! ## Storage identities -/

/-- The catalog entry of a manifest resource. -/
def storageResource (tables : AuthorityTables) (m : Manifest) (id : Nat) : Result Nat := do
  let r ← m.resource id
  need "resource schema is not bound" (tables.catalog.lookup r.name)

/-- Charge one database call. -/
def spendCall (text : String) : Attempt Unit := fun (authority, calls) => do
  check text (0 < calls)
  return ((), authority, calls - 1)

def Authority.storageOf (tables : AuthorityTables) (m : Manifest) (plan : Plan) :
    Attempt Nat := fun (authority, calls) =>
  match authority.storage.lookup plan.resource.name with
  | some storage => .ok (storage, authority, calls)
  | none => do
      check "membership catalog call limit" (0 < calls)
      let storage ← storageResource tables m plan.resource.id
      check "membership storage unavailable" (0 < storage)
      return (storage,
        { authority with storage := (plan.resource.name, storage) :: authority.storage },
        calls - 1)

/-! ## Witnesses -/

def Plan.key (plan : Plan) (row : AuthorityRow) : Result String :=
  match plan.protectedReference with
  | some field => do
      let value ← need "missing protected reference" (row.fields.lookup field.name)
      validateValue field value
      return value
  | none => do
      check "invalid protected identity" (0 < row.id)
      return toString row.id

/-- The provider's answers for the requested references. -/
def membershipWitnesses (tables : AuthorityTables) (requested : List String)
    (predicate : RecordCondition MembershipQuery) (params : List Sql.Datum) :
    List (String × String) :=
  (requested.take maxBatch).map fun key =>
    (key, if predicate.accepts (requestedView tables key) params then "1" else "0")

def Witnesses.new (principal : Principal) (attemptTime : Int) : Result Witnesses :=
  match principal with
  | .user account => do
      check "membership principal unavailable" (account.tenant ≠ "" ∧ accountId account.id)
      return ⟨account.id, account.tenant, attemptTime, []⟩
  | _ => .error (.message "policy denied")

def Witnesses.get (w : Witnesses) (scope : WitnessScope) (key : String) : Option Bool :=
  w.values.lookup (scope, key)

/-- The distinct keys of the tenant's rows that no cached witness answers. -/
def Witnesses.missing (w : Witnesses) (scope : WitnessScope)
    (rows : List (AuthorityRow × String)) : List String :=
  ((rows.filter fun (row, key) =>
    decide (row.tenant = w.tenant) && (w.get scope key).isNone).map Prod.snd).dedup

/-- One provider call for all uncached distinct keys. -/
def Witnesses.fetch (w : Witnesses) (tables : AuthorityTables) (deployment : Deployment)
    (plan : Plan) (storage : Nat) (scope : WitnessScope) (missing : List String) :
    Result Witnesses := do
  let lookupScope : LookupScope := ⟨w.account, w.tenant, deployment, w.attemptTime⟩
  let (predicate, params) ←
    (plan.existsSql storage lookupScope false).run (missing.map Sql.Datum.text)
  let witnesses := membershipWitnesses tables missing predicate params
  check "incomplete membership batch" (witnesses.length = missing.length)
  witnesses.forM fun (key, value) => check "invalid membership witness"
    (key ∈ missing ∧ (value = "0" ∨ value = "1"))
  return { w with
    values := witnesses.map (fun (key, value) => ((scope, key), decide (value = "1")))
      ++ w.values }

/-- Fetch the missing keys, if there are any, for one database call. -/
def Witnesses.refresh (w : Witnesses) (tables : AuthorityTables) (deployment : Deployment)
    (plan : Plan) (storage : Nat) (scope : WitnessScope) (missing : List String)
    (calls : Nat) : Result (Witnesses × Nat) :=
  if missing.isEmpty then .ok (w, calls)
  else do
    check "membership database call limit" (0 < calls)
    let w ← w.fetch tables deployment plan storage scope missing
    return (w, calls - 1)

/-- Answers for a batch of rows, with the witnesses and calls left over. -/
def Witnesses.lookup (w : Witnesses) (tables : AuthorityTables) (deployment : Deployment)
    (plan : Plan) (storage : Nat) (rows : List AuthorityRow) (calls : Nat) :
    Result (List Bool × Witnesses × Nat) := do
  check "membership batch limit" (0 < storage ∧ rows.length ≤ maxBatch)
  let scope : WitnessScope := ⟨storage, deployment, plan.declaration⟩
  let keys ← rows.mapM plan.key
  let missing := w.missing scope (rows.zip keys)
  check "membership witness limit" (w.values.length + missing.length ≤ maxWitnesses)
  let (w, calls) ← w.refresh tables deployment plan storage scope missing calls
  return ((rows.zip keys).map fun (row, key) =>
    decide (row.tenant = w.tenant) && (w.get scope key).getD false, w, calls)

/-! ## The evaluator -/

/-- Drop witnesses of another principal, and remember this one. -/
def Authority.adopt (authority : Authority) (principal : Principal) : Authority :=
  let key := some principal.authorityKey
  if authority.witnessPrincipal = key then { authority with witnessPrincipal := key }
  else { authority with witnesses := none, witnessPrincipal := key }

/-- The witnesses a batch of that many lookups uses: the cached ones while they
have room, else new ones. -/
def Authority.prepare (authority : Authority) (principal : Principal) (time : Int)
    (incoming : Nat) : Result Witnesses :=
  match authority.witnesses with
  | some w =>
      if w.values.length + incoming ≤ maxWitnesses then .ok w
      else Witnesses.new principal time
  | none => Witnesses.new principal time

/-- Write the answers of the flagged positions, in order, over a row of
negative answers. -/
def spread : List Bool → List Bool → List Bool
  | [], _ => []
  | false :: flags, answers => false :: spread flags answers
  | true :: flags, [] => false :: spread flags []
  | true :: flags, answer :: answers => answer :: spread flags answers

/-- Answer every plan for the flagged rows, in plan order. -/
def decidePlans (tables : AuthorityTables) (m : Manifest) (deployment : Deployment)
    (flags : List Bool) (selected : List AuthorityRow) :
    List Plan → Witnesses → Attempt (List (ExistsRelated × List Bool))
  | [], w => fun (authority, calls) =>
      .ok ([], { authority with witnesses := some w }, calls)
  | plan :: rest, w => do
      let storage ← Authority.storageOf tables m plan
      let (authority, calls) ← get
      let (answers, w, calls) ←
        StateT.lift (w.lookup tables deployment plan storage selected calls)
      set (authority, calls)
      let decisions ← decidePlans tables m deployment flags selected rest w
      return (plan.declaration, spread flags answers) :: decisions

/-- The membership decisions of one evaluation: for each declaration, the
answer of every row. -/
def decideMemberships (tables : AuthorityTables) (m : Manifest) (principal : Principal)
    (ps : List Plan) (flags : List Bool) (selected : List AuthorityRow) :
    Attempt (List (ExistsRelated × List Bool)) := fun (authority, calls) => do
  let time ← context Failure.temporalNotStarted authority.time
  let deployment ← need "membership deployment unavailable" authority.deployment
  selected.forM fun row => check "out of range integral type conversion attempted"
    (row.id ≤ i64Max)
  check "membership witness batch limit" (selected.length * ps.length ≤ maxWitnesses)
  let w ← authority.prepare principal time (selected.length * ps.length)
  decidePlans tables m deployment flags selected ps w (authority, calls)

/-- Whether membership facts can change the outcome for some row. -/
def needsMembership (principal : Principal) (ps : List Plan)
    (selected : List AuthorityRow) : Bool :=
  !ps.isEmpty && !selected.isEmpty &&
    match principal with
    | .user account => decide (account.tenant ≠ "")
    | _ => false

/-- Whether an evaluation has to look a row up: it is visible, and granted by
no rule without a membership predicate. -/
def needsLookup (policy : Policy) (principal : Principal) (row : AuthorityRow × Bool) :
    Bool :=
  row.2 && !allowed policy principal row.1.policyRow

/-- The decisions an evaluation uses: none where membership cannot matter. -/
def decisionsFor (tables : AuthorityTables) (m : Manifest) (principal : Principal)
    (ps : List Plan) (flags : List Bool) (selected : List AuthorityRow) :
    Attempt (List (ExistsRelated × List Bool)) :=
  if needsMembership principal ps selected then
    decideMemberships tables m principal ps flags selected
  else return []

/-- Lifecycle visibility of each row. -/
def visibleRows (resource : Resource) (operation : Operation) (principal : Principal)
    (time : Option Int) (rows : List AuthorityRow) : Result (List Bool) :=
  if operation.kind = .create then do
    rows.forM fun row => checkWrite resource none row.fields time
    return rows.map fun _ => true
  else rows.mapM fun row => availableTo resource row.fields time operation principal

/-- The one evaluator of validated rows. -/
def evaluatePolicyExpiry (tables : AuthorityTables) (m : Manifest) (principal : Principal)
    (operation : Operation) (rows : List AuthorityRow) : Attempt (List Bool) := do
  StateT.lift (check "authority batch limit" (rows.length ≤ maxBatch))
  modify fun (authority, calls) => (authority.adopt principal, calls)
  let resource ← StateT.lift (m.resource operation.resource)
  let (authority, _) ← get
  let visible ← StateT.lift
    (visibleRows resource operation principal authority.time rows)
  let ps ← StateT.lift (plans m operation)
  let candidates := rows.zip visible
  let flags := candidates.map (needsLookup operation.policy principal)
  let selected := (candidates.filter (needsLookup operation.policy principal)).map Prod.fst
  let decisions ← decisionsFor tables m principal ps flags selected
  return candidates.mapIdx fun index (row, visible) =>
    visible && allowedWith operation.policy principal row.policyRow fun predicate =>
      (decisions.lookup predicate).any fun values => values.getD index false

/-- Evaluation of rows that are validated first. -/
def authorize (tables : AuthorityTables) (m : Manifest) (principal : Principal)
    (operation : Operation) (rows : List AuthorityRow) : Attempt (List Bool) := do
  StateT.lift (check "authority batch limit" (rows.length ≤ maxBatch))
  let resource ← StateT.lift (m.resource operation.resource)
  StateT.lift (rows.forM fun row => validateFields resource row.fields)
  evaluatePolicyExpiry tables m principal operation rows

/-! ## The filter -/

/-- Storage identities of the plans, in plan order. -/
def storages (tables : AuthorityTables) (m : Manifest) :
    List Plan → Attempt (List (Plan × Nat))
  | [] => return []
  | plan :: rest => do
      let storage ← Authority.storageOf tables m plan
      let others ← storages tables m rest
      return (plan, storage) :: others

/-- The membership clause of a declared predicate. -/
def Authority.relatedClause (authority : Authority) (principal : Principal)
    (ps : List (Plan × Nat)) : CompileRelated MembershipQuery := fun predicate =>
  match principal with
  | .user account =>
      if account.tenant = "" then return .constant false
      else do
        let deployment ← StateT.lift
          (need "membership deployment unavailable" authority.deployment)
        let (plan, storage) ← StateT.lift (need "membership plan missing"
          (ps.find? fun p => p.1.declaration == predicate))
        let time ← StateT.lift (context Failure.temporalNotStarted authority.time)
        plan.existsSql storage ⟨account.id, account.tenant, deployment, time⟩ true
  | _ => StateT.lift (.error (.message "policy denied"))

/-- The condition of a full scan and the parameters it is bound to. -/
def authorityFilter (tables : AuthorityTables) (m : Manifest) (principal : Principal)
    (operation : Operation) (params : List Sql.Datum) :
    Attempt (AuthorizedFilter MembershipQuery × List Sql.Datum) := do
  let ps ← StateT.lift (plans m operation)
  let ps ← storages tables m ps
  let (authority, _) ← get
  let (f, params) ← StateT.lift
    ((filterWith operation.policy principal (authority.relatedClause principal ps)).run params)
  let resource ← StateT.lift (m.resource operation.resource)
  if operation.maintenance = true ∧ principal.isService = true then do
    if resource.expiry.isSome then
      let _ ← StateT.lift (context Failure.temporalNotStarted authority.time)
      return (f, params)
    else return (f, params)
  else StateT.lift ((f.unexpired resource authority.time).run params)

end Noxide
