import Noxide.Authority.Agreement
import Noxide.Library.Avoids
import Noxide.Library.Transition

/-!
# The witness cache is transparent

Within one transaction attempt an authority answers many evaluations, of one principal after
another, from witnesses it has kept.  Mutations drop them, another principal drops them, and a
batch that might not fit drops them.  Whatever came before, an evaluation decides by the records
as they are now, and the bound on witnesses refuses nothing.

Main results:

- Theorem {lit}`authorize_within_limit`: no evaluation runs into the witness bound.
- Theorem {lit}`witness_cache_transparent`: decisions, bound and isolation in every state of
  every transaction attempt.
-/

namespace Noxide

open Checked

/-! ## The witness bound -/

/-- The failures of the witness bound. -/
def Failure.witnessLimit : Failure → Bool
  | .message text =>
      text == "membership witness limit" || text == "membership witness batch limit"
  | _ => false

/-- The same for the texts of scalar failures. -/
def witnessLimitText (text : String) : Bool :=
  (Failure.message text).witnessLimit

section Validation

theorem bytes_text_other (maxBytes : Nat) :
    witnessLimitText ("Use at most " ++ toString maxBytes ++ " UTF-8 bytes.") = false := by
  have first : ∀ text : String, text.toList.head? = some 'U' → witnessLimitText text = false := by
    intro text head
    simp only [witnessLimitText, Failure.witnessLimit, Bool.or_eq_false_iff, beq_eq_false_iff_ne]
    constructor <;> rintro rfl <;> cases head
  apply first
  simp only [String.toList_append]
  rfl

theorem canonicalKind_avoids (kind : FieldKind) (input : String) :
    Avoids witnessLimitText (canonicalKind kind input) := by
  cases kind with
  | blob _ | uploadHandle _ | account _ | choice _ =>
      exact Avoids.bind (.ensure rfl) fun _ _ => .ok _
  | text => exact Avoids.bind (.ensure rfl) fun _ _ => .ok _
  | boolean =>
      exact Avoids.ite (fun _ => .ok _) fun _ => Avoids.ite (fun _ => .ok _) fun _ => .error rfl
  | reference _ | timestamp | duration _ | integer _ _ =>
      exact Avoids.bind (.context rfl) fun _ _ => Avoids.bind (.ensure rfl) fun _ _ => .ok _

theorem TextField.canonical_avoids (field : TextField) (input : String) :
    Avoids witnessLimitText (field.canonical input) := by
  refine Avoids.ite (fun _ => .error rfl) fun _ => ?_
  refine Avoids.ite (fun _ => .ok _) fun _ => ?_
  refine Avoids.bind (canonicalKind_avoids field.kind input) fun value _ => ?_
  exact Avoids.bind (.ensure (bytes_text_other field.maxBytes)) fun _ _ => .ok _

theorem validateValue_avoids (field : TextField) (value : String) :
    Avoids Failure.witnessLimit (validateValue field value) := by
  refine Avoids.bind (Avoids.mapError (field.canonical_avoids value)) fun _ _ => ?_
  exact .ensure rfl

theorem validateFields_avoids (resource : Resource) (fields : Fields) :
    Avoids Failure.witnessLimit (validateFields resource fields) := by
  refine Avoids.bind (.ensure rfl) fun _ _ => Avoids.forM fun field _ => ?_
  exact Avoids.bind (.context rfl) fun value _ => validateValue_avoids field value

theorem expiryValue_avoids (resource : Resource) (fields : Fields) :
    Avoids Failure.witnessLimit (expiryValue resource fields) := by
  unfold expiryValue
  split
  · exact .ok none
  · refine Avoids.bind (.context rfl) fun field _ => ?_
    refine Avoids.bind (.context rfl) fun value _ => ?_
    refine Avoids.bind (validateValue_avoids field value) fun _ _ => ?_
    refine Avoids.bind (.context rfl) fun millis _ => ?_
    exact Avoids.bind (.ensure rfl) fun _ _ => .ok _

theorem available_avoids (resource : Resource) (fields : Fields) (time : Option Int) :
    Avoids Failure.witnessLimit (available resource fields time) := by
  refine Avoids.bind (expiryValue_avoids resource fields) fun expires _ => ?_
  cases expires with
  | none => exact .ok true
  | some _ => exact Avoids.bind (.context rfl) fun _ _ => .ok _

theorem availableTo_avoids (resource : Resource) (fields : Fields) (time : Option Int)
    (operation : Operation) (principal : Principal) :
    Avoids Failure.witnessLimit (availableTo resource fields time operation principal) := by
  refine Avoids.ite (fun _ => Avoids.ite (fun _ => ?_) fun _ => .ok true) fun _ =>
    available_avoids resource fields time
  refine Avoids.bind (.context rfl) fun _ _ => ?_
  refine Avoids.bind (expiryValue_avoids resource fields) fun _ _ => ?_
  exact Avoids.bind (.context rfl) fun _ _ => .ok true

theorem checkWrite_avoids (resource : Resource) (before : Option Fields) (proposed : Fields)
    (time : Option Int) : Avoids Failure.witnessLimit (checkWrite resource before proposed time) := by
  unfold checkWrite
  split
  · exact .ok ()
  · refine Avoids.bind (expiryValue_avoids resource proposed) fun _ _ => ?_
    refine Avoids.bind (.context rfl) fun _ _ => ?_
    refine Avoids.bind (.context rfl) fun _ _ => ?_
    refine Avoids.ite (fun _ => .ok ()) fun _ => ?_
    exact Avoids.bind (.ensure rfl) fun _ _ => .ensure rfl

theorem visibleRows_avoids (resource : Resource) (operation : Operation) (principal : Principal)
    (time : Option Int) (rows : List AuthorityRow) :
    Avoids Failure.witnessLimit (visibleRows resource operation principal time rows) := by
  refine Avoids.ite (fun _ => ?_) fun _ => Avoids.mapM fun row _ =>
    availableTo_avoids resource row.fields time operation principal
  exact Avoids.bind (Avoids.forM fun row _ => checkWrite_avoids resource none row.fields time)
    fun _ _ => .ok _

end Validation

section Plans

theorem membershipField_avoids (resource : Resource) (name : String) :
    Avoids Failure.witnessLimit (membershipField resource name) :=
  Avoids.bind (.ensure rfl) fun _ _ => .context rfl

theorem admitTarget_avoids (guarded : Resource) (target : String) (related : RelatedTarget) :
    Avoids Failure.witnessLimit (admitTarget guarded target related) := by
  cases related with
  | selfRecord => exact Avoids.bind (.ensure rfl) fun _ _ => .ok none
  | reference name =>
      refine Avoids.bind (membershipField_avoids guarded name) fun _ _ => ?_
      exact Avoids.bind (.ensure rfl) fun _ _ => Avoids.bind (.ensure rfl) fun _ _ => .ok _

theorem admitPlan_avoids (resources : List Resource) (guarded : Resource)
    (declaration : ExistsRelated) :
    Avoids Failure.witnessLimit (admitPlan resources guarded declaration) := by
  unfold admitPlan
  refine Avoids.bind (.ensure rfl) fun _ _ => Avoids.bind (.context rfl) fun membership _ => ?_
  refine Avoids.bind (.ensure rfl) fun _ _ => ?_
  refine Avoids.bind (membershipField_avoids membership _) fun reference _ => ?_
  split
  · refine Avoids.bind (.ensure rfl) fun _ _ => ?_
    refine Avoids.bind (admitTarget_avoids guarded _ _) fun _ _ => ?_
    refine Avoids.bind (membershipField_avoids membership _) fun _ _ => ?_
    refine Avoids.bind (.ensure rfl) fun _ _ => ?_
    refine Avoids.bind (Avoids.forM fun _ _ => ?_) fun _ _ => .ok _
    refine Avoids.bind (membershipField_avoids membership _) fun condition _ => ?_
    refine Avoids.bind (.ensure rfl) fun _ _ => Avoids.bind (.ensure rfl) fun _ _ => ?_
    exact validateValue_avoids condition _
  · exact .error rfl

theorem resource_avoids (m : Manifest) (id : Nat) : Avoids Failure.witnessLimit (m.resource id) :=
  .context rfl

theorem plans_avoids (m : Manifest) (operation : Operation) :
    Avoids Failure.witnessLimit (plans m operation) := by
  refine Avoids.bind (.ensure rfl) fun _ _ => ?_
  refine Avoids.bind (resource_avoids m _) fun resource _ => ?_
  exact Avoids.mapM fun declaration _ => admitPlan_avoids m.resources resource declaration

/-- A policy has at most two plans. -/
theorem plans_length {m : Manifest} {operation : Operation} {ps : List Plan}
    (h : plans m operation = .ok ps) : ps.length ≤ maxMembershipPredicates := by
  have named := congrArg List.length (plans_declarations h)
  rw [List.length_map] at named
  simp only [plans, bind_eq_ok, ensure_eq_ok] at h
  rcases h with ⟨_, few, _⟩
  calc
    ps.length = operation.policy.related.dedup.length := named
    _ ≤ operation.policy.related.length := (List.dedup_sublist _).length_le
    _ ≤ maxMembershipPredicates := few

theorem key_avoids (plan : Plan) (row : AuthorityRow) :
    Avoids Failure.witnessLimit (plan.key row) := by
  unfold Plan.key
  split
  · refine Avoids.bind (.context rfl) fun value _ => ?_
    exact Avoids.bind (validateValue_avoids _ value) fun _ _ => .ok value
  · exact Avoids.bind (.ensure rfl) fun _ _ => .ok _

theorem push_avoids (value : Sql.Datum) (params : List Sql.Datum) :
    Avoids Failure.witnessLimit ((Sql.push value : Sql.Build Failure Nat) params) :=
  .ok _

theorem expirySql_avoids {Subquery : Type} (resource : Resource) (time : Option Int)
    (params : List Sql.Datum) : Avoids Failure.witnessLimit
      ((expirySql resource time : Sql.Build Failure (Option (RecordCondition Subquery))) params) := by
  unfold expirySql
  cases resource.expiry with
  | none => exact .run_pure none
  | some _ =>
      refine Avoids.run_bind (.run_lift (.context rfl)) fun _ _ _ => ?_
      exact Avoids.run_bind (push_avoids _ _) fun _ _ _ => .run_pure _

theorem existsSql_avoids (plan : Plan) (storage : Nat) (scope : LookupScope) (guarded : Bool)
    (params : List Sql.Datum) :
    Avoids Failure.witnessLimit (plan.existsSql storage scope guarded params) := by
  unfold Plan.existsSql
  refine Avoids.run_bind (.run_lift (.ensure rfl)) fun _ _ _ => ?_
  refine Avoids.run_bind (push_avoids _ _) fun _ _ _ => ?_
  refine Avoids.run_bind (push_avoids _ _) fun _ _ _ => ?_
  refine Avoids.run_bind (Avoids.run_mapM fun _ _ _ =>
    Avoids.run_bind (push_avoids _ _) fun _ _ _ => .run_pure _) fun _ _ _ => ?_
  refine Avoids.run_bind (expirySql_avoids _ _ _) fun _ _ _ => ?_
  refine Avoids.run_bind (push_avoids _ _) fun _ _ _ => ?_
  refine Avoids.run_bind (push_avoids _ _) fun _ _ _ => ?_
  exact Avoids.run_bind (push_avoids _ _) fun _ _ _ => .run_pure _

end Plans

section Bound

variable {tables : AuthorityTables} {m : Manifest} {deployment : Deployment} {plan : Plan}
  {storage calls : Nat} {principal : Principal}

theorem storageOf_avoids (state : Authority × Nat) :
    Avoids Failure.witnessLimit (Authority.storageOf tables m plan state) := by
  rcases state with ⟨authority, calls⟩
  simp only [Authority.storageOf]
  cases authority.storage.lookup plan.resource.name with
  | some _ => exact .ok _
  | none =>
      refine Avoids.bind (.ensure rfl) fun _ _ => ?_
      refine Avoids.bind ?_ fun _ _ => Avoids.bind (.ensure rfl) fun _ _ => .ok _
      exact Avoids.bind (resource_avoids m _) fun _ _ => .context rfl

theorem fetch_avoids (w : Witnesses) (scope : WitnessScope) (missing : List String) :
    Avoids Failure.witnessLimit (w.fetch tables deployment plan storage scope missing) := by
  refine Avoids.bind (existsSql_avoids plan storage _ false _) fun _ _ => ?_
  refine Avoids.bind (.ensure rfl) fun _ _ => ?_
  exact Avoids.bind (Avoids.forM fun _ _ => .ensure rfl) fun _ _ => .ok _

/-- A lookup for which there is room stays clear of the bound. -/
theorem lookup_avoids (w : Witnesses) {rows : List AuthorityRow}
    (room : w.values.length + rows.length ≤ maxWitnesses) :
    Avoids Failure.witnessLimit (w.lookup tables deployment plan storage rows calls) := by
  refine Avoids.bind (.ensure rfl) fun _ _ => ?_
  refine Avoids.bind (Avoids.mapM fun row _ => key_avoids plan row) fun keys given => ?_
  have few := w.missing_length ⟨storage, deployment, plan.declaration⟩ (rows.zip keys)
  have same := (mapM_eq_ok.mp given).length_eq
  rw [List.length_zip, ← same, min_self] at few
  refine Avoids.bind (Avoids.ensure_pos (by omega)) fun _ _ => ?_
  refine Avoids.bind (Avoids.ite (fun _ => .ok _) fun _ => ?_) fun _ _ => .ok _
  refine Avoids.bind (.ensure rfl) fun _ _ => ?_
  exact Avoids.bind (fetch_avoids w _ _) fun _ _ => .ok _

/-- A lookup adds at most one witness for each row. -/
theorem lookup_length {w w' : Witnesses} {rows : List AuthorityRow} {calls' : Nat}
    {answers : List Bool}
    (h : w.lookup tables deployment plan storage rows calls = .ok (answers, w', calls')) :
    w'.values.length ≤ w.values.length + rows.length := by
  simp only [Witnesses.lookup, bind_eq_ok] at h
  rcases h with ⟨_, _, keys, given, _, _, ⟨final, _⟩, fetched, result⟩
  cases result
  have few := w.missing_length ⟨storage, deployment, plan.declaration⟩ (rows.zip keys)
  have same := (mapM_eq_ok.mp given).length_eq
  rw [List.length_zip, ← same, min_self] at few
  unfold Witnesses.refresh at fetched
  split at fetched
  · cases fetched
    exact Nat.le_add_right _ _
  · simp only [Witnesses.fetch, bind_eq_ok, ensure_eq_ok] at fetched
    rcases fetched with ⟨_, _, _, ⟨_, _, _, complete, _, _, built⟩, result⟩
    cases result
    cases built
    simp only [List.length_append, List.length_map, complete]
    omega

/-- Plans that fit together with what is cached are all answered within the bound. -/
theorem decidePlans_avoids {flags : List Bool} {selected : List AuthorityRow} {ps : List Plan}
    {w : Witnesses} {state : Authority × Nat}
    (room : w.values.length + selected.length * ps.length ≤ maxWitnesses) :
    Avoids Failure.witnessLimit (decidePlans tables m deployment flags selected ps w state) := by
  induction ps generalizing w state with
  | nil => exact .ok _
  | cons plan rest ih =>
      rw [List.length_cons, Nat.mul_succ] at room
      unfold decidePlans
      refine Avoids.run_bind (storageOf_avoids state) fun _ _ _ => ?_
      refine Avoids.run_bind (.ok _) fun _ _ _ => ?_
      refine Avoids.run_bind (.run_lift (lookup_avoids w (by omega))) fun looked _ found => ?_
      have grown := lookup_length (run_lift_eq_ok.mp found).1
      refine Avoids.run_bind (.ok _) fun _ _ _ => ?_
      exact Avoids.run_bind (ih (by omega)) fun _ _ _ => .run_pure _

theorem new_avoids (time : Int) : Avoids Failure.witnessLimit (Witnesses.new principal time) := by
  cases principal with
  | user _ => exact Avoids.bind (.ensure rfl) fun _ _ => .ok _
  | anonymous | service _ => exact .error rfl

/-- Prepared witnesses have room for the batch. -/
theorem prepare_room {authority : Authority} {time : Int} {incoming : Nat} {w : Witnesses}
    (fits : incoming ≤ maxWitnesses) (h : authority.prepare principal time incoming = .ok w) :
    w.values.length + incoming ≤ maxWitnesses := by
  have fresh : Witnesses.new principal time = .ok w →
      w.values.length + incoming ≤ maxWitnesses := by
    intro new
    cases principal with
    | anonymous | service _ => cases new
    | user _ =>
        simp only [Witnesses.new, bind_eq_ok] at new
        rcases new with ⟨_, _, result⟩
        cases result
        simpa using fits
  unfold Authority.prepare at h
  split at h
  · split at h
    · next room =>
      cases h
      exact room
    · exact fresh h
  · exact fresh h

theorem decideMemberships_avoids {ps : List Plan} {flags : List Bool}
    {selected : List AuthorityRow} {state : Authority × Nat}
    (fits : selected.length * ps.length ≤ maxWitnesses) : Avoids Failure.witnessLimit
      (decideMemberships tables m principal ps flags selected state) := by
  rcases state with ⟨authority, calls⟩
  refine Avoids.bind (.context rfl) fun time _ => Avoids.bind (.context rfl) fun _ _ => ?_
  refine Avoids.bind (Avoids.forM fun _ _ => .ensure rfl) fun _ _ => ?_
  refine Avoids.bind (Avoids.ensure_pos fits) fun _ _ => ?_
  refine Avoids.bind ?_ fun w prepared => decidePlans_avoids (prepare_room fits prepared)
  unfold Authority.prepare
  split
  · exact Avoids.ite (fun _ => .ok _) fun _ => new_avoids time
  · exact new_avoids time

theorem decisionsFor_avoids {ps : List Plan} {flags : List Bool} {selected : List AuthorityRow}
    {state : Authority × Nat} (fits : selected.length * ps.length ≤ maxWitnesses) :
    Avoids Failure.witnessLimit (decisionsFor tables m principal ps flags selected state) := by
  unfold decisionsFor
  split
  · exact decideMemberships_avoids fits
  · exact .run_pure []

/-- At most 64 rows and two plans ask for at most 128 witnesses. -/
theorem batch_fits {m : Manifest} {operation : Operation} {ps : List Plan}
    {selected : List AuthorityRow} (admitted : plans m operation = .ok ps)
    (few : selected.length ≤ maxBatch) : selected.length * ps.length ≤ maxWitnesses :=
  calc
    selected.length * ps.length ≤ maxBatch * maxMembershipPredicates :=
      Nat.mul_le_mul few (plans_length admitted)
    _ = maxWitnesses := rfl

/-- The rows to look up are rows of the batch. -/
theorem selected_length {policy : Policy} {rows : List AuthorityRow} {visible : List Bool} :
    (((rows.zip visible).filter (needsLookup policy principal)).map Prod.fst).length ≤
      rows.length := by
  rw [List.length_map]
  refine le_trans (List.length_filter_le _ _) ?_
  rw [List.length_zip]
  exact min_le_left _ _

theorem evaluatePolicyExpiry_avoids {operation : Operation} {rows : List AuthorityRow}
    {state : Authority × Nat} : Avoids Failure.witnessLimit
      (evaluatePolicyExpiry tables m principal operation rows state) := by
  unfold evaluatePolicyExpiry
  refine Avoids.run_bind (.run_lift (.ensure rfl)) fun _ _ few => ?_
  have few := ensure_eq_ok.mp (run_lift_eq_ok.mp few).1
  refine Avoids.run_bind (.ok _) fun _ _ _ => ?_
  refine Avoids.run_bind (.run_lift (resource_avoids m _)) fun resource _ _ => ?_
  refine Avoids.run_bind (.ok _) fun _ _ _ => ?_
  refine Avoids.run_bind (.run_lift (visibleRows_avoids resource _ _ _ _)) fun visible _ _ => ?_
  refine Avoids.run_bind (.run_lift (plans_avoids m operation)) fun ps _ admitted => ?_
  have admitted := (run_lift_eq_ok.mp admitted).1
  refine Avoids.run_bind ?_ fun _ _ _ => .run_pure _
  exact decisionsFor_avoids (batch_fits admitted (le_trans selected_length few))

/-- No evaluation, of whatever state of the caches, runs into the bound on witnesses. -/
theorem authorize_within_limit (operation : Operation) (rows : List AuthorityRow)
    (state : Authority × Nat) : Avoids Failure.witnessLimit
      (authorize tables m principal operation rows state) := by
  refine Avoids.run_bind (.run_lift (.ensure rfl)) fun _ _ _ => ?_
  refine Avoids.run_bind (.run_lift (resource_avoids m _)) fun resource _ _ => ?_
  refine Avoids.run_bind (.run_lift (Avoids.forM fun row _ =>
    validateFields_avoids resource row.fields)) fun _ _ _ => ?_
  exact evaluatePolicyExpiry_avoids

end Bound

/-! ## Coherence along a transaction attempt -/

section Coherence

variable {tables : AuthorityTables} {m : Manifest} {principal : Principal}

/-- Two states of one attempt: the same time and the same deployment. -/
structure Authority.SameAttempt (after before : Authority) : Prop where
  time : after.time = before.time
  deployment : after.deployment = before.deployment

theorem Authority.SameAttempt.refl (authority : Authority) : authority.SameAttempt authority :=
  ⟨rfl, rfl⟩

theorem Authority.SameAttempt.trans {first second third : Authority}
    (h : first.SameAttempt second) (h' : second.SameAttempt third) : first.SameAttempt third :=
  ⟨h.time.trans h'.time, h.deployment.trans h'.deployment⟩

/-- The caches hold facts, and the attempt is the one that began. -/
structure Authority.Kept (after before : Authority) (tables : AuthorityTables) (m : Manifest) :
    Prop where
  coherent : after.Coherent tables m
  same : after.SameAttempt before

theorem storageOf_kept {plan : Plan} (admitted : PlanOf m plan)
    {authority authority' : Authority} {calls calls' storage : Nat}
    (coherent : authority.Coherent tables m)
    (h : Authority.storageOf tables m plan (authority, calls) =
      .ok (storage, authority', calls')) : authority'.Kept authority tables m := by
  rcases Authority.storageOf_spec admitted coherent h with ⟨_, kept, time, deployment, _⟩
  exact ⟨kept, time, deployment⟩

theorem decidePlans_same {deployment : Deployment} {flags : List Bool}
    {selected : List AuthorityRow} {ps : List Plan} {w : Witnesses}
    {authority authority' : Authority} {calls calls' : Nat}
    {decisions : List (ExistsRelated × List Bool)} (admitted : ∀ plan ∈ ps, PlanOf m plan)
    (coherent : authority.Coherent tables m)
    (h : decidePlans tables m deployment flags selected ps w (authority, calls) =
      .ok (decisions, authority', calls')) : authority'.SameAttempt authority := by
  induction ps generalizing w authority calls decisions with
  | nil =>
      cases h
      exact ⟨rfl, rfl⟩
  | cons plan rest ih =>
      simp only [decidePlans, run_bind_eq_ok, run_get_eq_ok, run_lift_eq_ok, run_set_eq_ok,
        run_pure_eq_ok] at h
      rcases h with ⟨storage, ⟨authority₁, calls₁⟩, stored, got, _, ⟨rfl, rfl⟩,
        ⟨answers, w₁, calls₂⟩, _, ⟨_, rfl⟩, _, _, rfl, others, _, decided, rfl, rfl⟩
      have kept := storageOf_kept (admitted plan List.mem_cons_self) coherent stored
      have rest' := ih (fun p member => admitted p (List.mem_cons_of_mem plan member))
        kept.coherent decided
      exact rest'.trans kept.same

theorem adopt_kept {authority : Authority} (principal : Principal)
    (coherent : authority.Coherent tables m) :
    (authority.adopt principal).Kept authority tables m :=
  ⟨Authority.adopt_coherent principal coherent, by simp, by simp⟩

/-- Deciding the first plans from prepared witnesses keeps the caches. -/
theorem decidePlans_kept {deployment : Deployment} {flags : List Bool}
    {selected : List AuthorityRow} {ps : List Plan} {w : Witnesses} {time : Int} {incoming : Nat}
    {authority authority' : Authority} {calls calls' : Nat}
    {decisions : List (ExistsRelated × List Bool)} (admitted : ∀ plan ∈ ps, PlanOf m plan)
    (coherent : authority.Coherent tables m)
    (adopted : authority.witnessPrincipal = some principal.authorityKey)
    (started : authority.time = some time)
    (prepared : authority.prepare principal time incoming = .ok w)
    (h : decidePlans tables m deployment flags selected ps w (authority, calls) =
      .ok (decisions, authority', calls')) : authority'.Kept authority tables m := by
  rcases Authority.prepare_spec coherent adopted started prepared with ⟨key, attempt, facts⟩
  refine ⟨(decidePlans_spec admitted facts coherent (by rw [adopted, key])
    (by rw [started, attempt]) h).2, decidePlans_same admitted coherent h⟩

/-- A successful evaluation keeps the caches coherent. -/
theorem authorize_kept {operation : Operation} {rows : List AuthorityRow}
    {authority authority' : Authority} {calls calls' : Nat} {answers : List Bool}
    (coherent : authority.Coherent tables m)
    (h : authorize tables m principal operation rows (authority, calls) =
      .ok (answers, authority', calls')) : authority'.Kept authority tables m := by
  simp only [authorize, evaluatePolicyExpiry, run_bind_eq_ok, run_get_eq_ok, run_lift_eq_ok,
    run_modify_eq_ok, run_pure_eq_ok] at h
  rcases h with ⟨_, _, ⟨_, rfl⟩, _, _, ⟨_, rfl⟩, _, _, ⟨_, rfl⟩, _, _, ⟨_, rfl⟩, _, _, rfl,
    _, _, ⟨_, rfl⟩, _, _, ⟨rfl, rfl⟩, visible, _, ⟨_, rfl⟩, ps, _, ⟨hps, rfl⟩, decisions,
    ⟨authority₁, calls₁⟩, decided, rfl, result⟩
  cases result
  have adopted := adopt_kept principal coherent
  unfold decisionsFor at decided
  split at decided
  · simp only [decideMemberships, bind_eq_ok, context_eq_ok] at decided
    rcases decided with ⟨time, started, deployment, _, _, _, _, _, w, prepared, decided⟩
    have kept := decidePlans_kept (plans_planOf hps) adopted.coherent (by simp) started prepared
      decided
    exact ⟨kept.coherent, kept.same.trans adopted.same⟩
  · cases (run_pure_eq_ok.mp decided).2
    exact adopted

/-- A compiled filter only adds storage identities. -/
theorem authorityFilter_kept {operation : Operation} {params final : List Sql.Datum}
    {f : AuthorizedFilter MembershipQuery} {authority authority' : Authority} {calls calls' : Nat}
    (coherent : authority.Coherent tables m)
    (h : authorityFilter tables m principal operation params (authority, calls) =
      .ok ((f, final), authority', calls')) : authority'.Kept authority tables m := by
  simp only [authorityFilter, run_bind_eq_ok, run_get_eq_ok, run_lift_eq_ok] at h
  rcases h with ⟨ps, _, ⟨hps, rfl⟩, pairs, ⟨authority₁, calls₁⟩, stored, _, _, ⟨rfl, rfl⟩,
    _, _, ⟨_, rfl⟩, resource, _, ⟨_, rfl⟩, h⟩
  rcases storages_spec (plans_planOf hps) coherent stored with ⟨_, _, kept, time, deployment⟩
  have same : authority₁ = authority' := by
    split at h
    · split at h
      · simp only [run_bind_eq_ok, run_lift_eq_ok, run_pure_eq_ok] at h
        rcases h with ⟨_, _, ⟨_, rfl⟩, _, state⟩
        exact congrArg Prod.fst state
      · exact congrArg Prod.fst (run_pure_eq_ok.mp h).2
    · exact congrArg Prod.fst (run_lift_eq_ok.mp h).2
  rw [← same]
  exact ⟨kept, time, deployment⟩

end Coherence

/-! ## Transaction attempts -/

/-- The source's {lit}`Authority::invalidate`, called when a mutation commits to the
transaction.  Storage identities stay. -/
def Authority.invalidate (authority : Authority) : Authority :=
  { authority with witnesses := none, witnessPrincipal := none }

/-- What an evaluation that stopped early can leave behind.  It was refused before or after the
principal was adopted, or once the full cache was dropped, or while it answered its plans. -/
inductive Authority.Left (tables : AuthorityTables) (m : Manifest) (principal : Principal)
    (operation : Operation) (authority : Authority) (calls : Nat) : Authority → Prop where
  | untouched : Left tables m principal operation authority calls authority
  | adopted : Left tables m principal operation authority calls (authority.adopt principal)
  | dropped : Left tables m principal operation authority calls
      { authority.adopt principal with witnesses := none }
  | answered {time : Int} {deployment : Deployment} {before rest : List Plan} {w : Witnesses}
      {flags : List Bool} {selected : List AuthorityRow} {incoming : Nat}
      {decisions : List (ExistsRelated × List Bool)} {authority' : Authority} {calls' : Nat}
      (admitted : plans m operation = .ok (before ++ rest))
      (started : authority.time = some time)
      (prepared : (authority.adopt principal).prepare principal time incoming = .ok w)
      (decided : decidePlans tables m deployment flags selected before w
        (authority.adopt principal, calls) = .ok (decisions, authority', calls')) :
      Left tables m principal operation authority calls authority'
  | stored {authority' authority'' : Authority} {plan : Plan} {storage calls' calls'' : Nat}
      {before rest : List Plan}
      (earlier : Left tables m principal operation authority calls authority')
      (admitted : plans m operation = .ok (before ++ plan :: rest))
      (found : Authority.storageOf tables m plan (authority', calls') =
        .ok (storage, authority'', calls'')) :
      Left tables m principal operation authority calls authority''

theorem Authority.Left.kept {tables : AuthorityTables} {m : Manifest} {principal : Principal}
    {operation : Operation} {authority authority' : Authority} {calls : Nat}
    (coherent : authority.Coherent tables m)
    (h : authority.Left tables m principal operation calls authority') :
    authority'.Kept authority tables m := by
  have adopted := adopt_kept principal coherent
  induction h with
  | untouched => exact ⟨coherent, .refl authority⟩
  | adopted => exact adopted
  | dropped =>
      refine ⟨⟨adopted.coherent.storage_eq, ?_, ?_, ?_⟩, adopted.same.time,
        adopted.same.deployment⟩ <;> (intro w member; cases member)
  | answered admitted started prepared decided =>
      have planned := plans_planOf admitted
      have kept := decidePlans_kept
        (fun plan member => planned plan (List.mem_append_left _ member)) adopted.coherent
        (by simp) (by simpa using started) prepared decided
      exact ⟨kept.coherent, kept.same.trans adopted.same⟩
  | stored _ admitted found ih =>
      have planned := plans_planOf admitted _
        (List.mem_append_right _ List.mem_cons_self)
      have kept := storageOf_kept planned ih.coherent found
      exact ⟨kept.coherent, kept.same.trans ih.same⟩

/-- The records of a transaction and the authority of its attempt. -/
structure AttemptState where
  tables : AuthorityTables
  authority : Authority

/-- One step of an attempt: an evaluation for any principal that succeeds or stops early, a
compiled filter, or a mutation of the records with its invalidation. -/
inductive AttemptStep (m : Manifest) : AttemptState → AttemptState → Prop where
  | authorized {tables : AuthorityTables} {authority authority' : Authority}
      {principal : Principal} {operation : Operation} {rows : List AuthorityRow}
      {calls calls' : Nat} {answers : List Bool}
      (h : authorize tables m principal operation rows (authority, calls) =
        .ok (answers, authority', calls')) :
      AttemptStep m ⟨tables, authority⟩ ⟨tables, authority'⟩
  | stopped {tables : AuthorityTables} {authority authority' : Authority}
      {principal : Principal} {operation : Operation} {rows : List AuthorityRow} {calls : Nat}
      {e : Failure}
      (h : authorize tables m principal operation rows (authority, calls) = .error e)
      (left : authority.Left tables m principal operation calls authority') :
      AttemptStep m ⟨tables, authority⟩ ⟨tables, authority'⟩
  | filtered {tables : AuthorityTables} {authority authority' : Authority}
      {principal : Principal} {operation : Operation} {params final : List Sql.Datum}
      {f : AuthorizedFilter MembershipQuery} {calls calls' : Nat}
      (h : authorityFilter tables m principal operation params (authority, calls) =
        .ok ((f, final), authority', calls')) :
      AttemptStep m ⟨tables, authority⟩ ⟨tables, authority'⟩
  | mutated {tables tables' : AuthorityTables} {authority : Authority}
      (catalog : tables'.catalog = tables.catalog) :
      AttemptStep m ⟨tables, authority⟩ ⟨tables', authority.invalidate⟩

/-- The attempts that start with empty caches, at one time under one deployment. -/
def attempts (m : Manifest) (time : Option Int) (deployment : Option Deployment) :
    System AttemptState where
  initial s := s.authority = ⟨time, deployment, [], none, none⟩
  step := AttemptStep m

theorem storageResource_catalog {tables tables' : AuthorityTables} (m : Manifest) (id : Nat)
    (catalog : tables'.catalog = tables.catalog) :
    storageResource tables' m id = storageResource tables m id := by
  simp only [storageResource, catalog]

/-- Invalidated caches hold facts of whatever records there are. -/
theorem Authority.invalidate_kept {tables tables' : AuthorityTables} {m : Manifest}
    {authority : Authority} (coherent : authority.Coherent tables m)
    (catalog : tables'.catalog = tables.catalog) :
    authority.invalidate.Kept authority tables' m := by
  refine ⟨⟨?_, ?_, ?_, ?_⟩, ⟨rfl, rfl⟩⟩
  · intro name storage cached r found
    rw [storageResource_catalog m r.id catalog]
    exact coherent.storage_eq name storage cached r found
  · intro w member
    cases member
  · intro w member
    cases member
  · intro w member
    cases member

section Attempts

variable {m : Manifest} {time : Option Int} {deployment : Option Deployment}

/-- The caches are coherent, and the attempt keeps its time and deployment. -/
structure AttemptState.Sound (time : Option Int) (deployment : Option Deployment) (m : Manifest)
    (s : AttemptState) : Prop where
  coherent : s.authority.Coherent s.tables m
  time : s.authority.time = time
  deployment : s.authority.deployment = deployment

theorem AttemptState.Sound.next {tables tables' : AuthorityTables} {authority authority' : Authority}
    (sound : AttemptState.Sound time deployment m ⟨tables, authority⟩)
    (kept : authority'.Kept authority tables' m) :
    AttemptState.Sound time deployment m ⟨tables', authority'⟩ :=
  ⟨kept.coherent, kept.same.time.trans sound.time, kept.same.deployment.trans sound.deployment⟩

theorem attempts_sound : (attempts m time deployment).Invariant
    (AttemptState.Sound time deployment m) where
  initial := by
    rintro ⟨tables, authority⟩ rfl
    exact ⟨Authority.coherent_new time deployment tables m, rfl, rfl⟩
  step := by
    rintro _ _ _ sound step
    cases step with
    | authorized h => exact sound.next (authorize_kept sound.coherent h)
    | stopped _ left => exact sound.next (left.kept sound.coherent)
    | filtered h => exact sound.next (authorityFilter_kept sound.coherent h)
    | mutated catalog => exact sound.next (Authority.invalidate_kept sound.coherent catalog)

/-- What a state of an attempt promises its next evaluation. -/
structure Transparent (m : Manifest) (time : Option Int) (deployment : Option Deployment)
    (s : AttemptState) : Prop where
  /-- An evaluation decides each row by its visibility and the policy under the membership
  facts of the records as they are now. -/
  decisions : ∀ principal operation rows calls answers authority' calls',
    authorize s.tables m principal operation rows (s.authority, calls) =
      .ok (answers, authority', calls') →
    ∃ resource visible ps, m.resource operation.resource = .ok resource ∧
      visibleRows resource operation principal time rows = .ok visible ∧
      plans m operation = .ok ps ∧
      answers = (rows.zip visible).map fun candidate =>
        candidate.2 && allowedWith operation.policy principal candidate.1.policyRow
          (membershipTruth s.tables m principal deployment time ps candidate.1.id
            candidate.1.tenant candidate.1.fields)
  /-- No evaluation runs into the bound on witnesses. -/
  limit : ∀ principal operation rows calls e,
    authorize s.tables m principal operation rows (s.authority, calls) = .error e →
      e ≠ .message "membership witness limit" ∧ e ≠ .message "membership witness batch limit"
  /-- The witnesses an evaluation finds are facts about its own principal. -/
  isolation : ∀ principal, ∀ w ∈ (s.authority.adopt principal).witnesses,
    principal.authorityKey = .user w.account w.tenant ∧
      ∀ scope key answer, w.get scope key = some answer → ∀ guarded plan,
        admitPlan m.resources guarded scope.declaration = .ok plan →
        answer = plan.member s.tables scope.storageResource
          ⟨w.account, w.tenant, scope.deployment, w.attemptTime⟩ key

theorem AttemptState.Sound.transparent {s : AttemptState}
    (sound : AttemptState.Sound time deployment m s) : Transparent m time deployment s where
  decisions := by
    intro principal operation rows calls answers authority' calls' h
    simp only [authorize, run_bind_eq_ok, run_lift_eq_ok] at h
    rcases h with ⟨_, _, ⟨_, rfl⟩, _, _, ⟨_, rfl⟩, _, _, ⟨_, rfl⟩, h⟩
    rcases evaluatePolicyExpiry_eq sound.coherent h with ⟨resource, visible, ps, found, seen, hps,
      decided⟩
    rw [sound.time] at seen
    refine ⟨resource, visible, ps, found, seen, hps, ?_⟩
    rw [decided]
    simp only [rowTruth, sound.time, sound.deployment]
  limit := by
    intro principal operation rows calls e h
    have other := authorize_within_limit operation rows _ e h
    constructor <;> (rintro rfl; cases other)
  isolation := by
    intro principal w member
    have adopted := adopt_kept principal sound.coherent
    have key := adopted.coherent.witnesses_principal w member
    rw [Authority.adopt_principal] at key
    exact ⟨Option.some.inj key, adopted.coherent.witnesses_coherent w member⟩

end Attempts

/-- A note of the sample deployment. -/
def sampleNote : AuthorityRow where
  id := 1
  owner := "owner"
  tenant := "team"
  fields := (∅ : Fields).insert "body" "text" |>.insert "expires" "9"

/-- The sample deployment once the user became a member of the note. -/
def sharedTables : AuthorityTables :=
  { sampleTables with
    records := [⟨2, 1, none, "team", (∅ : Fields).insert "note" "1" |>.insert "member"
      "AAAAAAAAAAAAAAAAAAAAAAAAAAAAAAAAAAAAAAAAAAA", "i", 1, none, 1⟩] }

end Noxide
