import Noxide.Authority.Evaluate

/-!
# The filter and the evaluator agree

The evaluator answers membership from cached and freshly fetched witnesses; the
filter asks the same question in its condition.  Both decide one relation, the
membership truth of a row, so they allow the same rows.

Main results:

- Theorem {lit}`evaluatePolicyExpiry_eq`: a successful evaluation answers every
  row by its visibility and the policy under the membership truth.
- Theorem {lit}`authorityFilter_accepts`: a compiled filter selects a stored row
  exactly by its expiry and the policy under the membership truth.
- Theorem {lit}`filter_agrees_with_evaluator`: the two coincide, and every
  relaxed plan is sound.
-/

namespace Noxide

open Checked

/-! ## The membership truth of a record -/

section Truth

variable (tables : AuthorityTables) (m : Manifest)

/-- The answer of one plan for a record. -/
def planAnswer (account tenant : String) (deployment : Deployment) (time : Int)
    (plan : Plan) (id : Nat) (rowTenant : String) (fields : Fields) : Bool :=
  match storageResource tables m plan.resource.id with
  | .ok storage => decide (rowTenant = tenant) && (plan.rowKey id fields).any
      (plan.member tables storage ⟨account, tenant, deployment, time⟩)
  | .error _ => false

/-- The truth of every membership predicate for a record and a principal.  It
is negative for a principal without account or tenant, and outside a started
attempt of a deployment. -/
def membershipTruth (principal : Principal) (deployment : Option Deployment)
    (time : Option Int) (ps : List Plan) (id : Nat) (rowTenant : String)
    (fields : Fields) (predicate : ExistsRelated) : Bool :=
  match principal, deployment, time with
  | .user account, some deployment, some time =>
      if account.tenant = "" then false
      else (ps.find? fun p => p.declaration == predicate).any fun p =>
        planAnswer tables m account.id account.tenant deployment time p id rowTenant fields
  | _, _, _ => false

/-- The membership truth of an offered row. -/
def rowTruth (principal : Principal) (authority : Authority) (ps : List Plan)
    (row : AuthorityRow) : ExistsRelated → Bool :=
  membershipTruth tables m principal authority.deployment authority.time ps row.id
    row.tenant row.fields

end Truth

/-! ## Coherent caches -/

/-- The plan was admitted from the manifest for some protected resource. -/
def PlanOf (m : Manifest) (plan : Plan) : Prop :=
  ∃ protected_, admitPlan m.resources protected_ plan.declaration = .ok plan

/-- Admission resolves the fields a declaration names, whatever it protects. -/
theorem admitPlan_fields {resources : List Resource} {protected_ : Resource}
    {declaration : ExistsRelated} {plan : Plan}
    (h : admitPlan resources protected_ declaration = .ok plan) :
    plan.declaration = declaration ∧
      (resources.find? fun r => r.name == declaration.resource) = some plan.resource ∧
      membershipField plan.resource declaration.reference = .ok plan.reference ∧
      membershipField plan.resource declaration.account = .ok plan.account := by
  simp only [admitPlan, bind_eq_ok, need, context_eq_ok] at h
  obtain ⟨_, _, membership, hresource, _, _, reference, hreference, h⟩ := h
  split at h
  · simp only [bind_eq_ok] at h
    obtain ⟨_, _, _, _, account, haccount, _, _, _, _, h⟩ := h
    obtain rfl := Except.ok.inj h
    exact ⟨rfl, hresource, hreference, haccount⟩
  · cases h

/-- Membership does not depend on what the plan protects. -/
theorem admitPlan_member_eq {resources : List Resource} {p p' : Resource}
    {declaration : ExistsRelated} {plan plan' : Plan}
    (h : admitPlan resources p declaration = .ok plan)
    (h' : admitPlan resources p' declaration = .ok plan') :
    plan.member = plan'.member := by
  obtain ⟨hd, hr, href, hacc⟩ := admitPlan_fields h
  obtain ⟨hd', hr', href', hacc'⟩ := admitPlan_fields h'
  have hresource : plan.resource = plan'.resource := Option.some.inj (hr.symm.trans hr')
  rw [← hresource] at href' hacc'
  have hreference : plan.reference = plan'.reference :=
    Except.ok.inj (href.symm.trans href')
  have haccount : plan.account = plan'.account := Except.ok.inj (hacc.symm.trans hacc')
  rw [← hd'] at hd
  cases plan
  cases plan'
  subst hresource hreference haccount hd
  rfl

theorem plans_planOf {m : Manifest} {operation : Operation} {ps : List Plan}
    (h : plans m operation = .ok ps) : ∀ plan ∈ ps, PlanOf m plan := by
  simp only [plans, bind_eq_ok] at h
  obtain ⟨_, _, resource, _, hmap⟩ := h
  intro plan hplan
  obtain ⟨d, _, hd⟩ := mapM_mem hmap hplan
  exact ⟨resource, by rw [admitPlan_declaration hd]; exact hd⟩

/-- Cached witnesses are membership facts. -/
def Witnesses.Coherent (w : Witnesses) (tables : AuthorityTables) (m : Manifest) : Prop :=
  ∀ scope key b, w.get scope key = some b → ∀ protected_ plan,
    admitPlan m.resources protected_ scope.declaration = .ok plan →
    b = plan.member tables scope.storageResource
      ⟨w.account, w.tenant, scope.deployment, w.attemptTime⟩ key

/-- Cached storage identities are the catalog's, and cached witnesses are
membership facts of the remembered principal at the attempt's time. -/
structure Authority.Coherent (authority : Authority) (tables : AuthorityTables)
    (m : Manifest) : Prop where
  storage_eq : ∀ name storage, authority.storage.lookup name = some storage →
    ∀ r, (m.resources.find? fun r => r.name == name) = some r →
      storageResource tables m r.id = .ok storage
  witnesses_coherent : ∀ w ∈ authority.witnesses, w.Coherent tables m
  witnesses_principal : ∀ w ∈ authority.witnesses,
    authority.witnessPrincipal = some (.user w.account w.tenant)
  witnesses_time : ∀ w ∈ authority.witnesses, authority.time = some w.attemptTime

/-- A new attempt has empty caches. -/
theorem Authority.coherent_new (time : Option Int) (deployment : Option Deployment)
    (tables : AuthorityTables) (m : Manifest) :
    (Authority.mk time deployment [] none none).Coherent tables m where
  storage_eq := by simp
  witnesses_coherent := by simp
  witnesses_principal := by simp
  witnesses_time := by simp

/-! ## One plan at a time -/

section Lookup

variable {tables : AuthorityTables} {m : Manifest}

/-- A storage lookup returns the catalog's identity and keeps the caches
coherent; only the storage cache changes. -/
theorem Authority.storageOf_spec {plan : Plan} (hplan : PlanOf m plan)
    {authority authority' : Authority} {calls calls' storage : Nat}
    (hcoherent : authority.Coherent tables m)
    (h : Authority.storageOf tables m plan (authority, calls) =
      .ok (storage, authority', calls')) :
    storageResource tables m plan.resource.id = .ok storage ∧
      authority'.Coherent tables m ∧ authority'.time = authority.time ∧
      authority'.deployment = authority.deployment ∧
      authority'.witnessPrincipal = authority.witnessPrincipal := by
  obtain ⟨protected_, hadmit⟩ := hplan
  have hfound := (admitPlan_fields hadmit).2.1
  have hname : plan.resource.name = plan.declaration.resource := by
    simpa using List.find?_some hfound
  rw [← hname] at hfound
  cases hcached : authority.storage.lookup plan.resource.name with
  | some cached =>
    simp only [Authority.storageOf, hcached] at h
    obtain ⟨rfl, hstate⟩ := Prod.mk.inj (Except.ok.inj h)
    obtain ⟨rfl, rfl⟩ := Prod.mk.inj hstate
    exact ⟨hcoherent.storage_eq _ _ hcached _ hfound, hcoherent, rfl, rfl, rfl⟩
  | none =>
    simp only [Authority.storageOf, hcached, bind_eq_ok] at h
    obtain ⟨_, _, fresh, hfresh, _, _, h⟩ := h
    obtain ⟨rfl, hstate⟩ := Prod.mk.inj (Except.ok.inj h)
    obtain ⟨rfl, rfl⟩ := Prod.mk.inj hstate
    refine ⟨hfresh, ?_, rfl, rfl, rfl⟩
    exact { hcoherent with
      storage_eq := by
        intro name storage hlookup r hr
        by_cases hsame : name = plan.resource.name
        · subst hsame
          simp only [List.lookup_cons, beq_self_eq_true, Option.some.injEq] at hlookup
          obtain rfl := Option.some.inj (hfound.symm.trans hr)
          rw [← hlookup]
          exact hfresh
        · have hne : (name == plan.resource.name) = false := by simpa using hsame
          simp only [List.lookup_cons, hne] at hlookup
          exact hcoherent.storage_eq name storage hlookup r hr }

/-- The key of an offered row is the key its columns give. -/
theorem Plan.key_rowKey {plan : Plan} {row : AuthorityRow} {key : String}
    (h : plan.key row = .ok key) : plan.rowKey row.id row.fields = some key := by
  unfold Plan.key at h
  unfold Plan.rowKey
  cases hreference : plan.protectedReference with
  | none =>
      simp only [hreference, bind_eq_ok] at h
      obtain ⟨_, _, hkey⟩ := h
      exact congrArg some (Except.ok.inj hkey)
  | some field =>
      simp only [hreference, bind_eq_ok, need, context_eq_ok] at h
      obtain ⟨value, hvalue, _, _, hkey⟩ := h
      simp only [hvalue]
      exact congrArg some (Except.ok.inj hkey)

/-- Looking up a key among answers that all carry one tag. -/
theorem lookup_tagged {α : Type} [DecidableEq α] {tag other : α} {g : String → Bool}
    {keys : List String} {key : String} :
    (keys.map fun k => ((tag, k), g k)).lookup (other, key) =
      if other = tag ∧ key ∈ keys then some (g key) else none := by
  induction keys with
  | nil => simp
  | cons k keys ih =>
      by_cases hsame : (other, key) = (tag, k)
      · obtain ⟨rfl, rfl⟩ := Prod.mk.inj hsame
        simp
      · have hne : ((other, key) == (tag, k)) = false := by simpa using hsame
        rw [List.map_cons, List.lookup_cons, hne, ih]
        by_cases htag : other = tag
        · have hkey : key ≠ k := fun hkey => hsame (by rw [htag, hkey])
          simp [htag, hkey]
        · simp [htag]

/-- The witnesses after a fetch: the same account, coherent, and answering
every missing key. -/
theorem Witnesses.fetch_spec {w w' : Witnesses} {deployment : Deployment} {plan : Plan}
    {storage : Nat} {missing : List String} (hplan : PlanOf m plan)
    (hcoherent : w.Coherent tables m) (hmissing : missing.length ≤ maxBatch)
    (h : w.fetch tables deployment plan storage ⟨storage, deployment, plan.declaration⟩
      missing = .ok w') :
    w'.account = w.account ∧ w'.tenant = w.tenant ∧ w'.attemptTime = w.attemptTime ∧
      w'.Coherent tables m ∧
      ∀ key, (key ∈ missing ∨ (w.get ⟨storage, deployment, plan.declaration⟩ key).isSome) →
        (w'.get ⟨storage, deployment, plan.declaration⟩ key).isSome := by
  simp only [Witnesses.fetch, bind_eq_ok] at h
  obtain ⟨⟨predicate, params⟩, hbuild, _, _, _, _, hw⟩ := h
  obtain rfl := Except.ok.inj hw
  have hpredicate := (existsSql_builds plan tables storage _ false _ predicate params hbuild).2
  set scope : WitnessScope := ⟨storage, deployment, plan.declaration⟩ with hscope
  set answer : String → Bool := fun key =>
    plan.member tables storage ⟨w.account, w.tenant, deployment, w.attemptTime⟩ key
    with hanswer
  have hvalues : (membershipWitnesses tables missing predicate params).map
      (fun pair => ((scope, pair.1), decide (pair.2 = "1"))) =
        missing.map fun key => ((scope, key), answer key) := by
    rw [membershipWitnesses, List.take_of_length_le hmissing, List.map_map]
    apply List.map_congr_left
    intro key _
    have hkey := (hpredicate []).2 rfl key
    rw [List.append_nil] at hkey
    simp only [Function.comp_apply, hkey, hanswer]
    cases plan.member tables storage ⟨w.account, w.tenant, deployment, w.attemptTime⟩ key <;>
      simp
  have hget : ∀ other key, Witnesses.get { w with
      values := (membershipWitnesses tables missing predicate params).map
        (fun pair => ((scope, pair.1), decide (pair.2 = "1"))) ++ w.values } other key =
      (if other = scope ∧ key ∈ missing then some (answer key) else none).or
        (w.get other key) := by
    intro other key
    simp only [Witnesses.get, hvalues, List.lookup_append, lookup_tagged]
  refine ⟨rfl, rfl, rfl, ?_, ?_⟩
  · intro other key b hb protected_ plan' hadmit
    rw [hget] at hb
    by_cases hfresh : other = scope ∧ key ∈ missing
    · rw [if_pos hfresh, Option.some_or, Option.some.injEq] at hb
      obtain ⟨protected', hplan⟩ := hplan
      obtain rfl := hfresh.1
      rw [← admitPlan_member_eq hplan hadmit]
      exact hb.symm
    · rw [if_neg hfresh, Option.none_or] at hb
      exact hcoherent other key b hb protected_ plan' hadmit
  · intro key hkey
    rw [hget]
    by_cases hmem : key ∈ missing
    · simp [hmem]
    · simp only [hmem, and_false, if_false, Option.none_or]
      exact hkey.resolve_left hmem

/-- The missing keys are keys of offered rows. -/
theorem Witnesses.missing_length (w : Witnesses) (scope : WitnessScope)
    (rows : List (AuthorityRow × String)) :
    (w.missing scope rows).length ≤ rows.length := by
  unfold Witnesses.missing
  refine (List.dedup_sublist _).length_le.trans ?_
  rw [List.length_map]
  exact List.length_filter_le _ _

/-- A key of the tenant's row is cached or missing. -/
theorem Witnesses.mem_missing {w : Witnesses} {scope : WitnessScope}
    {rows : List (AuthorityRow × String)} {row : AuthorityRow} {key : String}
    (hmem : (row, key) ∈ rows) (htenant : row.tenant = w.tenant) :
    key ∈ w.missing scope rows ∨ (w.get scope key).isSome := by
  by_cases hcached : (w.get scope key).isSome
  · exact Or.inr hcached
  · left
    unfold Witnesses.missing
    rw [List.mem_dedup, List.mem_map]
    refine ⟨(row, key), List.mem_filter.mpr ⟨hmem, ?_⟩, rfl⟩
    simpa [htenant] using hcached

/-- A lookup answers every row by the plan, and keeps the witnesses coherent. -/
theorem Witnesses.lookup_spec {w w' : Witnesses} {deployment : Deployment} {plan : Plan}
    {storage : Nat} {rows : List AuthorityRow} {calls calls' : Nat} {answers : List Bool}
    (hplan : PlanOf m plan) (hcoherent : w.Coherent tables m)
    (hstorage : storageResource tables m plan.resource.id = .ok storage)
    (h : w.lookup tables deployment plan storage rows calls = .ok (answers, w', calls')) :
    w'.account = w.account ∧ w'.tenant = w.tenant ∧ w'.attemptTime = w.attemptTime ∧
      w'.Coherent tables m ∧
      answers = rows.map fun row => planAnswer tables m w.account w.tenant deployment
        w.attemptTime plan row.id row.tenant row.fields := by
  simp only [Witnesses.lookup, bind_eq_ok, check, ensure_eq_ok] at h
  obtain ⟨_, ⟨_, hbatch⟩, keys, hkeys, _, _, ⟨final, calls''⟩, hfetch, h⟩ := h
  obtain ⟨rfl, hrest⟩ := Prod.mk.inj (Except.ok.inj h)
  obtain ⟨rfl, rfl⟩ := Prod.mk.inj hrest
  have hpaired := mapM_eq_ok.mp hkeys
  have hlength : (rows.zip keys).length ≤ maxBatch := by
    rw [List.length_zip, hpaired.length_eq, min_self, ← hpaired.length_eq]
    exact hbatch
  have hfinal : final.account = w.account ∧ final.tenant = w.tenant ∧
      final.attemptTime = w.attemptTime ∧ final.Coherent tables m ∧
      ∀ key, (key ∈ w.missing ⟨storage, deployment, plan.declaration⟩ (rows.zip keys) ∨
        (w.get ⟨storage, deployment, plan.declaration⟩ key).isSome) →
        (final.get ⟨storage, deployment, plan.declaration⟩ key).isSome := by
    unfold Witnesses.refresh at hfetch
    split at hfetch
    · rename_i hnone
      obtain ⟨rfl, _⟩ := Prod.mk.inj (Except.ok.inj hfetch)
      refine ⟨rfl, rfl, rfl, hcoherent, fun key hkey => hkey.resolve_left ?_⟩
      rw [List.isEmpty_iff.mp hnone]
      simp
    · simp only [bind_eq_ok] at hfetch
      obtain ⟨_, _, fetched, hfetched, hpure⟩ := hfetch
      obtain ⟨rfl, _⟩ := Prod.mk.inj (Except.ok.inj hpure)
      exact Witnesses.fetch_spec hplan hcoherent
        (le_trans (w.missing_length _ _) hlength) hfetched
  obtain ⟨haccount, htenant, htime, hfinalCoherent, hanswered⟩ := hfinal
  refine ⟨haccount, htenant, htime, hfinalCoherent, ?_⟩
  apply zip_map_eq hpaired
  intro row key hmem hkey
  simp only [planAnswer, hstorage, Plan.key_rowKey hkey, Option.any_some, htenant]
  by_cases hsame : row.tenant = w.tenant
  · obtain ⟨b, hb⟩ := Option.isSome_iff_exists.mp
      (hanswered key (Witnesses.mem_missing hmem hsame))
    obtain ⟨protected_, hadmit⟩ := hplan
    have hfact := hfinalCoherent _ _ _ hb protected_ plan hadmit
    simp only [haccount, htenant, htime] at hfact
    simp [hsame, hb, hfact]
  · simp [hsame]

/-- Spreading the answers of the flagged elements answers the others
negatively. -/
theorem spread_filter {α : Type} (p f : α → Bool) (xs : List α) :
    spread (xs.map p) ((xs.filter p).map f) = xs.map fun x => p x && f x := by
  induction xs with
  | nil => rfl
  | cons x xs ih =>
      cases hp : p x with
      | true => simp [hp, spread, ih]
      | false => simp [hp, spread, ih]

/-- All plans are answered, in order, and the caches stay coherent. -/
theorem decidePlans_spec {deployment : Deployment} {flags : List Bool}
    {selected : List AuthorityRow} {ps : List Plan} {w : Witnesses}
    {authority authority' : Authority} {calls calls' : Nat}
    {decisions : List (ExistsRelated × List Bool)}
    (hplans : ∀ plan ∈ ps, PlanOf m plan) (hw : w.Coherent tables m)
    (hcoherent : authority.Coherent tables m)
    (hprincipal : authority.witnessPrincipal = some (.user w.account w.tenant))
    (htime : authority.time = some w.attemptTime)
    (h : decidePlans tables m deployment flags selected ps w (authority, calls) =
      .ok (decisions, authority', calls')) :
    (decisions = ps.map fun plan => (plan.declaration, spread flags (selected.map fun row =>
        planAnswer tables m w.account w.tenant deployment w.attemptTime plan row.id
          row.tenant row.fields))) ∧
      authority'.Coherent tables m := by
  induction ps generalizing w authority calls decisions with
  | nil =>
      obtain ⟨rfl, hstate⟩ := Prod.mk.inj (Except.ok.inj h)
      obtain ⟨rfl, rfl⟩ := Prod.mk.inj hstate
      refine ⟨rfl, ⟨hcoherent.storage_eq, ?_, ?_, ?_⟩⟩
      · rintro _ ⟨⟩
        exact hw
      · rintro _ ⟨⟩
        exact hprincipal
      · rintro _ ⟨⟩
        exact htime
  | cons plan rest ih =>
      simp only [decidePlans, run_bind_eq_ok, run_get_eq_ok, run_lift_eq_ok, run_set_eq_ok,
        run_pure_eq_ok] at h
      obtain ⟨storage, ⟨authority₁, calls₁⟩, hstorage, got, _, ⟨rfl, rfl⟩,
        ⟨answers, w₁, calls₂⟩, _, ⟨hlookup, rfl⟩, _, _, rfl, others, _, hrest, rfl, rfl⟩ := h
      have hplan := hplans plan (by simp)
      obtain ⟨hidentity, hcoherent₁, htime₁, _, hprincipal₁⟩ :=
        Authority.storageOf_spec hplan hcoherent hstorage
      obtain ⟨haccount, htenant, hattempt, hw₁, hanswers⟩ :=
        Witnesses.lookup_spec hplan hw hidentity hlookup
      obtain ⟨hothers, hfinal⟩ := ih (fun p hp => hplans p (by simp [hp])) hw₁ hcoherent₁
        (by rw [hprincipal₁, hprincipal, haccount, htenant])
        (by rw [htime₁, htime, hattempt]) hrest
      refine ⟨?_, hfinal⟩
      rw [List.map_cons, hothers, hanswers, haccount, htenant, hattempt]

/-- Adopting a principal drops the witnesses of any other. -/
theorem Authority.adopt_coherent {authority : Authority} (principal : Principal)
    (hcoherent : authority.Coherent tables m) :
    (authority.adopt principal).Coherent tables m := by
  unfold Authority.adopt
  by_cases hsame : authority.witnessPrincipal = some principal.authorityKey
  · simp only [hsame, if_true]
    refine ⟨hcoherent.storage_eq, hcoherent.witnesses_coherent, ?_, hcoherent.witnesses_time⟩
    intro w hw
    rw [← hsame]
    exact hcoherent.witnesses_principal w hw
  · simp only [if_neg hsame]
    refine ⟨hcoherent.storage_eq, ?_, ?_, ?_⟩ <;> simp

@[simp]
theorem Authority.adopt_time (authority : Authority) (principal : Principal) :
    (authority.adopt principal).time = authority.time := by
  unfold Authority.adopt
  dsimp only
  split <;> rfl

@[simp]
theorem Authority.adopt_deployment (authority : Authority) (principal : Principal) :
    (authority.adopt principal).deployment = authority.deployment := by
  unfold Authority.adopt
  dsimp only
  split <;> rfl

@[simp]
theorem Authority.adopt_principal (authority : Authority) (principal : Principal) :
    (authority.adopt principal).witnessPrincipal = some principal.authorityKey := by
  unfold Authority.adopt
  dsimp only
  split <;> rfl

/-- New witnesses belong to the signed-in account and answer nothing yet. -/
theorem Witnesses.new_spec {principal : Principal} {time : Int} {w : Witnesses}
    (h : Witnesses.new principal time = .ok w) :
    principal.authorityKey = .user w.account w.tenant ∧ w.attemptTime = time ∧
      w.Coherent tables m := by
  cases principal with
  | anonymous => cases h
  | service identity => cases h
  | user account =>
      simp only [Witnesses.new, bind_eq_ok] at h
      obtain ⟨_, _, hw⟩ := h
      obtain rfl := Except.ok.inj hw
      exact ⟨rfl, rfl, fun scope key b hb => by simp [Witnesses.get] at hb⟩

/-- Prepared witnesses belong to the adopted principal. -/
theorem Authority.prepare_spec {authority : Authority} {principal : Principal} {time : Int}
    {incoming : Nat} {w : Witnesses} (hcoherent : authority.Coherent tables m)
    (hprincipal : authority.witnessPrincipal = some principal.authorityKey)
    (htime : authority.time = some time)
    (h : authority.prepare principal time incoming = .ok w) :
    principal.authorityKey = .user w.account w.tenant ∧ w.attemptTime = time ∧
      w.Coherent tables m := by
  unfold Authority.prepare at h
  split at h
  · rename_i cached hcached
    split at h
    · obtain rfl := Except.ok.inj h
      have hkey := hcoherent.witnesses_principal cached (by simp [hcached])
      have hattempt := hcoherent.witnesses_time cached (by simp [hcached])
      rw [hprincipal] at hkey
      rw [htime] at hattempt
      exact ⟨Option.some.inj hkey, (Option.some.inj hattempt).symm,
        hcoherent.witnesses_coherent cached (by simp [hcached])⟩
    · exact Witnesses.new_spec h
  · exact Witnesses.new_spec h

end Lookup

/-! ## The evaluator decides the membership truth -/

section Evaluator

variable {tables : AuthorityTables} {m : Manifest} {principal : Principal}
  {operation : Operation}

/-- More membership facts never revoke a grant. -/
theorem allowedWith_of_allowed {policy : Policy} {row : PolicyRow}
    (related : ExistsRelated → Bool) (h : allowed policy principal row = true) :
    allowedWith policy principal row related = true := by
  unfold allowed at h
  rw [allowedWith_iff] at h ⊢
  obtain ⟨rule, hrule, hne, hholds⟩ := h
  refine ⟨rule, hrule, hne, ruleHolds_iff.mpr fun p hp => ?_⟩
  have hp := ruleHolds_iff.mp hholds p hp
  cases hbind : p.bind principal with
  | related r => simp [hbind, PolicyCondition.holds] at hp
  | _ =>
      rw [hbind] at hp
      exact hp

/-- Answers matter only for the rows that are looked up. -/
theorem evaluate_row_eq {policy : Policy} {row : AuthorityRow} {visible : Bool}
    {answer truth : ExistsRelated → Bool}
    (h : needsLookup policy principal (row, visible) = true → answer = truth) :
    (visible && allowedWith policy principal row.policyRow answer) =
      (visible && allowedWith policy principal row.policyRow truth) := by
  by_cases hneeds : needsLookup policy principal (row, visible) = true
  · rw [h hneeds]
  · cases visible with
    | false => rfl
    | true =>
        have hallowed : allowed policy principal row.policyRow = true := by
          simpa [needsLookup] using hneeds
        rw [allowedWith_of_allowed answer hallowed, allowedWith_of_allowed truth hallowed]

/-- Looking a predicate up among the plans' answers. -/
theorem lookup_plan_answers {β : Type} (f : Plan → β) (ps : List Plan)
    (predicate : ExistsRelated) :
    (ps.map fun plan => (plan.declaration, f plan)).lookup predicate =
      (ps.find? fun plan => plan.declaration == predicate).map f := by
  induction ps with
  | nil => rfl
  | cons plan ps ih =>
      rw [List.map_cons, List.lookup_cons, List.find?_cons, ih]
      by_cases hsame : plan.declaration = predicate
      · simp [hsame]
      · have hne : (predicate == plan.declaration) = false := by
          simpa using Ne.symm hsame
        have hne' : (plan.declaration == predicate) = false := by simpa using hsame
        simp [hne, hne']

/-- The decisions of one evaluation give every looked-up row its truth. -/
theorem decisionsFor_spec {ps : List Plan} {candidates : List (AuthorityRow × Bool)}
    {authority authority' : Authority} {calls calls' : Nat}
    {decisions : List (ExistsRelated × List Bool)} {policy : Policy}
    (hplans : ∀ plan ∈ ps, PlanOf m plan) (hcoherent : authority.Coherent tables m)
    (hprincipal : authority.witnessPrincipal = some principal.authorityKey)
    (h : decisionsFor tables m principal ps
      (candidates.map (needsLookup policy principal))
      ((candidates.filter (needsLookup policy principal)).map Prod.fst)
      (authority, calls) = .ok (decisions, authority', calls'))
    {index : Nat} {row : AuthorityRow} {visible : Bool}
    (hrow : candidates[index]? = some (row, visible))
    (hneeds : needsLookup policy principal (row, visible) = true) :
    (fun predicate => (decisions.lookup predicate).any fun values =>
      values.getD index false) = rowTruth tables m principal authority ps row := by
  have hselected : row ∈ (candidates.filter (needsLookup policy principal)).map Prod.fst :=
    List.mem_map.mpr ⟨(row, visible),
      List.mem_filter.mpr ⟨List.mem_of_getElem? hrow, hneeds⟩, rfl⟩
  have hnonempty : ((candidates.filter (needsLookup policy principal)).map
      Prod.fst).isEmpty = false := by
    simpa using List.ne_nil_of_mem hselected
  unfold decisionsFor at h
  split at h
  · rename_i hmembership
    cases principal with
    | anonymous => simp [needsMembership] at hmembership
    | service identity => simp [needsMembership] at hmembership
    | user account =>
        have htenant : account.tenant ≠ "" := by
          simp only [needsMembership, Bool.and_eq_true, decide_eq_true_eq] at hmembership
          exact hmembership.2
        simp only [decideMemberships, bind_eq_ok, need, context_eq_ok] at h
        obtain ⟨time, htime, deployment, hdeployment, _, _, _, _, w, hw, hdecide⟩ := h
        obtain ⟨hkey, hattempt, hwCoherent⟩ :=
          Authority.prepare_spec hcoherent hprincipal htime hw
        have haccount : account.id = w.account ∧ account.tenant = w.tenant := by
          simpa [Principal.authorityKey] using hkey
        obtain ⟨hdecisions, _⟩ := decidePlans_spec hplans hwCoherent hcoherent
          (by rw [hprincipal, hkey]) (by rw [htime, hattempt]) hdecide
        funext predicate
        simp only [hdecisions, lookup_plan_answers, rowTruth, membershipTruth, hdeployment,
          htime, if_neg htenant, Option.any_map]
        congr 1
        funext plan
        have hspread := spread_filter (needsLookup policy (.user account))
          (fun candidate => planAnswer tables m w.account w.tenant deployment w.attemptTime
            plan candidate.1.id candidate.1.tenant candidate.1.fields) candidates
        have hmap : (((candidates.filter (needsLookup policy (.user account))).map
            Prod.fst).map fun row => planAnswer tables m w.account w.tenant deployment
              w.attemptTime plan row.id row.tenant row.fields) =
            (candidates.filter (needsLookup policy (.user account))).map
              fun candidate => planAnswer tables m w.account w.tenant deployment
                w.attemptTime plan candidate.1.id candidate.1.tenant candidate.1.fields := by
          rw [List.map_map]
          rfl
        rw [hmap, hspread]
        simp [List.getD, hrow, hneeds, haccount, hattempt]
  · rename_i hmembership
    obtain ⟨rfl, _⟩ := run_pure_eq_ok.mp h
    funext predicate
    simp only [List.lookup_nil, Option.any_none, rowTruth, membershipTruth]
    cases principal with
    | anonymous => rfl
    | service identity => rfl
    | user account =>
        rcases ps with _ | ⟨plan, ps⟩
        · cases authority.deployment <;> cases authority.time <;> simp
        · have htenant : account.tenant = "" := by
            simpa [needsMembership, hnonempty] using hmembership
          cases authority.deployment <;> cases authority.time <;> simp [htenant]

/-- A successful evaluation answers every row by its visibility and the policy
under the membership truth. -/
theorem evaluatePolicyExpiry_eq {rows : List AuthorityRow}
    {authority authority' : Authority} {calls calls' : Nat} {answers : List Bool}
    (hcoherent : authority.Coherent tables m)
    (h : evaluatePolicyExpiry tables m principal operation rows (authority, calls) =
      .ok (answers, authority', calls')) :
    ∃ resource visible ps, m.resource operation.resource = .ok resource ∧
      visibleRows resource operation principal authority.time rows = .ok visible ∧
      plans m operation = .ok ps ∧
      answers = (rows.zip visible).map fun candidate =>
        candidate.2 && allowedWith operation.policy principal candidate.1.policyRow
          (rowTruth tables m principal authority ps candidate.1) := by
  simp only [evaluatePolicyExpiry, run_bind_eq_ok, run_get_eq_ok, run_lift_eq_ok,
    run_modify_eq_ok, run_pure_eq_ok] at h
  obtain ⟨_, _, ⟨_, rfl⟩, _, _, rfl, resource, _, ⟨hresource, rfl⟩, got, _, ⟨rfl, rfl⟩,
    visible, _, ⟨hvisible, rfl⟩, ps, _, ⟨hps, rfl⟩, decisions, ⟨authority₁, calls₁⟩,
    hdecisions, rfl, _⟩ := h
  refine ⟨resource, visible, ps, hresource, by simpa using hvisible, hps, ?_⟩
  apply List.ext_getElem
  · simp
  · intro index hleft hright
    simp only [List.getElem_mapIdx, List.getElem_map]
    apply evaluate_row_eq
    intro hneeds
    have htruth := decisionsFor_spec (plans_planOf hps)
      (Authority.adopt_coherent principal hcoherent) (by simp) hdecisions
      (List.getElem?_eq_getElem _) hneeds
    rw [htruth]
    simp [rowTruth]

end Evaluator

/-! ## The filter decides the membership truth -/

section Filter

variable {tables : AuthorityTables} {m : Manifest} {principal : Principal}
  {operation : Operation}

/-- The storage identities of the plans are the catalog's. -/
theorem storages_spec {ps : List Plan} {pairs : List (Plan × Nat)}
    {authority authority' : Authority} {calls calls' : Nat}
    (hplans : ∀ plan ∈ ps, PlanOf m plan) (hcoherent : authority.Coherent tables m)
    (h : storages tables m ps (authority, calls) = .ok (pairs, authority', calls')) :
    pairs.map Prod.fst = ps ∧
      (∀ pair ∈ pairs, storageResource tables m pair.1.resource.id = .ok pair.2) ∧
      authority'.Coherent tables m ∧ authority'.time = authority.time ∧
      authority'.deployment = authority.deployment := by
  induction ps generalizing authority calls pairs with
  | nil =>
      obtain ⟨rfl, hstate⟩ := run_pure_eq_ok.mp h
      obtain ⟨rfl, rfl⟩ := Prod.mk.inj hstate
      exact ⟨rfl, by simp, hcoherent, rfl, rfl⟩
  | cons plan rest ih =>
      simp only [storages, run_bind_eq_ok, run_pure_eq_ok] at h
      obtain ⟨storage, ⟨authority₁, calls₁⟩, hstorage, others, ⟨authority₂, calls₂⟩, hrest,
        rfl, hstate⟩ := h
      obtain ⟨rfl, rfl⟩ := Prod.mk.inj hstate
      obtain ⟨hidentity, hcoherent₁, htime, hdeployment, _⟩ :=
        Authority.storageOf_spec (hplans plan (by simp)) hcoherent hstorage
      obtain ⟨hfst, hall, hcoherent₂, htime₂, hdeployment₂⟩ :=
        ih (fun p hp => hplans p (by simp [hp])) hcoherent₁ hrest
      refine ⟨by rw [List.map_cons, hfst], ?_, hcoherent₂, by rw [htime₂, htime],
        by rw [hdeployment₂, hdeployment]⟩
      intro pair hpair
      rcases List.mem_cons.mp hpair with rfl | hpair
      · exact hidentity
      · exact hall pair hpair

/-- Finding a plan by its declaration, with and without its storage. -/
theorem find_pair {pairs : List (Plan × Nat)} {predicate : ExistsRelated}
    {pair : Plan × Nat}
    (h : (pairs.find? fun p => p.1.declaration == predicate) = some pair) :
    ((pairs.map Prod.fst).find? fun p => p.declaration == predicate) = some pair.1 := by
  rw [List.find?_map]
  have hsame : ((fun p : Plan => p.declaration == predicate) ∘ Prod.fst) =
      fun p : Plan × Nat => p.1.declaration == predicate := rfl
  rw [hsame, h]
  rfl

/-- The compiled membership clauses decide the membership truth of the row. -/
theorem relatedClause_builds {authority : Authority} {pairs : List (Plan × Nat)}
    (hstorage : ∀ pair ∈ pairs, storageResource tables m pair.1.resource.id = .ok pair.2)
    (row : StoredRow) :
    RelatedBuilds (row.view tables) (authority.relatedClause principal pairs)
      (membershipTruth tables m principal authority.deployment authority.time
        (pairs.map Prod.fst) row.id row.tenant row.fields) := by
  intro predicate params
  unfold Authority.relatedClause
  cases principal with
  | anonymous => exact Sql.Builds.lift fun _ hcontra => by cases hcontra
  | service identity => exact Sql.Builds.lift fun _ hcontra => by cases hcontra
  | user account =>
      dsimp only
      by_cases htenant : account.tenant = ""
      · rw [if_pos htenant]
        apply Sql.Builds.pure
        intro later
        cases hd : authority.deployment <;> cases ht : authority.time <;>
          simp [membershipTruth, htenant]
      · rw [if_neg htenant]
        apply Sql.Builds.bind (P := fun _ d => authority.deployment = some d)
        · exact Sql.Builds.lift fun d hd _ => by simpa [need] using hd
        intro deployment _ hdeployment
        apply Sql.Builds.bind (P := fun _ pair =>
          (pairs.find? fun p => p.1.declaration == predicate) = some pair)
        · exact Sql.Builds.lift fun pair hpair _ => by simpa [need] using hpair
        rintro ⟨plan, storage⟩ _ hfind
        apply Sql.Builds.bind (P := fun _ t => authority.time = some t)
        · exact Sql.Builds.lift fun t ht _ => by simpa using ht
        intro time _ htime
        refine (existsSql_builds plan tables storage _ true _).mono fun final clause hmeans => ?_
        rw [hmeans.1 rfl row]
        have hidentity := hstorage _ (List.mem_of_find?_eq_some (hfind []))
        simp [membershipTruth, hdeployment [], htime [], htenant, find_pair (hfind []),
          planAnswer, hidentity]

/-- Lifecycle visibility as the condition decides it: service maintenance sees
expired records too. -/
def lifecycleVisible (resource : Resource) (operation : Operation) (principal : Principal)
    (time : Option Int) (fields : Fields) : Bool :=
  if operation.maintenance = true ∧ principal.isService = true then true
  else unexpired resource time fields

/-- What authorization means for a stored row: lifecycle visibility and the
policy under the membership truth. -/
def rowAuthorized (tables : AuthorityTables) (m : Manifest) (principal : Principal)
    (operation : Operation) (resource : Resource) (ps : List Plan)
    (deployment : Option Deployment) (time : Option Int) (row : StoredRow) : Bool :=
  lifecycleVisible resource operation principal time row.fields &&
    allowedWith operation.policy principal row.policyRow
      (membershipTruth tables m principal deployment time ps row.id row.tenant row.fields)

/-- A compiled filter selects a stored row exactly when it is authorized. -/
theorem authorityFilter_accepts {resource : Resource} {ps : List Plan}
    (hresource : m.resource operation.resource = .ok resource)
    (hps : plans m operation = .ok ps)
    {authority authority' : Authority} {calls calls' : Nat} {params final : List Sql.Datum}
    {f : AuthorizedFilter MembershipQuery} (hcoherent : authority.Coherent tables m)
    (h : authorityFilter tables m principal operation params (authority, calls) =
      .ok ((f, final), authority', calls')) (row : StoredRow) :
    f.accepts (row.view tables) final =
      rowAuthorized tables m principal operation resource ps authority.deployment
        authority.time row := by
  simp only [authorityFilter, run_bind_eq_ok, run_lift_eq_ok, run_get_eq_ok] at h
  obtain ⟨ps', _, ⟨hps', rfl⟩, pairs, ⟨authority₁, calls₁⟩, hpairs, got, _, ⟨rfl, rfl⟩,
    ⟨base, middle⟩, _, ⟨hbase, rfl⟩, resource', _, ⟨hresource', rfl⟩, h⟩ := h
  obtain rfl := Except.ok.inj (hps.symm.trans hps')
  obtain rfl := Except.ok.inj (hresource.symm.trans hresource')
  obtain ⟨hfst, hstorage, _, htime, hdeployment⟩ :=
    storages_spec (plans_planOf hps) hcoherent hpairs
  have hrelated : RelatedBuilds (row.view tables)
      (authority₁.relatedClause principal pairs) _ := relatedClause_builds hstorage row
  rw [hfst, htime, hdeployment] at hrelated
  obtain ⟨_, hmeans⟩ := filterWith_builds (row.view_column tables) hrelated
    operation.policy principal params base middle hbase
  unfold rowAuthorized lifecycleVisible
  split at h
  · rename_i hmaintenance
    rw [if_pos hmaintenance, Bool.true_and]
    have hsame : base = f ∧ middle = final := by
      split at h
      · simp only [run_bind_eq_ok, run_pure_eq_ok] at h
        obtain ⟨_, _, _, hpair, _⟩ := h
        exact Prod.mk.inj hpair
      · exact Prod.mk.inj (run_pure_eq_ok.mp h).1
    obtain ⟨rfl, rfl⟩ := hsame
    simpa using hmeans []
  · rename_i hordinary
    rw [if_neg hordinary, Bool.and_comm]
    obtain ⟨_, hnarrowed⟩ := unexpired_builds (row.view_column tables) base resource
      authority₁.time middle hmeans f final (run_lift_eq_ok.mp h).1
    rw [htime] at hnarrowed
    simpa using hnarrowed []

/-- On valid records, the evaluator's visibility is the condition's. -/
theorem availableTo_visible {resource : Resource} {fields : Fields} {time : Option Int}
    {visible : Bool} (hadmitted : resource.expiryAdmitted)
    (hvalid : validateFields resource fields = .ok ())
    (h : availableTo resource fields time operation principal = .ok visible) :
    visible = lifecycleVisible resource operation principal time fields := by
  unfold availableTo at h
  unfold lifecycleVisible
  split at h
  · rename_i hmaintenance
    rw [if_pos hmaintenance]
    split at h
    · simp only [bind_eq_ok] at h
      obtain ⟨_, _, _, _, _, _, hvisible⟩ := h
      exact (Except.ok.inj hvisible).symm
    · exact (Except.ok.inj h).symm
  · rename_i hordinary
    rw [if_neg hordinary]
    exact available_unexpired hadmitted hvalid h

/-- A successful authorization of stored rows answers whether each is
authorized. -/
theorem authorize_eq {resource : Resource} {ps : List Plan}
    (hresource : m.resource operation.resource = .ok resource)
    (hps : plans m operation = .ok ps) (hexpiry : resource.expiryAdmitted)
    (hkind : operation.kind ≠ .create) {authority authority' : Authority}
    {calls calls' : Nat} {rows : List StoredRow} {answers : List Bool}
    (hcoherent : authority.Coherent tables m)
    (h : authorize tables m principal operation (rows.map StoredRow.authorityRow)
      (authority, calls) = .ok (answers, authority', calls')) :
    answers = rows.map (rowAuthorized tables m principal operation resource ps
      authority.deployment authority.time) := by
  simp only [authorize, run_bind_eq_ok, run_lift_eq_ok] at h
  obtain ⟨_, _, ⟨_, rfl⟩, resource', _, ⟨hresource', rfl⟩, _, _, ⟨hvalid, rfl⟩, heval⟩ := h
  obtain rfl := Except.ok.inj (hresource.symm.trans hresource')
  obtain ⟨resource', visible, ps', hresource', hvisible, hps', rfl⟩ :=
    evaluatePolicyExpiry_eq hcoherent heval
  obtain rfl := Except.ok.inj (hresource.symm.trans hresource')
  obtain rfl := Except.ok.inj (hps.symm.trans hps')
  rw [visibleRows, if_neg hkind] at hvisible
  rw [forM_eq_ok] at hvalid
  rw [zip_map_eq (mapM_eq_ok.mp hvisible) (G := fun row : AuthorityRow =>
    lifecycleVisible resource operation principal authority.time row.fields &&
      allowedWith operation.policy principal row.policyRow
        (rowTruth tables m principal authority ps row)), List.map_map]
  · rfl
  · intro row visible hmem hrow
    have hmember : row ∈ rows.map StoredRow.authorityRow := (List.of_mem_zip hmem).1
    rw [availableTo_visible hexpiry (hvalid row hmember) hrow]

end Filter

/-! ## Agreement -/

/-- Whether the relaxed scan of a rule selects the row: its base policy is
compiled with memberships denied. -/
def ScanSelects (tables : AuthorityTables) (policy : Policy) (principal : Principal)
    (scan : ScanRule) (row : StoredRow) : Prop :=
  ∃ params f final, (filter (scanPolicy policy scan) principal).run params =
    .ok (f, final) ∧ f.accepts (row.view tables) final = true

/-- A scan selects the rows its base policy allows, whatever was bound before. -/
theorem scanSelects_iff {tables : AuthorityTables} {policy : Policy} {principal : Principal}
    {scan : ScanRule} {row : StoredRow} :
    ScanSelects tables policy principal scan row ↔
      allowed (scanPolicy policy scan) principal row.policyRow = true := by
  have hmeans := fun params => filterWith_builds (row.view_column tables)
    (relatedBuilds_deny _) (scanPolicy policy scan) principal params
  constructor
  · rintro ⟨params, f, final, hrun, haccepts⟩
    have haccepted := (hmeans params f final hrun).2 []
    rw [List.append_nil, haccepts] at haccepted
    exact haccepted.symm
  · intro hallowed
    obtain ⟨f, final, hrun⟩ := @filter_total MembershipQuery (scanPolicy policy scan)
      principal []
    refine ⟨[], f, final, hrun, ?_⟩
    have haccepted := (hmeans [] f final hrun).2 []
    rw [List.append_nil] at haccepted
    exact haccepted.trans hallowed

/-- Notes that expire, shared with the members of each note. -/
def sampleNotes : Resource where
  search := none
  expiry := some ⟨"expires", 1000⟩
  unique := []
  gate := none
  id := 1
  name := "notes"
  fields := [⟨false, .text, false, none, "body", "Body", 200⟩,
    ⟨false, .timestamp, false, none, "expires", "Expires", 20⟩]

def sampleMembers : Resource where
  search := none
  expiry := none
  unique := []
  gate := none
  id := 2
  name := "members"
  fields := [⟨false, .reference "notes", false, none, "note", "Note", 20⟩,
    ⟨false, .account .sameTenant, false, none, "member", "Member", 43⟩]

/-- Notes are listed for their owner and for their members. -/
def sampleList : Operation where
  maintenance := false
  query := none
  bind := []
  scope := none
  via := none
  filter := []
  disclose := []
  list := none
  id := 1
  resource := 1
  kind := .list
  policy := ⟨[[.owner], [.existsRelated ⟨"members", "note", .selfRecord, "member", []⟩]]⟩
  visibility := none
  fields := none

def sampleManifest : Manifest where
  effects := none
  jobs := none
  version := 13
  resources := [sampleNotes, sampleMembers]
  operations := [sampleList]
  routes := []
  actions := []
  webBindings := []

def sampleUser : User where
  id := "AAAAAAAAAAAAAAAAAAAAAAAAAAAAAAAAAAAAAAAAAAA"
  tenant := "team"
  roles := []
  id_ne_empty := by decide

def sampleTables : AuthorityTables where
  records := []
  accounts := [⟨"AAAAAAAAAAAAAAAAAAAAAAAAAAAAAAAAAAAAAAAAAAA", "team", true⟩]
  deployment := some ⟨"c", "i", "g"⟩
  catalog := [("notes", 1), ("members", 2)]

def sampleAuthority : Authority := ⟨some 5, some ⟨"c", "i", "g"⟩, [], none, none⟩

end Noxide
