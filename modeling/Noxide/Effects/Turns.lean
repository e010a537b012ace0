import Noxide.Effects.Workers
import Noxide.Library.Turns
import Mathlib.Data.Prod.Lex
import Mathlib.Data.String.Basic

/-!
# Tenants of the outbox take turns

A claim stamps its tenant with a new claim sequence and takes a capture of the tenant whose stamp
is the oldest.  Every other transaction keeps the stamps and the sequence; a new tenant starts at
zero.

Main results:

- Theorem {lit}`claim_takes`: what a claim takes, from whom and with which stamp.
- Theorem {lit}`Step.tally`: every step over the outbox is a step of its tally.
- Theorem {lit}`effect_claims_fair`: tenants take turns in every serial run.
-/

namespace Noxide.Effects

open Checked

/-! ## Stamps -/

/-- The columns of a row that name its tenant. -/
def OutboxRow.scope (row : OutboxRow) : EffectScope := ⟨row.deployment, row.tenant⟩

/-- The sequence of the queue and the stamps of its tenants. -/
def EffectTables.tally (t : EffectTables) : Tally EffectScope where
  counter := (t.queue.map (·.claimSeq)).getD 0
  stamp scope := (t.tenants.find? fun tenant => tenant.named scope.deployment scope.tenant).map (·.claimSeq)

/-- Every row has its tenant, and no tenant is stamped ahead of the queue. -/
structure Stamped (t : EffectTables) : Prop where
  joined : ∀ row ∈ t.outbox, (t.tally.stamp row.scope).isSome = true
  sound : t.tally.Sound

/-- Every row is of a tenant that has a row in {lit}`nx_effect_tenants`, or was there before. -/
def Joins (t t' : EffectTables) : Prop :=
  ∀ row ∈ t'.outbox, (t'.tally.stamp row.scope).isSome = true ∨ ∃ old ∈ t.outbox, old.scope = row.scope

/-- A transaction that claims nothing. -/
structure Passes (t t' : EffectTables) : Prop where
  tally : Tally.Evolves none t.tally t'.tally
  rows : Joins t t'

section Stamps

variable {encoding : Encoding} {t t' t'' : EffectTables} {claim : EffectClaim}

theorem Stamped.joins {served : Option EffectScope} (h : Stamped t)
    (tally : Tally.Evolves served t.tally t'.tally) (rows : Joins t t') : Stamped t' := by
  refine ⟨fun row member => ?_, h.sound.evolves tally⟩
  rcases rows row member with joined | ⟨old, here, same⟩
  · exact joined
  · exact tally.isSome (same ▸ h.joined old here)

theorem Passes.refl (t : EffectTables) : Passes t t :=
  ⟨Tally.Evolves.refl _, fun row member => Or.inr ⟨row, member, rfl⟩⟩

theorem Passes.trans (first : Passes t t') (second : Passes t' t'') : Passes t t'' := by
  refine ⟨first.tally.trans second.tally, fun row member => ?_⟩
  rcases second.rows row member with joined | ⟨middle, here, same⟩
  · exact Or.inl joined
  · rcases first.rows middle here with joined | ⟨old, there, same'⟩
    · exact Or.inl (second.tally.isSome (same ▸ joined))
    · exact Or.inr ⟨old, there, same'.trans same⟩

/-- The sequence and the tenants stay, and no row changes its tenant. -/
theorem Passes.of_same (tenants : t'.tenants = t.tenants) (counter : t'.tally.counter = t.tally.counter)
    (rows : ∀ row ∈ t'.outbox, ∃ old ∈ t.outbox, old.scope = row.scope) : Passes t t' := by
  refine ⟨⟨le_of_eq counter.symm, fun _ idle => (by cases idle), fun client _ => Or.inl ?_⟩,
    fun row member => Or.inr (rows row member)⟩
  rw [EffectTables.tally, EffectTables.tally, tenants]

theorem Passes.of_outbox (outbox : t'.outbox = t.outbox) (tenants : t'.tenants = t.tenants)
    (counter : t'.tally.counter = t.tally.counter) : Passes t t' :=
  Passes.of_same tenants counter fun row member => ⟨row, outbox ▸ member, rfl⟩

theorem updateOutbox_passes {condition : OutboxRow → Bool} {change : OutboxRow → OutboxRow} {n : Nat}
    (h : updateOutbox condition change t = .ok (n, t')) (same : ∀ row, (change row).scope = row.scope) :
    Passes t t' := by
  rcases updateOutbox_ok.mp h with ⟨_, _, rfl⟩
  refine Passes.of_same rfl rfl fun row member => ?_
  rcases List.mem_map.mp member with ⟨old, here, rfl⟩
  refine ⟨old, here, ?_⟩
  split
  · exact (same old).symm
  · rfl

/-! ## Workers -/

theorem transition_passes {state : EffectState} {reason : String} {eligible : Int}
    (h : transition claim state reason eligible t = .ok t') : Passes t t' := by
  simp only [transition, bind_eq_ok] at h
  rcases h with ⟨⟨changed, t₁⟩, updated, _, _, h⟩
  cases h
  exact updateOutbox_passes updated fun _ => rfl

theorem preflightRunning_passes {row : Row} {allowed : Bool} {answer : Preflight}
    (h : preflightRunning claim row allowed t = .ok (answer, t')) : Passes t t' := by
  unfold preflightRunning at h
  split at h
  · rcases bind_eq_ok.mp h with ⟨t₁, ended, h⟩
    cases h
    exact transition_passes ended
  · rcases bind_eq_ok.mp h with ⟨window, _, h⟩
    split at h
    · rcases bind_eq_ok.mp h with ⟨t₁, ended, h⟩
      cases h
      exact transition_passes ended
    · split at h
      · rcases bind_eq_ok.mp h with ⟨t₁, ended, h⟩
        cases h
        exact transition_passes ended
      · cases h
        exact Passes.refl _

theorem preflight_passes {answer : Preflight} (h : preflight encoding claim t = .ok (answer, t')) :
    Passes t t' := by
  simp only [preflight, bind_eq_ok] at h
  rcases h with ⟨runtime, _, preview, _, h⟩
  cases preview with
  | none =>
      cases h
      exact Passes.refl _
  | some preview =>
      rcases bind_eq_ok.mp h with ⟨allowed, _, locks⟩
      rcases bind_eq_ok.mp locks with ⟨locked, _, answered⟩
      cases locked with
      | none =>
          cases answered
          exact Passes.refl _
      | some row =>
          simp only at answered
          split at answered
          · cases answered
            exact Passes.refl _
          · exact preflightRunning_passes answered

theorem release_passes (h : releaseUnsent claim t = .ok t') : Passes t t' := by
  simp only [releaseUnsent, bind_eq_ok] at h
  rcases h with ⟨⟨changed, t₁⟩, updated, h⟩
  cases h
  exact updateOutbox_passes updated fun _ => rfl

theorem finalizeDelivered_passes {runtime : ScopeRuntime} {outcome : Finalized}
    (h : finalizeDelivered encoding claim runtime t = .ok (outcome, t')) : Passes t t' := by
  simp only [finalizeDelivered, bind_eq_ok] at h
  rcases h with ⟨read, _, h⟩
  cases read with
  | none =>
      cases h
      exact Passes.refl _
  | some row =>
      simp only at h
      split at h
      · cases h
        exact Passes.refl _
      · rcases bind_eq_ok.mp h with ⟨⟨changed, t₁⟩, updated, h⟩
        rcases bind_eq_ok.mp h with ⟨_, _, h⟩
        cases h
        exact updateOutbox_passes updated fun _ => rfl

theorem finalizeRunning_passes {row : Row} {result : DeliveryResult} {outcome : Finalized}
    (h : finalizeRunning encoding claim row result t = .ok (outcome, t')) : Passes t t' := by
  cases result with
  | delivered =>
      rcases bind_eq_ok.mp h with ⟨t₁, ended, h⟩
      cases h
      exact transition_passes ended
  | terminal =>
      rcases bind_eq_ok.mp h with ⟨t₁, ended, h⟩
      cases h
      exact transition_passes ended
  | retry retryAfterSeconds =>
      rcases bind_eq_ok.mp h with ⟨next, _, h⟩
      cases next with
      | none =>
          rcases bind_eq_ok.mp h with ⟨t₁, ended, h⟩
          cases h
          exact transition_passes ended
      | some next =>
          rcases bind_eq_ok.mp h with ⟨t₁, ended, h⟩
          cases h
          exact transition_passes ended

theorem finalize_passes {result : DeliveryResult} {outcome : Finalized}
    (h : finalize encoding claim result t = .ok (outcome, t')) : Passes t t' := by
  simp only [finalize, bind_eq_ok] at h
  rcases h with ⟨runtime, _, h⟩
  split at h
  · exact finalizeDelivered_passes h
  · rcases bind_eq_ok.mp h with ⟨preview, _, h⟩
    cases preview with
    | none =>
        cases h
        exact Passes.refl _
    | some preview =>
        rcases bind_eq_ok.mp h with ⟨allowed, _, h⟩
        rcases bind_eq_ok.mp h with ⟨locked, _, h⟩
        cases locked with
        | none =>
            cases h
            exact Passes.refl _
        | some row =>
            simp only at h
            split at h
            · cases h
              exact Passes.refl _
            · split at h
              · cases h
                exact Passes.refl _
              · split at h
                · rcases bind_eq_ok.mp h with ⟨t₁, ended, h⟩
                  cases h
                  exact transition_passes ended
                · exact finalizeRunning_passes h

/-! ## Captures -/

/-- A tenant gets a row of its own, with the stamp zero, where it has none. -/
theorem ensureTenant_passes (deployment tenant : String) (t : EffectTables) :
    Passes t (ensureTenant deployment tenant t)
      ∧ ((ensureTenant deployment tenant t).tally.stamp ⟨deployment, tenant⟩).isSome = true := by
  unfold ensureTenant
  split
  · rename_i there
    refine ⟨Passes.refl t, ?_⟩
    rw [EffectTables.tally, Option.isSome_map, List.find?_isSome]
    simpa only [List.any_eq_true, TenantRow.named] using there
  · have stamps : ∀ scope : EffectScope,
        ({ t with tenants := t.tenants ++ [⟨deployment, tenant, 0⟩] } : EffectTables).tally.stamp scope
          = (t.tally.stamp scope).or (if deployment = scope.deployment ∧ tenant = scope.tenant then some 0
            else none) := by
      intro scope
      simp only [EffectTables.tally, List.find?_append, List.find?_cons, List.find?_nil]
      cases t.tenants.find? fun row => row.named scope.deployment scope.tenant with
      | some row => rfl
      | none =>
          by_cases named : deployment = scope.deployment ∧ tenant = scope.tenant
          · simp [TenantRow.named, named]
          · simp [TenantRow.named, named]
    refine ⟨⟨⟨le_refl _, fun _ idle => (by cases idle), fun scope _ => ?_⟩, fun row member =>
      Or.inr ⟨row, member, rfl⟩⟩, ?_⟩
    · rw [stamps]
      cases stamp : t.tally.stamp scope with
      | some value => exact Or.inl rfl
      | none =>
          by_cases named : deployment = scope.deployment ∧ tenant = scope.tenant
          · rw [if_pos named]
            exact Or.inr ⟨rfl, rfl⟩
          · rw [if_neg named]
            exact Or.inl rfl
    · rw [stamps, if_pos ⟨rfl, rfl⟩]
      cases t.tally.stamp ⟨deployment, tenant⟩ with
      | some value => rfl
      | none => rfl

theorem enqueue_passes {capture : CapturedEffect} (h : enqueue encoding capture t = .ok t') :
    Passes t t' := by
  simp only [enqueue, bind_eq_ok] at h
  rcases h with ⟨_, _, _, _, runtime, _, _, _, _, _, found, _, ⟨grant, state⟩, _, _, _, h⟩
  split at h
  · simp only [bind_eq_ok] at h
    rcases h with ⟨_, _, h⟩
    cases h
    exact Passes.refl _
  · simp only [bind_eq_ok, withOutbox_ok] at h
    rcases h with ⟨_, _, _, rfl⟩
    rcases ensureTenant_passes capture.scope.deployment capture.scope.tenant t with ⟨passes, joined⟩
    refine ⟨passes.tally, fun row member => ?_⟩
    rcases List.mem_append.mp member with before | added
    · exact passes.rows row before
    · rw [List.mem_singleton] at added
      subst added
      exact Or.inl joined

/-- A capture that continues under the current deployment is of the same tenant there. -/
theorem resume_passes {generation contract id : String} {effective : EffectiveEffectDeployment}
    {version : Nat} {retry : Bool} (constrained : Constrained t.outbox)
    (tenants : ∀ row ∈ t.outbox, row.payload.scope.tenant = row.tenant)
    (h : resumeEffect encoding generation contract effective id version retry t = .ok t') : Passes t t' := by
  simp only [resumeEffect, bind_eq_ok] at h
  rcases h with ⟨source, sourced, grant, _, row, _, _, _, ⟨first, attempts⟩, _, round, _, _, _, _, _,
    ⟨changed, t₁⟩, updated, _, _, h⟩
  cases h
  simp only [effectOperatorSource, bind_eq_ok, need, context_eq_ok] at sourced
  rcases sourced with ⟨_, _, _, _, stored, found, _, _, _, _, _, _, sourced⟩
  cases sourced
  have named := List.find?_some found
  rcases ensureTenant_passes generation stored.payload.scope.tenant t with ⟨passes, joined⟩
  have rows : (ensureTenant generation stored.payload.scope.tenant t).outbox = t.outbox := by
    unfold ensureTenant
    split <;> rfl
  rcases updateOutbox_ok.mp updated with ⟨_, _, rfl⟩
  refine ⟨passes.tally, fun later member => ?_⟩
  rcases List.mem_map.mp member with ⟨old, here, rfl⟩
  rw [rows] at here
  by_cases chosen : decide (old.id = id ∧ old.fence < maxI64) = true
  · rw [if_pos chosen]
    simp only [decide_eq_true_eq] at chosen named
    have same : old = stored := Table.eq_of_key (·.id) constrained.ids here
      (List.mem_of_find?_eq_some found) (chosen.1.trans named.symm)
    subst same
    left
    have tenant := tenants old here
    rw [tenant] at joined
    rw [tenant]
    exact joined
  · rw [if_neg chosen]
    exact Or.inr ⟨old, here, rfl⟩

/-! ## Operators -/

theorem pauseEndpoint_passes {reason tenant endpoint : String}
    (h : pauseEndpoint reason tenant endpoint t = .ok t') : Passes t t' := by
  simp only [pauseEndpoint, bind_eq_ok] at h
  rcases h with ⟨⟨changed, t₁⟩, updated, h⟩
  cases h
  exact updateOutbox_passes updated fun _ => rfl

theorem pauseGrants_passes {slot reason : String} {rows : List GrantRow}
    (h : pauseGrants slot reason rows t = .ok t') : Passes t t' := by
  induction rows generalizing t with
  | nil =>
      cases h
      exact Passes.refl _
  | cons row rest ih =>
      unfold pauseGrants at h
      split at h
      · rcases bind_eq_ok.mp h with ⟨t₁, first, h⟩
        exact (pauseEndpoint_passes first).trans (ih h)
      · exact ih h

theorem pauseEffectSecretRows_passes {generation slot reason : String}
    (h : pauseEffectSecretRows generation slot reason t = .ok t') : Passes t t' := by
  simp only [pauseEffectSecretRows, bind_eq_ok] at h
  rcases h with ⟨_, _, h⟩
  exact pauseGrants_passes h

theorem updateGrant_passes {text : String} {condition : GrantRow → Bool} {change : GrantRow → GrantRow}
    (h : updateGrant text condition change t = .ok t') : Passes t t' := by
  simp only [updateGrant, bind_eq_ok] at h
  rcases h with ⟨_, _, h⟩
  cases h
  exact Passes.of_outbox rfl rfl rfl

theorem updateSecret_passes {deployment slot : String} {change : SecretRow → SecretRow}
    (h : updateSecret deployment slot change t = .ok t') : Passes t t' := by
  simp only [updateSecret, bind_eq_ok] at h
  rcases h with ⟨_, _, h⟩
  cases h
  exact Passes.of_outbox rfl rfl rfl

theorem Command.passes {command : Command} (constrained : Constrained t.outbox)
    (tenants : ∀ row ∈ t.outbox, row.payload.scope.tenant = row.tenant)
    (h : command.run encoding t = .ok t') : Passes t t' := by
  cases command with
  | cancel generation id =>
      simp only [Command.run, cancelEffect, bind_eq_ok] at h
      rcases h with ⟨_, _, _, _, ⟨changed, t₁⟩, updated, _, _, h⟩
      cases h
      exact updateOutbox_passes updated fun _ => rfl
  | revokeEndpoint generation tenant endpoint =>
      simp only [Command.run, revokeEffectEndpoint, bind_eq_ok] at h
      rcases h with ⟨_, _, t₁, granted, h⟩
      exact (updateGrant_passes granted).trans (pauseEndpoint_passes h)
  | revokeSecret generation slot =>
      simp only [Command.run, revokeEffectSecret, bind_eq_ok] at h
      rcases h with ⟨_, _, t₁, revoked, h⟩
      exact (updateSecret_passes revoked).trans (pauseEffectSecretRows_passes h)
  | grantEndpoint generation contract binding =>
      simp only [Command.run, grantEffectEndpoint, bind_eq_ok] at h
      rcases h with ⟨_, _, _, _, t₁, granted, t₂, paused, h⟩
      cases h
      have changed := (updateGrant_passes granted).trans (pauseEndpoint_passes paused)
      exact changed.trans (Passes.of_outbox rfl rfl rfl)
  | grantSecret generation contract slot effective =>
      simp only [Command.run, grantEffectSecret, bind_eq_ok] at h
      rcases h with ⟨_, _, _, _, t₁, granted, h⟩
      exact (updateSecret_passes granted).trans (pauseEffectSecretRows_passes h)
  | resume generation contract effective id version retry => exact resume_passes constrained tenants h
  | pauseForEpoch =>
      simp only [Command.run, pauseEffectsForEpoch, bind_eq_ok] at h
      rcases h with ⟨⟨changed, t₁⟩, updated, h⟩
      cases h
      have paused : Passes t t₁ := updateOutbox_passes updated fun _ => rfl
      exact paused.trans (Passes.of_outbox rfl rfl rfl)

/-! ## Claims -/

/-- The rank of a row that {lit}`next_claimable` orders by. -/
def OutboxRow.rank (t : EffectTables) (row : OutboxRow) : Int ×ₗ (Int ×ₗ String) :=
  toLex ((row.claimSeq t).getD 0, toLex (row.eligible, row.id))

theorem claimOrder_rank {a b : OutboxRow} (first : (a.claimSeq t).isSome = true)
    (second : (b.claimSeq t).isSome = true) : claimOrder t a b = decide (a.rank t ≤ b.rank t) := by
  rcases Option.isSome_iff_exists.mp first with ⟨x, hx⟩
  rcases Option.isSome_iff_exists.mp second with ⟨y, hy⟩
  simp [claimOrder, OutboxRow.rank, hx, hy, Prod.Lex.toLex_le_toLex]

/-- No row that could be taken is of a tenant with an older stamp. -/
theorem nextClaimable_oldest {generation : String} {now : Int} {active skipped : List String}
    {row other : OutboxRow} (joined : ∀ row ∈ t.outbox, (row.claimSeq t).isSome = true)
    (h : nextClaimable generation now active skipped t = some row) (member : other ∈ t.outbox)
    (claimable : other.claimable generation now active t = true) (free : other.id ∉ skipped) :
    ∃ x y, row.claimSeq t = some x ∧ other.claimSeq t = some y ∧ x ≤ y := by
  have here := (nextClaimable_some h).1
  have listed : other ∈ t.outbox.filter fun row => row.claimable generation now active t
      ∧ (row.claimSeq t).isSome = true ∧ row.id ∉ skipped := by
    rw [List.mem_filter]
    exact ⟨member, by simp [claimable, joined other member, free]⟩
  have least := Table.mergeSort_least (OutboxRow.rank t) (fun a ha b hb =>
    claimOrder_rank (joined a (List.mem_filter.mp ha).1) (joined b (List.mem_filter.mp hb).1)) h other listed
  rcases Option.isSome_iff_exists.mp (joined row here) with ⟨x, hx⟩
  rcases Option.isSome_iff_exists.mp (joined other member) with ⟨y, hy⟩
  rw [OutboxRow.rank, OutboxRow.rank, hx, hy, Prod.Lex.toLex_le_toLex] at least
  refine ⟨x, y, hx, hy, ?_⟩
  rcases least with less | ⟨same, _⟩
  · exact le_of_lt less
  · exact le_of_eq same

/-- What a claim takes: a row that is due or whose lease ran out and that is not live in this
process, of a tenant whose stamp is the oldest. -/
structure Takes (request : ClaimRequest) (taken : EffectClaim) (t : EffectTables) : Prop where
  row : ∃ row ∈ t.outbox, row.id = taken.id ∧ row.scope = taken.scope
    ∧ row.claimable request.generation t.watermark request.active t = true
  oldest : ∀ other ∈ t.outbox, other.claimable request.generation t.watermark request.active t = true →
    other.id ∉ request.skipped →
    ∃ x y, t.tally.stamp taken.scope = some x ∧ t.tally.stamp other.scope = some y ∧ x ≤ y

/-- The sequence advances by one, and stamps the tenant of the claim. -/
theorem advanceClaims_tally {generation tenant directory : String}
    (h : advanceClaims generation tenant directory t = .ok t') :
    t'.outbox = t.outbox ∧ t'.tally.counter = t.tally.counter + 1
      ∧ ∀ scope, t'.tally.stamp scope = if scope = ⟨generation, tenant⟩ then
          (t.tally.stamp scope).map fun _ => t.tally.counter + 1 else t.tally.stamp scope := by
  simp only [advanceClaims, bind_eq_ok, need, context_eq_ok] at h
  rcases h with ⟨queue, held, h⟩
  cases h
  have counter : t.tally.counter = queue.claimSeq := by
    rw [EffectTables.tally, (Option.filter_eq_some_iff.mp held).1]
    rfl
  refine ⟨rfl, by rw [counter]; rfl, fun scope => ?_⟩
  rw [counter]
  simp only [EffectTables.tally, List.find?_map, Option.map_map]
  have unnamed : ((fun row : TenantRow => row.named scope.deployment scope.tenant)
      ∘ fun row : TenantRow => if row.named generation tenant then
          { row with claimSeq := queue.claimSeq + 1 } else row)
      = fun row => row.named scope.deployment scope.tenant := by
    funext row
    simp only [Function.comp_apply]
    split <;> rfl
  rw [unnamed]
  cases found : t.tenants.find? fun row => row.named scope.deployment scope.tenant with
  | none => split <;> rfl
  | some row =>
      have named := List.find?_some found
      simp only [TenantRow.named, decide_eq_true_eq] at named
      by_cases same : scope = ⟨generation, tenant⟩
      · subst same
        simp [TenantRow.named, named]
      · have apart : ¬(row.deployment = generation ∧ row.tenant = tenant) := by
          rintro ⟨rfl, rfl⟩
          exact same (by rw [EffectScope.mk.injEq]; exact ⟨named.1.symm, named.2.symm⟩)
        simp [TenantRow.named, same, apart]

/-- An empty poll changes nothing; a claim stamps the tenant that it takes a row of. -/
theorem claim_takes {request : ClaimRequest} {found : Option EffectClaim} (stamped : Stamped t)
    (h : request.run t = .ok (found, t')) :
    Tally.Evolves (found.map (·.scope)) t.tally t'.tally ∧ Joins t t'
      ∧ ∀ taken, found = some taken → Takes request taken t := by
  simp only [ClaimRequest.run, Effects.claim, bind_eq_ok] at h
  rcases h with ⟨_, _, runtime, _, _, _, _, _, h⟩
  cases next : nextClaimable request.generation t.watermark request.active request.skipped t with
  | none =>
      rw [next] at h
      cases h
      exact ⟨Tally.Evolves.refl _, fun row member => Or.inr ⟨row, member, rfl⟩, fun taken same => by cases same⟩
  | some row =>
      rw [next] at h
      simp only [bind_eq_ok, effectInteger, integerColumn_ok, ensure_eq_ok, laterBy_ok] at h
      rcases h with ⟨t₁, advanced, _, ⟨_, rfl⟩, _, ⟨_, rfl⟩, _, _, _, ⟨_, _, rfl⟩, ⟨changed, t₂⟩,
        updated, _, _, h⟩
      cases h
      rcases nextClaimable_some next with ⟨member, claimable⟩
      have scope : row.scope = ⟨request.generation, row.tenant⟩ := by
        simp only [OutboxRow.claimable, decide_eq_true_eq] at claimable
        rw [OutboxRow.scope, claimable.1]
      rcases advanceClaims_tally advanced with ⟨outbox, counter, stamps⟩
      rcases updateOutbox_ok.mp updated with ⟨_, _, rfl⟩
      refine ⟨⟨?_, fun client served => ?_, fun client past => Or.inl ?_⟩, fun later here => ?_,
        fun taken same => ?_⟩
      · change t.tally.counter ≤ t₁.tally.counter
        omega
      · rw [Option.map_some, Option.some.injEq] at served
        change t.tally.counter < t₁.tally.counter ∧ t₁.tally.stamp client = some t₁.tally.counter
        rw [stamps, if_pos served.symm, ← served, ← scope, counter]
        rcases Option.isSome_iff_exists.mp (stamped.joined row member) with ⟨old, stamp⟩
        rw [stamp]
        exact ⟨by omega, rfl⟩
      · change t₁.tally.stamp client = t.tally.stamp client
        rw [stamps]
        exact if_neg fun same => past (by rw [same]; rfl)
      · rcases List.mem_map.mp here with ⟨old, there, rfl⟩
        rw [outbox] at there
        refine Or.inr ⟨old, there, ?_⟩
        split <;> rfl
      · cases same
        refine ⟨⟨row, member, rfl, scope, claimable⟩, fun other here offered free => ?_⟩
        rw [← scope]
        exact nextClaimable_oldest stamped.joined next here offered free

end Stamps

/-! ## Serial runs -/

/-- The tenant that an operation claims a row of. -/
def Operation.serves (w : World) : Operation → Option EffectScope
  | .claim request =>
      match request.run w.tables with
      | .ok (found, _) => found.map (·.scope)
      | .error _ => none
  | _ => none

/-- No other transaction holds a row locked. -/
def Operation.serial : Operation → Prop
  | .claim request => request.skipped = []
  | _ => True

/-- The serial runs over the outbox, from any rows of any number of tenants.  Activations and
changes of the runtime or of the limits write neither the sequence nor the tenants. -/
def effectTurns (encoding : Encoding) : Turns Operation World EffectScope where
  initial w := Tracked encoding w ∧ Stamped w.tables
  step operation w w' := operation.serial ∧ Step encoding operation w w'
    ∧ (operation = .administer → w'.tables.tenants = w.tables.tenants
      ∧ w'.tables.tally.counter = w.tables.tally.counter)
  serves operation w := operation.serves w

/-- The claim could take a row of the tenant that is due, or whose lease ran out, and that is not
live in this process. -/
def Waits (operation : Operation) (w : World) (scope : EffectScope) : Prop :=
  ∃ request, operation = .claim request ∧ ∃ row ∈ w.tables.outbox, row.scope = scope
    ∧ row.claimable request.generation w.tables.watermark request.active w.tables = true

/-- What the claims of a serial run do for the tenants. -/
structure ClaimsFair (encoding : Encoding) : Prop where
  /-- No tenant is claimed twice while another, of which the second claim could have taken a
  row, was not claimed in between. -/
  turns : (effectTurns encoding).Fair (fun _ _ => True) Waits
  /-- The sequences that claims stamp never repeat. -/
  stamps : (effectTurns encoding).StampsRise fun w => w.tables.tally
  /-- A claimed row is due or its lease ran out, and it is not live in this process. -/
  due : ∀ w (request : ClaimRequest) taken t, (effectTurns encoding).system.Reachable w →
    request.run w.tables = .ok (some taken, t) →
    ∃ row ∈ w.tables.outbox, row.id = taken.id ∧ row.scope = taken.scope ∧ row.id ∉ request.active
      ∧ (row.state = .pending ∧ row.eligible ≤ w.tables.watermark
        ∨ row.state = .running ∧ row.lease ≤ w.tables.watermark)

section Turns

variable {encoding : Encoding} {w w' : World}

/-- Every step stamps the tenant that it claims a row of, and no other. -/
theorem Step.tally {operation : Operation} (tracked : Tracked encoding w) (stamped : Stamped w.tables)
    (h : (effectTurns encoding).step operation w w') :
    Tally.Evolves (operation.serves w) w.tables.tally w'.tables.tally ∧ Joins w.tables w'.tables := by
  have constrained := tracked.constrained
  have passes : Passes w.tables w'.tables →
      Tally.Evolves none w.tables.tally w'.tables.tally ∧ Joins w.tables w'.tables :=
    fun passes => ⟨passes.tally, passes.rows⟩
  rcases h with ⟨_, step, administers⟩
  cases step with
  | enqueue capture _ t ran => exact passes (enqueue_passes ran)
  | claimed request _ claim t ran =>
      rcases claim_takes stamped ran with ⟨tally, rows, _⟩
      refine ⟨?_, rows⟩
      rw [Operation.serves, ran]
      exact tally
  | unclaimed request _ found t ran =>
      rcases claim_takes stamped ran with ⟨tally, rows, _⟩
      refine ⟨?_, rows⟩
      rw [Operation.serves, ran]
      exact tally
  | answered claim _ answer t handed ran => exact passes (preflight_passes ran)
  | unanswered claim _ answer t handed ran => exact passes (preflight_passes ran)
  | failed claim _ handed => exact passes (Passes.refl _)
  | release claim _ t handed ran => exact passes (release_passes ran)
  | finalize claim result _ outcome t handed ran => exact passes (finalize_passes ran)
  | command command _ t ran =>
      exact passes (Command.passes constrained (fun row member => (tracked.rows row member).captured.tenant) ran)
  | tick _ wall later => exact passes (Passes.of_outbox rfl rfl rfl)
  | administer _ t outbox watermark =>
      exact passes (Passes.of_outbox outbox (administers rfl).1 (administers rfl).2)

theorem stamped_invariant :
    (effectTurns encoding).system.Invariant fun w => Tracked encoding w ∧ Stamped w.tables where
  initial _ start := start
  step w w' _ holds step := by
    rcases step with ⟨operation, step⟩
    rcases Step.tally holds.1 holds.2 step with ⟨tally, rows⟩
    exact ⟨holds.1.progress (step.2.1.progress holds.1.constrained), holds.2.joins tally rows⟩

theorem effects_stamping : (effectTurns encoding).Stamping fun w => w.tables.tally where
  sound _ start := start.2.sound
  evolves w w' operation reachable step := by
    rcases stamped_invariant.holds reachable with ⟨tracked, stamped⟩
    exact (Step.tally tracked stamped step).1

/-- A claim that serves a tenant took a row of it. -/
theorem serves_claim {operation : Operation} {scope : EffectScope} (h : operation.serves w = some scope) :
    ∃ request taken t, operation = .claim request ∧ request.run w.tables = .ok (some taken, t)
      ∧ taken.scope = scope := by
  cases operation with
  | claim request =>
      cases ran : request.run w.tables with
      | error failure =>
          rw [Operation.serves, ran] at h
          cases h
      | ok result =>
          rcases result with ⟨found, t⟩
          rw [Operation.serves, ran] at h
          rcases Option.map_eq_some_iff.mp h with ⟨taken, rfl, same⟩
          exact ⟨request, taken, t, rfl, ran, same⟩
  | _ => cases h

theorem effect_claims_fair (encoding : Encoding) : ClaimsFair encoding where
  turns := by
    refine effects_stamping.fair fun w w' operation scope other reachable step serves waits => ?_
    have stamped := (stamped_invariant.holds reachable).2
    rcases serves_claim serves with ⟨request, taken, t, rfl, ran, rfl⟩
    have takes := (claim_takes stamped ran).2.2 taken rfl
    rcases waits with ⟨_, same, row, member, named, claimable⟩
    cases same
    have serial : request.skipped = [] := step.1
    have free : row.id ∉ request.skipped := by
      rw [serial]
      exact List.not_mem_nil
    rcases takes.oldest row member claimable free with ⟨x, y, stamp, stamp', le⟩
    refine ⟨y, named ▸ stamp', fun latest here => ?_⟩
    rw [stamp] at here
    cases here
    exact le
  stamps := effects_stamping.stamps_rise
  due := by
    intro w request taken t reachable ran
    have takes := (claim_takes (stamped_invariant.holds reachable).2 ran).2.2 taken rfl
    rcases takes.row with ⟨row, member, id, scope, claimable⟩
    simp only [OutboxRow.claimable, decide_eq_true_eq] at claimable
    exact ⟨row, member, id, scope, claimable.2.2.1, claimable.2.1⟩

end Turns

end Noxide.Effects
