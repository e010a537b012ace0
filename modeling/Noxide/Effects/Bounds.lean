import Noxide.Effects.Workers
import Noxide.Library.Quota

/-!
# Outbox bounds

How many rows of the outbox are active.  A row becomes active by its capture, and a dead one
again by an operator's retry.  Both count the active rows first.  An activation replaces the
limits at any time, also below what is active.

Main results:

- Theorem {lit}`activateEffects_run`: an activation is a run of the outbox.
- Theorem {lit}`Shift.quotas`: every transaction keeps the bounds.
- Theorem {lit}`outbox_bounded`: the bounds in every interleaving, under changing limits.
-/

namespace Noxide.Effects

open Checked

/-! ## Activation -/

def maxPendingEffects : Int := 1000

structure EffectLimits where
  pendingPerApp : Int
  pendingPerTenant : Int
  workerConcurrency : Int
  deriving DecidableEq, Repr

def EffectLimits.validate (limits : EffectLimits) : Result Unit :=
  check "effect limits exceed framework ceilings"
    ((1 ≤ limits.pendingPerApp ∧ limits.pendingPerApp ≤ maxPendingEffects)
      ∧ (1 ≤ limits.pendingPerTenant ∧ limits.pendingPerTenant ≤ limits.pendingPerApp)
      ∧ (1 ≤ limits.workerConcurrency ∧ limits.workerConcurrency ≤ maxEffectConcurrency))

/-- {lit}`SET_QUEUE_LIMITS` on the queue row. -/
def QueueRow.limited (row : QueueRow) (limits : EffectLimits) : QueueRow :=
  { row with pendingLimit := limits.pendingPerApp, tenantLimit := limits.pendingPerTenant,
             concurrency := limits.workerConcurrency }

/-- The queue row of a first activation, or of one that finds its own or, in a restore fork,
another directory. -/
def adoptQueue (limits : EffectLimits) (storeId directory : String) (restoreFork : Bool) (t : EffectTables) :
    Result EffectTables :=
  match t.queue with
  | none => .ok { t with queue := some (QueueRow.limited ⟨0, storeId, directory, 0, 0, 0⟩ limits) }
  | some row => do
      check "invalid effect store identity" (opaqueText row.storeId = true)
      if row.ownerDirectory ≠ directory then do
        check "effect database belongs to another owner directory" (restoreFork = true)
        let t := { t with queue := some { row with storeId := storeId, ownerDirectory := directory } }
        let t ← pauseEffectsForEpoch t
        return { t with queue := t.queue.map (·.limited limits) }
      else return { t with queue := t.queue.map (·.limited limits) }

/-- {lit}`UPSERT_SECRET`. -/
def upsertSecret (row : SecretRow) (t : EffectTables) : EffectTables :=
  let condition : SecretRow → Bool := fun other => decide (other.deployment = row.deployment ∧ other.slot = row.slot)
  if t.secrets.any condition then { t with secrets := Table.update condition (fun _ => row) t.secrets }
  else { t with secrets := t.secrets ++ [row] }

def installSecrets (generation contract epoch : String) (state : GrantState) :
    List String → EffectTables → Result EffectTables
  | [], t => .ok t
  | slot :: rest, t =>
      match t.secrets.find? fun row => row.deployment = generation ∧ row.slot = slot with
      | none =>
          installSecrets generation contract epoch state rest
            (upsertSecret ⟨generation, slot, 1, contract, epoch, state⟩ t)
      | some row =>
          if row.contract = contract ∧ row.epoch = epoch then
            installSecrets generation contract epoch state rest t
          else do
            let version ← effectInteger row.version
            check "secret grant version exhausted" (version + 1 ≤ maxI64)
            installSecrets generation contract epoch state rest
              (upsertSecret ⟨generation, slot, version + 1, contract, epoch, state⟩ t)

/-- {lit}`UPSERT_GRANT`. -/
def upsertGrant (row : GrantRow) (t : EffectTables) : EffectTables :=
  let condition : GrantRow → Bool := fun other => decide (other.deployment = row.deployment
    ∧ other.tenant = row.tenant ∧ other.endpoint = row.endpoint)
  if t.grants.any condition then { t with grants := Table.update condition (fun _ => row) t.grants }
  else { t with grants := t.grants ++ [row] }

def installGrants (generation contract epoch : String) (state : GrantState) :
    List EffectiveEffectGrant → EffectTables → Result EffectTables
  | [], t => .ok t
  | binding :: rest, t =>
      match t.grants.find? fun row => row.deployment = generation ∧ row.tenant = binding.tenant
          ∧ row.endpoint = binding.endpoint.name with
      | none =>
          installGrants generation contract epoch state rest
            (upsertGrant ⟨generation, binding.tenant, binding.endpoint.name, 1, contract, epoch, state, binding⟩ t)
      | some row =>
          if row.contract = contract ∧ row.epoch = epoch then do
            check "same effect approval has different binding" (row.declaration = binding)
            installGrants generation contract epoch state rest t
          else do
            let version ← effectInteger row.version
            check "endpoint version exhausted" (version + 1 ≤ maxI64)
            installGrants generation contract epoch state rest
              (upsertGrant ⟨generation, binding.tenant, binding.endpoint.name, version + 1, contract, epoch,
                state, binding⟩ t)

/-- The source's {lit}`activate_effects`, with the store identity it may draw. -/
def activateEffects (generation contract storeId : String)
    (effective : Option (EffectLimits × EffectiveEffectDeployment)) (ownerDirectory : Option String)
    (restoreFork : Bool) (t : EffectTables) : Result EffectTables := do
  check "invalid effect activation identity" (opaqueText generation = true ∧ opaqueText contract = true)
  match effective with
  | none => return t
  | some (limits, effective) => do
      limits.validate
      let directory ← need "effect owner directory was not prepared" ownerDirectory
      check "invalid effect owner directory proof" (opaqueText directory = true)
      let runtime ← need "shared effect runtime unavailable"
        (t.runtime.current.filter fun row => row.deployment = generation)
      check "effect approval differs from shared runtime"
        (runtime.contract = contract ∧ opaqueText runtime.epoch = true)
      let t ← adoptQueue limits storeId directory restoreFork t
      -- a paused generation stays paused
      let state := if runtime.state = .active then GrantState.active else .revoked
      let t ← installSecrets generation contract runtime.epoch state effective.secretSlots t
      installGrants generation contract runtime.epoch state effective.grants t

/-! ## Limits and counts -/

def QueueRow.limits (row : QueueRow) : EffectLimits := ⟨row.pendingLimit, row.tenantLimit, row.concurrency⟩

def EffectTables.limits (t : EffectTables) : Option EffectLimits := t.queue.map QueueRow.limits

/-- The pending, running and paused rows. -/
def EffectTables.active (t : EffectTables) : List OutboxRow := t.outbox.filter (·.isActive)

def EffectTables.activeOf (t : EffectTables) (tenant : String) : List OutboxRow :=
  t.active.filter fun row => row.tenant = tenant

/-- What counts of an active row: its identity and its tenant. -/
def OutboxRow.member (row : OutboxRow) : String × String := (row.id, row.tenant)

def EffectTables.members (t : EffectTables) : List (String × String) := t.active.map OutboxRow.member

/-- The member found room under limits that are known to have been in force since its capture. -/
def Room (known : String → EffectLimits → Prop) (a : String × String) (others : List (String × String)) : Prop :=
  ∃ l, known a.1 l ∧ l.pendingPerApp ≤ maxPendingEffects ∧ (others.length : Int) < l.pendingPerApp
    ∧ ((others.countP fun b => b.2 = a.2 : Nat) : Int) < l.pendingPerTenant

/-- The bounds of the outbox: its active rows found room in the order they became active. -/
def Quotas (t : EffectTables) (known : String → EffectLimits → Prop) : Prop :=
  Quota.Kept (Room known) t.members

/-- What one transaction does to the active rows: some of them stay, or one more becomes active
where the limits in force leave room for it. -/
inductive Shift (t t' : EffectTables) : Prop where
  | remain (members : ∀ a ∈ t'.members, a ∈ t.members) : Shift t t'
  | enter (row : OutboxRow) (here : row ∈ t'.outbox) (members : ∀ a, a ∈ t'.members ↔ a = row.member ∨ a ∈ t.members)
      (fresh : row.member ∉ t.members) (limits : t'.limits = t.limits)
      (l : EffectLimits) (force : t.limits = some l) (valid : l.pendingPerApp ≤ maxPendingEffects)
      (total : (t.active.length : Int) < l.pendingPerApp)
      (tenant : ((t.activeOf row.tenant).length : Int) < l.pendingPerTenant) : Shift t t'

section Transactions

variable {encoding : Encoding} {t t' : EffectTables} {known : String → EffectLimits → Prop}

/-- More room beside fewer others. -/
theorem Room.fewer (a : String × String) (others fewer : List (String × String)) (sub : fewer.Sublist others)
    (room : Room known a others) : Room known a fewer := by
  rcases room with ⟨l, here, valid, total, tenant⟩
  have short := sub.length_le
  have count := List.Sublist.countP_le (p := fun b : String × String => decide (b.2 = a.2)) sub
  exact ⟨l, here, valid, by omega, by omega⟩

theorem members_nodup (constrained : Constrained t.outbox) : t.members.Nodup := by
  have ids : (t.active.map (·.id)).Nodup := constrained.ids.sublist (List.filter_sublist.map _)
  refine List.Nodup.of_map Prod.fst ?_
  rw [EffectTables.members, List.map_map]
  exact ids

theorem mem_members {a : String × String} :
    a ∈ t.members ↔ ∃ row ∈ t.outbox, row.isActive = true ∧ row.member = a := by
  rw [EffectTables.members, List.mem_map]
  constructor
  · rintro ⟨row, here, rfl⟩
    rcases List.mem_filter.mp here with ⟨member, active⟩
    exact ⟨row, member, active, rfl⟩
  · rintro ⟨row, member, active, rfl⟩
    exact ⟨row, List.mem_filter.mpr ⟨member, active⟩, rfl⟩

/-- The other members of a tenant are its active rows. -/
theorem members_tenant (tenant : String) :
    t.members.countP (fun b => b.2 = tenant) = (t.activeOf tenant).length := by
  rw [EffectTables.members, List.countP_map, EffectTables.activeOf, List.countP_eq_length_filter]
  rfl

/-- Every transaction keeps the bounds, where the limits before it are known for the rows that
are there and afterwards. -/
theorem Shift.quotas (shift : Shift t t') (constrained : Constrained t.outbox)
    (constrained' : Constrained t'.outbox) (quotas : Quotas t known)
    (force : ∀ row ∈ t'.outbox, ∀ l, t.limits = some l → t'.limits = some l → known row.id l) :
    Quotas t' known := by
  cases shift with
  | remain members =>
      exact Quota.Kept.remain Room.fewer quotas (members_nodup constrained) (members_nodup constrained') members
  | enter row here members fresh limits l current valid total tenant =>
      refine Quota.Kept.enter quotas (members_nodup constrained) (members_nodup constrained') members fresh
        fun order perm => ?_
      refine ⟨l, force row here l current (limits.trans current), valid, ?_, ?_⟩
      · rw [perm.length_eq, EffectTables.members, List.length_map]
        exact total
      · rw [perm.countP_eq]
        exact (congrArg Int.ofNat (members_tenant row.tenant)).trans_lt tenant

/-! ## Transactions -/

theorem RowMove.member {now : Int} {move : Move} {r r' : OutboxRow} (h : RowMove now move r r') :
    r'.member = r.member := by
  cases h <;> rfl

/-- Only a retry makes a row active again. -/
theorem RowMove.active {now : Int} {move : Move} {r r' : OutboxRow} (h : RowMove now move r r')
    (active : r'.isActive = true) : r.isActive = true ∨ move = .reschedule true ∧ r.state = .dead := by
  unfold OutboxRow.isActive
  cases h with
  | claim claim r id scope due fence lease exhausted =>
      rcases due with ⟨pending, _⟩ | ⟨running, _⟩
      · rw [pending]
        exact .inl rfl
      · rw [running]
        exact .inl rfl
  | finish claim r state reason eligible held running stopped later =>
      rw [running]
      exact .inl rfl
  | release claim r held running =>
      rw [running]
      exact .inl rfl
  | deliver claim r eligible held epoch later => cases active
  | cancel r cancellable => cases active
  | resume r generation contract grant round paused allowance =>
      rw [paused]
      exact .inl rfl
  | retry r generation contract grant round stopped =>
      rcases stopped with dead | paused
      · exact .inr ⟨rfl, dead⟩
      · rw [paused]
        exact .inl rfl

/-- A row that moves without becoming active. -/
theorem Moved.remain {move : Move} {r r' : OutboxRow} (h : Moved move r r' t t')
    (active : r'.isActive = true → r.isActive = true) : Shift t t' := by
  refine .remain fun a member => ?_
  rcases mem_members.mp member with ⟨row, here, counted, rfl⟩
  rcases h.replaced.mem here with rfl | here
  · rw [h.row.member]
    exact mem_members.mpr ⟨r, h.replaced.mem_before, active counted, rfl⟩
  · exact mem_members.mpr ⟨row, here, counted, rfl⟩

theorem Moved.shift {move : Move} {r r' : OutboxRow} (h : Moved move r r' t t')
    (other : move ≠ .reschedule true) : Shift t t' := by
  refine h.remain fun active => ?_
  rcases h.row.active active with still | ⟨retry, _⟩
  · exact still
  · exact absurd retry other

theorem Pauses.shift (h : Pauses t t') : Shift t t' := by
  refine .remain fun a member => ?_
  rcases mem_members.mp member with ⟨row, here, counted, rfl⟩
  have backwards : List.Forall₂ (flip Paused) t'.outbox t.outbox := h.rows.flip
  rcases Checked.forall₂_mem_left backwards here with ⟨old, before, paused⟩
  cases paused with
  | same => exact mem_members.mpr ⟨_, before, counted, rfl⟩
  | paused reason pausable =>
      refine mem_members.mpr ⟨old, before, ?_, rfl⟩
      unfold OutboxRow.pausable at pausable
      unfold OutboxRow.isActive
      split at pausable <;> rename_i state
      · rw [state]
      · rw [state]
      all_goals cases pausable

theorem Shift.of_outbox (outbox : t'.outbox = t.outbox) : Shift t t' := by
  refine .remain fun a member => ?_
  rw [mem_members, outbox] at member
  exact mem_members.mpr member

/-- The quota check counts every row. -/
theorem withinQuota_exact {tenant : String} {u : Unit} (h : withinQuota tenant t = .ok u) :
    ∃ l, t.limits = some l ∧ l.pendingPerApp ≤ maxPendingEffects ∧ (t.active.length : Int) < l.pendingPerApp
      ∧ ((t.activeOf tenant).length : Int) < l.pendingPerTenant := by
  simp only [withinQuota, need, check, bind_eq_ok, context_eq_ok, ensure_eq_ok] at h
  rcases h with ⟨queue, stored, total, count, valid, _⟩
  have limit : maxPendingEffects = 1000 := rfl
  have short : (t.active.take 1001).length < 1001 := by
    change ((t.active.take 1001).length : Int) < queue.pendingLimit at total
    omega
  have all : t.active.take 1001 = t.active := by
    rw [List.length_take] at short
    exact List.take_of_length_le (by omega)
  change ((t.active.take 1001).length : Int) < queue.pendingLimit at total
  change (((t.active.take 1001).countP fun row => decide (row.tenant = tenant) : Nat) : Int) < queue.tenantLimit
    at count
  rw [all] at total count
  refine ⟨queue.limits, ?_, valid, total, ?_⟩
  · rw [EffectTables.limits, stored]
    rfl
  · rw [List.countP_eq_length_filter] at count
    exact count

theorem ensureTenant_limits (deployment tenant : String) (t : EffectTables) :
    (ensureTenant deployment tenant t).limits = t.limits := by
  unfold ensureTenant
  split <;> rfl

theorem ensureTenant_outbox (deployment tenant : String) (t : EffectTables) :
    (ensureTenant deployment tenant t).outbox = t.outbox := by
  unfold ensureTenant
  split <;> rfl

/-- A capture that is stored counted the rows before it. -/
theorem enqueue_shift {capture : CapturedEffect} (h : enqueue encoding capture t = .ok t') : Shift t t' := by
  simp only [enqueue, bind_eq_ok] at h
  rcases h with ⟨_, _, _, _, runtime, _, _, _, _, _, found, _, ⟨grant, state⟩, _, _, _, h⟩
  split at h
  · simp only [bind_eq_ok] at h
    rcases h with ⟨_, _, h⟩
    cases h
    exact Shift.of_outbox rfl
  · rename_i absent
    simp only [bind_eq_ok, withOutbox_ok] at h
    rcases h with ⟨_, quota, constrained, rfl⟩
    rcases withinQuota_exact quota with ⟨l, force, valid, total, tenant⟩
    have outbox := ensureTenant_outbox capture.scope.deployment capture.scope.tenant t
    refine Shift.enter (capture.row encoding t.watermark) ?_ (fun a => ?_) ?_
      (ensureTenant_limits capture.scope.deployment capture.scope.tenant t) l force valid total tenant
    · exact List.mem_append_right _ (List.mem_singleton.mpr rfl)
    · rw [mem_members, mem_members]
      simp only [outbox, List.mem_append, List.mem_singleton]
      constructor
      · rintro ⟨row, here | rfl, active, rfl⟩
        · exact .inr ⟨row, here, active, rfl⟩
        · exact .inl rfl
      · rintro (rfl | ⟨row, here, active, rfl⟩)
        · exact ⟨_, .inr rfl, rfl, rfl⟩
        · exact ⟨row, .inl here, active, rfl⟩
    · rw [mem_members]
      rintro ⟨row, here, _, same⟩
      have known : row.id = capture.id encoding := congrArg Prod.fst same
      have found : row ∈ t.outbox.filter fun row => row.id = capture.id encoding :=
        List.mem_filter.mpr ⟨here, decide_eq_true known⟩
      rw [absent] at found
      cases found

/-- What a resume or retry that succeeds has checked of its row. -/
theorem resume_quota {generation contract id : String} {effective : EffectiveEffectDeployment} {version : Nat}
    {retry : Bool} (h : resumeEffect encoding generation contract effective id version retry t = .ok t') :
    t'.limits = t.limits ∧ ∃ row ∈ t.outbox, row.id = id ∧ (row.state = .paused
      ∨ ∃ u, withinQuota row.payload.scope.tenant t = .ok u) := by
  simp only [resumeEffect, bind_eq_ok] at h
  rcases h with ⟨source, sourced, grant, _, row, found, _, _, ⟨first, attempts⟩, _, round, _, _, _, u, quota,
    ⟨changed, t₁⟩, updated, _, _, h⟩
  cases h
  have stored := context_eq_ok.mp found
  rcases updateOutbox_ok.mp updated with ⟨_, _, same⟩
  refine ⟨?_, row, List.mem_of_find?_eq_some stored, by simpa using List.find?_some stored, ?_⟩
  · rw [same]
    exact ensureTenant_limits _ _ _
  · by_cases paused : row.state = .paused
    · exact .inl paused
    · refine .inr ⟨u, ?_⟩
      simp only [checkOperatorQuota, bind_eq_ok, decide_eq_true_eq] at quota
      rcases quota with ⟨_, _, quota⟩
      rw [if_pos paused] at quota
      have owner : source = row.payload := by
        simp only [effectOperatorSource, bind_eq_ok] at sourced
        rcases sourced with ⟨_, _, _, _, other, again, _, _, _, _, _, _, result⟩
        cases result
        rw [context_eq_ok.mp again] at stored
        cases stored
        rfl
      rw [owner] at quota
      exact quota

/-- A resume or retry of a dead row counts the active rows. -/
theorem resume_shift {generation contract id : String} {effective : EffectiveEffectDeployment} {version : Nat}
    {retry : Bool} (constrained : Constrained t.outbox)
    (captured : ∀ row ∈ t.outbox, row.payload.scope.tenant = row.tenant)
    (h : resumeEffect encoding generation contract effective id version retry t = .ok t') : Shift t t' := by
  rcases resume_moves constrained h with ⟨r, r', target, moved⟩
  by_cases stays : r'.isActive = true → r.isActive = true
  · exact moved.remain stays
  · rw [Classical.not_imp] at stays
    rcases resume_quota h with ⟨limits, row, here, named, checked⟩
    have same : row = r := Table.eq_of_key (·.id) constrained.ids here moved.replaced.mem_before
      (named.trans target.symm)
    have inactive : r.isActive = false := by simpa using stays.2
    rcases checked with paused | ⟨u, quota⟩
    · rw [same] at paused
      rw [OutboxRow.isActive, paused] at inactive
      cases inactive
    · rw [captured row here, same] at quota
      rcases withinQuota_exact quota with ⟨l, force, valid, total, tenant⟩
      have id_kept : r'.id = r.id := congrArg Prod.fst moved.row.member
      have tenant_kept : r'.tenant = r.tenant := congrArg Prod.snd moved.row.member
      refine Shift.enter r' moved.replaced.mem_after (fun a => ?_) (fun member => ?_) limits l force valid total
        (by rw [tenant_kept]; exact tenant)
      · constructor
        · intro member
          rcases mem_members.mp member with ⟨other, there, active, rfl⟩
          rcases moved.replaced.mem there with rfl | there
          · exact .inl rfl
          · exact .inr (mem_members.mpr ⟨other, there, active, rfl⟩)
        · rintro (rfl | member)
          · exact mem_members.mpr ⟨r', moved.replaced.mem_after, stays.1, rfl⟩
          · rcases mem_members.mp member with ⟨other, there, active, rfl⟩
            rcases moved.replaced.mem_old there with rfl | there
            · rw [inactive] at active
              cases active
            · exact mem_members.mpr ⟨other, there, active, rfl⟩
      · rcases mem_members.mp member with ⟨other, there, active, key⟩
        have twin : other = r := Table.eq_of_key (·.id) constrained.ids there moved.replaced.mem_before
          ((congrArg Prod.fst key).trans id_kept)
        rw [twin, inactive] at active
        cases active

theorem Command.shift {command : Command} (constrained : Constrained t.outbox)
    (captured : ∀ row ∈ t.outbox, row.payload.scope.tenant = row.tenant)
    (h : command.run encoding t = .ok t') : Shift t t' := by
  cases command with
  | cancel generation id =>
      rcases cancel_moves h with ⟨r, _, moved⟩
      exact moved.shift (fun same => (by cases same))
  | revokeEndpoint generation tenant endpoint => exact (revokeEffectEndpoint_pauses constrained h).shift
  | revokeSecret generation slot => exact (revokeEffectSecret_pauses constrained h).shift
  | grantEndpoint generation contract binding => exact (grantEffectEndpoint_pauses constrained h).shift
  | grantSecret generation contract slot effective => exact (grantEffectSecret_pauses constrained h).shift
  | resume generation contract effective id version retry => exact resume_shift constrained captured h
  | pauseForEpoch => exact (pauseEffectsForEpoch_pauses h).shift

theorem Preflighted.shift {claim : EffectClaim} {answer : Preflight}
    (h : Preflighted encoding claim t answer t') : Shift t t' := by
  cases h with
  | settled outcome => exact Shift.of_outbox rfl
  | sent r member held running first live => exact Shift.of_outbox rfl
  | finished outcome r state reason eligible _ moved settles => exact moved.shift (fun same => (by cases same))

theorem Step.shift {operation : Operation} {w w' : World} (tracked : Tracked encoding w)
    (step : Step encoding operation w w') : Shift w.tables w'.tables := by
  have constrained := tracked.constrained
  cases step with
  | enqueue capture _ t ran => exact enqueue_shift ran
  | claimed request _ claim t ran =>
      rcases claim_moves constrained ran with ⟨_, rfl⟩ | ⟨taken, r, _, moved⟩
      · exact Shift.of_outbox rfl
      · exact moved.shift (fun same => (by cases same))
  | unclaimed request _ found t ran =>
      rcases claim_moves constrained ran with ⟨_, rfl⟩ | ⟨taken, r, _, moved⟩
      · exact Shift.of_outbox rfl
      · exact moved.shift (fun same => (by cases same))
  | answered claim _ answer t handed ran => exact (preflight_moves constrained ran).shift
  | unanswered claim _ answer t handed ran => exact (preflight_moves constrained ran).shift
  | failed claim _ handed => exact Shift.of_outbox rfl
  | release claim _ t handed ran =>
      rcases release_moves constrained ran with rfl | ⟨r, moved⟩
      · exact Shift.of_outbox rfl
      · exact moved.shift (fun same => (by cases same))
  | finalize claim result _ outcome t handed ran =>
      cases finalize_moves constrained ran with
      | unchanged => exact Shift.of_outbox rfl
      | finished _ r state reason eligible _ moved retried => exact moved.shift (fun same => (by cases same))
      | delivered r eligible _ moved => exact moved.shift (fun same => (by cases same))
  | command command _ t ran =>
      exact Command.shift constrained
        (fun row member => (tracked.rows row member).captured.tenant) ran
  | tick _ wall later => exact Shift.of_outbox rfl
  | administer _ t outbox watermark => exact Shift.of_outbox outbox

/-! ## Activations are runs -/

theorem upsertSecret_outbox (row : SecretRow) (t : EffectTables) :
    (upsertSecret row t).outbox = t.outbox ∧ (upsertSecret row t).watermark = t.watermark := by
  simp only [upsertSecret]
  split <;> exact ⟨rfl, rfl⟩

theorem installSecrets_outbox {generation contract epoch : String} {state : GrantState} {slots : List String}
    (h : installSecrets generation contract epoch state slots t = .ok t') :
    t'.outbox = t.outbox ∧ t'.watermark = t.watermark := by
  induction slots generalizing t with
  | nil =>
      cases h
      exact ⟨rfl, rfl⟩
  | cons slot rest ih =>
      have upserts := fun row => upsertSecret_outbox row t
      unfold installSecrets at h
      split at h
      · rename_i missing
        rcases ih h with ⟨outbox, watermark⟩
        exact ⟨outbox.trans (upserts _).1, watermark.trans (upserts _).2⟩
      · split at h
        · exact ih h
        · simp only [bind_eq_ok] at h
          rcases h with ⟨version, _, _, _, h⟩
          rcases ih h with ⟨outbox, watermark⟩
          exact ⟨outbox.trans (upserts _).1, watermark.trans (upserts _).2⟩

theorem upsertGrant_outbox (row : GrantRow) (t : EffectTables) :
    (upsertGrant row t).outbox = t.outbox ∧ (upsertGrant row t).watermark = t.watermark := by
  simp only [upsertGrant]
  split <;> exact ⟨rfl, rfl⟩

theorem installGrants_outbox {generation contract epoch : String} {state : GrantState}
    {bindings : List EffectiveEffectGrant}
    (h : installGrants generation contract epoch state bindings t = .ok t') :
    t'.outbox = t.outbox ∧ t'.watermark = t.watermark := by
  induction bindings generalizing t with
  | nil =>
      cases h
      exact ⟨rfl, rfl⟩
  | cons binding rest ih =>
      have upserts := fun row => upsertGrant_outbox row t
      unfold installGrants at h
      split at h
      · rename_i missing
        rcases ih h with ⟨outbox, watermark⟩
        exact ⟨outbox.trans (upserts _).1, watermark.trans (upserts _).2⟩
      · split at h
        · simp only [bind_eq_ok] at h
          rcases h with ⟨_, _, h⟩
          exact ih h
        · simp only [bind_eq_ok] at h
          rcases h with ⟨version, _, _, _, h⟩
          rcases ih h with ⟨outbox, watermark⟩
          exact ⟨outbox.trans (upserts _).1, watermark.trans (upserts _).2⟩

theorem administer_step {w : World} (outbox : t'.outbox = w.tables.outbox)
    (watermark : t'.watermark = w.tables.watermark) :
    Relation.ReflTransGen (outboxSystem encoding).step w { w with tables := t' } :=
  Relation.ReflTransGen.single ⟨.administer, trivial, Step.administer w t' outbox watermark⟩

/-- A fork pauses what the other directory left. -/
theorem adoptQueue_run {limits : EffectLimits} {storeId directory : String} {restoreFork : Bool} {w : World}
    (h : adoptQueue limits storeId directory restoreFork w.tables = .ok t') :
    Relation.ReflTransGen (outboxSystem encoding).step w { w with tables := t' } := by
  unfold adoptQueue at h
  split at h
  · cases h
    exact administer_step rfl rfl
  · rename_i row _
    simp only [bind_eq_ok] at h
    rcases h with ⟨_, _, h⟩
    split at h
    · simp only [bind_eq_ok] at h
      rcases h with ⟨_, _, t₁, paused, h⟩
      cases h
      have renamed : Relation.ReflTransGen (outboxSystem encoding).step w { w with tables :=
          { w.tables with queue := some { row with storeId := storeId, ownerDirectory := directory } } } :=
        administer_step rfl rfl
      have pauses := renamed.tail ⟨.command .pauseForEpoch, trivial, Step.command .pauseForEpoch _ t₁ paused⟩
      exact pauses.trans (administer_step rfl rfl)
    · cases h
      exact administer_step rfl rfl

/-- An activation is a run of the outbox. -/
theorem activateEffects_run {generation contract storeId : String}
    {effective : Option (EffectLimits × EffectiveEffectDeployment)} {ownerDirectory : Option String}
    {restoreFork : Bool} {w : World}
    (h : activateEffects generation contract storeId effective ownerDirectory restoreFork w.tables = .ok t') :
    Relation.ReflTransGen (outboxSystem encoding).step w { w with tables := t' } := by
  simp only [activateEffects, bind_eq_ok] at h
  rcases h with ⟨_, _, h⟩
  cases effective with
  | none =>
      cases h
      exact Relation.ReflTransGen.refl
  | some approved =>
      simp only [bind_eq_ok] at h
      rcases h with ⟨_, _, directory, _, _, _, runtime, _, _, _, t₁, adopted, t₂, secrets, grants⟩
      rcases installSecrets_outbox secrets with ⟨outbox, watermark⟩
      rcases installGrants_outbox grants with ⟨outbox', watermark'⟩
      refine (adoptQueue_run adopted).trans (administer_step (w := { w with tables := t₁ }) ?_ ?_)
      · exact outbox'.trans outbox
      · exact watermark'.trans watermark

end Transactions

/-! ## Every interleaving -/

/-- The outbox, and for every row the limits that were in force since it became active. -/
structure Ledger where
  world : World
  since : String → List EffectLimits

/-- The limits after a step are in force for the rows that were active and for new ones. -/
def noteLimits (t t' : EffectTables) (since : String → List EffectLimits) (id : String) : List EffectLimits :=
  t'.limits.toList ++ if t.active.any fun row => row.id = id then since id else []

/-- The outbox under every interleaving, with its limits on record. -/
def outboxLedger (encoding : Encoding) : System Ledger where
  initial ledger := ledger.world.Fresh
  step ledger next := (∃ operation, Step encoding operation ledger.world next.world)
    ∧ next.since = noteLimits ledger.world.tables next.world.tables ledger.since

/-- The bounds of the outbox: on the active rows in total and of each tenant, and that the
bounded counting query counts every one. -/
structure Ledger.Within (ledger : Ledger) : Prop where
  total : ledger.world.tables.active = [] ∨ ∃ row ∈ ledger.world.tables.active,
    ∃ limits ∈ ledger.since row.id, (ledger.world.tables.active.length : Int) ≤ limits.pendingPerApp
  tenant : ∀ tenant, ledger.world.tables.activeOf tenant = []
    ∨ ∃ row ∈ ledger.world.tables.activeOf tenant, ∃ limits ∈ ledger.since row.id,
      ((ledger.world.tables.activeOf tenant).length : Int) ≤ limits.pendingPerTenant
  counted : ledger.world.tables.active.take 1001 = ledger.world.tables.active

/-- No limits in force leave room for one more active row of the tenant. -/
def EffectTables.Full (t : EffectTables) (tenant : String) : Prop :=
  ∀ limits, t.limits = some limits → limits.pendingPerApp ≤ t.active.length
    ∨ limits.pendingPerTenant ≤ (t.activeOf tenant).length

/-- The tables after a command: a refusal rolls its transaction back. -/
def afterCommand (encoding : Encoding) (command : Command) (t : EffectTables) : EffectTables :=
  match command.run encoding t with
  | .ok t' => t'
  | .error _ => t

section Ledgers

variable {encoding : Encoding} {ledger next : Ledger} {t : EffectTables} {known : String → EffectLimits → Prop}

/-- Every step keeps the bounds, with the limits on record. -/
theorem Ledger.step (tracked : Tracked encoding ledger.world) (tracked' : Tracked encoding next.world)
    (quotas : Quotas ledger.world.tables fun id l => l ∈ ledger.since id)
    (step : (outboxLedger encoding).step ledger next) :
    Quotas next.world.tables fun id l => l ∈ next.since id := by
  rcases step with ⟨⟨operation, step⟩, since⟩
  have start : Quotas ledger.world.tables fun id l => l ∈ next.since id := by
    refine quotas.mono fun a member before room => ?_
    rcases room with ⟨l, here, rest⟩
    refine ⟨l, ?_, rest⟩
    rcases List.mem_map.mp member with ⟨row, active, rfl⟩
    rw [since, noteLimits, if_pos (List.any_eq_true.mpr ⟨row, active, by simp [OutboxRow.member]⟩)]
    exact List.mem_append_right _ here
  refine (step.shift tracked).quotas tracked.constrained tracked'.constrained start fun row member l _ after => ?_
  rw [since, noteLimits, after]
  exact List.mem_append_left _ (List.mem_singleton.mpr rfl)

/-- The active row that was admitted last counted all the others. -/
theorem Quotas.total (quotas : Quotas t known) :
    t.active = [] ∨ ∃ row ∈ t.active, ∃ l, known row.id l ∧ (t.active.length : Int) ≤ l.pendingPerApp
      ∧ l.pendingPerApp ≤ maxPendingEffects := by
  by_cases empty : t.active = []
  · exact .inl empty
  · rcases quotas with ⟨order, perm, admitted⟩
    have some_member : order ≠ [] := by
      rintro rfl
      exact empty (List.map_eq_nil_iff.mp (List.nil_perm.mp perm))
    rcases admitted.last some_member with ⟨a, before, rfl, l, here, valid, total, _⟩
    have member : a ∈ t.members := perm.mem_iff.mp (List.mem_append_right _ (List.mem_singleton.mpr rfl))
    rcases List.mem_map.mp member with ⟨row, active, rfl⟩
    have count := perm.length_eq
    rw [List.length_append, List.length_singleton, EffectTables.members, List.length_map] at count
    exact .inr ⟨row, active, l, here, by omega, valid⟩

/-- The active row of a tenant that was admitted last counted all the others of its tenant. -/
theorem Quotas.tenant (quotas : Quotas t known) (tenant : String) :
    t.activeOf tenant = [] ∨ ∃ row ∈ t.activeOf tenant, ∃ l, known row.id l
      ∧ ((t.activeOf tenant).length : Int) ≤ l.pendingPerTenant := by
  by_cases empty : t.activeOf tenant = []
  · exact .inl empty
  · rcases quotas with ⟨order, perm, admitted⟩
    have counts : (order.filter fun b => b.2 = tenant).length = (t.activeOf tenant).length := by
      rw [(perm.filter _).length_eq, ← List.countP_eq_length_filter, members_tenant]
    have some_member : (order.filter fun b => b.2 = tenant) ≠ [] := by
      intro none_left
      rw [none_left] at counts
      exact empty (List.length_eq_zero_iff.mp counts.symm)
    rcases (admitted.sublist Room.fewer List.filter_sublist).last some_member with
      ⟨a, before, split, l, here, _, _, room⟩
    have chosen : a ∈ order.filter fun b => b.2 = tenant := by
      rw [split]
      exact List.mem_append_right _ (List.mem_singleton.mpr rfl)
    rcases List.mem_filter.mp chosen with ⟨ordered, same⟩
    rcases List.mem_map.mp (perm.mem_iff.mp ordered) with ⟨row, active, rfl⟩
    have owner : row.tenant = tenant := of_decide_eq_true same
    have all : before.countP (fun b => b.2 = row.member.2) = before.length := by
      rw [List.countP_eq_length]
      intro b earlier
      have others : b ∈ order.filter fun b => b.2 = tenant := by
        rw [split]
        exact List.mem_append_left _ earlier
      exact decide_eq_true ((of_decide_eq_true (List.mem_filter.mp others).2).trans owner.symm)
    rw [all] at room
    rw [split, List.length_append, List.length_singleton] at counts
    exact .inr ⟨row, List.mem_filter.mpr ⟨active, decide_eq_true owner⟩, l, here, by omega⟩

theorem Quotas.within (quotas : Quotas ledger.world.tables fun id l => l ∈ ledger.since id) :
    ledger.Within where
  total := by
    rcases quotas.total with empty | ⟨row, member, l, here, count, _⟩
    · exact .inl empty
    · exact .inr ⟨row, member, l, here, count⟩
  tenant := quotas.tenant
  counted := by
    refine List.take_of_length_le ?_
    rcases quotas.total with empty | ⟨row, member, l, here, count, valid⟩
    · rw [empty]
      decide
    · unfold maxPendingEffects at valid
      omega

theorem ledger_reachable (reachable : (outboxLedger encoding).Reachable ledger) :
    (outboxSystem encoding).Reachable ledger.world := by
  rcases reachable with ⟨start, fresh, run⟩
  refine ⟨start.world, fresh, ?_⟩
  induction run with
  | refl => exact Relation.ReflTransGen.refl
  | tail _ last ih =>
      rcases last.1 with ⟨operation, step⟩
      exact ih.tail ⟨operation, trivial, step⟩

/-- A dead row comes back only where there is room for it. -/
theorem resume_refused {w : World} (tracked : Tracked encoding w) {row : OutboxRow}
    (member : row ∈ w.tables.outbox) (dead : row.state = .dead) (full : w.tables.Full row.tenant)
    (generation contract : String) (effective : EffectiveEffectDeployment) (version : Nat) (retry : Bool)
    (t : EffectTables) : resumeEffect encoding generation contract effective row.id version retry w.tables ≠ .ok t := by
  intro ran
  rcases resume_quota ran with ⟨_, found, here, named, checked⟩
  have same : found = row := Table.eq_of_key (·.id) tracked.constrained.ids here member named
  subst same
  rcases checked with paused | ⟨u, quota⟩
  · rw [dead] at paused
    cases paused
  · rw [(tracked.rows found member).captured.tenant] at quota
    rcases withinQuota_exact quota with ⟨l, force, _, total, tenant⟩
    rcases full l force with ended | ended
    · omega
    · omega

/-- In every interleaving, under limits that change, the outbox is within its bounds; and a
retry or resume of a dead row that would exceed them is refused and changes nothing. -/
theorem outbox_bounded (encoding : Encoding) (ledger : Ledger)
    (reachable : (outboxLedger encoding).Reachable ledger) :
    ledger.Within ∧ ∀ row ∈ ledger.world.tables.outbox, row.state = .dead →
      ledger.world.tables.Full row.tenant → ∀ generation contract effective version retry,
        (∃ failure, (Command.resume generation contract effective row.id version retry).run encoding
          ledger.world.tables = .error failure)
        ∧ afterCommand encoding (.resume generation contract effective row.id version retry)
          ledger.world.tables = ledger.world.tables := by
  have tracked : ∀ {ledger : Ledger}, (outboxLedger encoding).Reachable ledger → Tracked encoding ledger.world :=
    fun reachable => (tracked_invariant _).holds (ledger_reachable reachable)
  constructor
  · have invariant : (outboxLedger encoding).Invariant
        fun ledger => Quotas ledger.world.tables fun id l => l ∈ ledger.since id := by
      constructor
      · intro start fresh
        refine ⟨[], ?_, Quota.Admitted.nil⟩
        rw [EffectTables.members, EffectTables.active, fresh.outbox]
        exact List.Perm.refl _
      · intro state later before quotas step
        exact Ledger.step (tracked before) (tracked (before.next step)) quotas step
    exact (invariant.holds reachable).within
  · intro row member dead full generation contract effective version retry
    have refused := resume_refused (tracked reachable) member dead full generation contract effective version retry
    unfold afterCommand
    cases ran : (Command.resume generation contract effective row.id version retry).run encoding
        ledger.world.tables with
    | error failure => exact ⟨⟨failure, rfl⟩, rfl⟩
    | ok t => exact absurd ran (refused t)

end Ledgers

/-! ## A full outbox -/

/-- The values of the digests for the sample capture and for the next of its origin. -/
def sampleEncodings : Encoding :=
  { sampleEncoding with
    identityDigest := fun scope origin ordinal =>
      if ordinal = 1 then "LWUBMZ-SwGKUeqtrd9SEUVRMA3KrH5XDdktn1wUJbRA"
      else sampleEncoding.identityDigest scope origin ordinal
    captureDigest := fun capture =>
      if capture.ordinal = 1 then "JyxbSLcwyXHwnMWLNGH4xWUfUASQSm3Vxt1s9x-krwM" else sampleEncoding.captureDigest capture
    emissionDigest := fun emission =>
      if emission.ordinal = 1 then "rmljvY2n8cx7jReSvgU1S5K74sGqqbyI7aC87jK9ZwM"
      else sampleEncoding.emissionDigest emission }

def sampleNext : CapturedEffect :=
  { sampleCapture with ordinal := 1, schemaDigest := "rmljvY2n8cx7jReSvgU1S5K74sGqqbyI7aC87jK9ZwM" }

def sampleDeployment : EffectiveEffectDeployment where
  grants := [sampleBinding]
  contract := ⟨[sampleBinding.endpoint], [⟨1, 0, "events", []⟩, ⟨1, 1, "events", []⟩]⟩
  secretSlots := []

/-- The tables after a transaction. -/
def World.runs (w : World) (transaction : EffectTables → Result EffectTables) : World :=
  match transaction w.tables with
  | .ok t => { w with tables := t }
  | .error _ => w

/-- The latest claim ends with an answer that is not retried. -/
def World.dies (w : World) : World :=
  match w.workers with
  | [] => w
  | ⟨claim, _⟩ :: _ =>
      match finalize sampleEncodings claim .terminal w.tables with
      | .ok (_, t) => { w with tables := t, workers := restage claim .finished w.workers }
      | .error _ => w

/-- The limits shrink to one active row. -/
def World.narrows (w : World) : World :=
  { w with tables := { w.tables with queue := w.tables.queue.map (·.limited ⟨1, 1, 2⟩) } }

/-- The ledger after a step. -/
def Ledger.follow (ledger : Ledger) (w : World) : Ledger :=
  ⟨w, noteLimits ledger.world.tables w.tables ledger.since⟩

/-- The first capture is claimed and dies, the limits shrink, and the second capture takes the
only place. -/
def fullLedger : Ledger :=
  let captured := sampleStart.runs (enqueue sampleEncodings sampleCapture)
  let dead := captured.claims.dies
  let full := dead.narrows.runs (enqueue sampleEncodings sampleNext)
  (((((Ledger.mk sampleStart fun _ => []).follow captured).follow captured.claims).follow dead).follow
    dead.narrows).follow full

section Sample

variable {ledger : Ledger}

theorem follow_reachable {w : World} (h : (outboxLedger sampleEncodings).Reachable ledger)
    (step : ∃ operation, Step sampleEncodings operation ledger.world w) :
    (outboxLedger sampleEncodings).Reachable (ledger.follow w) :=
  h.next ⟨step, rfl⟩

theorem stays_step (w : World) : ∃ operation, Step sampleEncodings operation w w :=
  ⟨.tick, Step.tick w _ (le_refl _)⟩

theorem enqueues_step (capture : CapturedEffect) (w : World) :
    ∃ operation, Step sampleEncodings operation w (w.runs (enqueue sampleEncodings capture)) := by
  unfold World.runs
  split
  · rename_i t ran
    exact ⟨.enqueue capture, Step.enqueue capture w t ran⟩
  · exact stays_step w

theorem claims_step (w : World) : ∃ operation, Step sampleEncodings operation w w.claims := by
  unfold World.claims
  split
  · rename_i claim t ran
    exact ⟨.claim sampleRequest, Step.claimed sampleRequest w claim t ran⟩
  · exact stays_step w

theorem dies_step (w : World) : ∃ operation, Step sampleEncodings operation w w.dies := by
  unfold World.dies
  split
  · exact stays_step w
  · rename_i claim stage rest workers
    split
    · rename_i outcome t ran
      have handed : w.hands claim := by
        rw [World.hands, workers]
        exact List.mem_cons_self
      exact ⟨.finalize claim .terminal, Step.finalize claim .terminal w outcome t handed ran⟩
    · exact stays_step w

theorem fullLedger_reachable : (outboxLedger sampleEncodings).Reachable fullLedger := by
  have start : (outboxLedger sampleEncodings).Reachable ⟨sampleStart, fun _ => []⟩ :=
    System.Reachable.start ⟨rfl, rfl, rfl⟩
  have captured := follow_reachable start (enqueues_step sampleCapture _)
  have claimed := follow_reachable captured (claims_step _)
  have dead := follow_reachable claimed (dies_step _)
  have narrow := follow_reachable dead ⟨.administer, Step.administer _ (World.narrows _).tables rfl rfl⟩
  exact follow_reachable narrow (enqueues_step sampleNext _)

/-- The dead effect stays dead while another fills the outbox. -/
theorem outbox_bounded_sample : fullLedger.world.tables.active.length = 1 ∧ fullLedger.Within
    ∧ (fullLedger.world.tables.outbox.map fun row => (row.id, row.state)).head?
      = some (sampleCapture.id sampleEncodings, .dead)
    ∧ afterCommand sampleEncodings
        (.resume "g1" "c1" sampleDeployment (sampleCapture.id sampleEncodings) 1 true)
        fullLedger.world.tables = fullLedger.world.tables := by
  have bounds := outbox_bounded sampleEncodings fullLedger fullLedger_reachable
  have stored : fullLedger.world.tables.active.length = 1
      ∧ fullLedger.world.tables.limits = some ⟨1, 1, 2⟩
      ∧ (fullLedger.world.tables.outbox.map fun row => (row.id, row.state)).head?
        = some (sampleCapture.id sampleEncodings, .dead)
      ∧ ∃ row ∈ fullLedger.world.tables.outbox, row.id = sampleCapture.id sampleEncodings
        ∧ row.state = .dead := by decide +kernel
  rcases stored with ⟨one, narrow, head, row, member, named, dead⟩
  have full : fullLedger.world.tables.Full row.tenant := by
    intro limits force
    rw [narrow] at force
    cases force
    exact .inl (by rw [one]; decide)
  refine ⟨one, bounds.1, head, ?_⟩
  have kept := (bounds.2 row member dead full "g1" "c1" sampleDeployment 1 true).2
  rw [named] at kept
  exact kept

end Sample

end Noxide.Effects
