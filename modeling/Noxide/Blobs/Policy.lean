import Mathlib.Data.List.Sort
import Mathlib.Order.Bounds.Basic
import Noxide.Blobs.Tables

/-!
# Effective blob policies

A policy asks for limits and anonymous quotas, and the operator's ceilings lower them.  Limits
are ordered component by component, and their intersection is the meet of that order.

Main results:

- Theorem {lit}`intersection_eq`: the intersection of valid limits is valid, and their meet.
- Theorem {lit}`effective_ok`: which policies are granted, and as what.
- Theorem {lit}`blob_limits_never_escalate`: a grant is within the request and the ceilings, and
  granting it again changes nothing.
-/

namespace Noxide
namespace Blobs

open Checked

/-! ## The order of limits -/

instance : LE BlobLimits where
  le a b := a.fileBytes ≤ b.fileBytes ∧ a.appBytes ≤ b.appBytes ∧ a.objects ≤ b.objects
    ∧ a.liveStages ≤ b.liveStages ∧ a.uploads ≤ b.uploads ∧ a.downloads ≤ b.downloads

theorem BlobLimits.le_def {a b : BlobLimits} : a ≤ b ↔ a.fileBytes ≤ b.fileBytes
    ∧ a.appBytes ≤ b.appBytes ∧ a.objects ≤ b.objects ∧ a.liveStages ≤ b.liveStages
    ∧ a.uploads ≤ b.uploads ∧ a.downloads ≤ b.downloads :=
  Iff.rfl

instance : PartialOrder BlobLimits where
  le_refl a := by simp only [BlobLimits.le_def, le_refl, and_self]
  le_trans a b c := by
    simp only [BlobLimits.le_def]
    omega
  le_antisymm a b := by
    intro below above
    cases a
    cases b
    simp only [BlobLimits.le_def, BlobLimits.mk.injEq] at below above ⊢
    omega

/-- The meet of two limits, component by component. -/
def BlobLimits.meet (a b : BlobLimits) : BlobLimits where
  fileBytes := min a.fileBytes b.fileBytes
  appBytes := min a.appBytes b.appBytes
  objects := min a.objects b.objects
  liveStages := min a.liveStages b.liveStages
  uploads := min a.uploads b.uploads
  downloads := min a.downloads b.downloads

instance : SemilatticeInf BlobLimits where
  inf := BlobLimits.meet
  inf_le_left a b := by simp only [BlobLimits.le_def, BlobLimits.meet, min_le_left, and_self]
  inf_le_right a b := by simp only [BlobLimits.le_def, BlobLimits.meet, min_le_right, and_self]
  le_inf a b c := by
    simp only [BlobLimits.le_def, BlobLimits.meet, le_min_iff]
    tauto

theorem BlobLimits.inf_def (a b : BlobLimits) : a ⊓ b = a.meet b := rfl

/-! ## The order of quotas -/

instance : LE StageQuota where
  le a b := a.stages ≤ b.stages ∧ a.bytes ≤ b.bytes

theorem StageQuota.le_def {a b : StageQuota} : a ≤ b ↔ a.stages ≤ b.stages ∧ a.bytes ≤ b.bytes :=
  Iff.rfl

instance : PartialOrder StageQuota where
  le_refl a := by simp only [StageQuota.le_def, le_refl, and_self]
  le_trans a b c := by
    simp only [StageQuota.le_def]
    omega
  le_antisymm a b := by
    intro below above
    cases a
    cases b
    simp only [StageQuota.le_def, StageQuota.mk.injEq] at below above ⊢
    omega

def StageQuota.meet (a b : StageQuota) : StageQuota where
  stages := min a.stages b.stages
  bytes := min a.bytes b.bytes

instance : SemilatticeInf StageQuota where
  inf := StageQuota.meet
  inf_le_left a b := by simp only [StageQuota.le_def, StageQuota.meet, min_le_left, and_self]
  inf_le_right a b := by simp only [StageQuota.le_def, StageQuota.meet, min_le_right, and_self]
  le_inf a b c := by
    simp only [StageQuota.le_def, StageQuota.meet, le_min_iff]
    tauto

theorem StageQuota.inf_def (a b : StageQuota) : a ⊓ b = a.meet b := rfl

/-! ## Ceilings -/

/-- What the operator allows anonymous uploads. -/
structure AnonymousCeilings where
  deployment : StageQuota
  capability : StageQuota
  deriving DecidableEq

structure BlobCeilings where
  limits : BlobLimits
  anonymous : Option AnonymousCeilings
  deriving DecidableEq

def BlobLimits.intersection (self other : BlobLimits) : Result BlobLimits := do
  self.validate
  other.validate
  let value : BlobLimits := {
    fileBytes := min self.fileBytes other.fileBytes
    appBytes := min self.appBytes other.appBytes
    objects := min self.objects other.objects
    liveStages := min self.liveStages other.liveStages
    uploads := min self.uploads other.uploads
    downloads := min self.downloads other.downloads }
  value.validate
  return value

def validateCeilings : Option AnonymousCeilings → Result Unit
  | none => .ok ()
  | some anonymous => do
      anonymous.deployment.validateDeployment
      anonymous.capability.validateCapability

/-- An upload with its anonymous quota below the ceiling. -/
def UploadPolicy.grant (ceiling : StageQuota) (upload : UploadPolicy) : UploadPolicy :=
  { upload with anonymous := upload.anonymous.map fun requested =>
      { stages := min requested.stages ceiling.stages, bytes := min requested.bytes ceiling.bytes } }

/-- The anonymous quotas that the operator approves of those requested. -/
def BlobPolicy.grantAnonymous (policy : BlobPolicy) (operator : Option AnonymousCeilings) :
    Result BlobPolicy :=
  match policy.anonymous with
  | none => .ok policy
  | some requested => do
      let granted ← need "anonymous uploads not approved by operator" operator
      return { policy with
        anonymous := some { stages := min requested.stages granted.deployment.stages
                            bytes := min requested.bytes granted.deployment.bytes }
        uploads := policy.uploads.map (·.grant granted.capability) }

/-- Uploads are listed in the order of their identities. -/
def UploadPolicy.Before (a b : UploadPolicy) : Prop := a.id ≤ b.id

instance : DecidableRel UploadPolicy.Before := fun a b => inferInstanceAs (Decidable (a.id ≤ b.id))

instance : Std.Total UploadPolicy.Before := ⟨fun a b => le_total a.id b.id⟩

instance : IsTrans UploadPolicy UploadPolicy.Before := ⟨fun _ _ _ first second => le_trans first second⟩

/-- The same policy as it is granted. -/
def BlobPolicy.effective (policy : BlobPolicy) (operator : BlobCeilings) : Result BlobPolicy := do
  policy.validateLimits
  operator.limits.validate
  validateCeilings operator.anonymous
  let limits ← policy.limits.intersection operator.limits
  let effective ← { policy with limits := limits }.grantAnonymous operator.anonymous
  effective.validateLimits
  return { effective with uploads := effective.uploads.insertionSort UploadPolicy.Before }

/-! ## Valid limits and quotas -/

/-- Valid limits meet in their intersection, which is valid. -/
theorem intersection_eq {a b : BlobLimits} (left : a.validate = .ok ()) (right : b.validate = .ok ()) :
    (a ⊓ b).validate = .ok () ∧ a.intersection b = .ok (a ⊓ b) := by
  have valid : (a ⊓ b).validate = .ok () := by
    simp only [BlobLimits.validate, check, ensure_eq_ok] at left right
    refine ensure_pos ?_
    simp only [BlobLimits.inf_def, BlobLimits.meet]
    omega
  refine ⟨valid, ?_⟩
  unfold BlobLimits.intersection
  rw [left, right, bind_ok, bind_ok]
  change (a.meet b).validate >>= _ = _
  rw [BlobLimits.inf_def] at valid
  rw [valid]
  rfl

theorem intersection_ok {a b c : BlobLimits} (h : a.intersection b = .ok c) :
    a.validate = .ok () ∧ b.validate = .ok () ∧ c = a ⊓ b := by
  simp only [BlobLimits.intersection, bind_eq_ok] at h
  rcases h with ⟨_, left, _, right, _, _, same⟩
  exact ⟨left, right, (Except.ok.inj same).symm⟩

theorem deployment_meet {a b : StageQuota} (left : a.validateDeployment = .ok ())
    (right : b.validateDeployment = .ok ()) : (a ⊓ b).validateDeployment = .ok () := by
  simp only [StageQuota.validateDeployment, check, ensure_eq_ok] at left right
  refine ensure_pos ?_
  simp only [StageQuota.inf_def, StageQuota.meet]
  omega

theorem capability_meet {a b : StageQuota} (left : a.validateCapability = .ok ())
    (right : b.validateCapability = .ok ()) : (a ⊓ b).validateCapability = .ok () := by
  simp only [StageQuota.validateCapability, check, ensure_eq_ok] at left right
  refine ensure_pos ?_
  simp only [StageQuota.inf_def, StageQuota.meet]
  omega

/-! ## Valid policies -/

theorem validateAnonymous_ok {quota : Option StageQuota} {u : Unit} :
    validateAnonymous quota = .ok u ↔ ∀ q ∈ quota, q.validateDeployment = .ok () := by
  cases quota with
  | none => simp [validateAnonymous]
  | some q => simp [validateAnonymous]

theorem uploadAnonymous_ok {policy : BlobPolicy} {quota : Option StageQuota} {u : Unit} :
    UploadPolicy.validateAnonymous policy quota = .ok u ↔
      ∀ q ∈ quota, q.validateCapability = .ok () ∧ policy.anonymous.isSome = true := by
  cases quota with
  | none => simp [UploadPolicy.validateAnonymous]
  | some q =>
      simp only [UploadPolicy.validateAnonymous, bind_eq_ok, check, ensure_eq_ok, Option.mem_def,
        Option.some.injEq, forall_eq']
      constructor
      · rintro ⟨_, valid, deployment⟩
        exact ⟨valid, deployment⟩
      · rintro ⟨valid, deployment⟩
        exact ⟨(), valid, deployment⟩

/-- An upload that a policy may list. -/
structure ValidUpload (policy : BlobPolicy) (upload : UploadPolicy) : Prop where
  id : upload.id ≠ 0
  webBinding : upload.webBinding ≠ 0
  anonymous : UploadPolicy.validateAnonymous policy upload.anonymous = .ok ()

theorem validateUploads_ok {policy : BlobPolicy} {ids bindings : List Nat} {uploads : List UploadPolicy}
    {u : Unit} : validateUploads policy ids bindings uploads = .ok u ↔
      (∀ upload ∈ uploads, ValidUpload policy upload ∧ upload.id ∉ ids ∧ upload.webBinding ∉ bindings)
        ∧ (uploads.map (·.id)).Nodup ∧ (uploads.map (·.webBinding)).Nodup := by
  induction uploads generalizing ids bindings with
  | nil => simp [validateUploads]
  | cons upload rest ih =>
      rw [List.forall_mem_cons, List.map_cons, List.map_cons, List.nodup_cons, List.nodup_cons]
      simp only [validateUploads, check, bind_eq_ok, ensure_eq_ok, ih, List.mem_map]
      constructor
      · rintro ⟨_, ⟨id, binding, newId, newBinding⟩, _, anonymous, others, ids', bindings'⟩
        refine ⟨⟨⟨⟨id, binding, anonymous⟩, newId, newBinding⟩, fun other member => ?_⟩,
          ⟨?_, ids'⟩, ?_, bindings'⟩
        · rcases others other member with ⟨valid, freshId, freshBinding⟩
          exact ⟨valid, fun seen => freshId (List.mem_cons_of_mem _ seen),
            fun seen => freshBinding (List.mem_cons_of_mem _ seen)⟩
        · rintro ⟨other, member, same⟩
          exact (others other member).2.1 (List.mem_cons.mpr (Or.inl same))
        · rintro ⟨other, member, same⟩
          exact (others other member).2.2 (List.mem_cons.mpr (Or.inl same))
      · rintro ⟨⟨⟨valid, newId, newBinding⟩, others⟩, ⟨firstId, ids'⟩, firstBinding, bindings'⟩
        refine ⟨(), ⟨valid.id, valid.webBinding, newId, newBinding⟩, (), valid.anonymous,
          fun other member => ?_, ids', bindings'⟩
        rcases others other member with ⟨allowed, freshId, freshBinding⟩
        refine ⟨allowed, fun seen => ?_, fun seen => ?_⟩
        · rcases List.mem_cons.mp seen with same | seen
          · exact firstId ⟨other, member, same⟩
          · exact freshId seen
        · rcases List.mem_cons.mp seen with same | seen
          · exact firstBinding ⟨other, member, same⟩
          · exact freshBinding seen

/-- A policy within the bounds that every deployment keeps. -/
structure ValidPolicy (policy : BlobPolicy) : Prop where
  limits : policy.limits.validate = .ok ()
  few : policy.uploads.length ≤ maxUploadBindings
  anonymous : ∀ quota ∈ policy.anonymous, quota.validateDeployment = .ok ()
  uploads : ∀ upload ∈ policy.uploads, ValidUpload policy upload
  ids : (policy.uploads.map (·.id)).Nodup
  bindings : (policy.uploads.map (·.webBinding)).Nodup
  used : policy.anonymous.isSome = true → policy.uploads.any (·.anonymous.isSome) = true

theorem validateLimits_ok {policy : BlobPolicy} : policy.validateLimits = .ok () ↔ ValidPolicy policy := by
  simp only [BlobPolicy.validateLimits, check, bind_eq_ok, ensure_eq_ok, validateAnonymous_ok,
    validateUploads_ok, List.not_mem_nil, not_false_eq_true, and_true]
  constructor
  · rintro ⟨_, limits, _, few, _, anonymous, _, ⟨uploads, ids, bindings⟩, used⟩
    exact ⟨limits, few, anonymous, uploads, ids, bindings, used⟩
  · intro h
    exact ⟨(), h.limits, (), h.few, (), h.anonymous, (), ⟨h.uploads, h.ids, h.bindings⟩, h.used⟩

/-- The order in which a policy lists its uploads does not matter. -/
theorem ValidPolicy.perm {policy : BlobPolicy} {uploads : List UploadPolicy} (h : ValidPolicy policy)
    (same : uploads.Perm policy.uploads) : ValidPolicy { policy with uploads := uploads } where
  limits := h.limits
  few := same.length_eq ▸ h.few
  anonymous := h.anonymous
  uploads := by
    intro upload member
    have valid := h.uploads upload (same.mem_iff.mp member)
    refine ⟨valid.id, valid.webBinding, ?_⟩
    rw [uploadAnonymous_ok]
    exact uploadAnonymous_ok.mp valid.anonymous
  ids := (same.map _).nodup_iff.mpr h.ids
  bindings := (same.map _).nodup_iff.mpr h.bindings
  used := by
    intro anonymous
    rw [List.any_eq_true]
    rcases List.any_eq_true.mp (h.used anonymous) with ⟨upload, member, quota⟩
    exact ⟨upload, same.mem_iff.mpr member, quota⟩

/-! ## Grants -/

/-- Ceilings that the operator may configure. -/
structure ValidCeilings (operator : BlobCeilings) : Prop where
  limits : operator.limits.validate = .ok ()
  deployment : ∀ ceilings ∈ operator.anonymous, ceilings.deployment.validateDeployment = .ok ()
  capability : ∀ ceilings ∈ operator.anonymous, ceilings.capability.validateCapability = .ok ()

theorem validateCeilings_ok {operator : BlobCeilings} :
    operator.limits.validate = .ok () ∧ validateCeilings operator.anonymous = .ok () ↔ ValidCeilings operator := by
  rcases operator with ⟨limits, anonymous⟩
  cases anonymous with
  | none =>
      constructor
      · rintro ⟨valid, _⟩
        exact ⟨valid, by simp, by simp⟩
      · intro h
        exact ⟨h.limits, rfl⟩
  | some ceilings =>
      simp only [validateCeilings, bind_eq_ok]
      constructor
      · rintro ⟨valid, _, deployment, capability⟩
        exact ⟨valid, by simpa using deployment, by simpa using capability⟩
      · intro h
        exact ⟨h.limits, (), h.deployment ceilings rfl, h.capability ceilings rfl⟩

/-- The policy that is granted, before its uploads are sorted. -/
def BlobPolicy.lowered (policy : BlobPolicy) (operator : BlobCeilings) : BlobPolicy :=
  match policy.anonymous, operator.anonymous with
  | some requested, some granted =>
      { limits := policy.limits ⊓ operator.limits
        anonymous := some (requested ⊓ granted.deployment)
        uploads := policy.uploads.map (·.grant granted.capability) }
  | _, _ => { policy with limits := policy.limits ⊓ operator.limits }

/-- The granted uploads in the order of their identities. -/
def BlobPolicy.sorted (policy : BlobPolicy) : BlobPolicy :=
  { policy with uploads := policy.uploads.insertionSort UploadPolicy.Before }

theorem ValidPolicy.sorted {policy : BlobPolicy} (h : ValidPolicy policy) : ValidPolicy policy.sorted :=
  h.perm (List.perm_insertionSort _ _)

theorem grant_meet (ceiling : StageQuota) (upload : UploadPolicy) :
    upload.grant ceiling = { upload with anonymous := upload.anonymous.map (· ⊓ ceiling) } := rfl

/-- A lower quota is lowered no further by the same ceiling. -/
theorem grant_grant (ceiling : StageQuota) (upload : UploadPolicy) :
    (upload.grant ceiling).grant ceiling = upload.grant ceiling := by
  simp only [grant_meet, Option.map_map]
  congr 2
  funext quota
  exact inf_right_idem quota ceiling

/-- Granted uploads keep their identity and bindings, and are valid as before. -/
theorem ValidUpload.grant {policy lowered : BlobPolicy} {upload : UploadPolicy} {ceiling : StageQuota}
    (h : ValidUpload policy upload) (valid : ceiling.validateCapability = .ok ())
    (deployment : lowered.anonymous.isSome = true) : ValidUpload lowered (upload.grant ceiling) where
  id := h.id
  webBinding := h.webBinding
  anonymous := by
    rw [uploadAnonymous_ok]
    intro quota granted
    rcases Option.map_eq_some_iff.mp granted with ⟨requested, asked, rfl⟩
    exact ⟨capability_meet (uploadAnonymous_ok.mp h.anonymous requested asked).1 valid, deployment⟩

theorem grant_ids (ceiling : StageQuota) (uploads : List UploadPolicy) :
    (uploads.map (·.grant ceiling)).map (·.id) = uploads.map (·.id) := by
  rw [List.map_map]
  rfl

theorem grant_bindings (ceiling : StageQuota) (uploads : List UploadPolicy) :
    (uploads.map (·.grant ceiling)).map (·.webBinding) = uploads.map (·.webBinding) := by
  rw [List.map_map]
  rfl

/-- What is granted of a valid policy is valid. -/
theorem ValidPolicy.lowered {policy : BlobPolicy} {operator : BlobCeilings} (h : ValidPolicy policy)
    (valid : ValidCeilings operator) : ValidPolicy (policy.lowered operator) := by
  have limits := (intersection_eq h.limits valid.limits).1
  rcases policy with ⟨requestedLimits, requested, uploads⟩
  rcases operator with ⟨ceilingLimits, ceilings⟩
  have unchanged : ValidPolicy ⟨requestedLimits ⊓ ceilingLimits, requested, uploads⟩ :=
    ⟨limits, h.few, h.anonymous, fun upload member =>
      ⟨(h.uploads upload member).id, (h.uploads upload member).webBinding,
        uploadAnonymous_ok.mpr (uploadAnonymous_ok.mp (h.uploads upload member).anonymous)⟩,
      h.ids, h.bindings, h.used⟩
  cases requested with
  | none => exact unchanged
  | some quota =>
      cases ceilings with
      | none => exact unchanged
      | some granted =>
          constructor
          · exact limits
          · simp only [BlobPolicy.lowered, List.length_map]
            exact h.few
          · intro lowered member
            cases member
            exact deployment_meet (h.anonymous quota rfl) (valid.deployment granted rfl)
          · intro upload member
            rcases List.mem_map.mp member with ⟨original, listed, rfl⟩
            exact (h.uploads original listed).grant (valid.capability granted rfl) rfl
          · simp only [BlobPolicy.lowered, grant_ids]
            exact h.ids
          · simp only [BlobPolicy.lowered, grant_bindings]
            exact h.bindings
          · intro _
            rcases List.any_eq_true.mp (h.used rfl) with ⟨upload, member, asked⟩
            rw [List.any_eq_true]
            refine ⟨upload.grant granted.capability, List.mem_map_of_mem member, ?_⟩
            rw [grant_meet, Option.isSome_map]
            exact asked

theorem grantAnonymous_lowered {policy : BlobPolicy} {operator : BlobCeilings} {lowered : BlobPolicy} :
    { policy with limits := policy.limits ⊓ operator.limits }.grantAnonymous operator.anonymous = .ok lowered
      ↔ (policy.anonymous.isSome = true → operator.anonymous.isSome = true)
        ∧ lowered = policy.lowered operator := by
  rcases policy with ⟨limits, requested, uploads⟩
  rcases operator with ⟨ceilingLimits, ceilings⟩
  cases requested with
  | none =>
      simp only [BlobPolicy.grantAnonymous, BlobPolicy.lowered, Except.ok.injEq, Option.isSome_none]
      exact ⟨fun same => ⟨fun absent => (by cases absent), same.symm⟩, fun h => h.2.symm⟩
  | some quota =>
      cases ceilings with
      | none =>
          constructor
          · intro granted
            cases granted
          · rintro ⟨approved, _⟩
            cases approved rfl
      | some granted =>
          constructor
          · intro same
            cases same
            exact ⟨fun _ => rfl, rfl⟩
          · rintro ⟨_, rfl⟩
            rfl

/-- A valid request within valid ceilings is granted, and lowered to them. -/
theorem effective_ok {policy granted : BlobPolicy} {operator : BlobCeilings} :
    policy.effective operator = .ok granted ↔ ValidPolicy policy ∧ ValidCeilings operator
      ∧ (policy.anonymous.isSome = true → operator.anonymous.isSome = true)
      ∧ granted = (policy.lowered operator).sorted := by
  unfold BlobPolicy.effective
  simp only [bind_eq_ok]
  constructor
  · rintro ⟨_, valid, _, ceilings, _, anonymous, limits, met, lowered, approved, _, _, same⟩
    rcases intersection_ok met with ⟨_, _, rfl⟩
    rcases grantAnonymous_lowered.mp approved with ⟨allowed, rfl⟩
    exact ⟨validateLimits_ok.mp valid, validateCeilings_ok.mp ⟨ceilings, anonymous⟩, allowed,
      (Except.ok.inj same).symm⟩
  · rintro ⟨valid, ceilings, allowed, rfl⟩
    have checked := validateCeilings_ok.mpr ceilings
    exact ⟨(), validateLimits_ok.mpr valid, (), checked.1, (), checked.2, _,
      (intersection_eq valid.limits ceilings.limits).2, _, grantAnonymous_lowered.mpr ⟨allowed, rfl⟩, (),
      validateLimits_ok.mpr (valid.lowered ceilings), rfl⟩

/-- The same ceilings lower a lowered policy no further. -/
theorem lowered_sorted {policy : BlobPolicy} {operator : BlobCeilings}
    (approved : policy.anonymous.isSome = true → operator.anonymous.isSome = true) :
    ((policy.lowered operator).sorted.lowered operator).sorted = (policy.lowered operator).sorted := by
  have ordered : ∀ uploads : List UploadPolicy, (uploads.insertionSort UploadPolicy.Before).insertionSort
      UploadPolicy.Before = uploads.insertionSort UploadPolicy.Before :=
    fun uploads => (List.pairwise_insertionSort _ uploads).insertionSort_eq
  rcases policy with ⟨limits, requested, uploads⟩
  rcases operator with ⟨ceilingLimits, ceilings⟩
  cases requested with
  | none =>
      simp only [BlobPolicy.lowered, BlobPolicy.sorted, inf_right_idem, ordered]
  | some quota =>
      cases ceilings with
      | none => cases approved rfl
      | some granted =>
          have again : ((uploads.map (·.grant granted.capability)).insertionSort
              UploadPolicy.Before).map (·.grant granted.capability)
              = (uploads.map (·.grant granted.capability)).insertionSort UploadPolicy.Before := by
            conv_rhs => rw [← List.map_id (List.insertionSort _ _)]
            refine List.map_congr_left fun upload member => ?_
            rcases List.mem_map.mp ((List.perm_insertionSort _ _).mem_iff.mp member) with ⟨original, _, rfl⟩
            exact grant_grant _ _
          simp only [BlobPolicy.lowered, BlobPolicy.sorted, inf_right_idem, again, ordered]

/-! ## Grants never escalate -/

/-- A quota is granted only within one that was requested and one that the operator approves. -/
def QuotaWithin (granted requested ceiling : Option StageQuota) : Prop :=
  ∀ quota ∈ granted, ∃ asked ∈ requested, ∃ allowed ∈ ceiling, quota ≤ asked ∧ quota ≤ allowed

/-- A grant within the request and the operator's ceilings. -/
structure GrantedWithin (granted policy : BlobPolicy) (operator : BlobCeilings) : Prop where
  requested : granted.limits ≤ policy.limits
  ceilings : granted.limits ≤ operator.limits
  anonymous : QuotaWithin granted.anonymous policy.anonymous (operator.anonymous.map (·.deployment))
  uploads : ∀ upload ∈ granted.uploads, ∃ asked ∈ policy.uploads, upload.id = asked.id
    ∧ upload.webBinding = asked.webBinding
    ∧ QuotaWithin upload.anonymous asked.anonymous (operator.anonymous.map (·.capability))
  ids : (granted.uploads.map (·.id)).Perm (policy.uploads.map (·.id))

theorem quotaWithin_none (requested ceiling : Option StageQuota) : QuotaWithin none requested ceiling := by
  intro quota absent
  cases absent

theorem quotaWithin_meet (asked allowed : StageQuota) :
    QuotaWithin (some (asked ⊓ allowed)) (some asked) (some allowed) := by
  intro quota granted
  cases granted
  exact ⟨asked, rfl, allowed, rfl, inf_le_left, inf_le_right⟩

theorem lowered_within {policy : BlobPolicy} {operator : BlobCeilings} (h : ValidPolicy policy)
    (approved : policy.anonymous.isSome = true → operator.anonymous.isSome = true) :
    GrantedWithin (policy.lowered operator) policy operator := by
  rcases policy with ⟨limits, requested, uploads⟩
  rcases operator with ⟨ceilingLimits, ceilings⟩
  cases requested with
  | none =>
      refine ⟨inf_le_left, inf_le_right, quotaWithin_none _ _, fun upload member => ?_, List.Perm.refl _⟩
      refine ⟨upload, member, rfl, rfl, fun quota asked => ?_⟩
      -- an upload asks for a quota only where its policy does
      cases (uploadAnonymous_ok.mp (h.uploads upload member).anonymous quota asked).2
  | some quota =>
      cases ceilings with
      | none => cases approved rfl
      | some granted =>
          refine ⟨inf_le_left, inf_le_right, quotaWithin_meet quota granted.deployment,
            fun upload member => ?_, ?_⟩
          · rcases List.mem_map.mp member with ⟨original, listed, rfl⟩
            refine ⟨original, listed, rfl, rfl, ?_⟩
            rw [grant_meet]
            cases asked : original.anonymous with
            | none => exact quotaWithin_none _ _
            | some quota => exact quotaWithin_meet quota granted.capability
          · simp only [BlobPolicy.lowered, grant_ids]
            exact List.Perm.refl _

/-- The order of the granted uploads does not matter. -/
theorem GrantedWithin.sorted {granted policy : BlobPolicy} {operator : BlobCeilings}
    (h : GrantedWithin granted policy operator) : GrantedWithin granted.sorted policy operator where
  requested := h.requested
  ceilings := h.ceilings
  anonymous := h.anonymous
  uploads upload member := h.uploads upload ((List.perm_insertionSort _ _).mem_iff.mp member)
  ids := ((List.perm_insertionSort _ _).map _).trans h.ids

/-- Valid limits are closed under their meet, which is their intersection; and a policy is granted
exactly within what it requests and what the operator approves, once and for all. -/
theorem blob_limits_never_escalate :
    (∀ a b : BlobLimits, a.validate = .ok () → b.validate = .ok () →
      ∃ c, a.intersection b = .ok c ∧ c.validate = .ok () ∧ IsGLB {a, b} c ∧ b.intersection a = .ok c)
    ∧ (∀ a : BlobLimits, a.validate = .ok () → a.intersection a = .ok a)
    ∧ (∀ a b c : BlobLimits, a.validate = .ok () → b.validate = .ok () → c.validate = .ok () →
      (a.intersection b >>= fun ab => ab.intersection c) = (b.intersection c >>= fun bc => a.intersection bc))
    ∧ ∀ (policy : BlobPolicy) (operator : BlobCeilings),
      ((∃ granted, policy.effective operator = .ok granted) ↔ ValidPolicy policy ∧ ValidCeilings operator
        ∧ (policy.anonymous.isSome = true → operator.anonymous.isSome = true))
      ∧ ∀ granted, policy.effective operator = .ok granted →
        GrantedWithin granted policy operator ∧ granted.effective operator = .ok granted := by
  refine ⟨fun a b left right => ?_, fun a valid => ?_, fun a b c first second third => ?_,
    fun policy operator => ⟨⟨?_, ?_⟩, fun granted grants => ?_⟩⟩
  · have met := intersection_eq left right
    refine ⟨a ⊓ b, met.2, met.1, isGLB_pair, ?_⟩
    rw [inf_comm]
    exact (intersection_eq right left).2
  · rw [(intersection_eq valid valid).2, inf_idem]
  · have ab := intersection_eq first second
    have bc := intersection_eq second third
    rw [ab.2, bc.2, bind_ok, bind_ok, (intersection_eq ab.1 third).2, (intersection_eq first bc.1).2,
      inf_assoc]
  · rintro ⟨granted, grants⟩
    have facts := effective_ok.mp grants
    exact ⟨facts.1, facts.2.1, facts.2.2.1⟩
  · rintro ⟨valid, ceilings, approved⟩
    exact ⟨_, effective_ok.mpr ⟨valid, ceilings, approved, rfl⟩⟩
  · rcases effective_ok.mp grants with ⟨valid, ceilings, approved, rfl⟩
    refine ⟨(lowered_within valid approved).sorted, effective_ok.mpr ⟨(valid.lowered ceilings).sorted,
      ceilings, ?_, (lowered_sorted approved).symm⟩⟩
    intro anonymous
    rcases policy with ⟨limits, requested, uploads⟩
    cases requested with
    | none => cases anonymous
    | some quota => exact approved rfl

def sampleLimits : BlobLimits := ⟨4096, 65536, 16, 2, 2, 4⟩

/-- An operator who allows smaller files of a smaller application. -/
def sampleCeilings : BlobCeilings where
  limits := ⟨8192, 8192, 8, 1, 1, 1⟩
  anonymous := some ⟨⟨2, 4096⟩, ⟨1, 2048⟩⟩

def samplePolicy : BlobPolicy where
  limits := sampleLimits
  anonymous := some ⟨4, 8192⟩
  uploads := [⟨2, 3, none⟩, ⟨1, 1, some ⟨2, 1024⟩⟩]

/-- The sample request is lowered to its ceilings, and stays so. -/
theorem blob_limits_never_escalate_sample :
    sampleLimits.intersection sampleCeilings.limits = .ok ⟨4096, 8192, 8, 1, 1, 1⟩
      ∧ ∃ granted, samplePolicy.effective sampleCeilings = .ok granted
        ∧ granted.uploads = [⟨1, 1, some ⟨1, 1024⟩⟩, ⟨2, 3, none⟩]
        ∧ GrantedWithin granted samplePolicy sampleCeilings
        ∧ granted.effective sampleCeilings = .ok granted := by
  have facts := blob_limits_never_escalate
  rcases facts.1 sampleLimits sampleCeilings.limits (by decide) (by decide) with ⟨c, met, _, greatest, _⟩
  have same : c = ⟨4096, 8192, 8, 1, 1, 1⟩ := greatest.unique isGLB_pair
  have effective : samplePolicy.effective sampleCeilings = .ok ⟨⟨4096, 8192, 8, 1, 1, 1⟩, some ⟨2, 4096⟩,
      [⟨1, 1, some ⟨1, 1024⟩⟩, ⟨2, 3, none⟩]⟩ := by decide
  exact ⟨same ▸ met, _, effective, rfl, (facts.2.2.2 samplePolicy sampleCeilings).2 _ effective⟩

end Blobs
end Noxide
