import Noxide.Repository.Domains

/-!
# Soundness of expression admission

Expressions that admission typed evaluate inside their domain, or report an
unavailable calculation; what they assign is valid for its destination.

Main results:

- Theorem {lit}`Typed.sound`: a typed expression evaluates inside its domain or is
  unavailable.
- Theorem {lit}`condition_sound`: a typed condition has a truth value, or a
  calculation in it is unavailable.
- Theorem {lit}`assigned_sound`: what an admitted assignment writes is a value of its
  field.
- Theorem {lit}`adjusted_sound`: an admitted adjustment moves the field within its
  bounds, or is refused.
-/

namespace Noxide

open Checked

/-! ## The evaluated transaction -/

/-- The record fields of a resource are valid. -/
def ValidRow (m : Manifest) (resource : Nat) (row : StoredRecord) : Prop :=
  ∀ r, m.resource resource = .ok r → validateFields r row.record.fields = .ok ()

/-- What the executor supplies to the expressions of an action: validated input,
a grant with a valid snapshot for every target, a representable time and an
account identity. -/
structure Coherent (v : Values) (m : Manifest) (a : Action) : Prop where
  manifest : v.manifest = m
  input : validateInputs a.inputs v.input = .ok ()
  granted : ∀ target ∈ a.targets, ∃ grant stored, v.grants.lookup target.name = some grant ∧
    grant.resource = target.resource ∧ (grant.id ≠ 0 ∧ grant.id ≤ i64Max) ∧
    v.snapshots.lookup (grant.resource, grant.id) = some stored ∧ ValidRow m target.resource stored
  time : ∀ t ∈ v.time, 0 ≤ t ∧ t < 2 ^ 63
  account : ∀ user, v.principal = .user user → accountId user.id = true

/-- What the executor supplies at a site: the outcomes of the steps before it and,
in the guards of a step, the valid current row of the step's target. -/
structure CoherentAt (v : Values) (m : Manifest) (a : Action) (site : ValueSite) : Prop where
  created : ∀ bound, site.bound a = .ok bound → ∀ index < bound, ∀ step,
    a.steps[index]? = some step → ∀ op, m.operation step.operation = .ok op → op.kind = .create →
      ∃ outcome, v.outcomes[index]? = some outcome ∧ outcome.kind = .created ∧
        outcome.resource = op.resource ∧ outcome.id ≠ 0 ∧ outcome.id ≤ i64Max
  current : ∀ target ∈ a.targets, site.admitsCurrent a target.name = true →
    ∃ stored, v.current = some (target.name, stored) ∧ ValidRow m target.resource stored

/-- An evaluation: a value of the domain, an unavailable calculation, or the account
of a principal that has none. -/
inductive Evaluates (v : Values) (value : Value) (d : Domain) : Result Scalar → Prop where
  | value {s : Scalar} : d.Contains s → Evaluates v value d (.ok s)
  | unavailable : Evaluates v value d (.error .calculationUnavailable)
  | principal : value = .principal → (∀ user, v.principal ≠ .user user) →
      Evaluates v value d (.error .referenceUnavailable)

section Leaves

variable {v : Values} {m : Manifest} {a : Action} {site : ValueSite}

theorem actionTarget_mem {targets : List ActionTarget} {name : String} {target : ActionTarget}
    (h : actionTarget targets name = .ok target) : target ∈ targets ∧ target.name = name := by
  simp only [actionTarget, need, context_eq_ok] at h
  exact ⟨List.mem_of_find?_eq_some h, by simpa using List.find?_some h⟩

/-- A validated input evaluates in its declared domain. -/
theorem input_sound (h : Coherent v m a) {name : String} {d : Domain}
    (typed : leafDomain m a site (.input name) = .ok d) :
    ∃ s, v.value a (.input name) = .ok s ∧ d.Contains s := by
  simp only [leafDomain, Domain.input, need, check, bind_eq_ok, context_eq_ok, ensure_eq_ok] at typed
  rcases typed with ⟨input, found, _, scalar, result⟩
  cases result
  have named : input ∈ a.inputs ∧ input.name = name :=
    ⟨List.mem_of_find?_eq_some found, by simpa using List.find?_some found⟩
  rcases (validateInputs_iff.mp h.input).2 input named.1 with ⟨text, stored, canonical⟩
  rw [Input.canonical_self_iff, ← canonicalScalar_self_iff] at canonical
  rcases parseScalar_contains (d := ⟨input.kind, input.optional, input.maxBytes⟩) canonical.2 scalar
    with ⟨s, parsed, contains, _⟩
  refine ⟨s, ?_, contains⟩
  rw [named.2] at stored
  exact bind_eq_ok.mpr ⟨input, context_eq_ok.mpr found,
    bind_eq_ok.mpr ⟨text, context_eq_ok.mpr stored, parsed⟩⟩

theorem Literal.scalar_encode (literal : Literal) : literal.scalar.encode = literal.encoded.2 := by
  cases literal <;> rfl

/-- A literal in canonical form is a scalar of its kind. -/
theorem Literal.scalar_hasKind {literal : Literal}
    (form : CanonicalForm literal.encoded.1 literal.encoded.2) :
    literal.scalar.HasKind literal.encoded.1 := by
  cases literal with
  | text value => exact form
  | integer value =>
      refine ⟨value.2, ?_, ?_⟩
      · intro m bound
        cases bound
        exact le_refl _
      · intro m bound
        cases bound
        exact le_refl _
  | boolean value => trivial
  | choice value => exact List.mem_singleton_self _
  | account value => exact form
  | timestamp millis =>
      rcases form with ⟨n, low, high, same⟩
      rw [Decimal.print_injective same]
      exact ⟨low, high⟩
  | duration millis =>
      rcases form with ⟨n, low, bound, high, same⟩
      have eq := Decimal.print_injective same
      exact ⟨eq ▸ low, le_refl _, eq ▸ high⟩

/-- A literal evaluates in its own domain. -/
theorem literal_sound {literal : Literal} {d : Domain} (typed : literalDomain literal = .ok d) :
    d.Contains literal.scalar := by
  by_cases integer : ∃ value, literal = .integer value
  · rcases integer with ⟨value, rfl⟩
    cases typed
    have form : CanonicalForm (.integer (some value.1) (some value.1)) (toString value.1) :=
      ⟨value.1, value.2.1, value.2.2, by simp, by simp, rfl⟩
    exact Domain.Contains.present (Literal.scalar_hasKind form)
      (Decimal.utf8ByteSize_print_le value.2.1 value.2.2)
  · unfold literalDomain at typed
    split at typed
    · next value => exact absurd ⟨value, rfl⟩ integer
    · simp only [check, bind_eq_ok, ensure_eq_ok] at typed
      rcases typed with ⟨_, _, _, canonical, result⟩
      cases result
      rcases canonicalScalar_self_iff.mp canonical with absent | ⟨form, _⟩
      · cases absent.1
      · refine Domain.Contains.present (Literal.scalar_hasKind form) ?_
        rw [Literal.scalar_encode]

/-- A record's identity is a reference to its resource. -/
theorem reference_contains {name : String} {id : Nat} (valid : id ≠ 0 ∧ id ≤ i64Max) :
    (⟨.reference name, false, 19⟩ : Domain).Contains (.reference name id) := by
  have small : id < 10 ^ 19 := by
    have bound := valid.2
    unfold i64Max at bound
    omega
  have size : (toString id).utf8ByteSize ≤ 19 := Decimal.utf8ByteSize_print_nat_le (by decide) small
  exact Domain.Contains.present ⟨rfl, valid⟩ size

theorem target_sound (h : Coherent v m a) {name : String} {d : Domain}
    (typed : leafDomain m a site (.target name) = .ok d) :
    ∃ s, v.value a (.target name) = .ok s ∧ d.Contains s := by
  simp only [leafDomain, check, bind_eq_ok, ensure_eq_ok] at typed
  rcases typed with ⟨_, _, target, found, resource, hresource, result⟩
  cases result
  have declared := actionTarget_mem found
  rcases h.granted target declared.1 with ⟨grant, _, granted, same, valid, _⟩
  refine ⟨.reference resource.name grant.id, ?_, reference_contains valid⟩
  rw [declared.2] at granted
  rw [← h.manifest, ← same] at hresource
  exact bind_eq_ok.mpr ⟨grant, context_eq_ok.mpr granted, bind_eq_ok.mpr ⟨resource, hresource, rfl⟩⟩

theorem created_sound (h : Coherent v m a) (hsite : CoherentAt v m a site) {index : Nat}
    {d : Domain} (typed : leafDomain m a site (.created index) = .ok d) :
    ∃ s, v.value a (.created index) = .ok s ∧ d.Contains s := by
  simp only [leafDomain, need, check, bind_eq_ok, context_eq_ok, ensure_eq_ok] at typed
  rcases typed with ⟨bound, hbound, _, earlier, step, hstep, op, hop, _, create, resource, hresource,
    result⟩
  cases result
  rcases hsite.created bound hbound index earlier step hstep op hop create with
    ⟨outcome, found, kind, same, valid⟩
  refine ⟨.reference resource.name outcome.id, ?_, reference_contains valid⟩
  rw [← h.manifest, ← same] at hresource
  exact bind_eq_ok.mpr ⟨outcome, context_eq_ok.mpr found,
    bind_eq_ok.mpr ⟨(), ensure_pos kind, bind_eq_ok.mpr ⟨resource, hresource, rfl⟩⟩⟩

/-- A projected field of a valid row evaluates in the field's domain. -/
theorem fieldOf_sound (hm : v.manifest = m) {declaration : ActionTarget} {field : String}
    {d : Domain} {grant : RecordTarget} {stored : StoredRecord}
    (typed : projectedDomain m declaration field = .ok d)
    (same : grant.resource = declaration.resource)
    (valid : ValidRow m declaration.resource stored) :
    ∃ s, v.fieldOf grant stored field = .ok s ∧ d.Contains s := by
  simp only [projectedDomain, Domain.field, need, check, bind_eq_ok, context_eq_ok,
    ensure_eq_ok] at typed
  rcases typed with ⟨_, _, _, _, _, _, _, _, resource, hresource, f, found, _, scalar, result⟩
  cases result
  have declared := Resource.field?_mem found
  rcases (validateFields_iff.mp (valid resource hresource)).2 f declared.1 with
    ⟨text, present, canonical⟩
  rw [TextField.canonical_self_iff, ← canonicalScalar_self_iff] at canonical
  rcases parseScalar_contains (d := ⟨f.kind, f.optional, f.maxBytes⟩) canonical.2 scalar
    with ⟨s, parsed, contains, _⟩
  refine ⟨s, ?_, contains⟩
  rw [declared.2] at present
  rw [Values.fieldOf, hm, same, hresource, bind_ok, found, context, bind_ok, present, context,
    bind_ok]
  exact parsed

theorem snapshot_sound (h : Coherent v m a) {target field : String} {reviewed : Bool} {d : Domain}
    (typed : leafDomain m a site (.snapshotField target field reviewed) = .ok d) :
    ∃ s, v.value a (.snapshotField target field reviewed) = .ok s ∧ d.Contains s := by
  simp only [leafDomain, check, bind_eq_ok, ensure_eq_ok] at typed
  rcases typed with ⟨declaration, found, _, _, projected⟩
  have declared := actionTarget_mem found
  rcases h.granted declaration declared.1 with ⟨grant, stored, granted, same, _, snapshot, valid⟩
  rcases fieldOf_sound h.manifest projected same valid with ⟨s, evaluated, contains⟩
  refine ⟨s, ?_, contains⟩
  rw [declared.2] at granted
  exact bind_eq_ok.mpr ⟨grant, context_eq_ok.mpr granted,
    bind_eq_ok.mpr ⟨stored, context_eq_ok.mpr snapshot, evaluated⟩⟩

theorem current_sound (h : Coherent v m a) (hsite : CoherentAt v m a site) {target field : String}
    {d : Domain} (typed : leafDomain m a site (.currentField target field) = .ok d) :
    ∃ s, v.value a (.currentField target field) = .ok s ∧ d.Contains s := by
  simp only [leafDomain, check, bind_eq_ok, ensure_eq_ok] at typed
  rcases typed with ⟨declaration, found, _, admitted, projected⟩
  have declared := actionTarget_mem found
  rcases h.granted declaration declared.1 with ⟨grant, _, granted, same, _⟩
  rw [← declared.2] at admitted
  rcases hsite.current declaration declared.1 admitted with ⟨stored, current, valid⟩
  rcases fieldOf_sound h.manifest projected same valid with ⟨s, evaluated, contains⟩
  refine ⟨s, ?_, contains⟩
  rw [declared.2] at granted current
  have row : v.currentRow target = .ok stored := by
    simp only [Values.currentRow, current, context, bind_ok]
    rw [ensure_pos trivial, bind_ok]
    rfl
  exact bind_eq_ok.mpr ⟨grant, context_eq_ok.mpr granted, bind_eq_ok.mpr ⟨stored, row, evaluated⟩⟩

/-- An expression without operands evaluates in its domain, is unavailable, or asks
for an account the principal does not have. -/
theorem leaf_sound (h : Coherent v m a) (hsite : CoherentAt v m a site) {value : Value} {d : Domain}
    (typed : leafDomain m a site value = .ok d) : Evaluates v value d (v.value a value) := by
  have ok : ∀ {value : Value}, (∃ s, v.value a value = .ok s ∧ d.Contains s) →
      Evaluates v value d (v.value a value) := by
    rintro value ⟨s, evaluated, contains⟩
    rw [evaluated]
    exact Evaluates.value contains
  cases value with
  | input name => exact ok (input_sound h typed)
  | literal literal => exact Evaluates.value (literal_sound typed)
  | target name => exact ok (target_sound h typed)
  | created index => exact ok (created_sound h hsite typed)
  | snapshotField target field reviewed => exact ok (snapshot_sound h typed)
  | currentField target field => exact ok (current_sound h hsite typed)
  | transactionTime =>
      cases typed
      rw [Values.value]
      cases time : v.time with
      | none => exact Evaluates.unavailable
      | some t =>
          have range := h.time t time
          exact Evaluates.value (Domain.Contains.present range
            (Decimal.utf8ByteSize_print_le (by omega) range.2))
  | principal =>
      simp only [leafDomain, check, bind_eq_ok, ensure_eq_ok] at typed
      rcases typed with ⟨_, _, _, _, result⟩
      cases result
      rw [Values.value, Values.account]
      cases principal : v.principal with
      | user user =>
          have identity := h.account user principal
          refine Evaluates.value (Domain.Contains.present identity ?_)
          simp only [accountId, Bool.and_eq_true, beq_iff_eq] at identity
          exact identity.1.1.le
      | anonymous => exact Evaluates.principal rfl fun user same => by rw [principal] at same; cases same
      | service service =>
          exact Evaluates.principal rfl fun user same => by rw [principal] at same; cases same
  | add left right => cases typed
  | subtract left right => cases typed
  | multiply left right => cases typed

end Leaves

/-! ## Expressions -/

section Expressions

variable {v : Values} {m : Manifest} {a : Action} {site : ValueSite}

/-- The acting account is typed as an expression without operands. -/
theorem Typed.principal {value : Value} {d : Domain} (typed : Typed m a site value d)
    (same : value = .principal) : leafDomain m a site .principal = .ok d := by
  cases typed with
  | leaf typed => rwa [same] at typed
  | @operate op => cases op <;> cases same

/-- The acting account is an account. -/
theorem principal_kind {d : Domain} (typed : Typed m a site .principal d) :
    d.kind = .account .sameTenant := by
  have leaf := typed.principal rfl
  simp only [leafDomain, check, bind_eq_ok, ensure_eq_ok] at leaf
  rcases leaf with ⟨_, _, _, _, result⟩
  cases result
  rfl

/-- Accounts are no operands of arithmetic. -/
theorem arithmetic_not_account {op : Arithmetic} {left right d : Domain}
    (h : arithmeticDomain op left right = .ok d) :
    left.kind ≠ .account .sameTenant ∧ right.kind ≠ .account .sameTenant := by
  unfold arithmeticDomain at h
  split at h
  · next shape =>
    constructor
    · rw [shape.2.1]
      simp
    · intro account
      rw [account] at shape
      simp [FieldKind.isDuration] at shape
  · simp only [Domain.number, check, bind_eq_ok, ensure_eq_ok] at h
    rcases h with ⟨_, ⟨_, _, hl⟩, _, ⟨_, _, hr⟩, _⟩
    constructor
    · intro account
      rw [account] at hl
      cases hl
    · intro account
      rw [account] at hr
      cases hr

theorem value_apply {op : Arithmetic} {left right : Value} :
    v.value a (op.apply left right) =
      (v.value a left >>= fun l => v.value a right >>= fun r => op.scalar l r) := by
  cases op <;> rfl

/-- An operand of arithmetic evaluates in its domain or is unavailable. -/
theorem Evaluates.operand {value : Value} {d : Domain} {result : Result Scalar}
    (h : Evaluates v value d result) (typed : Typed m a site value d)
    (other : d.kind ≠ .account .sameTenant) : InDomain d result := by
  cases h with
  | value contains => exact InDomain.value contains
  | unavailable => exact InDomain.unavailable
  | principal same =>
      subst same
      exact absurd (principal_kind typed) other

/-- A typed expression evaluates inside its domain, is unavailable, or is the account
of a principal that has none. -/
theorem Typed.sound (h : Coherent v m a) (hsite : CoherentAt v m a site) {value : Value} {d : Domain}
    (typed : Typed m a site value d) : Evaluates v value d (v.value a value) := by
  induction typed with
  | leaf typed => exact leaf_sound h hsite typed
  | @operate op left right l r d typedl typedr result ihl ihr =>
      have kinds := arithmetic_not_account result
      have evaluated : InDomain d (v.value a (op.apply left right)) := by
        rw [value_apply]
        cases hl : v.value a left with
        | error e =>
            rw [hl] at ihl
            cases ihl.operand typedl kinds.1
            exact InDomain.unavailable
        | ok s =>
            rw [hl] at ihl
            cases ihl.operand typedl kinds.1 with
            | value hs =>
                rw [bind_ok]
                cases hr : v.value a right with
                | error e =>
                    rw [hr] at ihr
                    cases ihr.operand typedr kinds.2
                    exact InDomain.unavailable
                | ok t =>
                    rw [hr] at ihr
                    cases ihr.operand typedr kinds.2 with
                    | value ht => exact arithmetic_sound result hs ht
      generalize v.value a (op.apply left right) = result at evaluated ⊢
      cases evaluated with
      | value contains => exact Evaluates.value contains
      | unavailable => exact Evaluates.unavailable

end Expressions

/-! ## Guards -/

section Guards

variable {v : Values} {m : Manifest} {a : Action} {index : Nat}

/-- The acting account stands in no guard. -/
theorem guard_inDomain (h : Coherent v m a) (hsite : CoherentAt v m a (.step index true))
    {value : Value} {d : Domain} (typed : Typed m a (.step index true) value d) :
    InDomain d (v.value a value) := by
  have evaluated := typed.sound h hsite
  generalize v.value a value = result at evaluated ⊢
  cases evaluated with
  | value contains => exact InDomain.value contains
  | unavailable => exact InDomain.unavailable
  | principal same =>
      have leaf := typed.principal same
      simp only [leafDomain, check, bind_eq_ok, ensure_eq_ok] at leaf
      rcases leaf with ⟨allowed, admitted, _, forbidden, _⟩
      cases admitted
      cases forbidden

/-- Values of comparable domains compare. -/
theorem compare_sound {left right : Domain} {s t : Scalar}
    (same : sameType left.kind right.kind = true) (hs : left.Contains s) (ht : right.Contains t) :
    ∃ order, s.compare t = .ok order := by
  cases hs with
  | absent => cases t <;> exact ⟨_, rfl⟩
  | present kind =>
      cases ht with
      | absent => cases s <;> exact ⟨_, rfl⟩
      | present kind' =>
          cases hl : left.kind <;> cases hr : right.kind <;> rw [hl, hr] at same <;>
            first | (cases same; done) | skip
          all_goals
            rw [hl] at kind
            rw [hr] at kind'
            cases s <;> first
              | exact kind.elim
              | (cases t <;> first | exact kind'.elim | exact ⟨_, rfl⟩ | skip)
          simp only [sameType, beq_iff_eq, FieldKind.reference.injEq] at same
          simp only [Scalar.compare]
          rw [if_pos (kind.1.trans (same.trans kind'.1.symm))]
          exact ⟨_, rfl⟩

/-- The ways a condition can go: a truth value, or an unavailable calculation. -/
inductive Decides : Result Bool → Prop where
  | truth {holds : Bool} : Decides (.ok holds)
  | unavailable : Decides (.error .calculationUnavailable)

/-- A typed comparison has a truth value when its operands have values. -/
theorem comparison_sound (h : Coherent v m a) (hsite : CoherentAt v m a (.step index true))
    {left right : Value} {comparison : Comparison} {l r : Domain}
    (hl : Typed m a (.step index true) left l) (hr : Typed m a (.step index true) right r)
    (rule : admitComparison l r comparison = .ok ()) :
    Decides (v.condition a (.compare left comparison right)) := by
  simp only [admitComparison, check, bind_eq_ok, ensure_eq_ok] at rule
  rcases rule with ⟨_, same, _⟩
  have evaluatedl := guard_inDomain h hsite hl
  have evaluatedr := guard_inDomain h hsite hr
  rw [Values.condition]
  cases valuel : v.value a left with
  | error e =>
      rw [valuel] at evaluatedl
      cases evaluatedl
      exact Decides.unavailable
  | ok s =>
      rw [valuel] at evaluatedl
      cases evaluatedl with
      | value hs =>
          rw [bind_ok]
          cases valuer : v.value a right with
          | error e =>
              rw [valuer] at evaluatedr
              cases evaluatedr
              exact Decides.unavailable
          | ok t =>
              rw [valuer] at evaluatedr
              cases evaluatedr with
              | value ht =>
                  rcases compare_sound same hs ht with ⟨order, compared⟩
                  rw [bind_ok, compared, bind_ok]
                  exact Decides.truth

mutual

/-- A typed condition has a truth value, or a calculation in it is unavailable. -/
theorem condition_sound (h : Coherent v m a) (hsite : CoherentAt v m a (.step index true)) :
    ∀ condition : GuardCondition, GuardTyped m a index condition →
      Decides (v.condition a condition)
  | .compare left comparison right => by
      intro typed
      cases typed with
      | compare hl hr rule => exact comparison_sound h hsite hl hr rule
  | .all conditions => by
      intro typed
      cases typed with
      | all typed =>
          rw [Values.condition]
          exact allHold_sound h hsite conditions typed

theorem allHold_sound (h : Coherent v m a) (hsite : CoherentAt v m a (.step index true)) :
    ∀ conditions : List GuardCondition,
      (∀ condition ∈ conditions, GuardTyped m a index condition) → Decides (v.allHold a conditions)
  | [] => by
      intro _
      rw [Values.allHold]
      exact Decides.truth
  | first :: rest => by
      intro typed
      have decided := condition_sound h hsite first (typed first List.mem_cons_self)
      rw [Values.allHold]
      cases result : v.condition a first with
      | error e =>
          rw [result] at decided
          cases decided
          exact Decides.unavailable
      | ok holds =>
          rw [bind_ok]
          cases holds with
          | true =>
              exact allHold_sound h hsite rest
                fun condition mem => typed condition (List.mem_cons_of_mem _ mem)
          | false => exact Decides.truth

end

end Guards

/-! ## Assigned values -/

section Assigned

variable {v : Values} {m : Manifest} {a : Action} {index : Nat} {step : Step} {op : Operation}
  {field : TextField}

/-- A value that fits its destination passes the destination's validation. -/
theorem set_sound (admitted : AdmittedField m field) {value : Value} {d : Domain} {s : Scalar}
    (identities : value.isIdentity = true → ∃ name, d = ⟨.reference name, false, 19⟩)
    (rule : admitSet field value d = .ok ()) (contains : d.Contains s) :
    validateValue field s.encode = .ok () := by
  rw [validateValue_iff, TextField.canonical_self_iff, ← canonicalScalar_self_iff]
  unfold admitSet at rule
  split at rule
  · next reference =>
    simp only [check, bind_eq_ok, ensure_eq_ok] at rule
    rcases rule with ⟨_, identity, same⟩
    rcases identities identity with ⟨name, rfl⟩
    refine ⟨by rw [← same]; rfl, ?_⟩
    rw [canonicalScalar_self_iff]
    cases contains with
    | absent optional => cases optional
    | present kind size =>
        have form := kind.form
        rw [same] at form
        have room : 19 ≤ field.maxBytes := admitted.kind_fits (by rw [← same]; rfl)
        exact Or.inr ⟨form, size.trans room⟩
  · simp only [check, ensure_eq_ok] at rule
    have scalar : field.kind.isUploadHandle = false := by
      have fit := rule
      unfold fits inputFits at fit
      split at fit
      · cases fit
      · exact (kindsFit_scalar fit).1
    exact ⟨scalar, fits_sound admitted.budgeted rule contains⟩

/-- An identity's domain is a reference. -/
theorem identity_domain {site : ValueSite} {value : Value} {d : Domain}
    (typed : Typed m a site value d) (identity : value.isIdentity = true) :
    ∃ name, d = ⟨.reference name, false, 19⟩ := by
  cases typed with
  | @operate op => cases op <;> cases identity
  | leaf typed =>
      cases value <;> first | (cases identity; done) | skip
      case target name =>
        simp only [leafDomain, check, bind_eq_ok, ensure_eq_ok] at typed
        rcases typed with ⟨_, _, _, _, resource, _, result⟩
        exact ⟨resource.name, (Except.ok.inj result).symm⟩
      case created index =>
        simp only [leafDomain, check, bind_eq_ok, ensure_eq_ok] at typed
        rcases typed with ⟨_, _, _, _, _, _, _, _, _, _, resource, _, result⟩
        exact ⟨resource.name, (Except.ok.inj result).symm⟩

/-- A value moved up or down by an amount. -/
def moved (increase : Bool) (current amount : Int) : Int :=
  if increase then current + amount else current - amount

/-- What an adjustment of a stored text answers: a valid value, moved by at least
one, the declared rejection, an unavailable calculation, or the failure to read the
absent value of an optional field. -/
inductive Adjusts (field : TextField) (increase : Bool) (text : String) (r : GuardRejection) :
    Result String → Prop where
  | moved {current amount : Int} : text = toString current → 1 ≤ amount →
      validateValue field (toString (moved increase current amount)) = .ok () →
        Adjusts field increase text r (.ok (toString (moved increase current amount)))
  | refused : Adjusts field increase text r (.error (.guardFailure r.input r.message))
  | unavailable : Adjusts field increase text r (.error .calculationUnavailable)
  | absent : field.optional = true → text = "" →
      Adjusts field increase text r (.error (.message "ParseIntError"))

/-- The bounds of an adjusted field, and of the amount. -/
theorem boundedRange_eq_ok {unbounded : String} {kind : FieldKind} {range : Bounds Int}
    (h : boundedRange unbounded kind = .ok range) :
    kind = .integer (some range.lo) (some range.hi) := by
  unfold boundedRange at h
  split at h
  · cases h
    rfl
  · cases h

/-- An adjustment's amount is at least one. -/
theorem amount_sound {d : Domain} {s : Scalar} (rule : admitAmount field d = .ok ())
    (contains : d.Contains s) : ∃ n : Int, s = .integer n ∧ 1 ≤ n ∧ s.amount = .ok n := by
  simp only [admitAmount, check, bind_eq_ok, ensure_eq_ok] at rule
  rcases rule with ⟨_, _, amount, bounded, required, positive, _⟩
  have kind := boundedRange_eq_ok bounded
  cases contains with
  | absent optional => rw [required] at optional; cases optional
  | present present size =>
      rw [kind] at present
      cases s <;> first | exact present.elim | skip
      rename_i n
      have low : 1 ≤ n := positive.trans (present.2.1 amount.lo rfl)
      have pos : 0 < n := low
      refine ⟨n, rfl, low, ?_⟩
      rw [Scalar.amount, ensure_pos pos, bind_ok]
      rfl

/-- An adjustment stays within the bounds of its field. -/
theorem adjust_valid (admitted : AdmittedField m field) {range : Bounds Int}
    (kind : field.kind = .integer (some range.lo) (some range.hi)) {current amount value : Int}
    {increase : Bool} {r : GuardRejection} (h : adjust current amount range increase r = .ok value) :
    value = moved increase current amount ∧ validateValue field (toString value) = .ok () := by
  simp only [adjust, bind_eq_ok, ensure_eq_ok] at h
  rcases h with ⟨_, within, result⟩
  cases result
  refine ⟨rfl, ?_⟩
  rw [validateValue_iff, TextField.canonical_self_iff, kind]
  have room : 20 ≤ field.maxBytes := admitted.kind_fits (by rw [kind]; rfl)
  have size := Decimal.utf8ByteSize_print_le within.1.1 within.1.2
  refine ⟨rfl, Or.inr ⟨⟨_, within.1.1, within.1.2, ?_, ?_, rfl⟩, size.trans room⟩⟩
  · intro lo bound
    cases bound
    exact within.2.1
  · intro hi bound
    cases bound
    exact within.2.2

/-- A value moved by a positive amount is a value of the field, or is refused. -/
theorem adjust_sound (admitted : AdmittedField m field) {range : Bounds Int}
    (kind : field.kind = .integer (some range.lo) (some range.hi)) {current amount : Int}
    (positive : 1 ≤ amount) {increase : Bool} {r : GuardRejection} :
    Adjusts field increase (toString current) r
      (adjust current amount range increase r >>= fun value => .ok (toString value)) := by
  cases result : adjust current amount range increase r with
  | ok value =>
      rcases adjust_valid admitted kind result with ⟨rfl, valid⟩
      exact Adjusts.moved rfl positive valid
  | error e =>
      simp only [adjust, bind_eq_error, ensure_eq_error] at result
      rcases result with ⟨_, rfl⟩ | ⟨_, _, result⟩
      · exact Adjusts.refused
      · cases result

/-- The stored text of an integer field: the permitted absence or an integer. -/
theorem stored_integer {resource : Resource} {stored : StoredRecord} {min max : Option Int}
    (valid : validateFields resource stored.record.fields = .ok ()) (mem : field ∈ resource.fields)
    (kind : field.kind = .integer min max) :
    ∃ text, stored.record.fields.lookup field.name = some text ∧
      ((field.optional = true ∧ text = "") ∨ ∃ current : Int, text = toString current ∧
        Decimal.parseI64 text = some current) := by
  rcases (validateFields_iff.mp valid).2 field mem with ⟨text, present, canonical⟩
  rw [TextField.canonical_self_iff] at canonical
  refine ⟨text, present, ?_⟩
  rcases canonical.2 with absent | ⟨form, _⟩
  · exact Or.inl absent
  · rw [kind] at form
    rcases form with ⟨n, low, high, _, _, rfl⟩
    exact Or.inr ⟨n, rfl, Decimal.parseI64_print low high⟩

/-- An admitted adjustment of a valid row moves the field within its bounds, or is
refused. -/
theorem adjusted_sound (h : Coherent v m a) (hsite : CoherentAt v m a (.step index false))
    {resource : Resource} (hresource : m.resource op.resource = .ok resource)
    (admitted : AdmittedResource m resource) {name : String}
    (found : resource.field? name = some field) {by_ : Value} {d : Domain}
    (typed : Typed m a (.step index false) by_ d) (rule : admitAmount field d = .ok ())
    {stored : StoredRecord} (valid : ValidRow m op.resource stored) {increase : Bool}
    {r : GuardRejection} : ∃ text, stored.record.fields.lookup name = some text ∧
      Adjusts field increase text r (v.adjustedValue a op name (some stored) by_ increase r) := by
  have declared := Resource.field?_mem found
  have bounds : ∃ range : Bounds Int, field.kind = .integer (some range.lo) (some range.hi) ∧
      boundedRange "unbounded adjustment" field.kind = .ok range := by
    simp only [admitAmount, check, bind_eq_ok] at rule
    rcases rule with ⟨range, bounded, _⟩
    have kind := boundedRange_eq_ok bounded
    exact ⟨range, kind, by rw [kind]; rfl⟩
  rcases bounds with ⟨range, kind, bounded⟩
  rcases stored_integer (valid resource hresource) declared.1 kind with ⟨text, present, integer⟩
  rw [declared.2] at present
  refine ⟨text, present, ?_⟩
  rw [Values.adjustedValue, need, context, bind_ok, h.manifest, hresource, bind_ok, found, need,
    context, bind_ok, bounded, bind_ok, present, need, context, bind_ok]
  rcases integer with absent | ⟨current, rfl, parsed⟩
  · rw [absent.2]
    exact Adjusts.absent absent.1 rfl
  · rw [parsed, need, context, bind_ok]
    have evaluated := (typed.sound h hsite).operand typed (by
      simp only [admitAmount, check, bind_eq_ok] at rule
      rcases rule with ⟨_, _, _, amount, _⟩
      rw [boundedRange_eq_ok amount]
      simp)
    generalize v.value a by_ = result at evaluated ⊢
    cases evaluated with
    | unavailable => exact Adjusts.unavailable
    | value contains =>
        rcases amount_sound rule contains with ⟨n, rfl, positive, amount⟩
        rw [bind_ok, amount, bind_ok]
        exact adjust_sound (admitted.fields field declared.1) kind positive

theorem utf8Size_of_lowerHex {c : Char} (h : lowerHex c = true) : c.utf8Size = 1 := by
  simp only [lowerHex, Bool.or_eq_true, Bool.and_eq_true, decide_eq_true_eq] at h
  rcases h with digit | ⟨_, small⟩
  · exact Decimal.utf8Size_of_isDigit digit
  · have last : 'f'.val ≤ 127 := by decide
    have bound : c.val ≤ 127 := UInt32.le_trans small last
    exact Char.utf8Size_eq_one_iff.mpr bound

/-- A blob token is 67 bytes long. -/
theorem blobRef_size {text : String} (h : blobRef text = true) : text.utf8ByteSize = 67 := by
  simp only [blobRef, blobToken, Bool.and_eq_true, List.isPrefixOf_iff_prefix, beq_iff_eq,
    List.all_eq_true] at h
  rcases h with ⟨⟨rest, split⟩, length, hex⟩
  rw [← split, List.drop_left] at length hex
  have tag : ∀ c ∈ ['b', '1', '_'], c.utf8Size = 1 := by decide
  have ascii : ∀ c ∈ text.toList, c.utf8Size = 1 := by
    rw [← split]
    intro c mem
    rcases List.mem_append.mp mem with mem | digit
    · exact tag c mem
    · exact utf8Size_of_lowerHex (hex c digit)
  rw [Decimal.utf8ByteSize_of_ascii ascii, ← split, List.length_append, length]
  rfl

/-- What a blob assignment writes is a value of the field. -/
theorem blob_sound (admitted : AdmittedField m field) {uploads : Option Uploads} {maxBytes : Nat}
    (kind : field.kind.blobLimit = some maxBytes) {change : Change} {text : String}
    (h : v.blobAssignment uploads op field maxBytes change = .ok text) :
    validateValue field text = .ok () := by
  have blob : field.kind = .blob maxBytes := by
    cases shape : field.kind <;> rw [shape] at kind <;> cases kind
    rfl
  have room : field.maxBytes = 67 := by
    have valid := admitted.kind
    simp only [validateFieldKind, blob, check, ensure_eq_ok] at valid
    exact valid.2.2.1
  rw [validateValue_iff, TextField.canonical_self_iff, blob, room]
  refine ⟨rfl, ?_⟩
  unfold Values.blobAssignment at h
  split at h
  · simp only [bind_eq_ok] at h
    rcases h with ⟨_, _, raw, _, h⟩
    split at h
    · next absent =>
      rcases bind_eq_ok.mp h with ⟨_, _, result⟩
      cases result
      exact Or.inl ⟨absent.2, rfl⟩
    · simp only [bind_eq_ok] at h
      rcases h with ⟨_, _, _, _, locked, _, _, _, result⟩
      cases result
      exact Or.inr ⟨locked.ref.2, (blobRef_size locked.ref.2).le⟩
  · cases h

theorem adjustedValue_valid (h : Coherent v m a) {resource : Resource}
    (hresource : m.resource op.resource = .ok resource) (admitted : AdmittedField m field)
    {name : String} (found : resource.field? name = some field) {by_ : Value}
    {stored : Option StoredRecord} {increase : Bool} {r : GuardRejection} {text : String}
    (result : v.adjustedValue a op name stored by_ increase r = .ok text) :
    validateValue field text = .ok () := by
  simp only [Values.adjustedValue, h.manifest, hresource, need, bind_eq_ok,
    context_eq_ok] at result
  rcases result with ⟨_, _, _, same, schema, hschema, range, bounded, _, _, _, _, _, _, _, _, value,
    adjusted, encoded⟩
  cases same
  cases found.symm.trans hschema
  cases encoded
  exact (adjust_valid admitted (boundedRange_eq_ok bounded) adjusted).2

/-- What an admitted assignment writes is a value of its field. -/
theorem assigned_sound (h : Coherent v m a) (hsite : CoherentAt v m a (.step index false))
    {resource : Resource} (hresource : m.resource op.resource = .ok resource)
    (admitted : AdmittedResource m resource) {assignment : Assignment}
    (found : resource.field? assignment.field = some field)
    (change : ChangeAdmitted m a index step op field assignment.change)
    {uploads : Option Uploads} {stored : Option StoredRecord} {text : String}
    (result : v.assigned uploads a op stored field assignment = .ok text) :
    validateValue field text = .ok () := by
  have admits := admitted.fields field (Resource.field?_mem found).1
  unfold Values.assigned at result
  split at result
  · next limit => exact blob_sound admits limit result
  · next noBlob =>
    cases kind : assignment.change with
    | set value =>
        rw [kind] at change result
        rcases change with blob | ⟨d, typed, rule⟩
        · rw [noBlob] at blob
          cases blob
        · simp only [bind_eq_ok] at result
          rcases result with ⟨s, evaluated, encoded⟩
          cases encoded
          have sound := typed.typed.sound h hsite
          rw [evaluated] at sound
          cases sound with
          | value contains => exact set_sound admits (identity_domain typed.typed) rule contains
    | decrease by_ r =>
        rw [kind] at change result
        exact adjustedValue_valid h hresource admits found result
    | increase by_ r =>
        rw [kind] at change result
        exact adjustedValue_valid h hresource admits found result

end Assigned

end Noxide
