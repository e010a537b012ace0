import Noxide.Admission.Parameters

/-!
# Resources

Admission of resource declarations: their fields with the byte budget each kind
needs, the gates of gated resources and the unique tuples of memberships.

Main results:

- Theorem {lit}`validateResources_spec`: admitted resources have distinct names
  and admitted fields.
- Theorem {lit}`AdmittedField.kind_fits`: an admitted field has room for the
  values of its kind.
-/

namespace Noxide

open Checked

/-! ## Fields -/

def maxUploadBytes : Nat := 10 * 1024 * 1024

/-- A label is nonempty, bounded and free of control characters. -/
def validLabel (label : String) : Bool :=
  label != "" && decide (label.utf8ByteSize ≤ 128) && !label.toList.any isControl

/-- The choices after those with the earlier keys: distinct keys that fit the byte
limit, each with a label. -/
def validateVariantsFrom (key label : String) (maxBytes : Nat) :
    List String → List ChoiceVariant → Result Unit
  | _, [] => .ok ()
  | earlier, v :: rest => do
      check key (identifier v.key = true ∧ v.key ∉ earlier ∧ v.key.utf8ByteSize ≤ maxBytes)
      check label (validLabel v.label = true)
      validateVariantsFrom key label maxBytes (v.key :: earlier) rest

/-- An initial value is a canonical boolean or choice of a required field. -/
def validateInitial (f : TextField) : Result Unit :=
  match f.initial with
  | none => .ok ()
  | some value => do
      check "initial requires a non-optional boolean or choice"
        (f.optional = false ∧ f.kind.isFinite = true)
      check "invalid initial value" (f.canonical value = .ok value)

def validateFieldKind (m : Manifest) (f : TextField) : Result Unit :=
  match f.kind with
  | .uploadHandle _ => .error (.message "upload handles are action inputs only")
  | .blob maxBytes =>
      check "invalid Blob field"
        (0 < maxBytes ∧ maxBytes ≤ maxUploadBytes ∧ f.maxBytes = 67 ∧ f.initial = none)
  | .reference key => do
      check "reference must be required without defaults and hold an ID"
        (f.optional = false ∧ f.initial = none ∧ 19 ≤ f.maxBytes)
      check "unknown reference resource" (∃ target ∈ m.resources, target.name = key)
  | .account _ =>
      check "account fields must be required without defaults"
        (f.optional = false ∧ f.initial = none ∧ 43 ≤ f.maxBytes)
  | .text => .ok ()
  | .timestamp => check "timestamp field budget" (20 ≤ f.maxBytes)
  | .duration maxMillis => check "duration field schema" (20 ≤ f.maxBytes ∧ 0 ≤ maxMillis)
  | .boolean => check "boolean field budget" (5 ≤ f.maxBytes)
  | .integer min max =>
      check "integer schema" (20 ≤ f.maxBytes ∧ ∀ lo ∈ min, ∀ hi ∈ max, lo ≤ hi)
  | .choice variants => do
      check "choice limit" (variants ≠ [] ∧ variants.length ≤ 32)
      validateVariantsFrom "choice key" "choice label" f.maxBytes [] variants

/-- One field declaration after those with the earlier names. -/
def validateFieldDeclaration (m : Manifest) (earlier : List String) (f : TextField) :
    Result Unit := do
  check "invalid field" (identifier f.name = true ∧ f.name ∉ earlier)
  check "field limit" (0 < f.maxBytes ∧ f.maxBytes ≤ 4096)
  validateFieldKind m f
  check "invalid label" (validLabel f.label = true)

def validateFieldsFrom (m : Manifest) : List String → List TextField → Result Unit
  | _, [] => .ok ()
  | earlier, f :: rest => do
      validateFieldDeclaration m earlier f
      validateFieldsFrom m (f.name :: earlier) rest

/-! ## Resources -/

def maxRecordBytes : Nat := 8192

def validateResource (m : Manifest) (earlier : List String) (r : Resource) : Result Unit := do
  r.fields.forM validateInitial
  check "invalid resource" (identifier r.name = true ∧ r.name ∉ earlier ∧ r.fields ≠ []
    ∧ r.fields.length ≤ 8)
  check "reference field limit" ((r.fields.filter fun f => f.kind.isReference).length ≤ 4)
  check "account field limit" ((r.fields.filter fun f => f.kind.isAccount).length ≤ 4)
  validateFieldsFrom m [] r.fields
  check "record limit" ((r.fields.map TextField.maxBytes).sum ≤ maxRecordBytes)

def validateResourcesFrom (m : Manifest) : List String → List Resource → Result Unit
  | _, [] => .ok ()
  | earlier, r :: rest => do
      validateResource m earlier r
      validateResourcesFrom m (r.name :: earlier) rest

def validateResources (m : Manifest) : Result Unit :=
  validateResourcesFrom m [] m.resources

/-! ## Gates and unique tuples -/

def Resource.referenceFields (r : Resource) : List TextField :=
  r.fields.filter fun f => f.kind.isReference

def Resource.referenceField (r : Resource) (name : String) : Option TextField :=
  r.referenceFields.find? fun f => f.name == name

/-- A canonical value of a boolean or choice field. -/
def validatePredicateValue (r : Resource) (unknown invalid : String) (predicate : Visibility) :
    Result Unit := do
  let field ← need unknown (r.field? predicate.field)
  check invalid (field.kind.isFinite = true ∧ field.canonical predicate.equals = .ok predicate.equals)

def validateResourceGate (m : Manifest) (r : Resource) : Result Unit :=
  match r.gate with
  | none => .ok ()
  | some gate => do
      let _ ← need "gate requires reference" (r.referenceField gate.field)
      let parent ← referenceResource m r.id gate.field
      let target ← need "gate requires reference" parent
      check "gate target cannot have a gate" (target.gate = none)
      validatePredicateValue target "unknown gate predicate field" "invalid gate predicate" gate.visible
      validatePredicateValue target "unknown gate predicate field" "invalid gate predicate" gate.createWhen

def validateResourceGates (m : Manifest) : Result Unit :=
  m.resources.forM (validateResourceGate m)

/-! ## What admission guarantees of resources -/

/-- An admitted field: its kind's rules hold and it has room for its values. -/
structure AdmittedField (m : Manifest) (f : TextField) : Prop where
  named : identifier f.name = true
  positive : 0 < f.maxBytes
  bounded : f.maxBytes ≤ 4096
  kind : validateFieldKind m f = .ok ()
  initial : validateInitial f = .ok ()

/-- An admitted resource: named, with at most eight distinct admitted fields. -/
structure AdmittedResource (m : Manifest) (r : Resource) : Prop where
  named : identifier r.name = true
  fields : ∀ f ∈ r.fields, AdmittedField m f
  distinct : (r.fields.map TextField.name).Nodup
  count : r.fields ≠ [] ∧ r.fields.length ≤ 8
  size : (r.fields.map TextField.maxBytes).sum ≤ maxRecordBytes

theorem validateFieldsFrom_spec {m : Manifest} {fields : List TextField} {earlier : List String}
    (h : validateFieldsFrom m earlier fields = .ok ()) :
    (∀ f ∈ fields, identifier f.name = true ∧ (0 < f.maxBytes ∧ f.maxBytes ≤ 4096) ∧
      validateFieldKind m f = .ok () ∧ f.name ∉ earlier) ∧ (fields.map TextField.name).Nodup := by
  induction fields generalizing earlier with
  | nil => simp
  | cons first rest ih =>
      simp only [validateFieldsFrom, validateFieldDeclaration, check, bind_eq_ok, ensure_eq_ok] at h
      rcases h with ⟨_, ⟨_, named, _, sized, _, kind, _⟩, later⟩
      have rest_spec := ih later
      constructor
      · intro f mem
        rcases List.mem_cons.mp mem with rfl | mem
        · exact ⟨named.1, sized, kind, named.2⟩
        · have spec := rest_spec.1 f mem
          exact ⟨spec.1, spec.2.1, spec.2.2.1, fun old => spec.2.2.2 (List.mem_cons_of_mem _ old)⟩
      · rw [List.map_cons, List.nodup_cons]
        refine ⟨fun mem => ?_, rest_spec.2⟩
        rcases List.mem_map.mp mem with ⟨f, hf, same⟩
        exact (rest_spec.1 f hf).2.2.2 (same ▸ List.mem_cons_self)

theorem validateResource_spec {m : Manifest} {earlier : List String} {r : Resource}
    (h : validateResource m earlier r = .ok ()) : AdmittedResource m r ∧ r.name ∉ earlier := by
  simp only [validateResource, check, bind_eq_ok, ensure_eq_ok, forM_eq_ok] at h
  rcases h with ⟨_, initial, _, shape, _, _, _, _, _, fields, size⟩
  have spec := validateFieldsFrom_spec fields
  refine ⟨⟨shape.1, fun f mem => ?_, spec.2, shape.2.2, size⟩, shape.2.1⟩
  have field := spec.1 f mem
  exact ⟨field.1, field.2.1.1, field.2.1.2, field.2.2.1, initial f mem⟩

/-- Admitted resources have distinct names and admitted fields. -/
theorem validateResources_spec {m : Manifest} (h : validateResources m = .ok ()) :
    (∀ r ∈ m.resources, AdmittedResource m r) ∧ (m.resources.map Resource.name).Nodup := by
  have general : ∀ (resources : List Resource) (earlier : List String),
      validateResourcesFrom m earlier resources = .ok () →
        (∀ r ∈ resources, AdmittedResource m r ∧ r.name ∉ earlier) ∧
          (resources.map Resource.name).Nodup := by
    intro resources
    induction resources with
    | nil => intro _ _; simp
    | cons first rest ih =>
        intro earlier h
        simp only [validateResourcesFrom, bind_eq_ok] at h
        rcases h with ⟨_, valid, later⟩
        have rest_spec := ih _ later
        constructor
        · intro r mem
          rcases List.mem_cons.mp mem with rfl | mem
          · exact validateResource_spec valid
          · have spec := rest_spec.1 r mem
            exact ⟨spec.1, fun old => spec.2 (List.mem_cons_of_mem _ old)⟩
        · rw [List.map_cons, List.nodup_cons]
          refine ⟨fun mem => ?_, rest_spec.2⟩
          rcases List.mem_map.mp mem with ⟨r, hr, same⟩
          exact (rest_spec.1 r hr).2 (same ▸ List.mem_cons_self)
  have spec := general m.resources [] h
  exact ⟨fun r mem => (spec.1 r mem).1, spec.2⟩

/-- Admitted choices have keys that fit the byte limit. -/
theorem validateVariantsFrom_fit {key label : String} {maxBytes : Nat} {earlier : List String}
    {variants : List ChoiceVariant}
    (h : validateVariantsFrom key label maxBytes earlier variants = .ok ()) :
    ∀ v ∈ variants, v.key.utf8ByteSize ≤ maxBytes := by
  induction variants generalizing earlier with
  | nil => intro v mem; cases mem
  | cons first rest ih =>
      simp only [validateVariantsFrom, check, bind_eq_ok, ensure_eq_ok] at h
      rcases h with ⟨_, fits, _, _, later⟩
      intro v mem
      rcases List.mem_cons.mp mem with rfl | mem
      · exact fits.2.2
      · exact ih later v mem

/-- The bytes every value of a kind fits, where the kind alone bounds them. -/
def kindBytes : FieldKind → Option Nat
  | .reference _ => some 19
  | .account _ => some 43
  | .timestamp | .duration _ | .integer _ _ => some 20
  | .boolean => some 5
  | .text | .choice _ | .blob _ | .uploadHandle _ => none

/-- Values of a kind fit the kind's bytes. -/
theorem CanonicalForm.fits_kind {kind : FieldKind} {value : String} {bytes : Nat}
    (h : CanonicalForm kind value) (bound : kindBytes kind = some bytes) :
    value.utf8ByteSize ≤ bytes := by
  cases kind with
  | reference r =>
      rcases h with ⟨id, _, small, rfl⟩
      cases bound
      refine Decimal.utf8ByteSize_print_nat_le (by decide) ?_
      unfold i64Max at small
      omega
  | account scope =>
      cases bound
      simp only [CanonicalForm, accountId, Bool.and_eq_true, beq_iff_eq] at h
      exact h.1.1.le
  | timestamp =>
      rcases h with ⟨n, low, high, rfl⟩
      cases bound
      exact Decimal.utf8ByteSize_print_le (by omega) high
  | duration maxMillis =>
      rcases h with ⟨n, low, _, high, rfl⟩
      cases bound
      exact Decimal.utf8ByteSize_print_le (by omega) high
  | integer min max =>
      rcases h with ⟨n, low, high, _, _, rfl⟩
      cases bound
      exact Decimal.utf8ByteSize_print_le low high
  | boolean =>
      cases bound
      rcases h with rfl | rfl <;> decide
  | text => cases bound
  | choice variants => cases bound
  | blob n => cases bound
  | uploadHandle n => cases bound

/-- An admitted field has room for the values of its kind. -/
theorem AdmittedField.kind_fits {m : Manifest} {f : TextField} (h : AdmittedField m f) {bytes : Nat}
    (bound : kindBytes f.kind = some bytes) : bytes ≤ f.maxBytes := by
  have valid := h.kind
  unfold validateFieldKind at valid
  cases kind : f.kind with
  | reference r =>
      simp only [kind, check, bind_eq_ok, ensure_eq_ok] at valid
      rw [kind] at bound
      cases bound
      rcases valid with ⟨_, room, _⟩
      exact room.2.2
  | account scope =>
      simp only [kind, check, ensure_eq_ok] at valid
      rw [kind] at bound
      cases bound
      exact valid.2.2
  | timestamp =>
      simp only [kind, check, ensure_eq_ok] at valid
      rw [kind] at bound
      cases bound
      exact valid
  | duration maxMillis =>
      simp only [kind, check, ensure_eq_ok] at valid
      rw [kind] at bound
      cases bound
      exact valid.1
  | integer min max =>
      simp only [kind, check, ensure_eq_ok] at valid
      rw [kind] at bound
      cases bound
      exact valid.1
  | boolean =>
      simp only [kind, check, ensure_eq_ok] at valid
      rw [kind] at bound
      cases bound
      exact valid
  | text => rw [kind] at bound; cases bound
  | choice variants => rw [kind] at bound; cases bound
  | blob n => rw [kind] at bound; cases bound
  | uploadHandle n => rw [kind] at bound; cases bound

end Noxide
