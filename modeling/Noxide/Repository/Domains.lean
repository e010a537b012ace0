import Noxide.Admission.Operations
import Noxide.Repository.Computation

/-!
# Values of a domain

The scalars a domain contains, the destinations that take them, and arithmetic
on them.

Main results:

- Theorem {lit}`parseScalar_contains`: a canonical stored text parses inside the
  domain of its schema.
- Theorem {lit}`fits_sound`: a value of a fitting domain is a value of the
  destination.
- Theorem {lit}`arithmetic_sound`: an operation on members of typed operands stays
  in the operation's domain, or is unavailable.
-/

namespace Noxide

open Checked

/-! ## Members of a domain -/

/-- A present scalar of a kind. -/
def Scalar.HasKind : Scalar → FieldKind → Prop
  | .text v, .text => CanonicalText v
  | .integer n, .integer min max =>
      (-(2 ^ 63) ≤ n ∧ n < 2 ^ 63) ∧ (∀ m ∈ min, m ≤ n) ∧ ∀ m ∈ max, n ≤ m
  | .boolean _, .boolean => True
  | .choice v, .choice variants => v ∈ variants.map ChoiceVariant.key
  | .account v, .account _ => accountId v = true
  | .timestamp n, .timestamp => 0 ≤ n ∧ n < 2 ^ 63
  | .duration n, .duration maxMillis => 0 ≤ n ∧ n ≤ maxMillis ∧ n < 2 ^ 63
  | .reference r id, .reference r' => r = r' ∧ id ≠ 0 ∧ id ≤ i64Max
  | _, _ => False

/-- A domain contains its kind's scalars of bounded length, and absence if it is
optional. -/
inductive Domain.Contains (d : Domain) : Scalar → Prop where
  | absent : d.optional = true → Contains d (.missing d.kind)
  | present {s : Scalar} :
      s.HasKind d.kind → s.encode.utf8ByteSize ≤ d.maxBytes → Contains d s

/-- A present scalar encodes in its kind's canonical form. -/
theorem Scalar.HasKind.form {s : Scalar} {kind : FieldKind} (h : s.HasKind kind) :
    CanonicalForm kind s.encode := by
  unfold Scalar.HasKind at h
  split at h
  · exact h
  · exact ⟨_, h.1.1, h.1.2, h.2.1, h.2.2, rfl⟩
  · next b =>
    cases b with
    | true => exact Or.inl rfl
    | false => exact Or.inr rfl
  · exact h
  · exact h
  · exact ⟨_, h.1, h.2, rfl⟩
  · exact ⟨_, h.1, h.2.1, h.2.2, rfl⟩
  · exact ⟨_, h.2.1, h.2.2, rfl⟩
  · exact h.elim

/-- A canonical stored text parses to the scalar that encodes as this text. -/
theorem presentScalar_form {kind : FieldKind} {text : String} (h : CanonicalForm kind text)
    (scalar : kind.isBlob = false ∧ kind.isUploadHandle = false) :
    ∃ s, presentScalar kind text = .ok s ∧ s.HasKind kind ∧ s.encode = text := by
  cases kind with
  | blob n => cases scalar.1
  | uploadHandle n => cases scalar.2
  | text => exact ⟨.text text, rfl, h, rfl⟩
  | choice variants => exact ⟨.choice text, rfl, h, rfl⟩
  | account scope => exact ⟨.account text, rfl, h, rfl⟩
  | boolean =>
      rcases h with rfl | rfl
      · exact ⟨.boolean true, rfl, trivial, rfl⟩
      · exact ⟨.boolean false, rfl, trivial, rfl⟩
  | integer min max =>
      rcases h with ⟨n, low, high, hmin, hmax, rfl⟩
      refine ⟨.integer n, ?_, ⟨⟨low, high⟩, hmin, hmax⟩, rfl⟩
      rw [presentScalar, Decimal.parseI64_print low high]
      rfl
  | timestamp =>
      rcases h with ⟨n, low, high, rfl⟩
      refine ⟨.timestamp n, ?_, ⟨low, high⟩, rfl⟩
      simp only [presentScalar, Decimal.parseI64_print (by omega) high, need, context, check, bind_ok]
      rw [ensure_pos low]
      rfl
  | duration maxMillis =>
      rcases h with ⟨n, low, hmax, high, rfl⟩
      refine ⟨.duration n, ?_, ⟨low, hmax, high⟩, rfl⟩
      simp only [presentScalar, Decimal.parseI64_print (by omega) high, need, context, check, bind_ok]
      rw [ensure_pos low]
      rfl
  | reference r =>
      rcases h with ⟨id, nonzero, small, rfl⟩
      refine ⟨.reference r id, ?_, ⟨rfl, nonzero, small⟩, rfl⟩
      have wide : id < 2 ^ 64 := by unfold i64Max at small; omega
      rw [presentScalar, Decimal.parseU64_print wide]
      rfl

/-- A canonical text of a schema parses inside the schema's domain. -/
theorem parseScalar_contains {d : Domain} {text : String}
    (h : canonicalScalar d.kind d.optional d.maxBytes text = .ok text)
    (scalar : d.kind.isBlob = false ∧ d.kind.isUploadHandle = false) :
    ∃ s, parseScalar d.kind d.optional text = .ok s ∧ d.Contains s ∧ s.encode = text := by
  rw [parseScalar, check, ensure_pos scalar, bind_ok]
  by_cases absent : d.optional = true ∧ text = ""
  · rw [if_pos absent]
    exact ⟨.missing d.kind, rfl, Domain.Contains.absent absent.1, absent.2.symm⟩
  · rw [if_neg absent]
    rcases canonicalScalar_self_iff.mp h with empty | ⟨form, size⟩
    · exact absurd empty absent
    · rcases presentScalar_form form scalar with ⟨s, hs, kind, encoded⟩
      exact ⟨s, hs, Domain.Contains.present kind (encoded ▸ size), encoded⟩

/-! ## Destinations -/

/-- A schema with room for the values of its kind. -/
structure Budgeted (kind : FieldKind) (maxBytes : Nat) : Prop where
  fixed : ∀ bytes, kindBytes kind = some bytes → bytes ≤ maxBytes
  choices : ∀ variants, kind = .choice variants → ∀ v ∈ variants, v.key.utf8ByteSize ≤ maxBytes

theorem AdmittedField.budgeted {m : Manifest} {f : TextField} (h : AdmittedField m f) :
    Budgeted f.kind f.maxBytes := by
  constructor
  · intro bytes bound
    exact h.kind_fits bound
  · intro variants kind
    have valid := h.kind
    simp only [validateFieldKind, kind, check, bind_eq_ok, ensure_eq_ok] at valid
    rcases valid with ⟨_, _, fit⟩
    exact validateVariantsFrom_fit fit

/-- An admitted input has room for the values of its kind. -/
theorem validateInputSchema_budgeted {input : Input} (h : validateInputSchema input = .ok ()) :
    Budgeted input.kind input.maxBytes := by
  simp only [validateInputSchema, check, bind_eq_ok, ensure_eq_ok] at h
  rcases h with ⟨_, _, _, _, valid⟩
  unfold validateInputKind at valid
  constructor
  · intro bytes bound
    cases kind : input.kind <;> rw [kind] at bound <;> cases bound <;>
      simp only [kind, check, ensure_eq_ok] at valid
    · exact valid.1
    · exact valid
    · exact valid
    · exact valid.1
    · cases valid
    · exact valid.1
  · intro variants kind
    simp only [kind, check, bind_eq_ok, ensure_eq_ok] at valid
    rcases valid with ⟨_, _, fit⟩
    exact validateVariantsFrom_fit fit

/-- Integer bounds of a fitting schema are within the destination's. -/
theorem integer_bounds {sourceMin sourceMax min max : Option Int} {n : Int}
    (low : min.getD Domain.i64.lo ≤ sourceMin.getD Domain.i64.lo)
    (high : sourceMax.getD Domain.i64.hi ≤ max.getD Domain.i64.hi)
    (range : -(2 ^ 63) ≤ n ∧ n < 2 ^ 63) (hmin : ∀ m ∈ sourceMin, m ≤ n)
    (hmax : ∀ m ∈ sourceMax, n ≤ m) : (∀ m ∈ min, m ≤ n) ∧ ∀ m ∈ max, n ≤ m := by
  have source_low : sourceMin.getD Domain.i64.lo ≤ n := by
    cases sourceMin with
    | none => exact range.1
    | some m => exact hmin m rfl
  have source_high : n ≤ sourceMax.getD Domain.i64.hi := by
    cases sourceMax with
    | none => exact Int.le_sub_one_of_lt range.2
    | some m => exact hmax m rfl
  constructor
  · rintro m rfl
    exact low.trans source_low
  · rintro m rfl
    exact source_high.trans high

/-- A present value of a fitting schema has the destination's kind. -/
theorem kindsFit_hasKind {source target : FieldKind} {sourceBytes targetBytes : Nat} {s : Scalar}
    (fit : kindsFit source target sourceBytes targetBytes = true) (h : s.HasKind source) :
    s.HasKind target := by
  cases source <;> cases target <;> first | (cases fit; done) | skip
  case text.text => exact h
  case account.account source target =>
    cases s <;> first | exact h.elim | exact h
  case boolean.boolean => exact h
  case timestamp.timestamp => exact h
  case duration.duration source target =>
    have bound : source ≤ target := of_decide_eq_true fit
    cases s <;> first | exact h.elim | exact ⟨h.1, h.2.1.trans bound, h.2.2⟩
  case integer.integer sourceMin sourceMax min max =>
    simp only [kindsFit, Bool.and_eq_true, decide_eq_true_eq] at fit
    cases s <;> first | exact h.elim |
      exact ⟨h.1, integer_bounds fit.1 fit.2 h.1 h.2.1 h.2.2⟩
  case choice.choice source target =>
    simp only [kindsFit, List.all_eq_true, List.any_eq_true, beq_iff_eq] at fit
    cases s <;> first | exact h.elim | skip
    rename_i value
    rcases List.mem_map.mp h with ⟨v, hv, rfl⟩
    rcases fit v hv with ⟨w, hw, same⟩
    exact List.mem_map.mpr ⟨w, hw, same⟩

/-- A present value of a fitting schema fits the destination's bytes. -/
theorem kindsFit_bytes {source target : FieldKind} {sourceBytes targetBytes : Nat} {s : Scalar}
    (fit : kindsFit source target sourceBytes targetBytes = true) (budget : Budgeted target targetBytes)
    (h : s.HasKind target) (size : s.encode.utf8ByteSize ≤ sourceBytes) :
    s.encode.utf8ByteSize ≤ targetBytes := by
  cases bound : kindBytes target with
  | some bytes => exact (h.form.fits_kind bound).trans (budget.fixed bytes bound)
  | none =>
      cases target with
      | text =>
          cases source <;> first | (cases fit) | skip
          exact size.trans (of_decide_eq_true fit)
      | choice variants =>
          rcases List.mem_map.mp h.form with ⟨v, hv, same⟩
          exact same ▸ budget.choices variants rfl v hv
      | blob n => cases source <;> cases fit
      | uploadHandle n => cases source <;> cases fit
      | reference r => cases bound
      | account scope => cases bound
      | timestamp => cases bound
      | duration maxMillis => cases bound
      | integer min max => cases bound
      | boolean => cases bound

/-- A value of a fitting domain is a value of the destination. -/
theorem fits_sound {d : Domain} {field : TextField} {s : Scalar}
    (budget : Budgeted field.kind field.maxBytes) (fit : fits d field = true)
    (h : d.Contains s) :
    canonicalScalar field.kind field.optional field.maxBytes s.encode = .ok s.encode := by
  rw [canonicalScalar_self_iff]
  unfold fits inputFits at fit
  split at fit
  · cases fit
  · next optional =>
    cases h with
    | absent absent =>
        left
        simp only [absent, Bool.true_and, Bool.not_eq_true', Bool.not_eq_false] at optional
        exact ⟨optional, rfl⟩
    | present kind size =>
        right
        have kept := kindsFit_hasKind fit kind
        exact ⟨kept.form, kindsFit_bytes fit budget kept size⟩

/-- No kind fits an upload handle, a blob or a reference. -/
theorem kindsFit_scalar {source target : FieldKind} {sourceBytes targetBytes : Nat}
    (fit : kindsFit source target sourceBytes targetBytes = true) :
    target.isUploadHandle = false ∧ target.isBlob = false ∧ target.isReference = false := by
  cases target with
  | blob n => cases source <;> cases fit
  | uploadHandle n => cases source <;> cases fit
  | reference r => cases source <;> cases fit
  | _ => exact ⟨rfl, rfl, rfl⟩

/-! ## Arithmetic -/

/-- The ways an evaluation can go: a value of the domain, or an unavailable
calculation. -/
inductive InDomain (d : Domain) : Result Scalar → Prop where
  | value {s : Scalar} : d.Contains s → InDomain d (.ok s)
  | unavailable : InDomain d (.error .calculationUnavailable)

/-- A required integer evaluates within its range. -/
theorem number_contains {d : Domain} {range : Bounds Int} {s : Scalar} (h : d.number = .ok range)
    (mem : d.Contains s) : ∃ n, s = .integer n ∧ n ∈ Domain.i64 ∧ n ∈ range := by
  simp only [Domain.number, check, bind_eq_ok, ensure_eq_ok] at h
  rcases h with ⟨_, required, h⟩
  cases mem with
  | absent optional => rw [required] at optional; cases optional
  | present kind size =>
      split at h
      · next min max integer =>
        cases h
        rw [integer] at kind
        cases s <;> first | exact kind.elim | skip
        rename_i n
        have within : n ∈ Domain.i64 := ⟨kind.1.1, Int.le_sub_one_of_lt kind.1.2⟩
        refine ⟨n, rfl, within, ?_, ?_⟩
        · cases min with
          | none => exact within.1
          | some m => exact kind.2.1 m rfl
        · cases max with
          | none => exact within.2
          | some m => exact kind.2.2 m rfl
      · cases h

theorem Arithmetic.int_mem (op : Arithmetic) {left right : Bounds Int} {x y : Int}
    (hx : x ∈ left) (hy : y ∈ right) : op.int x y ∈ op.range left right := by
  cases op with
  | add => exact Bounds.add_mem hx hy
  | subtract => exact Bounds.sub_mem hx hy
  | multiply => exact Bounds.mul_mem hx hy

/-- A checked integer lies in the clamped range, or the calculation is
unavailable. -/
theorem checked_inDomain {range : Bounds Int} {n : Int} (h : n ∈ range) :
    InDomain (Domain.integer (Bounds.clamp Domain.i64 range))
      (checkedI64 n >>= fun value => .ok (.integer value)) := by
  unfold checkedI64
  by_cases fits : -(2 ^ 63) ≤ n ∧ n < 2 ^ 63
  · rw [ensure_pos fits, bind_ok]
    have within : n ∈ Domain.i64 := ⟨fits.1, Int.le_sub_one_of_lt fits.2⟩
    have clamped := Bounds.clamp_mem within h
    refine InDomain.value (Domain.Contains.present ⟨fits, ?_, ?_⟩ ?_)
    · intro m bound
      cases bound
      exact clamped.1
    · intro m bound
      cases bound
      exact clamped.2
    · exact Decimal.utf8ByteSize_print_le fits.1 fits.2
  · have refused : ensure Failure.calculationUnavailable (-(2 ^ 63) ≤ n ∧ n < 2 ^ 63) =
        .error .calculationUnavailable := ensure_eq_error.mpr ⟨fits, rfl⟩
    rw [refused]
    exact InDomain.unavailable

/-- A time plus a duration is a time, or the calculation is unavailable. -/
theorem timestamp_inDomain {left right : Domain} {s t : Scalar} (time : left.kind = .timestamp)
    (duration : right.kind.isDuration = true)
    (required : left.optional = false ∧ right.optional = false) (hs : left.Contains s)
    (ht : right.Contains t) : InDomain ⟨.timestamp, false, 20⟩ (Arithmetic.add.scalar s t) := by
  cases hs with
  | absent optional => rw [required.1] at optional; cases optional
  | present kind size =>
      clear size
      rw [time] at kind
      cases s <;> first | exact kind.elim | skip
      rename_i now
      cases ht with
      | absent optional => rw [required.2] at optional; cases optional
      | present kind' size =>
          clear size
          cases limit : right.kind <;> rw [limit] at duration <;> cases duration
          rename_i maxMillis
          rw [limit] at kind'
          cases t <;> first | exact kind'.elim | skip
          rename_i length
          change InDomain _ (checkedI64 (now + length) >>= fun value => .ok (.timestamp value))
          unfold checkedI64
          by_cases fits : -(2 ^ 63) ≤ now + length ∧ now + length < 2 ^ 63
          · rw [ensure_pos fits, bind_ok]
            have nonneg : 0 ≤ now + length := by
              have low := kind.1
              have low' := kind'.1
              omega
            exact InDomain.value (Domain.Contains.present ⟨nonneg, fits.2⟩
              (Decimal.utf8ByteSize_print_le fits.1 fits.2))
          · have refused : ensure Failure.calculationUnavailable
                (-(2 ^ 63) ≤ now + length ∧ now + length < 2 ^ 63) =
                  .error .calculationUnavailable := ensure_eq_error.mpr ⟨fits, rfl⟩
            rw [refused]
            exact InDomain.unavailable

/-- An operation on members of typed operands stays in the operation's domain. -/
theorem arithmetic_sound {op : Arithmetic} {left right d : Domain} {s t : Scalar}
    (h : arithmeticDomain op left right = .ok d) (hs : left.Contains s) (ht : right.Contains t) :
    InDomain d (op.scalar s t) := by
  unfold arithmeticDomain at h
  split at h
  · next shape =>
    simp only [check, bind_eq_ok, ensure_eq_ok] at h
    rcases h with ⟨_, required, result⟩
    cases result
    rw [shape.1]
    exact timestamp_inDomain shape.2.1 shape.2.2 required hs ht
  · simp only [check, bind_eq_ok, ensure_eq_ok] at h
    rcases h with ⟨l, hl, r, hr, _, _, result⟩
    cases result
    rcases number_contains hl hs with ⟨x, rfl, _, hx⟩
    rcases number_contains hr ht with ⟨y, rfl, _, hy⟩
    exact checked_inDomain (op.int_mem hx hy)

end Noxide
