import Noxide.Store.Records

/-!
# Resource expiry

One lifecycle rule for ordinary visibility and for authorized expiry
assignments.  Time is the attempt's fixed lifecycle time in milliseconds.

Main results:

- Theorem {lit}`available_eq`: on a valid record, availability is the strict
  comparison of the stored expiry with the attempt time.
- Theorem {lit}`unexpired_builds`: the generated condition selects exactly the
  available records.
-/

namespace Noxide

open Checked

/-! ## Principals -/

/-- A signed-in account; account identities are never empty. -/
structure User where
  id : String
  tenant : String
  roles : List (String × String)
  id_ne_empty : id ≠ ""
  deriving DecidableEq

/-- An application worker under a transaction-locked grant. -/
structure ServiceIdentity where
  deployment : String
  tenant : String
  worker : String
  deriving DecidableEq, Repr

inductive Principal where
  | anonymous
  | user (user : User)
  | service (service : ServiceIdentity)
  deriving DecidableEq

def Principal.isService : Principal → Bool
  | .service _ => true
  | _ => false

/-- Conditions over {lit}`nx_records` with subqueries of the given kind. -/
abbrev RecordCondition (Subquery : Type) := Sql.Condition RecordColumn Subquery

/-! ## The lifecycle rule -/

/-- The stored expiry of a record, for a resource that declares one. -/
def expiryValue (resource : Resource) (fields : Fields) : Result (Option Int) :=
  match resource.expiry with
  | none => .ok none
  | some expiry => do
      let field ← need "unknown expiry field" (resource.field? expiry.field)
      let value ← need "missing expiry field" (fields.lookup expiry.field)
      validateValue field value
      let millis ← need "ParseIntError" (Decimal.parseI64 value)
      check "lifecycle time cannot be negative" (0 ≤ millis)
      return some millis

def available (resource : Resource) (fields : Fields) (time : Option Int) : Result Bool := do
  match ← expiryValue resource fields with
  | none => return true
  | some expires => do
      let now ← context Failure.temporalNotStarted time
      return decide (now < expires)

/-- Service maintenance sees expired records too, but only valid ones. -/
def availableTo (resource : Resource) (fields : Fields) (time : Option Int)
    (operation : Operation) (principal : Principal) : Result Bool :=
  if operation.maintenance = true ∧ principal.isService = true then do
    if resource.expiry.isSome then
      let _ ← context Failure.temporalNotStarted time
      let _ ← need "missing expiry" (← expiryValue resource fields)
      return true
    else return true
  else available resource fields time

/-- Called after canonical assignments on create or update, before any write. -/
def checkWrite (resource : Resource) (before : Option Fields) (proposed : Fields)
    (time : Option Int) : Result Unit :=
  match resource.expiry with
  | none => .ok ()
  | some expiry => do
      let expires ← need "missing expiry" (← expiryValue resource proposed)
      let now ← context Failure.temporalNotStarted time
      if before.any fun before => before.lookup expiry.field = proposed.lookup expiry.field then
        return ()
      let limit := now + expiry.maxAfter
      ensure Failure.temporalOverflow (limit < 2 ^ 63)
      check "expiry exceeds the approved horizon" (expires ≤ limit)

/-- The generated restriction to unexpired records, if the resource expires. -/
def expirySql {Subquery : Type} (resource : Resource) (time : Option Int) :
    Sql.Build Failure (Option (RecordCondition Subquery)) :=
  match resource.expiry with
  | none => return none
  | some expiry => do
      let now ← StateT.lift (context Failure.temporalNotStarted time)
      let param ← Sql.push (.number now)
      return some (.greater (.timestamp expiry.field) param)

/-- The longest admitted expiry horizon: 30 days. -/
def maxExpiryMillis : Int := 30 * 24 * 60 * 60 * 1000

/-- Admission of an expiry declaration. -/
def validateExpiry (resource : Resource) : Result Unit :=
  match resource.expiry with
  | none => .ok ()
  | some expiry => do
      check "invalid expiry field" (identifier expiry.field)
      let field ← need "unknown expiry field" (resource.field? expiry.field)
      check "expiry requires a nonoptional timestamp without an initial value"
        (field.optional = false ∧ field.initial = none ∧ field.kind = .timestamp)
      check "expiry horizon exceeds 30 days" (expiry.maxAfter ≤ maxExpiryMillis)

/-! ## Agreement of the two forms -/

/-- Expiry declarations name a required timestamp field. -/
def Resource.expiryAdmitted (resource : Resource) : Prop :=
  ∀ expiry ∈ resource.expiry, ∃ field,
    resource.field? expiry.field = some field ∧
      field.optional = false ∧ field.kind = .timestamp

theorem validateExpiry_admitted {resource : Resource}
    (h : validateExpiry resource = .ok ()) : resource.expiryAdmitted := by
  intro expiry hexpiry
  simp only [Option.mem_def] at hexpiry
  simp only [validateExpiry, hexpiry, bind_eq_ok, check, need, ensure_eq_ok,
    context_eq_ok] at h
  obtain ⟨_, _, field, hfield, _, ⟨hrequired, _, hkind⟩, _⟩ := h
  exact ⟨field, hfield, hrequired, hkind⟩

/-- A valid record of an expiring resource stores a printed timestamp. -/
theorem expiryValue_of_valid {resource : Resource} {fields : Fields}
    {expiry : ResourceExpiry} (hexpiry : resource.expiry = some expiry)
    (hadmitted : resource.expiryAdmitted)
    (hvalid : validateFields resource fields = .ok ()) :
    ∃ millis : Nat, (millis : Int) < 2 ^ 63 ∧
      fields.lookup expiry.field = some (toString (millis : Int)) ∧
      expiryValue resource fields = .ok (some (millis : Int)) := by
  obtain ⟨field, hfield, hrequired, hkind⟩ := hadmitted expiry (by simp [hexpiry])
  obtain ⟨hmem, hname⟩ := Resource.field?_mem hfield
  obtain ⟨value, hlookup, hcanonical⟩ := (validateFields_iff.mp hvalid).2 field hmem
  have hform : CanonicalForm .timestamp value := by
    rcases (TextField.canonical_self_iff.mp hcanonical).2 with habsent | hform
    · simp [hrequired] at habsent
    · rw [hkind] at hform
      exact hform.1
  rcases hform with ⟨millis, hlo, hhi, rfl⟩
  lift millis to Nat using hlo
  have hparse := Decimal.parseI64_print (n := (millis : Int)) (by omega) hhi
  rw [hname] at hlookup
  refine ⟨millis, hhi, hlookup, ?_⟩
  simp only [expiryValue, hexpiry, bind_eq_ok, need, context_eq_ok, check, ensure_eq_ok]
  exact ⟨field, hfield, _, hlookup, (), validateValue_iff.mpr hcanonical, _, hparse, (),
    Int.natCast_nonneg millis, rfl⟩

/-- On a valid record, availability compares the stored expiry with the time. -/
theorem available_eq {resource : Resource} {fields : Fields} {expiry : ResourceExpiry}
    (now : Int) (hexpiry : resource.expiry = some expiry)
    (hadmitted : resource.expiryAdmitted)
    (hvalid : validateFields resource fields = .ok ()) :
    ∃ millis : Nat, fields.lookup expiry.field = some (toString (millis : Int)) ∧
      available resource fields (some now) = .ok (decide (now < (millis : Int))) := by
  obtain ⟨millis, _, hlookup, hvalue⟩ := expiryValue_of_valid hexpiry hadmitted hvalid
  exact ⟨millis, hlookup, by simp [available, hvalue, bind, Except.bind, context, pure,
    Except.pure]⟩

/-- Availability of a stored row, as its generated condition decides it. -/
def unexpired (resource : Resource) (time : Option Int) (fields : Fields) : Bool :=
  match resource.expiry, time with
  | none, _ => true
  | some _, none => false
  | some expiry, some now =>
      (fields.lookup expiry.field).any fun text => decide (now < castBigint text)

/-- On valid records, the availability rule decides {lit}`unexpired`. -/
theorem available_unexpired {resource : Resource} {fields : Fields} {time : Option Int}
    {visible : Bool} (hadmitted : resource.expiryAdmitted)
    (hvalid : validateFields resource fields = .ok ())
    (h : available resource fields time = .ok visible) :
    visible = unexpired resource time fields := by
  cases hexpiry : resource.expiry with
  | none =>
      simp only [available, expiryValue, hexpiry, bind, Except.bind, pure, Except.pure,
        Except.ok.injEq] at h
      simp [unexpired, hexpiry, ← h]
  | some expiry =>
      cases time with
      | none =>
          obtain ⟨millis, _, _, hvalue⟩ := expiryValue_of_valid hexpiry hadmitted hvalid
          simp [available, hvalue, bind, Except.bind, context] at h
      | some now =>
          obtain ⟨millis, hlookup, havailable⟩ := available_eq now hexpiry hadmitted hvalid
          rw [havailable] at h
          simp only [unexpired, hexpiry, hlookup, Option.any_some, castBigint_print]
          exact (Except.ok.inj h).symm

/-- The generated restriction selects exactly the unexpired rows. -/
theorem expirySql_builds {Subquery : Type} (resource : Resource) (time : Option Int)
    (row : StoredRow) (view : Sql.View RecordColumn Subquery)
    (hview : view.column = row.column) (params : List Sql.Datum) :
    Sql.Builds (expirySql resource time) params
      fun final (clause : Option (RecordCondition Subquery)) => (clause.elim true fun c => c.accepts view final) =
        unexpired resource time row.fields := by
  unfold expirySql
  cases hexpiry : resource.expiry with
  | none =>
      apply Sql.Builds.pure
      intro later
      simp [unexpired, hexpiry]
  | some expiry =>
      apply Sql.Builds.bind (P := fun _ now => time = some now)
      · apply Sql.Builds.lift
        intro now hnow _
        simpa using hnow
      · intro now middle hnow
        have htime := hnow []
        apply Sql.Builds.bind Sql.Builds.push
        intro param pushed hbound
        apply Sql.Builds.pure
        intro later
        simp only [Option.elim, unexpired, hexpiry, htime]
        cases hlookup : row.fields.lookup expiry.field with
        | none =>
            have hnull : view.column (.timestamp expiry.field) = none := by
              simp [hview, StoredRow.column, hlookup]
            simp [Sql.Condition.accepts, Sql.Condition.eval, hnull, Sql.isGreater,
              Sql.Truth.accepts]
        | some text =>
            have hstored : view.column (.timestamp expiry.field) =
                some (.number (castBigint text)) := by
              simp [hview, StoredRow.column, hlookup]
            rw [Sql.accepts_greater view _ _ _ (hbound later) hstored]
            simp

end Noxide
