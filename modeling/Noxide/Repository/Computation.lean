import Noxide.Admission.Computation
import Noxide.Authority.Security

/-!
# Computation

Typed evaluation of action expressions inside the authorized transaction:
scalars, their comparison and arithmetic, guard conditions, the bounded
adjustment of a stored integer, and the texts assigned to fields.

Main definitions:

- {lit}`Values.value`: the scalar of an expression.
- {lit}`Values.guards`: the guard conditions of a step.
- {lit}`Values.assigned`: the text an assignment gives its field.
-/

namespace Noxide

open Checked

/-! ## Records of a transaction -/

structure Record where
  resource : Nat
  id : Nat
  fields : Fields
  deriving DecidableEq

/-- A loaded record; unowned records have an empty owner and tenant. -/
structure StoredRecord where
  record : Record
  owner : String
  tenant : String
  incarnation : String
  revision : Int
  capVersion : Option Int
  deriving DecidableEq

/-- Records by resource and identifier. -/
abbrev RecordMap := Finmap fun _ : Nat × Nat => StoredRecord

inductive MutationKind where
  | created
  | updated
  | deleted
  deriving DecidableEq, Repr

structure MutationOutcome where
  kind : MutationKind
  resource : Nat
  id : Nat
  incarnation : String
  deriving DecidableEq, Repr

/-! ## Scalars -/

/-- A typed value computed inside an authorized transaction. -/
inductive Scalar where
  | text (value : String)
  | integer (value : Int)
  | boolean (value : Bool)
  | choice (value : String)
  | account (value : String)
  | timestamp (millis : Int)
  | duration (millis : Int)
  | reference (resource : String) (id : Nat)
  | missing (kind : FieldKind)
  deriving DecidableEq, Repr

/-- The stored text of a scalar. -/
def Scalar.encode : Scalar → String
  | .text v | .choice v | .account v => v
  | .integer v => toString v
  | .boolean v => if v then "true" else "false"
  | .timestamp v => toString v
  | .duration v => toString v
  | .reference _ id => toString id
  | .missing _ => ""

/-- Scalars of one type compare; an absent value is below every present one. -/
def Scalar.compare : Scalar → Scalar → Result Ordering
  | .text a, .text b => .ok (Ord.compare a b)
  | .choice a, .choice b => .ok (Ord.compare a b)
  | .account a, .account b => .ok (Ord.compare a b)
  | .integer a, .integer b => .ok (Ord.compare a b)
  | .boolean a, .boolean b => .ok (Ord.compare a b)
  | .timestamp a, .timestamp b => .ok (Ord.compare a b)
  | .duration a, .duration b => .ok (Ord.compare a b)
  | .reference a x, .reference b y =>
      if a = b then .ok (Ord.compare x y) else .error .calculationUnavailable
  | .missing a, .missing b => .ok (if a.ctorIdx = b.ctorIdx then .eq else .lt)
  | .missing _, _ => .ok .lt
  | _, .missing _ => .ok .gt
  | _, _ => .error .calculationUnavailable

/-- The scalar of a present stored text. -/
def presentScalar (kind : FieldKind) (text : String) : Result Scalar :=
  match kind with
  | .blob _ | .uploadHandle _ =>
      .error (.message "opaque blob identity is not a scalar operand")
  | .text => .ok (.text text)
  | .integer _ _ => do
      let value ← need "ParseIntError" (Decimal.parseI64 text)
      return .integer value
  | .boolean => do
      ensure Failure.calculationUnavailable (text = "true" ∨ text = "false")
      return .boolean (text == "true")
  | .choice _ => .ok (.choice text)
  | .account _ => .ok (.account text)
  | .timestamp => do
      let value ← need "ParseIntError" (Decimal.parseI64 text)
      check "lifecycle time cannot be negative" (0 ≤ value)
      return .timestamp value
  | .duration _ => do
      let value ← need "ParseIntError" (Decimal.parseI64 text)
      check "lifecycle time cannot be negative" (0 ≤ value)
      return .duration value
  | .reference resource => do
      let id ← need "ParseIntError" (Decimal.parseU64 text)
      return .reference resource id

/-- The source's {lit}`scalar`: the typed value of a stored text. -/
def parseScalar (kind : FieldKind) (optional : Bool) (text : String) : Result Scalar := do
  check "opaque blob identity is not a scalar operand"
    (kind.isBlob = false ∧ kind.isUploadHandle = false)
  if optional = true ∧ text = "" then .ok (.missing kind) else presentScalar kind text

/-- A checked 64-bit result. -/
def checkedI64 (value : Int) : Result Int := do
  ensure Failure.calculationUnavailable (-(2 ^ 63) ≤ value ∧ value < 2 ^ 63)
  return value

def Arithmetic.int : Arithmetic → Int → Int → Int
  | .add, a, b => a + b
  | .subtract, a, b => a - b
  | .multiply, a, b => a * b

/-- Checked integer arithmetic, and a time plus a duration. -/
def Arithmetic.scalar (op : Arithmetic) : Scalar → Scalar → Result Scalar
  | .integer a, .integer b => do
      let value ← checkedI64 (op.int a b)
      return .integer value
  | .timestamp t, .duration d => do
      ensure Failure.calculationUnavailable (op = .add)
      let value ← checkedI64 (t + d)
      return .timestamp value
  | _, _ => .error .calculationUnavailable

/-! ## Evaluation -/

/-- What an expression reads: the request, and the transaction's own rows. -/
structure Values where
  manifest : Manifest
  input : Fields
  principal : Principal
  grants : Targets
  snapshots : RecordMap
  outcomes : List MutationOutcome
  time : Option Int
  current : Option (String × StoredRecord)

def Literal.scalar : Literal → Scalar
  | .text v => .text v
  | .integer v => .integer v.1
  | .boolean v => .boolean v
  | .choice v => .choice v
  | .account v => .account v
  | .timestamp v => .timestamp v
  | .duration v => .duration v

namespace Values

variable (v : Values)

def account : Result String :=
  match v.principal with
  | .user user => .ok user.id
  | _ => .error .referenceUnavailable

/-- A field of a granted record, as declared by the record's resource. -/
def fieldOf (grant : RecordTarget) (stored : StoredRecord) (field : String) : Result Scalar := do
  let resource ← v.manifest.resource grant.resource
  let schema ← context Failure.calculationUnavailable (resource.field? field)
  let text ← context Failure.calculationUnavailable (stored.record.fields.lookup field)
  parseScalar schema.kind schema.optional text

/-- The current row of the step's own target. -/
def currentRow (target : String) : Result StoredRecord := do
  let (name, stored) ← context Failure.calculationUnavailable v.current
  ensure Failure.calculationUnavailable (name = target)
  return stored

def value (a : Action) : Value → Result Scalar
  | .input name => do
      let schema ← context Failure.calculationUnavailable (a.input? name)
      let text ← context Failure.calculationUnavailable (v.input.lookup name)
      parseScalar schema.kind schema.optional text
  | .literal literal => .ok literal.scalar
  | .principal => do
      let account ← v.account
      return .account account
  | .transactionTime => do
      let time ← context Failure.calculationUnavailable v.time
      return .timestamp time
  | .target name => do
      let grant ← context Failure.referenceUnavailable (v.grants.lookup name)
      let resource ← v.manifest.resource grant.resource
      return .reference resource.name grant.id
  | .created index => do
      let outcome ← context Failure.calculationUnavailable v.outcomes[index]?
      ensure Failure.calculationUnavailable (outcome.kind = .created)
      let resource ← v.manifest.resource outcome.resource
      return .reference resource.name outcome.id
  | .snapshotField target field _ => do
      let grant ← context Failure.referenceUnavailable (v.grants.lookup target)
      let stored ← context Failure.referenceUnavailable
        (v.snapshots.lookup (grant.resource, grant.id))
      v.fieldOf grant stored field
  | .currentField target field => do
      let grant ← context Failure.referenceUnavailable (v.grants.lookup target)
      let stored ← v.currentRow target
      v.fieldOf grant stored field
  | .add left right => do
      let l ← value a left
      let r ← value a right
      Arithmetic.add.scalar l r
  | .subtract left right => do
      let l ← value a left
      let r ← value a right
      Arithmetic.subtract.scalar l r
  | .multiply left right => do
      let l ← value a left
      let r ← value a right
      Arithmetic.multiply.scalar l r

end Values

def Comparison.holds : Comparison → Ordering → Bool
  | .equal, order => order == .eq
  | .notEqual, order => order != .eq
  | .less, order => order == .lt
  | .lessOrEqual, order => order != .gt
  | .greater, order => order == .gt
  | .greaterOrEqual, order => order != .lt

namespace Values

variable (v : Values)

mutual

def condition (a : Action) : GuardCondition → Result Bool
  | .all conditions => allHold a conditions
  | .compare left comparison right => do
      let l ← v.value a left
      let r ← v.value a right
      let order ← l.compare r
      return comparison.holds order

/-- The first condition that does not hold decides. -/
def allHold (a : Action) : List GuardCondition → Result Bool
  | [] => .ok true
  | first :: rest => do
      let holds ← condition a first
      if holds then allHold a rest else return false

end

def guards (a : Action) (step : Step) : Result Unit :=
  step.guards.forM fun guard => do
    let holds ← v.condition a guard.condition
    ensure (Failure.guardFailure guard.rejection.input guard.rejection.message) (holds = true)

end Values

/-! ## Adjustments -/

/-- Move a value by an amount, within the bounds and 64 bits. -/
def adjust (current amount : Int) (range : Bounds Int) (increase : Bool) (r : GuardRejection) :
    Result Int := do
  let value := if increase then current + amount else current - amount
  ensure (Failure.guardFailure r.input r.message)
    ((-(2 ^ 63) ≤ value ∧ value < 2 ^ 63) ∧ range.lo ≤ value ∧ value ≤ range.hi)
  return value

def Scalar.amount : Scalar → Result Int
  | .integer amount => do
      ensure Failure.calculationUnavailable (0 < amount)
      return amount
  | _ => .error .calculationUnavailable

/-- Apply a checked increase or decrease within the field's bounds. -/
def Values.adjustedValue (v : Values) (a : Action) (op : Operation) (field : String)
    (stored : Option StoredRecord) (by_ : Value) (increase : Bool) (r : GuardRejection) :
    Result String := do
  let record ← need "adjustment requires target" stored
  let resource ← v.manifest.resource op.resource
  let schema ← need "unknown adjustment field" (resource.field? field)
  let range ← boundedRange "unbounded adjustment" schema.kind
  let text ← need "missing adjustment field" (record.record.fields.lookup field)
  let current ← need "ParseIntError" (Decimal.parseI64 text)
  let scalar ← v.value a by_
  let amount ← scalar.amount
  let value ← adjust current amount range increase r
  return toString value

/-! ## Assigned values -/

/-- A staged upload, locked by the transaction and verified. -/
structure Blob where
  ref : { text : String // blobRef text = true }
  bytes : Nat

/-- The stages the transaction can lock, by upload handle. -/
abbrev Uploads := String → Result Blob

/-- Lock and verify an uploaded blob, or leave an optional one absent. -/
def Values.blobAssignment (v : Values) (uploads : Option Uploads) (op : Operation)
    (field : TextField) (maxBytes : Nat) : Change → Result String
  | .set (.input name) => do
      ensure Failure.referenceUnavailable (op.kind = .create)
      let raw ← context Failure.referenceUnavailable (v.input.lookup name)
      if raw = "" ∧ field.optional = true then do
        let _ ← context Failure.referenceUnavailable uploads
        return ""
      else do
        check "invalid blob token" (uploadHandle raw = true)
        let upload ← context Failure.referenceUnavailable uploads
        let locked ← upload raw
        ensure Failure.referenceUnavailable (locked.bytes ≤ maxBytes)
        return locked.ref.1
  | _ => .error .referenceUnavailable

/-- The text one assignment gives its destination field. -/
def Values.assigned (v : Values) (uploads : Option Uploads) (a : Action) (op : Operation)
    (stored : Option StoredRecord) (field : TextField) (assignment : Assignment) : Result String :=
  match field.kind.blobLimit with
  | some maxBytes => v.blobAssignment uploads op field maxBytes assignment.change
  | none =>
      match assignment.change with
      | .set value => do
          let scalar ← v.value a value
          return scalar.encode
      | .decrease by_ r => v.adjustedValue a op assignment.field stored by_ false r
      | .increase by_ r => v.adjustedValue a op assignment.field stored by_ true r

end Noxide
