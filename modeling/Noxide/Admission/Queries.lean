import Noxide.Admission.Membership
import Noxide.Admission.Resources

/-!
# Queries

Canonical admission of bounded queries and aggregates, and the plan compiled for
every admitted list.

Main definitions:

- {lit}`validateDeclarations`: the admission of a manifest's queries and orders.
- {lit}`compilePlan`: the plan of an admitted list.
-/

namespace Noxide

open Checked

/-! ## Cursor keys -/

inductive CursorValue where
  | integer (value : Int)
  | binary (value : String)
  deriving DecidableEq, Repr

/-- The position after one record in a list's order. -/
inductive CursorKey where
  | created (sequence record : Nat)
  | scalar (value : CursorValue) (record : Nat)
  deriving DecidableEq, Repr

/-- Kinds ordered as numbers. -/
def FieldKind.isNumeric : FieldKind → Bool
  | .integer _ _ | .timestamp | .duration _ | .reference _ => true
  | _ => false

/-- Kinds ordered as binary text. -/
def FieldKind.isBinary : FieldKind → Bool
  | .text | .boolean | .choice _ | .account _ => true
  | _ => false

/-- The cursor value of a canonical required scalar. -/
def queryScalar (field : TextField) (value : String) : Result CursorValue := do
  check "optional query scalar" (field.optional = false)
  check "noncanonical query scalar" (field.canonical value = .ok value)
  if field.kind.isNumeric then do
    let number ← need "ParseIntError" (Decimal.parseI64 value)
    return .integer number
  else if field.kind.isBinary then return .binary value
  else .error (.message "query scalar kind is unsupported")

/-- Fields that can order or bound a list. -/
def scalarField (field : TextField) : Result Unit := do
  check "optional sort/range key" (field.optional = false)
  check "Text sort/range key exceeds512 UTF8 bytes"
    (field.kind = .text → field.maxBytes ≤ 512)
  check "query scalar kind is unsupported"
    (field.kind.isNumeric = true ∨ field.kind.isBinary = true)

/-! ## Declarations -/

def Query.isEmpty (q : Query) : Bool :=
  q.search.isNone && q.range.isNone && q.aggregate.isNone && q.disclose.isEmpty

def queryField (r : Resource) (name : String) : Result TextField :=
  need "unknown query field" (r.field? name)

def queryNames (fields : List String) (limit : Nat) : Result Unit := do
  check "query field limit" (fields ≠ [] ∧ fields.length ≤ limit)
  check "duplicate or invalid query field"
    ((∀ name ∈ fields, identifier name = true) ∧ fields.Nodup)

def validateSearchIndex (r : Resource) : Result Unit :=
  match r.search with
  | none => .ok ()
  | some index => do
      check "unsupported search tokenizer; explicit rebuild required"
        (index.tokenizer = tokenizerId)
      queryNames index.fields 4
      check "indexed input byte declaration" (1 ≤ index.maxBytes ∧ index.maxBytes ≤ 16384)
      index.fields.forM fun name => do
        let f ← queryField r name
        check "search index requires Text fields" (f.kind = .text)

/-- A public operation discloses the unprojected fields it infers from. -/
def Operation.unprojected (op : Operation) (name : String) : Bool :=
  op.isPublic && op.fields.all fun fields => !fields.contains name

def ListOrder.field? : ListOrder → Option String
  | .field name _ _ => some name
  | _ => none

def validateOrder (op : Operation) (r : Resource) : Result Unit :=
  match op.list.map ListSettings.order with
  | some (.field name _ mode) => do
      check "scalar order requires list" (op.kind = .list)
      let key ← queryField r name
      scalarField key
      check "mutable order requires explicit live_view" (mode = .liveView ∨ key.isImmutable = true)
  | _ => .ok ()

def validateSearch (op : Operation) (r : Resource) : Result Unit :=
  match op.query.bind Query.search with
  | none => .ok ()
  | some search => do
      check "search requires list" (op.kind = .list)
      queryNames search.fields 4
      check "invalid search parameter"
        (identifier search.parameter = true ∧ search.parameter ≠ "cursor")
      let index ← need "search index is not declared" r.search
      check "search field is not indexed" (∀ name ∈ search.fields, name ∈ index.fields)

def validateRangeOperand (key : TextField) : Operand → Result Unit
  | .literal value => do
      let _ ← queryScalar key value
      return ()
  | .param name =>
      check "invalid range parameter" (identifier name = true ∧ name ≠ "cursor")

/-- The order of two cursor values of one field. -/
def CursorValue.compare : CursorValue → CursorValue → Result Ordering
  | .integer left, .integer right => .ok (Ord.compare left right)
  | .binary left, .binary right => .ok (Ord.compare left right)
  | _, _ => .error (.message "scalar type mismatch")

/-- Bounds that leave room: below each other, or equal and inclusive. -/
def validateBounds (lower upper : Bound) (order : Ordering) (text : String) : Result Unit :=
  check text (order = .lt ∨ order = .eq ∧ lower.inclusive = true ∧ upper.inclusive = true)

/-- Two literal bounds are compared at admission. -/
def validateLiteralBounds (key : TextField) (range : Range) : Result Unit :=
  match range.lower, range.upper with
  | some ⟨.literal low, lowInclusive⟩, some ⟨.literal high, highInclusive⟩ => do
      let left ← queryScalar key low
      let right ← queryScalar key high
      let order ← left.compare right
      validateBounds ⟨.literal low, lowInclusive⟩ ⟨.literal high, highInclusive⟩ order
        "empty or inverted range"
  | _, _ => .ok ()

def validateRange (op : Operation) (r : Resource) : Result Unit :=
  match op.query.bind Query.range with
  | none => .ok ()
  | some range => do
      check "range requires list" (op.kind = .list)
      check "range must use the ordered scalar"
        ((op.list.map ListSettings.order).bind ListOrder.field? = some range.field)
      let key ← queryField r range.field
      scalarField key
      check "range requires a bound" (range.lower.isSome = true ∨ range.upper.isSome = true)
      ([range.lower, range.upper].filterMap id).forM fun bound => validateRangeOperand key bound.value
      validateLiteralBounds key range

/-- The same authority and selection. -/
def Operation.envelopeEqual (left right : Operation) : Bool :=
  left.resource == right.resource && left.policy == right.policy && left.scope == right.scope
    && left.via == right.via && left.bind == right.bind && left.filter == right.filter
    && left.disclose == right.disclose && left.visibility == right.visibility
    && left.fields == right.fields

/-- The field an aggregate function reads. -/
def AggregateFunction.operand : AggregateFunction → Option String
  | .count => none
  | .sum field | .min field | .max field => some field

def FieldKind.isInteger : FieldKind → Bool
  | .integer _ _ => true
  | _ => false

def validateAggregateOperand (r : Resource) : AggregateFunction → Result Unit
  | .count => .ok ()
  | .sum name => do
      let key ← queryField r name
      check "sum requires required i64 field" (key.optional = false ∧ key.kind.isInteger = true)
  | .min name | .max name => do
      let key ← queryField r name
      check "min/max require required i64 or Timestamp field"
        (key.optional = false ∧ (key.kind.isInteger = true ∨ key.kind = .timestamp))

def validateAggregate (m : Manifest) (op : Operation) (r : Resource) : Result Unit :=
  match op.query.bind Query.aggregate with
  | none => .ok ()
  | some aggregate => do
      check "aggregate cannot override list search/range/order"
        (op.query.bind Query.search = none ∧ op.query.bind Query.range = none ∧ op.list = none)
      let source ← m.operation aggregate.source
      check "aggregate source must be a direct List"
        (source.id ≠ op.id ∧ source.kind = .list ∧ source.via = none
          ∧ source.query.bind Query.aggregate = none)
      check "aggregate source cannot be a preview" (source.isPreview = false)
      check "aggregate source authority/selection mismatch" (op.envelopeEqual source = true)
      validateAggregateOperand r aggregate.function

/-- The inferences a public operation must declare. -/
def Operation.inferred (op : Operation) : List Disclosure :=
  (((op.list.map ListSettings.order).bind ListOrder.field?).toList.filter op.unprojected).map
      Disclosure.order
    ++ ((((op.query.bind Query.search).toList.flatMap Search.fields).filter op.unprojected).map
      Disclosure.search)
    ++ ((((op.query.bind Query.range).toList.map Range.field).filter op.unprojected).map
      Disclosure.range)
    ++ (if op.isPublic then
      (op.query.bind Query.aggregate).toList.map fun aggregate =>
        Disclosure.aggregate aggregate.function.operand
      else [])

def Operation.declared (op : Operation) : List Disclosure :=
  (op.query.map Query.disclose).getD []

def validateQuery (m : Manifest) (op : Operation) : Result Unit := do
  let r ← m.resource op.resource
  check "empty query extension" (∀ query ∈ op.query, query.isEmpty = false)
  validateOrder op r
  validateSearch op r
  validateRange op r
  check "aggregate kind/source declaration mismatch"
    (op.kind = .aggregate ↔ (op.query.bind Query.aggregate).isSome = true)
  validateAggregate m op r
  check "invalid query inference disclosure"
    (op.declared.Nodup ∧ op.declared.toFinset = op.inferred.toFinset)

def validateDeclarations (m : Manifest) : Result Unit := do
  m.resources.forM validateSearchIndex
  m.operations.forM (validateQuery m)

/-! ## List plans -/

/-- Compiled from an admitted list operation.  Grants nothing. -/
structure ListPlan where
  operation : Nat
  resource : Nat
  preview : Bool
  scope : Option String
  strategy : ListStrategy
  selection : List Condition
  order : ListOrder
  limit : Nat

def compilePlan (m : Manifest) (op : Operation) : Result ListPlan := do
  check "expected list operation" (op.kind = .list)
  let resource ← m.resource op.resource
  return {
    operation := op.id
    resource := op.resource
    preview := op.isPreview
    scope := op.scope
    strategy := planStrategy resource op.policy op.scope.isSome
    selection := op.filter
    order := (op.list.map ListSettings.order).getD .createdAsc
    limit := op.pageSize }

end Noxide
