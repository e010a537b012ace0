import Noxide.Admission.Resources
import Noxide.Library.Bounds

/-!
# Domains of expressions

Type and domain admission of action expressions: every expression gets the kind,
the bounds, the optionality and the byte length of its values.

Main results:

- Theorem {lit}`walk_typed`: the recursion of admission gives every expression a
  domain by the typing rules {lit}`Typed`.
-/

namespace Noxide

open Checked

/-! ## Domains -/

/-- The values an expression can take. -/
structure Domain where
  kind : FieldKind
  optional : Bool
  maxBytes : Nat
  deriving DecidableEq, Repr

namespace Domain

def field (f : TextField) : Result Domain := do
  check "opaque blob identity is not an expression operand"
    (f.kind.isBlob = false ∧ f.kind.isUploadHandle = false)
  return ⟨f.kind, f.optional, f.maxBytes⟩

def input (i : Input) : Result Domain := do
  check "opaque blob identity is not an expression operand"
    (i.kind.isBlob = false ∧ i.kind.isUploadHandle = false)
  return ⟨i.kind, i.optional, i.maxBytes⟩

def integer (range : Bounds Int) : Domain where
  kind := .integer (some range.lo) (some range.hi)
  optional := false
  maxBytes := 20

/-- The signed 64-bit integers. -/
def i64 : Bounds Int := ⟨-(2 ^ 63), 2 ^ 63 - 1⟩

/-- The range of a required integer. -/
def number (d : Domain) : Result (Bounds Int) := do
  check "optional arithmetic operand" (d.optional = false)
  match d.kind with
  | .integer min max => return ⟨min.getD i64.lo, max.getD i64.hi⟩
  | _ => .error (.message "integer arithmetic required")

end Domain

/-- The range of a kind with both integer bounds. -/
def boundedRange (unbounded : String) : FieldKind → Result (Bounds Int)
  | .integer (some min) (some max) => .ok ⟨min, max⟩
  | _ => .error (.message unbounded)

inductive Arithmetic where
  | add
  | subtract
  | multiply
  deriving DecidableEq, Repr

/-- The results before they are cut to 64 bits. -/
def Arithmetic.range : Arithmetic → Bounds Int → Bounds Int → Bounds Int
  | .add, left, right => left.add right
  | .subtract, left, right => left.sub right
  | .multiply, left, right => left.mul right

/-- The domain of an operation: a time and a duration, or two integers. -/
def arithmeticDomain (op : Arithmetic) (left right : Domain) : Result Domain :=
  if op = .add ∧ left.kind = .timestamp ∧ right.kind.isDuration = true then do
    check "optional timestamp arithmetic" (left.optional = false ∧ right.optional = false)
    return ⟨.timestamp, false, 20⟩
  else do
    let l ← left.number
    let r ← right.number
    let range := op.range l r
    check "expression always overflows" (range.lo ≤ Domain.i64.hi ∧ Domain.i64.lo ≤ range.hi)
    return Domain.integer (Bounds.clamp Domain.i64 range)

/-- A literal's kind and encoding. -/
def Literal.encoded : Literal → FieldKind × String
  | .text value => (.text, value)
  | .integer value => (.integer (some value.1) (some value.1), toString value.1)
  | .boolean value => (.boolean, if value then "true" else "false")
  | .choice value => (.choice [⟨value, value⟩], value)
  | .account value => (.account .sameTenant, value)
  | .timestamp millis => (.timestamp, toString millis)
  | .duration millis => (.duration millis, toString millis)

def Literal.isChoice : Literal → Bool
  | .choice _ => true
  | _ => false

def literalDomain (literal : Literal) : Result Domain :=
  match literal with
  | .integer value => .ok (Domain.integer ⟨value.1, value.1⟩)
  | _ => do
      let (kind, encoded) := literal.encoded
      check "invalid choice literal" (literal.isChoice = true → identifier encoded = true)
      check "noncanonical literal" (canonicalScalar kind false 4096 encoded = .ok encoded)
      return ⟨kind, false, encoded.utf8ByteSize⟩

/-! ## Sites -/

/-- Where an expression stands in its action. -/
inductive ValueSite where
  | step (index : Nat) (guard : Bool)
  | schedule
  | effect
  deriving DecidableEq, Repr

/-- Expressions see the records created by the steps before them. -/
def ValueSite.bound (a : Action) : ValueSite → Result Nat
  | .step index _ => .ok index
  | .effect => .ok a.steps.length
  | .schedule => .error (.message "created identity is not a scheduled scalar")

/-- The acting account is known to effects and, outside guards, to create steps. -/
def ValueSite.admitsPrincipal (m : Manifest) (a : Action) : ValueSite → Result Bool
  | .effect => .ok true
  | .step index false => do
      let step ← need "unknown step" a.steps[index]?
      let op ← m.operation step.operation
      return op.kind == .create
  | _ => .ok false

/-- Current fields are those of the step's own target, in its guards. -/
def ValueSite.admitsCurrent (a : Action) (target : String) : ValueSite → Bool
  | .step index true => a.steps[index]?.any fun step => step.target == .named target
  | _ => false

def Action.input? (a : Action) (name : String) : Option Input :=
  a.inputs.find? fun input => input.name == name

/-- A field of a target's record, under the target's compute projection. -/
def projectedDomain (m : Manifest) (declaration : ActionTarget) (field : String) :
    Result Domain := do
  let projection ← need "expression requires explicit compute projection" declaration.projection
  check "expression field outside compute projection" (field ∈ projection.fields)
  let read ← m.operation projection.operation
  check "invalid expression read authority"
    (read.kind = .read ∧ read.via = none ∧ read.resource = declaration.resource)
  let resource ← m.resource declaration.resource
  let f ← need "unknown expression field" (resource.field? field)
  Domain.field f

/-- The domain of an expression without operands. -/
def leafDomain (m : Manifest) (a : Action) (site : ValueSite) : Value → Result Domain
  | .input name => do
      let input ← need "undeclared input" (a.input? name)
      Domain.input input
  | .literal literal => literalDomain literal
  | .principal => do
      let allowed ← site.admitsPrincipal m a
      check "principal is create-account-only" (allowed = true)
      return ⟨.account .sameTenant, false, 43⟩
  | .transactionTime => .ok ⟨.timestamp, false, 20⟩
  | .target name => do
      check "target identity is not a scheduled scalar" (site ≠ .schedule)
      let target ← actionTarget a.targets name
      let resource ← m.resource target.resource
      return ⟨.reference resource.name, false, 19⟩
  | .created created => do
      let bound ← site.bound a
      check "created reference must name an earlier step" (created < bound)
      let step ← need "unknown step" a.steps[created]?
      let op ← m.operation step.operation
      check "created reference requires create step" (op.kind = .create)
      let resource ← m.resource op.resource
      return ⟨.reference resource.name, false, 19⟩
  | .snapshotField target field reviewed => do
      let declaration ← actionTarget a.targets target
      check "reviewed source requires exact target revision"
        (reviewed = true → declaration.revision = .exact)
      projectedDomain m declaration field
  | .currentField target field => do
      let declaration ← actionTarget a.targets target
      check "current fields are current-step guard-only" (site.admitsCurrent a target = true)
      projectedDomain m declaration field
  | .add _ _ | .subtract _ _ | .multiply _ _ => .error (.message "operands")

/-! ## Admission -/

/-- What admission collects over a whole action: expression nodes, guard
conditions, the inputs that some expression uses, and the targets that need
exact review. -/
structure Admission where
  nodes : Nat
  guards : Nat
  used : Finset String
  exact : Finset String

/-- A check that counts. -/
abbrev Counted := StateT Admission Result

def maxExpressionNodes : Nat := 64

def maxExpressionDepth : Nat := 8

def maxGuards : Nat := 8

namespace Admission

def new : Admission := ⟨0, 0, ∅, ∅⟩

def node (depth : Nat) : Counted Unit := do
  modify fun s => { s with nodes := s.nodes + 1 }
  let s ← get
  StateT.lift (check "expression node/depth limit"
    (s.nodes ≤ maxExpressionNodes ∧ depth ≤ maxExpressionDepth))

def guard (depth : Nat) : Counted Unit := do
  modify fun s => { s with guards := s.guards + 1 }
  let s ← get
  StateT.lift (check "guard count/depth limit"
    (s.guards ≤ maxGuards ∧ depth ≤ maxExpressionDepth))

/-- An expression that is an input uses it. -/
def use : Value → Admission → Admission
  | .input name, s => { s with used := insert name s.used }
  | _, s => s

def needExact (name : String) (s : Admission) : Admission :=
  { s with exact := insert name s.exact }

end Admission

def walk (m : Manifest) (a : Action) (site : ValueSite) : Value → Nat → Counted Domain
  | .add left right, depth => do
      Admission.node depth
      let l ← walk m a site left (depth + 1)
      let r ← walk m a site right (depth + 1)
      StateT.lift (arithmeticDomain .add l r)
  | .subtract left right, depth => do
      Admission.node depth
      let l ← walk m a site left (depth + 1)
      let r ← walk m a site right (depth + 1)
      StateT.lift (arithmeticDomain .subtract l r)
  | .multiply left right, depth => do
      Admission.node depth
      let l ← walk m a site left (depth + 1)
      let r ← walk m a site right (depth + 1)
      StateT.lift (arithmeticDomain .multiply l r)
  | leaf, depth => do
      Admission.node depth
      let d ← StateT.lift (leafDomain m a site leaf)
      modify (Admission.use leaf)
      return d

/-- The domain of an expression of a step, or past the last step of a schedule. -/
def admitValue (m : Manifest) (a : Action) (index : Nat) (value : Value) (guard : Bool) :
    Counted Domain :=
  walk m a (if index < a.steps.length then .step index guard else .schedule) value 1

def effectValue (m : Manifest) (a : Action) (value : Value) : Counted Domain :=
  walk m a .effect value 1

def sameType : FieldKind → FieldKind → Bool
  | .integer _ _, .integer _ _ => true
  | .choice _, .choice _ => true
  | .duration _, .duration _ => true
  | left, right => left == right

def Comparison.isEquality : Comparison → Bool
  | .equal | .notEqual => true
  | _ => false

/-- Kinds an ordered comparison may compare. -/
def FieldKind.isOrdered : FieldKind → Bool
  | .integer _ _ | .timestamp | .duration _ => true
  | _ => false

/-- The rule of one comparison between two domains. -/
def admitComparison (left right : Domain) (comparison : Comparison) : Result Unit := do
  check "guard comparison type mismatch" (sameType left.kind right.kind = true)
  check "ordered guard requires nonoptional numeric/time operands"
    (comparison.isEquality = false →
      left.optional = false ∧ right.optional = false ∧ left.kind.isOrdered = true)

mutual

def admitCondition (m : Manifest) (a : Action) (index : Nat) :
    GuardCondition → Nat → Counted Unit
  | .all conditions, depth => do
      Admission.guard depth
      StateT.lift (check "invalid guard conjunction"
        (conditions.length ≠ 0 ∧ conditions.length ≤ maxGuards))
      admitConditions m a index conditions (depth + 1)
  | .compare left comparison right, depth => do
      Admission.guard depth
      let l ← admitValue m a index left true
      let r ← admitValue m a index right true
      StateT.lift (admitComparison l r comparison)

def admitConditions (m : Manifest) (a : Action) (index : Nat) :
    List GuardCondition → Nat → Counted Unit
  | [], _ => pure ()
  | condition :: rest, depth => do
      admitCondition m a index condition depth
      admitConditions m a index rest depth

end

def rejection (a : Action) (r : GuardRejection) : Result Unit := do
  check "undeclared rejection input" (∀ name ∈ r.input, (a.input? name).isSome = true)
  check "invalid guard rejection message"
    (r.message ≠ "" ∧ r.message.utf8ByteSize ≤ 256
      ∧ ∀ c ∈ r.message.toList, isControl c = true → c = '\n' ∨ c = '\t')

def admitGuards (m : Manifest) (a : Action) (index : Nat) : List Guard → Counted Unit
  | [] => pure ()
  | guard :: rest => do
      StateT.lift (rejection a guard.rejection)
      admitCondition m a index guard.condition 1
      admitGuards m a index rest

/-! ## Fitting a destination -/

/-- Whether every present value of one schema is a value of another. -/
def kindsFit (source target : FieldKind) (sourceBytes targetBytes : Nat) : Bool :=
  match source, target with
  | .text, .text => decide (sourceBytes ≤ targetBytes)
  | .boolean, .boolean | .timestamp, .timestamp => true
  | .duration source, .duration target => decide (source ≤ target)
  | .account source, .account target => source == target
  | .integer sourceMin sourceMax, .integer min max =>
      decide (min.getD Domain.i64.lo ≤ sourceMin.getD Domain.i64.lo)
        && decide (sourceMax.getD Domain.i64.hi ≤ max.getD Domain.i64.hi)
  | .choice source, .choice target => source.all fun v => target.any fun w => w.key == v.key
  | _, _ => false

/-- Whether every value of the input's schema is a value of the field. -/
def inputFits (input : Input) (field : TextField) : Bool :=
  if input.optional && !field.optional then false
  else kindsFit input.kind field.kind input.maxBytes field.maxBytes

def fits (domain : Domain) (field : TextField) : Bool :=
  inputFits ⟨"value", "Value", domain.kind, domain.optional, domain.maxBytes⟩ field

def fitsInput (domain : Domain) (input : Input) : Bool :=
  fits domain ⟨false, input.kind, input.optional, none, input.name, input.label, input.maxBytes⟩

/-! ## Typing rules -/

/-- The expression of an operation. -/
def Arithmetic.apply : Arithmetic → Value → Value → Value
  | .add, left, right => .add left right
  | .subtract, left, right => .subtract left right
  | .multiply, left, right => .multiply left right

/-- The domain of an expression at a site, without the counts. -/
inductive Typed (m : Manifest) (a : Action) (site : ValueSite) : Value → Domain → Prop where
  | leaf {value : Value} {d : Domain} :
      leafDomain m a site value = .ok d → Typed m a site value d
  | operate {op : Arithmetic} {left right : Value} {l r d : Domain} :
      Typed m a site left l → Typed m a site right r → arithmeticDomain op l r = .ok d →
        Typed m a site (op.apply left right) d

/-- The recursion of admission follows the typing rules. -/
theorem walk_typed {m : Manifest} {a : Action} {site : ValueSite} {value : Value} {depth : Nat}
    {s s' : Admission} {d : Domain} (h : walk m a site value depth s = .ok (d, s')) :
    Typed m a site value d := by
  induction value generalizing depth s s' d with
  | add left right ihl ihr =>
      simp only [walk, run_bind_eq_ok, run_lift_eq_ok] at h
      rcases h with ⟨_, _, _, l, _, hl, r, _, hr, hd, _⟩
      exact Typed.operate (ihl hl) (ihr hr) hd
  | subtract left right ihl ihr =>
      simp only [walk, run_bind_eq_ok, run_lift_eq_ok] at h
      rcases h with ⟨_, _, _, l, _, hl, r, _, hr, hd, _⟩
      exact Typed.operate (ihl hl) (ihr hr) hd
  | multiply left right ihl ihr =>
      simp only [walk, run_bind_eq_ok, run_lift_eq_ok] at h
      rcases h with ⟨_, _, _, l, _, hl, r, _, hr, hd, _⟩
      exact Typed.operate (ihl hl) (ihr hr) hd
  | input | literal | target | created | principal | transactionTime | snapshotField
  | currentField =>
      simp only [walk, run_bind_eq_ok, run_lift_eq_ok, run_pure_eq_ok] at h
      rcases h with ⟨_, _, _, found, _, ⟨hleaf, _⟩, _, _, _, rfl, _⟩
      exact Typed.leaf hleaf

end Noxide
