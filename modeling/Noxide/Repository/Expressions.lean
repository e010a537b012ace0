import Noxide.Repository.Soundness

/-!
# Expressions of admitted actions

What admission of a manifest promises of the expressions of its actions, in every
transaction whose input, rows and outcomes are valid.

Main results:

- Theorem {lit}`admitted_expressions_sound`: expressions evaluate in their domains,
  comparisons compare, assignments are valid and adjustments stay within bounds.
-/

namespace Noxide

open Checked

/-! ## Expressions of an admitted action -/

/-- The comparisons inside a condition. -/
inductive GuardCondition.Compares : GuardCondition → Value → Comparison → Value → Prop where
  | compare {left right : Value} {comparison : Comparison} :
      Compares (.compare left comparison right) left comparison right
  | all {conditions : List GuardCondition} {condition : GuardCondition} {left right : Value}
      {comparison : Comparison} : condition ∈ conditions →
        Compares condition left comparison right →
          Compares (.all conditions) left comparison right

/-- Every comparison inside a typed condition is typed. -/
theorem GuardTyped.compares {m : Manifest} {a : Action} {index : Nat} {condition : GuardCondition}
    {left right : Value} {comparison : Comparison} (typed : GuardTyped m a index condition)
    (inside : condition.Compares left comparison right) :
    ∃ l r, Typed m a (.step index true) left l ∧ Typed m a (.step index true) right r ∧
      admitComparison l r comparison = .ok () := by
  induction inside with
  | compare =>
      cases typed with
      | compare hl hr rule => exact ⟨_, _, hl, hr, rule⟩
  | all mem _ ih =>
      cases typed with
      | all typed => exact ih (typed _ mem)

/-- What admission promises of the expressions of an action: they evaluate in their
domains, comparisons compare, assignments are valid and adjustments stay within
bounds. -/
structure ExpressionsSound (v : Values) (m : Manifest) (a : Action) : Prop where
  evaluates : ∀ site, CoherentAt v m a site → ∀ value d, Admits m a site value d →
    Evaluates v value d (v.value a value)
  decides : ∀ (index : Nat) step, a.steps[index]? = some step →
    CoherentAt v m a (.step index true) → ∀ guard ∈ step.guards,
      Decides (v.condition a guard.condition)
  compares : ∀ (index : Nat) step, a.steps[index]? = some step →
    CoherentAt v m a (.step index true) → ∀ guard ∈ step.guards, ∀ left comparison right,
      guard.condition.Compares left comparison right → ∀ s t, v.value a left = .ok s →
        v.value a right = .ok t → ∃ order, s.compare t = .ok order
  assigns : ∀ (index : Nat) step, a.steps[index]? = some step →
    CoherentAt v m a (.step index false) → ∀ op resource, m.operation step.operation = .ok op →
      m.resource op.resource = .ok resource → ∀ assignment ∈ step.assign, ∃ field,
        resource.field? assignment.field = some field ∧ ∀ uploads stored text,
          v.assigned uploads a op stored field assignment = .ok text →
            validateValue field text = .ok ()
  adjusts : ∀ (index : Nat) step, a.steps[index]? = some step →
    CoherentAt v m a (.step index false) → ∀ op resource, m.operation step.operation = .ok op →
      m.resource op.resource = .ok resource → ∀ assignment ∈ step.assign, ∀ by_ r increase,
        assignment.change = (if increase then .increase by_ r else .decrease by_ r) → ∃ field,
          resource.field? assignment.field = some field ∧
            ∀ stored, ValidRow m op.resource stored → ∃ text,
              stored.record.fields.lookup assignment.field = some text ∧
                Adjusts field increase text r
                  (v.adjustedValue a op assignment.field (some stored) by_ increase r)

section Claim

variable {v : Values} {m : Manifest} {a : Action}

theorem guards_compare (h : Coherent v m a) {index : Nat}
    (hsite : CoherentAt v m a (.step index true)) {condition : GuardCondition}
    (typed : GuardTyped m a index condition) {left right : Value} {comparison : Comparison}
    (inside : condition.Compares left comparison right) {s t : Scalar}
    (hs : v.value a left = .ok s) (ht : v.value a right = .ok t) :
    ∃ order, s.compare t = .ok order := by
  rcases typed.compares inside with ⟨l, r, hl, hr, rule⟩
  simp only [admitComparison, check, bind_eq_ok, ensure_eq_ok] at rule
  rcases rule with ⟨_, same, _⟩
  have evaluatedl := guard_inDomain h hsite hl
  have evaluatedr := guard_inDomain h hsite hr
  rw [hs] at evaluatedl
  rw [ht] at evaluatedr
  cases evaluatedl with
  | value ls =>
      cases evaluatedr with
      | value rt => exact compare_sound same ls rt

/-- The operation of a step, as the step's admission has it. -/
theorem StepAdmitted.same {index : Nat} {step : Step} {op op' : Operation}
    {resource resource' : Resource} (admitted : StepAdmitted m a index step op resource)
    (hop : m.operation step.operation = .ok op')
    (hresource : m.resource op'.resource = .ok resource') : op' = op ∧ resource' = resource := by
  cases hop.symm.trans admitted.operation_eq
  cases hresource.symm.trans admitted.resource_eq
  exact ⟨rfl, rfl⟩

theorem action_sound (manifest : AdmittedManifest m) (mem : a ∈ m.actions) (h : Coherent v m a) :
    ExpressionsSound v m a := by
  have action := validateAction_spec (manifest.actions a mem)
  refine ⟨fun site hsite value d admits => admits.typed.sound h hsite, ?_, ?_, ?_, ?_⟩
  · intro index step found hsite guard hguard
    rcases action.steps index step found with ⟨op, resource, admitted⟩
    exact condition_sound h hsite _ (admitted.guards guard hguard)
  · intro index step found hsite guard hguard left comparison right inside s t hs ht
    rcases action.steps index step found with ⟨op, resource, admitted⟩
    exact guards_compare h hsite (admitted.guards guard hguard) inside hs ht
  · intro index step found hsite op resource hop hresource assignment hassignment
    rcases action.steps index step found with ⟨op', resource', admitted⟩
    rcases admitted.same hop hresource with ⟨rfl, rfl⟩
    rcases admitted.assigned assignment hassignment with ⟨field, found, _, change⟩
    have resource_admitted := manifest.resources resource (Manifest.resource_mem hresource).1
    exact ⟨field, found, fun uploads stored text result =>
      assigned_sound h hsite hresource resource_admitted found change result⟩
  · intro index step found hsite op resource hop hresource assignment hassignment by_ r increase
      kind
    rcases action.steps index step found with ⟨op', resource', admitted⟩
    rcases admitted.same hop hresource with ⟨rfl, rfl⟩
    rcases admitted.assigned assignment hassignment with ⟨field, found, _, change⟩
    have resource_admitted := manifest.resources resource (Manifest.resource_mem hresource).1
    have amount : ∃ d, Admits m a (.step index false) by_ d ∧ admitAmount field d = .ok () := by
      rw [kind] at change
      cases increase with
      | true => exact change.2.2
      | false => exact change.2.2
    rcases amount with ⟨d, admits, rule⟩
    exact ⟨field, found, fun stored valid =>
      adjusted_sound h hsite hresource resource_admitted found admits.typed rule valid⟩

end Claim

/-! ## A sample application -/

def sampleStockTitle : TextField := ⟨false, .text, false, none, "title", "Title", 100⟩

def sampleStockQuantity : TextField :=
  ⟨false, .integer (some 0) (some 100), false, none, "quantity", "Quantity", 20⟩

def sampleStockKeeper : TextField :=
  ⟨true, .account .sameTenant, false, none, "keeper", "Keeper", 43⟩

def sampleStock : Resource where
  search := none
  expiry := none
  unique := []
  gate := none
  id := 1
  name := "stock"
  fields := [sampleStockTitle, sampleStockQuantity, sampleStockKeeper]

/-- An operation on the stock, without a list or a query. -/
def sampleStockOperation (id : Nat) (kind : OperationKind) (policy : List (List Predicate)) :
    Operation where
  maintenance := false
  query := none
  bind := []
  scope := none
  via := none
  filter := []
  disclose := []
  list := none
  id := id
  resource := 1
  kind := kind
  policy := ⟨policy⟩
  visibility := none
  fields := none

/-- Take a few pieces out of the stock. -/
def sampleTake : Action where
  id := 1
  version := 1
  name := "take"
  targets := [⟨"item", 1, .page [1], .identity, none, none⟩]
  inputs := [⟨"amount", "Amount", .integer (some 1) (some 10), false, 20⟩]
  steps := [⟨[⟨.compare (.input "amount") .lessOrEqual (.literal (.integer ⟨5, by decide⟩)),
      ⟨some "amount", "At most five."⟩⟩], 2, .named "item",
    [⟨"quantity", .decrease (.input "amount") ⟨some "amount", "Not enough left."⟩⟩]⟩]

/-- Anyone reports a stock item; its keeper is the acting account. -/
def sampleReport : Action where
  id := 2
  version := 1
  name := "report"
  targets := []
  inputs := [⟨"title", "Title", .text, false, 100⟩]
  steps := [⟨[], 3, .none, [⟨"title", .set (.input "title")⟩,
    ⟨"quantity", .set (.literal (.integer ⟨1, by decide⟩))⟩, ⟨"keeper", .set .principal⟩]⟩]

def sampleStockManifest : Manifest where
  effects := none
  jobs := none
  version := 13
  resources := [sampleStock]
  operations := [sampleStockOperation 1 .read [[.owner]], sampleStockOperation 2 .update [[.owner]],
    sampleStockOperation 3 .create [[.everyone]]]
  routes := []
  actions := [sampleTake, sampleReport]
  webBindings := []

theorem sampleStockManifest_accepted : validate sampleStockManifest = .ok () := by decide +kernel

def sampleKeeper : String := String.ofList (List.replicate 43 'A')

def sampleStockFields : Fields :=
  Finmap.insert "title" "Rope" (Finmap.insert "quantity" "7" (Finmap.singleton "keeper" sampleKeeper))

def sampleStockRow : StoredRecord where
  record := ⟨1, 9, sampleStockFields⟩
  owner := sampleKeeper
  tenant := "main"
  incarnation := "a"
  revision := 1
  capVersion := none

/-- The keeper takes three of seven pieces. -/
def sampleTakeValues : Values where
  manifest := sampleStockManifest
  input := Finmap.singleton "amount" "3"
  principal := .user ⟨sampleKeeper, "main", [], by decide⟩
  grants := [("item", ⟨1, 9, "a", 1, none⟩)]
  snapshots := Finmap.singleton (1, 9) sampleStockRow
  outcomes := []
  time := some 0
  current := some ("item", sampleStockRow)

/-- An anonymous request reports an item. -/
def sampleReportValues : Values where
  manifest := sampleStockManifest
  input := Finmap.singleton "title" "Rope"
  principal := .anonymous
  grants := []
  snapshots := ∅
  outcomes := []
  time := some 0
  current := none

theorem sampleStockRow_valid : ValidRow sampleStockManifest 1 sampleStockRow := by
  intro r hr
  have resource : sampleStockManifest.resource 1 = .ok sampleStock := rfl
  cases resource.symm.trans hr
  decide

theorem sampleTakeValues_coherent : Coherent sampleTakeValues sampleStockManifest sampleTake where
  manifest := rfl
  input := by decide
  granted := by
    intro target mem
    cases List.mem_singleton.mp mem
    exact ⟨⟨1, 9, "a", 1, none⟩, sampleStockRow, rfl, rfl, by decide,
      Finmap.lookup_singleton_eq, sampleStockRow_valid⟩
  time := by
    intro t same
    cases same
    decide
  account := by
    intro user same
    cases same
    decide

theorem sampleReportValues_coherent :
    Coherent sampleReportValues sampleStockManifest sampleReport where
  manifest := rfl
  input := by decide
  granted := by
    intro target mem
    cases mem
  time := by
    intro t same
    cases same
    decide
  account := by
    intro user same
    cases same

/-! ## Admitted expressions are sound -/

/-- Expressions of an accepted manifest evaluate inside their domains or are
unavailable, unless they ask for the account of a principal that has none; their
comparisons compare, their assignments are valid and their adjustments stay within
bounds. -/
theorem admitted_expressions_sound {m : Manifest} {a : Action} {v : Values}
    (accepted : validate m = .ok ()) (mem : a ∈ m.actions) (coherent : Coherent v m a) :
    ExpressionsSound v m a :=
  action_sound (validate_spec accepted) mem coherent

/-- Taking three of seven pieces leaves four. -/
theorem admitted_expressions_sound_sample :
    ExpressionsSound sampleTakeValues sampleStockManifest sampleTake ∧
      sampleTakeValues.adjustedValue sampleTake (sampleStockOperation 2 .update [[.owner]]) "quantity"
        (some sampleStockRow) (.input "amount") false ⟨some "amount", "Not enough left."⟩ =
          .ok "4" :=
  ⟨admitted_expressions_sound sampleStockManifest_accepted (by simp [sampleStockManifest])
    sampleTakeValues_coherent, by decide⟩

/-- The acting account of an anonymous creation is neither a value nor an unavailable
calculation. -/
theorem principal_expression_unsound :
    ¬ ∀ (m : Manifest) (a : Action) (v : Values), validate m = .ok () → a ∈ m.actions →
      Coherent v m a → ∀ site, CoherentAt v m a site → ∀ value d, Admits m a site value d →
        InDomain d (v.value a value) := by
  intro claim
  have admits : Admits sampleStockManifest sampleReport (.step 0 false) .principal
      ⟨.account .sameTenant, false, 43⟩ := ⟨1, Admission.new, _, rfl⟩
  have site : CoherentAt sampleReportValues sampleStockManifest sampleReport (.step 0 false) := by
    constructor
    · intro bound first index earlier
      cases first
      cases earlier
    · intro target mem
      cases mem
  have inside := claim sampleStockManifest sampleReport sampleReportValues
    sampleStockManifest_accepted (by simp [sampleStockManifest]) sampleReportValues_coherent _ site _ _
    admits
  have failed : sampleReportValues.value sampleReport .principal = .error .referenceUnavailable := rfl
  rw [failed] at inside
  cases inside

end Noxide
