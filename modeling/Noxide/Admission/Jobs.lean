import Mathlib.Data.Finmap
import Noxide.Admission.Actions
import Noxide.Library.Acyclic

/-!
# Background jobs

Structural admission of workers, schedules and recurring schedules, with the
depth-first search that refuses cyclic schedule calls.

Main results:

- Theorem {lit}`visitCalls_ends`: the search of a call graph ends.
- Theorem {lit}`visitCalls_ok_iff`: the search accepts exactly the acyclic graphs.
- Theorem {lit}`validateCalls_ok_iff`: schedules are accepted exactly when their calls
  have no cycle; {lit}`calls_chain_le`: then chains of calls are bounded.
-/

namespace Noxide

open Checked Relation

/-! ## Workers -/

def TargetSource.isService : TargetSource → Bool
  | .service _ => true
  | _ => false

/-- The read a target of a service action must be eligible for. -/
def TargetSource.served : TargetSource → Option Nat
  | .service eligible | .reference _ _ eligible => some eligible
  | _ => none

def validateWorkerTarget (m : Manifest) (rule : WorkerAction) (target : ActionTarget) :
    Result Unit := do
  let binding ← need "missing worker target rule" (rule.targets.lookup target.name)
  check "worker target resource mismatch" (binding.resource = target.resource)
  check "worker target requires service root or approved reference binding"
    (target.source.served = some binding.eligible)
  let read ← m.operation binding.eligible
  check "invalid worker eligible read" (read.kind = .read ∧ read.resource = binding.resource)

def validateWorkerStep (m : Manifest) (step : Step) : Result Unit := do
  let op ← m.operation step.operation
  check "service actions update or delete only" (op.kind = .update ∨ op.kind = .delete)

def validateWorkerInput (input : Input) : Result Unit :=
  check "service input cannot persist opaque browser handles"
    (input.kind.isUploadHandle = false ∧ input.kind.isBlob = false ∧ input.kind.isReference = false)

def validateWorkerAction (m : Manifest) (rule : WorkerAction) : Result Unit := do
  let action ← m.action rule.action
  check "worker action cannot have a web binding"
    (∀ binding ∈ m.webBindings, binding.action ≠ action.id)
  check "worker target rules must be exact" (action.targets.length = rule.targets.length)
  action.targets.forM (validateWorkerTarget m rule)
  action.steps.forM (validateWorkerStep m)
  action.inputs.forM validateWorkerInput

def validateWorkerActionsFrom (m : Manifest) : List Nat → List WorkerAction → Result Unit
  | _, [] => .ok ()
  | earlier, rule :: rest => do
      check "duplicate worker action" (rule.action ∉ earlier)
      validateWorkerAction m rule
      validateWorkerActionsFrom m (rule.action :: earlier) rest

def validateWorkersFrom (m : Manifest) : List String → List Worker → Result Unit
  | _, [] => .ok ()
  | earlier, worker :: rest => do
      check "invalid or duplicate worker"
        (identifier worker.name = true ∧ worker.actions ≠ [] ∧ worker.actions.length ≤ 32
          ∧ worker.name ∉ earlier)
      validateWorkerActionsFrom m [] worker.actions
      validateWorkersFrom m (worker.name :: earlier) rest

def workerAction (workers : List Worker) (worker : String) (action : Nat) :
    Result WorkerAction := do
  let declared ← need "undeclared service worker" (workers.find? fun w => w.name == worker)
  need "undeclared service action" (declared.actions.find? fun rule => rule.action == action)

/-! ## Schedules -/

def maxSchedulesPerAction : Nat := 2

/-- The resource of a scheduled target: a target of the source action, or a record
one of its steps creates. -/
def scheduledResource (m : Manifest) (source : Action) : ScheduledTarget → Result Nat
  | .target name => do
      let target ← actionTarget source.targets name
      return target.resource
  | .created index => do
      let step ← need "schedule create index unavailable" source.steps[index]?
      let op ← m.operation step.operation
      check "schedule requires a created target" (op.kind = .create)
      return op.resource

def validateScheduledTarget (m : Manifest) (source : Action) (destination : WorkerAction)
    (entry : String × ScheduledTarget) : Result Unit := do
  let resource ← scheduledResource m source entry.2
  let binding ← need "schedule target aliases differ" (destination.targets.lookup entry.1)
  check "schedule target resource differs" (resource = binding.resource)

def safeNode (depth nodes : Nat) : Result Unit :=
  check "schedule expression limit" (depth < 8 ∧ nodes + 1 ≤ 64)

/-- Expressions persisted with a job read no principal, current row or identity;
answers the nodes so far. -/
def safeValue : Value → Nat → Nat → Result Nat
  | .add left right, depth, nodes | .subtract left right, depth, nodes
  | .multiply left right, depth, nodes => do
      safeNode depth nodes
      let nodes ← safeValue left (depth + 1) (nodes + 1)
      safeValue right (depth + 1) nodes
  | .principal, depth, nodes | .currentField _ _, depth, nodes | .target _, depth, nodes
  | .created _, depth, nodes => do
      safeNode depth nodes
      .error (.message "invalid persisted scalar expression")
  | _, depth, nodes => do
      safeNode depth nodes
      return nodes + 1

def validateSchedule (m : Manifest) (contract : JobContract) (earlier : List (Nat × Nat))
    (schedule : Schedule) : Result Unit := do
  check "duplicate or excessive schedule position"
    (schedule.ordinal < maxSchedulesPerAction
      ∧ (schedule.sourceAction, schedule.ordinal) ∉ earlier)
  let source ← m.action schedule.sourceAction
  let destination ← workerAction contract.workers schedule.worker schedule.action
  check "schedule target aliases differ"
    ((schedule.targets.map Prod.fst).toFinset = (destination.targets.map Prod.fst).toFinset)
  let called ← m.action schedule.action
  check "schedule input aliases differ"
    ((called.inputs.map Input.name).toFinset = (schedule.inputs.map Prod.fst).toFinset)
  schedule.targets.forM (validateScheduledTarget m source destination)
  (schedule.inputs.map Prod.snd ++ [schedule.dueAt]).forM fun value => do
    let _ ← safeValue value 0 0
    return ()

def validateSchedulesFrom (m : Manifest) (contract : JobContract) :
    List (Nat × Nat) → List Schedule → Result Unit
  | _, [] => .ok ()
  | earlier, schedule :: rest => do
      validateSchedule m contract earlier schedule
      validateSchedulesFrom m contract ((schedule.sourceAction, schedule.ordinal) :: earlier) rest

/-! ## The call graph -/

/-- The actions each action schedules, in declaration order. -/
abbrev CallGraph := Finmap fun _ : Nat => List Nat

def CallGraph.destinations (graph : CallGraph) (action : Nat) : List Nat :=
  (graph.lookup action).getD []

def CallGraph.addCall (graph : CallGraph) (schedule : Schedule) : CallGraph :=
  graph.insert schedule.sourceAction (graph.destinations schedule.sourceAction ++ [schedule.action])

def callGraph (schedules : List Schedule) : CallGraph :=
  schedules.foldl CallGraph.addCall ∅

/-- The marks of the search: the actions on the current path, and the finished ones. -/
structure Marks where
  visiting : Finset Nat
  visited : Finset Nat
  deriving DecidableEq

/-- Visit one destination after the other, up to the first failure. -/
def visitEach (visit : Nat → Marks → Option (Result Marks)) :
    List Nat → Marks → Option (Result Marks)
  | [], marks => some (.ok marks)
  | destination :: rest, marks =>
      match visit destination marks with
      | some (.ok marks) => visitEach visit rest marks
      | stopped => stopped

/-- Depth-first search, with the recursion depth as fuel. -/
def visit (graph : CallGraph) : Nat → Nat → Marks → Option (Result Marks)
  | 0, _, _ => none
  | fuel + 1, action, marks =>
      if action ∈ marks.visited then some (.ok marks)
      else if action ∈ marks.visiting then
        some (.error (.message "schedule call graph must be acyclic"))
      else
        match visitEach (visit graph fuel) (graph.destinations action)
            ⟨insert action marks.visiting, marks.visited⟩ with
        | some (.ok marks) =>
            some (.ok ⟨marks.visiting.erase action, insert action marks.visited⟩)
        | stopped => stopped

/-- Visit every action that schedules another, in identifier order. -/
def visitCalls (graph : CallGraph) : Option (Result Marks) :=
  visitEach (visit graph (graph.keys.card + 1)) (graph.keys.sort (· ≤ ·)) ⟨∅, ∅⟩

/-- The search as a check. -/
def validateCalls (schedules : List Schedule) : Result Unit := do
  let _ ← (visitCalls (callGraph schedules)).getD (.error (.message "endless schedule visit"))
  return ()

/-! ## Recurring schedules -/

def minRecurrenceMillis : Int := 60000

def maxScheduleHorizonMillis : Int := 30 * 24 * 60 * 60 * 1000

/-- The eligible read of a recurring target: the service root, or one reference away
from it. -/
def recurringEligible (m : Manifest) (root target : ActionTarget) : Result Nat :=
  match target.source with
  | .service eligible => do
      check "recurrence requires one service root and one-hop references" (target.name = root.name)
      return eligible
  | .reference parent field eligible => do
      check "recurrence requires one service root and one-hop references" (parent = root.name)
      let resource ← referenceResource m root.resource field
      check "recurrence derived resource mismatch"
        (resource.map Resource.id = some target.resource)
      return eligible
  | _ => .error (.message "recurrence requires one service root and one-hop references")

def validateRecurringTarget (m : Manifest) (rule : WorkerAction) (root target : ActionTarget) :
    Result Unit := do
  let eligible ← recurringEligible m root target
  let binding ← need "recurrence binding missing" (rule.targets.lookup target.name)
  let read ← m.operation eligible
  check "recurrence independent read mismatch"
    (binding.resource = target.resource ∧ binding.eligible = eligible ∧ read.kind = .read
      ∧ read.resource = target.resource)

/-- One service root may carry the one-hop references of its action. -/
def validateRecurringTargets (m : Manifest) (rule : WorkerAction) (selection : RecurringSelection) :
    Result Unit := do
  let action ← m.action rule.action
  check "recurrence target bound differs from action"
    (action.targets ≠ [] ∧ action.targets.length ≤ 4
      ∧ rule.targets.length = action.targets.length)
  let root ← need "recurrence service root missing"
    (action.targets.find? fun target => target.name == selection.target)
  check "recurrence must select its service root" (root.source.isService = true)
  action.targets.forM (validateRecurringTarget m rule root)

def validateSelectionQuery (m : Manifest) (action : WorkerAction) (selection : RecurringSelection) :
    Result Unit := do
  validateRecurringTargets m action selection
  let query ← m.operation selection.operation
  let target ← need "recurrence binding missing" (action.targets.lookup selection.target)
  check "invalid recurring indexed selection"
    (query.kind = .list ∧ query.resource = target.resource ∧ query.scope = none
      ∧ query.filter.all (fun condition => condition.equals.isLiteral) = true)
  let resource ← m.resource query.resource
  check "expiry repair requires resource expiry"
    (selection.expiryRepair = true → resource.expiry.isSome = true)

def recurringFilter (m : Manifest) (query : Operation) (condition : Condition) : Result Unit := do
  let resource ← m.resource query.resource
  let field ← need "unknown recurring filter field" (resource.field? condition.field)
  check "recurring filters require fixed boolean or choice literals"
    (field.kind.isFinite = true ∧ condition.equals.isLiteral = true)

def Manifest.isMaintenance (m : Manifest) (id : Nat) : Bool :=
  match m.operation id with
  | .ok op => op.maintenance
  | .error _ => false

def ListOrder.isCreation : ListOrder → Bool
  | .createdAsc | .createdDesc => true
  | .field _ _ _ => false

/-- Expiry repair selects, reads and changes through maintenance operations only. -/
def validateExpiryRepair (m : Manifest) (called : Action) (query : Operation)
    (selection : RecurringSelection) : Result Unit := do
  let target ← actionTarget called.targets selection.target
  match target.source with
  | .service eligible => do
      let eligible ← m.operation eligible
      check "expiry repair requires approved maintenance selection, read and mutations"
        (query.maintenance = true ∧ eligible.maintenance = true
          ∧ called.steps.all (fun step => m.isMaintenance step.operation) = true)
  | _ => .error (.message "recurring selection requires a service root")

/-- A recurring selection is a fixed list of its own worker and tenant. -/
def validateRecurringSelection (m : Manifest) (called : Action) (schedule : RecurringSchedule)
    (selection : RecurringSelection) : Result Unit := do
  let query ← m.operation selection.operation
  check "recurring selection requires exactly its service and tenant predicates"
    (query.policy.any.length = 1
      ∧ ∀ rule ∈ query.policy.any, rule.length = 2 ∧ .service schedule.worker ∈ rule
        ∧ .sameTenant ∈ rule)
  check "recurring selection requires fixed creation order without search or ranges"
    (query.via = none ∧ query.scope = none ∧ query.query = none
      ∧ ∀ list ∈ query.list, list.preview = none ∧ list.order.isCreation = true)
  query.filter.forM (recurringFilter m query)
  if selection.expiryRepair then validateExpiryRepair m called query selection else .ok ()

def recurringInput (called : Action) (entry : String × Literal) : Result Unit := do
  let input ← need "unknown recurring action input" (called.input? entry.1)
  let domain ← literalDomain entry.2
  check "recurring literal does not fit destination input" (fitsInput domain input = true)

def recurringInputs (m : Manifest) (schedule : RecurringSchedule) : Result Unit := do
  let called ← m.action schedule.action
  schedule.inputs.forM (recurringInput called)
  match schedule.selection with
  | some selection => validateRecurringSelection m called schedule selection
  | none => .ok ()

def validateRecurring (m : Manifest) (contract : JobContract) (earlier : List String)
    (schedule : RecurringSchedule) : Result Unit := do
  check "invalid recurring schedule"
    (identifier schedule.name = true ∧ schedule.name ∉ earlier
      ∧ minRecurrenceMillis ≤ schedule.interval ∧ schedule.interval ≤ maxScheduleHorizonMillis)
  let action ← workerAction contract.workers schedule.worker schedule.action
  let called ← m.action schedule.action
  check "recurring input aliases differ"
    ((called.inputs.map Input.name).toFinset = (schedule.inputs.map Prod.fst).toFinset)
  match schedule.selection with
  | some selection => validateSelectionQuery m action selection
  | none => check "targeted recurrence requires selection" (action.targets = [])
  recurringInputs m schedule

def validateRecurringFrom (m : Manifest) (contract : JobContract) :
    List String → List RecurringSchedule → Result Unit
  | _, [] => .ok ()
  | earlier, schedule :: rest => do
      validateRecurring m contract earlier schedule
      validateRecurringFrom m contract (schedule.name :: earlier) rest

/-! ## Contracts -/

def validateContract (m : Manifest) (contract : JobContract) : Result Unit := do
  check "job declaration limit" (contract.workers.length ≤ 32 ∧ contract.schedules.length ≤ 64
    ∧ contract.recurring.length ≤ 32)
  validateWorkersFrom m [] contract.workers
  validateSchedulesFrom m contract [] contract.schedules
  validateCalls contract.schedules
  validateRecurringFrom m contract [] contract.recurring

/-- The operations through which a target is read. -/
def ActionTarget.reads (target : ActionTarget) : List Nat :=
  (target.projection.toList ++ target.inspect.toList).map Inspection.operation

/-- The operations a worker action uses. -/
def ruleOperations (m : Manifest) (rule : WorkerAction) : Result (List Nat) := do
  let called ← m.action rule.action
  let eligible ← called.targets.mapM fun target =>
    need "worker target source is not server verified" target.source.served
  return called.steps.map Step.operation ++ eligible ++ called.targets.flatMap ActionTarget.reads

def workerOperations (m : Manifest) (worker : Worker) : Result (String × List Nat) := do
  let operations ← worker.actions.mapM (ruleOperations m)
  return (worker.name, operations.flatten)

/-- The operations each recurring schedule selects with. -/
def recurringOperations (contract : JobContract) : List (String × List Nat) :=
  contract.recurring.filterMap fun schedule =>
    schedule.selection.map fun selection => (schedule.worker, [selection.operation])

def Predicate.worker : Predicate → Option String
  | .service worker => some worker
  | _ => none

def OperationKind.isMaintainable : OperationKind → Bool
  | .read | .list | .update | .delete => true
  | .create | .aggregate => false

/-- Whether a target of a web action is eligible or read through the operation. -/
def ActionTarget.exposes (target : ActionTarget) (id : Nat) : Bool :=
  (match target.source with
    | .page reads => reads.contains id
    | .service eligible | .reference _ _ eligible | .selected _ eligible _ => eligible == id)
    || target.reads.contains id

def validateMaintenanceBinding (m : Manifest) (op : Operation) (binding : WebBinding) :
    Result Unit := do
  let called ← m.action binding.action
  check "web bindings cannot expose maintenance authority"
    ((∀ step ∈ called.steps, step.operation ≠ op.id)
      ∧ ∀ target ∈ called.targets, target.exposes op.id = false)

/-- Whether a rule names one worker, and this worker uses the operation. -/
def servedRule (services : List (String × List Nat)) (id : Nat) (rule : List Predicate) : Bool :=
  match rule.filterMap Predicate.worker with
  | [worker] => services.any fun service => service.1 == worker && service.2.contains id
  | _ => false

/-- Maintenance is reached through the one worker of each rule only. -/
def validateMaintenance (m : Manifest) (services : List (String × List Nat)) (op : Operation) :
    Result Unit := do
  check "maintenance requires explicit reachable service-only authority"
    (op.kind.isMaintainable = true ∧ op.via = none
      ∧ op.policy.any.all (servedRule services op.id) = true)
  check "maintenance operations cannot be exposed by routes"
    (∀ route ∈ m.routes, op.id ∉ route.operations)
  m.webBindings.forM (validateMaintenanceBinding m op)

def validateServiceOperation (m : Manifest) (workers : List String)
    (services : List (String × List Nat)) (op : Operation) : Result Unit := do
  check "unknown service identity"
    (∀ worker ∈ op.policy.any.flatten.filterMap Predicate.worker,
      identifier worker = true ∧ worker ∈ workers)
  if op.maintenance then validateMaintenance m services op else .ok ()

/-- Service authority requires declared workers. -/
def validateJobs (m : Manifest) : Result Unit :=
  match m.jobs with
  | none =>
      check "service authority requires declared workers"
        ((∀ op ∈ m.operations, op.maintenance = false
            ∧ op.policy.any.flatten.any Predicate.isService = false)
          ∧ ∀ a ∈ m.actions, ∀ target ∈ a.targets, target.source.isService = false)
  | some contract => do
      validateContract m contract
      let services ← contract.workers.mapM (workerOperations m)
      check "service targets require a declared worker action"
        (∀ a ∈ m.actions, (∀ target ∈ a.targets, target.source.isService = false)
          ∨ a.id ∈ (contract.workers.flatMap Worker.actions).map WorkerAction.action)
      m.operations.forM (validateServiceOperation m (contract.workers.map Worker.name)
        (services ++ recurringOperations contract))

/-! ## The search finds the cycles -/

/-- One action schedules another. -/
def Calls (schedules : List Schedule) (source destination : Nat) : Prop :=
  ∃ schedule ∈ schedules, schedule.sourceAction = source ∧ schedule.action = destination

/-- The edges of a call graph. -/
def CallGraph.Edge (graph : CallGraph) (source destination : Nat) : Prop :=
  destination ∈ graph.destinations source

theorem CallGraph.destinations_addCall (graph : CallGraph) (schedule : Schedule) (action : Nat) :
    (graph.addCall schedule).destinations action =
      if action = schedule.sourceAction then graph.destinations action ++ [schedule.action]
      else graph.destinations action := by
  unfold addCall
  by_cases same : action = schedule.sourceAction
  · rw [if_pos same, same, destinations, Finmap.lookup_insert]
    rfl
  · rw [if_neg same, destinations, Finmap.lookup_insert_of_ne _ same]
    rfl

theorem CallGraph.edge_addCall {graph : CallGraph} {schedule : Schedule} {source destination : Nat} :
    (graph.addCall schedule).Edge source destination ↔ graph.Edge source destination ∨
      (schedule.sourceAction = source ∧ schedule.action = destination) := by
  unfold Edge
  rw [destinations_addCall]
  by_cases same : source = schedule.sourceAction
  · rw [if_pos same, List.mem_append, List.mem_singleton]
    constructor
    · rintro (old | rfl)
      · exact Or.inl old
      · exact Or.inr ⟨same.symm, rfl⟩
    · rintro (old | ⟨_, rfl⟩)
      · exact Or.inl old
      · exact Or.inr rfl
  · rw [if_neg same]
    constructor
    · exact Or.inl
    · rintro (old | ⟨other, _⟩)
      · exact old
      · exact absurd other.symm same

/-- The call graph has the calls of the schedules. -/
theorem callGraph_edge {schedules : List Schedule} {source destination : Nat} :
    (callGraph schedules).Edge source destination ↔ Calls schedules source destination := by
  have general : ∀ graph : CallGraph,
      (schedules.foldl CallGraph.addCall graph).Edge source destination ↔
        graph.Edge source destination ∨ Calls schedules source destination := by
    induction schedules with
    | nil =>
        intro graph
        simp [Calls]
    | cons first rest ih =>
        intro graph
        rw [List.foldl_cons, ih, CallGraph.edge_addCall, or_assoc]
        simp [Calls]
  have empty : ¬ CallGraph.Edge ∅ source destination := by
    simp [CallGraph.Edge, CallGraph.destinations]
  rw [callGraph, general]
  simp [empty]

theorem CallGraph.mem_keys {graph : CallGraph} {source destination : Nat}
    (edge : graph.Edge source destination) : source ∈ graph.keys := by
  rw [Finmap.mem_keys]
  by_contra absent
  rw [Edge, destinations, Finmap.lookup_eq_none.mpr absent] at edge
  cases edge

section Search

variable {graph : CallGraph}

/-- The search may enter an action: the path leads to it, and what is finished has no
cycle. -/
structure Entered (graph : CallGraph) (action : Nat) (marks : Marks) : Prop where
  path : ∀ node ∈ marks.visiting, TransGen graph.Edge node action
  finished : Acyclic.Finished graph.Edge marks.visited

/-- How a search over actions ends: with all of them finished and the path as it was,
or at a cycle. -/
inductive Ends (graph : CallGraph) (marks : Marks) (actions : List Nat) :
    Option (Result Marks) → Prop where
  | accepted {marks' : Marks} : marks'.visiting = marks.visiting →
      marks.visited ⊆ marks'.visited → (∀ action ∈ actions, action ∈ marks'.visited) →
        Acyclic.Finished graph.Edge marks'.visited → Ends graph marks actions (some (.ok marks'))
  | refused {node : Nat} : TransGen graph.Edge node node →
      Ends graph marks actions
        (some (.error (.message "schedule call graph must be acyclic")))

/-- A loop over destinations ends as its visits do. -/
theorem visitEach_ends {search : Nat → Marks → Option (Result Marks)} {destinations : List Nat}
    {marks : Marks} (finished : Acyclic.Finished graph.Edge marks.visited)
    (ends : ∀ destination ∈ destinations, ∀ marks' : Marks, marks'.visiting = marks.visiting →
      Acyclic.Finished graph.Edge marks'.visited →
        Ends graph marks' [destination] (search destination marks')) :
    Ends graph marks destinations (visitEach search destinations marks) := by
  induction destinations generalizing marks with
  | nil => exact Ends.accepted rfl subset_rfl (fun action mem => by cases mem) finished
  | cons first rest ih =>
      have first_ends := ends first List.mem_cons_self marks rfl finished
      rw [visitEach]
      generalize search first marks = result at first_ends ⊢
      cases first_ends with
      | refused cycle => exact Ends.refused cycle
      | @accepted marks' same grown done finished' =>
          have rest_ends := ih finished' fun destination mem marks'' same' =>
            ends destination (List.mem_cons_of_mem _ mem) marks'' (same'.trans same)
          change Ends graph marks (first :: rest) (visitEach search rest marks')
          generalize visitEach search rest marks' = result at rest_ends ⊢
          cases rest_ends with
          | refused cycle => exact Ends.refused cycle
          | accepted same' grown' done' finished'' =>
              refine Ends.accepted (same'.trans same) (grown.trans grown') ?_ finished''
              intro action mem
              rcases List.mem_cons.mp mem with rfl | mem
              · exact grown' (done action List.mem_cons_self)
              · exact done' action mem

/-- Entering an action with destinations uses up one source of the graph. -/
theorem enter_card {action : Nat} {visiting : Finset Nat} (source : action ∈ graph.keys)
    (fresh : action ∉ visiting) :
    (graph.keys \ insert action visiting).card < (graph.keys \ visiting).card := by
  refine Finset.card_lt_card ⟨?_, fun subset => ?_⟩
  · exact Finset.sdiff_subset_sdiff subset_rfl (Finset.subset_insert _ _)
  · have mem := subset (Finset.mem_sdiff.mpr ⟨source, fresh⟩)
    exact (Finset.mem_sdiff.mp mem).2 (Finset.mem_insert_self _ _)

/-- With fuel for every source off the path, a visit ends. -/
theorem visit_ends {fuel action : Nat} {marks : Marks} (entered : Entered graph action marks)
    (enough : (graph.keys \ marks.visiting).card < fuel) :
    Ends graph marks [action] (visit graph fuel action marks) := by
  -- Induction on the fuel: a nested visit has one more action on its path.
  induction fuel generalizing action marks with
  | zero => omega
  | succ fuel ih =>
      rw [visit]
      by_cases done : action ∈ marks.visited
      · rw [if_pos done]
        refine Ends.accepted rfl subset_rfl ?_ entered.finished
        intro node mem
        rwa [List.mem_singleton.mp mem]
      rw [if_neg done]
      by_cases again : action ∈ marks.visiting
      · rw [if_pos again]
        exact Ends.refused (entered.path action again)
      rw [if_neg again]
      have nested : Ends graph ⟨insert action marks.visiting, marks.visited⟩
          (graph.destinations action) (visitEach (visit graph fuel) (graph.destinations action)
            ⟨insert action marks.visiting, marks.visited⟩) := by
        refine visitEach_ends entered.finished fun destination mem marks' same finished => ?_
        have fewer := enter_card (CallGraph.mem_keys mem) again
        have left : (graph.keys \ marks'.visiting).card < fuel := by
          rw [same]
          exact Nat.lt_of_lt_of_le fewer (Nat.le_of_lt_succ enough)
        refine ih ⟨?_, finished⟩ left
        intro node path
        rw [same] at path
        rcases Finset.mem_insert.mp path with rfl | path
        · exact TransGen.single mem
        · exact (entered.path node path).tail mem
      generalize visitEach (visit graph fuel) (graph.destinations action)
        ⟨insert action marks.visiting, marks.visited⟩ = result at nested ⊢
      cases nested with
      | refused cycle => exact Ends.refused cycle
      | @accepted marks' same grown successors finished =>
          refine Ends.accepted ?_ (grown.trans (Finset.subset_insert _ _)) ?_ ?_
          · simp only [same]
            exact Finset.erase_insert again
          · intro node mem
            rw [List.mem_singleton.mp mem]
            exact Finset.mem_insert_self _ _
          · by_cases known : action ∈ marks'.visited
            · rwa [Finset.insert_eq_of_mem known]
            · exact finished.insert known successors

/-- The search of a call graph ends: it finishes every source, or finds a cycle. -/
theorem visitCalls_ends (graph : CallGraph) :
    Ends graph ⟨∅, ∅⟩ (graph.keys.sort (· ≤ ·)) (visitCalls graph) := by
  refine visitEach_ends (Acyclic.finished_empty _) fun action _ marks same finished => ?_
  refine visit_ends ⟨?_, finished⟩ (by rw [same]; simp)
  intro node path
  rw [same] at path
  cases path

/-- The search accepts exactly the acyclic graphs. -/
theorem visitCalls_ok_iff (graph : CallGraph) :
    (∃ marks, visitCalls graph = some (.ok marks)) ↔ Acyclic.Holds graph.Edge := by
  have ends := visitCalls_ends graph
  generalize visitCalls graph = result at ends
  cases ends with
  | refused cycle =>
      constructor
      · rintro ⟨marks, same⟩
        cases same
      · intro acyclic
        exact absurd cycle (acyclic _)
  | accepted _ _ done finished =>
      constructor
      · intro _
        refine Acyclic.holds_of_finished finished fun node next edge => ?_
        exact done node ((Finset.mem_sort _).mpr (CallGraph.mem_keys edge))
      · intro _
        exact ⟨_, rfl⟩

end Search

theorem validateCalls_ok_iff (schedules : List Schedule) :
    validateCalls schedules = .ok () ↔ Acyclic.Holds (Calls schedules) := by
  have same : CallGraph.Edge (callGraph schedules) = Calls schedules := by
    funext source destination
    exact propext callGraph_edge
  rw [← same, ← visitCalls_ok_iff]
  have ends := visitCalls_ends (callGraph schedules)
  unfold validateCalls
  generalize visitCalls (callGraph schedules) = result at ends ⊢
  cases ends with
  | refused cycle =>
      constructor
      · intro accepted
        cases accepted
      · rintro ⟨marks, same⟩
        cases same
  | accepted _ _ _ _ =>
      constructor
      · intro _
        exact ⟨_, rfl⟩
      · intro _
        rfl

/-- The order of the declarations does not matter. -/
theorem calls_perm {schedules other : List Schedule} (h : schedules.Perm other) :
    Calls schedules = Calls other := by
  funext source destination
  refine propext ⟨?_, ?_⟩
  · rintro ⟨schedule, mem, edge⟩
    exact ⟨schedule, h.mem_iff.mp mem, edge⟩
  · rintro ⟨schedule, mem, edge⟩
    exact ⟨schedule, h.mem_iff.mpr mem, edge⟩

/-- Chains of acyclic calls have at most one action more than there are schedules. -/
theorem calls_chain_le {schedules : List Schedule} (acyclic : Acyclic.Holds (Calls schedules))
    {actions : List Nat} (chain : actions.IsChain (Calls schedules)) :
    actions.length ≤ schedules.length + 1 := by
  have covered : ∀ source destination, Calls schedules source destination →
      source ∈ (schedules.map Schedule.sourceAction).toFinset := by
    rintro source destination ⟨schedule, mem, rfl, _⟩
    exact List.mem_toFinset.mpr (List.mem_map_of_mem mem)
  have bound := Acyclic.chain_length_le acyclic covered chain
  have sources : (schedules.map Schedule.sourceAction).toFinset.card ≤ schedules.length := by
    have card := List.toFinset_card_le (schedules.map Schedule.sourceAction)
    rwa [List.length_map] at card
  omega

/-- The calls of an admitted contract have no cycle. -/
theorem validateJobs_acyclic {m : Manifest} {contract : JobContract}
    (declared : m.jobs = some contract) (h : validateJobs m = .ok ()) :
    contract.schedules.length ≤ 64 ∧ Acyclic.Holds (Calls contract.schedules) := by
  simp only [validateJobs, declared, validateContract, check, bind_eq_ok, ensure_eq_ok] at h
  rcases h with ⟨_, ⟨_, limits, _, _, _, _, _, calls, _⟩, _⟩
  exact ⟨limits.2.1, (validateCalls_ok_iff _).mp calls⟩

end Noxide
