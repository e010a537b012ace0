import Noxide.Guest.Pool

/-!
# Pool accounting

What the counters of the pool count.  A worker that a dropped request was using, and the idle
workers that a closing stops, stay on the live count; a request that is dropped while it waits
stays on the waiting count; and a worker that is parked after the closing stays idle.

Main results:

- Theorem {lit}`live_counted`, {lit}`waiting_counted` and {lit}`stopped_idle`: each count is exact in
  every run without the steps that lose it.
- Theorem {lit}`pool_accounted`: the accounting in every run without any of them.
- Theorem {lit}`live_bounded`: the live count never exceeds the concurrency.
-/

namespace Noxide.Guest

/-! ## What is counted -/

/-- A request holds a worker: it is served by it, parks it, or takes it off the count. -/
def Op.busy : Op → Nat
  | .hand _ _ => 1
  | .serve _ _ => 1
  | .park false _ => 1
  | .release false => 1
  | _ => 0

/-- A worker is being started. -/
def Op.starts : Op → Nat
  | .countStarting => 1
  | .startWorker => 1
  | .endStarting _ => 1
  | .park true _ => 1
  | .release true => 1
  | _ => 0

/-- The request is between its two updates of the waiting count. -/
def Op.waits : Op → Nat
  | .checkClosed _ _ => 1
  | .take _ _ => 1
  | .loadStarting _ _ => 1
  | .loadLive _ _ => 1
  | .evict _ _ => 1
  | .sleep _ _ => 1
  | .leaveWaiting => 1
  | _ => 0

/-- A closing that has not yet stopped the idle workers. -/
def Op.clears : Op → Nat
  | .clearIdle => 1
  | _ => 0

/-- The sum of a weight over what is left of a task. -/
def taskSum (weight : Op → Nat) (task : Task) : Nat := (task.map weight).sum

/-- The sum of a weight over all tasks. -/
def Pool.sum (pool : Pool) (weight : Op → Nat) : Nat := (pool.tasks.map (taskSum weight)).sum

def Pool.busy (pool : Pool) : Nat := pool.sum Op.busy

def Pool.startingWorkers (pool : Pool) : Nat := pool.sum Op.starts

def Pool.waitingRequests (pool : Pool) : Nat := pool.sum Op.waits

/-- Every closing has stopped the idle workers. -/
def Pool.stopped (pool : Pool) : Prop := pool.closed = true ∧ pool.sum Op.clears = 0

/-- The accounting of the pool. -/
structure Pool.Accounted (pool : Pool) (config : PoolConfig) : Prop where
  live : pool.live = pool.idle.length + pool.busy + pool.startingWorkers
  bounded : pool.live ≤ config.concurrency
  waiting : pool.waiting = pool.waitingRequests
  idle : pool.stopped → pool.idle = []

/-! ## The steps that lose a count -/

/-- No worker in use is dropped, and no idle worker is stopped by a closing. -/
def keepsWorkers (pool : Pool) : Event → Prop
  | .drop op => op.busy = 0
  | .run .clearIdle _ => pool.idle = []
  | _ => True

/-- No waiting request is dropped. -/
def keepsWaiting (_pool : Pool) : Event → Prop
  | .drop op => op.waits = 0
  | _ => True

/-- No worker is parked once a closing has stopped the idle ones. -/
def parksOpen (pool : Pool) : Event → Prop
  | .run (.park _ _) _ => ¬ pool.stopped
  | _ => True

/-- No request is dropped where it awaits, the pool is closed only while no worker is idle, and
no worker is parked after that. -/
def careful (pool : Pool) (event : Event) : Prop :=
  keepsWorkers pool event ∧ keepsWaiting pool event ∧ parksOpen pool event

/-! ## Sums over tasks -/

section Sums

variable {pool : Pool} {weight : Op → Nat}

theorem taskSum_cons (op : Op) (rest : Task) :
    taskSum weight (op :: rest) = weight op + taskSum weight rest := by
  rw [taskSum, List.map_cons, List.sum_cons, taskSum]

theorem taskSum_append (first rest : Task) :
    taskSum weight (first ++ rest) = taskSum weight first + taskSum weight rest := by
  rw [taskSum, List.map_append, List.sum_append, taskSum, taskSum]

/-- A step trades the weight of its access for that of what follows. -/
theorem sum_run (weight : Op → Nat) (next : Task) (spawned : List Task)
    {before after : List Task} {op : Op} {rest : Task}
    (here : pool.tasks = before ++ (op :: rest) :: after) :
    ((before ++ (next ++ rest) :: after ++ spawned).map (taskSum weight)).sum + weight op
      = pool.sum weight + taskSum weight next + (spawned.map (taskSum weight)).sum := by
  rw [Pool.sum, here]
  simp only [List.map_append, List.map_cons, List.sum_append, List.sum_cons, taskSum_append, taskSum_cons]
  omega

/-- A dropped request takes the weight of the rest of it along. -/
theorem sum_drop (weight : Op → Nat) {before after : List Task} {op : Op} {rest : Task}
    (here : pool.tasks = before ++ (op :: rest) :: after) :
    ((before ++ after).map (taskSum weight)).sum + weight op + taskSum weight rest = pool.sum weight := by
  rw [Pool.sum, here]
  simp only [List.map_append, List.map_cons, List.sum_append, List.sum_cons, taskSum_cons]
  omega

theorem taskSum_replicate (n : Nat) (op : Op) : taskSum weight (List.replicate n op) = n * weight op := by
  rw [taskSum, List.map_replicate, List.sum_replicate_nat]

theorem length_swapRemove {α : Type} {xs : List α} {position : Nat} {x : α} (h : xs[position]? = some x) :
    (swapRemove position xs).length + 1 = xs.length := by
  rw [(swapRemove_perm h).length_eq, List.length_cons]

end Sums

/-! ## One access -/

/-- What a task does on the side, before the access it ends with. -/
def Op.helper : Op → Bool
  | .leaveWaiting => true
  | .countUnassigned => true
  | .loadReady _ => true
  | .addWorker => true
  | .countStarting => true
  | .release _ => true
  | _ => false

/-- Only the last access of a task can await. -/
def Shaped (task : Task) : Prop := ∀ op ∈ task.dropLast, op.helper = true

def Op.slot (op : Op) : Nat := op.busy + op.starts

section Access

variable (config : PoolConfig) (pool : Pool) (op : Op) (input : Input)

attribute [local simp] Op.run

/-- The live count follows the workers that are idle, held or being started. -/
theorem run_slots (counted : op.slot ≤ pool.live) (stops : op = .clearIdle → pool.idle = []) :
    (op.run config pool input).1.live + pool.idle.length + op.slot
      = pool.live + (op.run config pool input).1.idle.length
        + taskSum Op.slot (op.run config pool input).2.1
        + ((op.run config pool input).2.2.map (taskSum Op.slot)).sum := by
  cases op with
  | enterWaiting isolation => simp [Op.run, taskSum, Op.slot, Op.busy, Op.starts]
  | checkClosed isolation waiting =>
      simp only [Op.run]
      split <;> simp [taskSum, Op.slot, Op.busy, Op.starts]
  | take isolation waiting =>
      simp only [Op.run]
      split
      · rename_i position worker found
        rcases Option.bind_eq_some_iff.mp found with ⟨position', _, here⟩
        rcases Option.map_eq_some_iff.mp here with ⟨worker', inside, same⟩
        cases same
        have shorter := length_swapRemove inside
        simp only [taskSum, Op.slot, Op.busy, Op.starts, List.map_cons, List.map_nil, List.sum_cons,
          List.sum_nil]
        omega
      · split <;> simp [taskSum, Op.slot, Op.busy, Op.starts]
  | loadStarting isolation waiting =>
      simp only [Op.run]
      split <;> simp [taskSum, Op.slot, Op.busy, Op.starts]
  | loadLive isolation waiting =>
      simp only [Op.run]
      split <;> simp [taskSum, Op.slot, Op.busy, Op.starts]
  | evict isolation waiting =>
      simp only [Op.run]
      split
      · simp [taskSum, Op.slot, Op.busy, Op.starts]
      · rename_i worker rest held
        simp only [held, taskSum, Op.slot, Op.busy, Op.starts, List.map_cons, List.map_nil, List.sum_cons,
          List.sum_nil, List.length_cons]
        omega
  | sleep isolation waiting =>
      simp only [Op.run]
      split <;> simp [taskSum, Op.slot, Op.busy, Op.starts]
  | leaveWaiting => simp [Op.run, taskSum, Op.slot, Op.busy, Op.starts]
  | countUnassigned => simp [Op.run, taskSum, Op.slot, Op.busy, Op.starts]
  | loadReady unassigned =>
      simp only [Op.run, taskSum_replicate]
      simp [Op.slot, Op.busy, Op.starts]
  | addWorker =>
      simp only [Op.run]
      split
      · simp only [taskSum, Op.slot, Op.busy, Op.starts, List.map_cons, List.map_nil, List.sum_cons,
          List.sum_nil]
        omega
      · simp [taskSum, Op.slot, Op.busy, Op.starts]
  | countStarting => simp [Op.run, taskSum, Op.slot, Op.busy, Op.starts]
  | startWorker =>
      cases input with
      | started process =>
          simp only [Op.run]
          split <;> simp [taskSum, Op.slot, Op.busy, Op.starts]
      | failed => simp [Op.run, taskSum, Op.slot, Op.busy, Op.starts]
      | proceed => simp [Op.run, taskSum, Op.slot, Op.busy, Op.starts]
      | deadline => simp [Op.run, taskSum, Op.slot, Op.busy, Op.starts]
      | served reusable => simp [Op.run, taskSum, Op.slot, Op.busy, Op.starts]
  | endStarting process =>
      cases process with
      | some process => simp [Op.run, taskSum, Op.slot, Op.busy, Op.starts]
      | none => simp [Op.run, taskSum, Op.slot, Op.busy, Op.starts]
  | hand isolation worker => simp [Op.run, taskSum, Op.slot, Op.busy, Op.starts]
  | serve isolation worker =>
      have one : ∀ reusable, taskSum Op.slot (afterExchange config isolation worker reusable) = 1 := by
        intro reusable
        simp only [afterExchange]
        split <;> simp [taskSum, Op.slot, Op.busy, Op.starts]
      cases input with
      | served reusable => simp [Op.run, one, Op.slot, Op.busy, Op.starts]
      | deadline => simp [Op.run, one, Op.slot, Op.busy, Op.starts]
      | proceed => simp [Op.run, taskSum, Op.slot, Op.busy, Op.starts]
      | started process => simp [Op.run, taskSum, Op.slot, Op.busy, Op.starts]
      | failed => simp [Op.run, taskSum, Op.slot, Op.busy, Op.starts]
  | park fresh worker =>
      cases fresh <;> simp [Op.run, taskSum, Op.slot, Op.busy, Op.starts] <;> omega
  | release fresh =>
      have one : 1 ≤ pool.live := by
        cases fresh <;> exact counted
      cases fresh <;> simp only [Op.run, taskSum, Op.slot, Op.busy, Op.starts, List.map_nil, List.sum_nil] <;>
        omega
  | close => simp [Op.run, taskSum, Op.slot, Op.busy, Op.starts]
  | clearIdle =>
      rw [Op.run, stops rfl]
      simp [taskSum, Op.slot, Op.busy, Op.starts]

/-- The waiting count follows the requests between its two updates. -/
theorem run_waits (counted : op.waits ≤ pool.waiting) :
    (op.run config pool input).1.waiting + op.waits
      = pool.waiting + taskSum Op.waits (op.run config pool input).2.1
        + ((op.run config pool input).2.2.map (taskSum Op.waits)).sum := by
  cases op with
  | enterWaiting isolation => simp [Op.run, taskSum, Op.waits]
  | checkClosed isolation waiting =>
      simp only [Op.run]
      split <;> simp [taskSum, Op.waits]
  | take isolation waiting =>
      simp only [Op.run]
      split
      · simp [taskSum, Op.waits]
      · split <;> simp [taskSum, Op.waits]
  | loadStarting isolation waiting =>
      simp only [Op.run]
      split <;> simp [taskSum, Op.waits]
  | loadLive isolation waiting =>
      simp only [Op.run]
      split <;> simp [taskSum, Op.waits]
  | evict isolation waiting =>
      simp only [Op.run]
      split <;> simp [taskSum, Op.waits]
  | sleep isolation waiting =>
      simp only [Op.run]
      split <;> simp [taskSum, Op.waits]
  | leaveWaiting =>
      have one : 1 ≤ pool.waiting := counted
      simp only [Op.run, taskSum, Op.waits, List.map_nil, List.sum_nil]
      omega
  | countUnassigned => simp [Op.run, taskSum, Op.waits]
  | loadReady unassigned =>
      simp only [Op.run, taskSum_replicate]
      simp [Op.waits]
  | addWorker =>
      simp only [Op.run]
      split <;> simp [taskSum, Op.waits]
  | countStarting => simp [Op.run, taskSum, Op.waits]
  | startWorker =>
      cases input with
      | started process =>
          simp only [Op.run]
          split <;> simp [taskSum, Op.waits]
      | failed => simp [Op.run, taskSum, Op.waits]
      | proceed => simp [Op.run, taskSum, Op.waits]
      | deadline => simp [Op.run, taskSum, Op.waits]
      | served reusable => simp [Op.run, taskSum, Op.waits]
  | endStarting process =>
      cases process <;> simp [Op.run, taskSum, Op.waits]
  | hand isolation worker => simp [Op.run, taskSum, Op.waits]
  | serve isolation worker =>
      have none_waits : ∀ reusable, taskSum Op.waits (afterExchange config isolation worker reusable) = 0 := by
        intro reusable
        simp only [afterExchange]
        split <;> simp [taskSum, Op.waits]
      cases input with
      | served reusable => simp [Op.run, none_waits, Op.waits]
      | deadline => simp [Op.run, none_waits, Op.waits]
      | proceed => simp [Op.run, taskSum, Op.waits]
      | started process => simp [Op.run, taskSum, Op.waits]
      | failed => simp [Op.run, taskSum, Op.waits]
  | park fresh worker => simp [Op.run, taskSum, Op.waits]
  | release fresh => simp [Op.run, taskSum, Op.waits]
  | close => simp [Op.run, taskSum, Op.waits]
  | clearIdle => simp [Op.run, taskSum, Op.waits]

/-- What a task does next is shaped, and an access on the side leads to such accesses only. -/
theorem run_shaped :
    Shaped (op.run config pool input).2.1
      ∧ (op.helper = true → ∀ step ∈ (op.run config pool input).2.1, step.helper = true)
      ∧ ∀ task ∈ (op.run config pool input).2.2, Shaped task := by
  cases op with
  | enterWaiting isolation => simp [Op.run, Shaped, Op.helper]
  | checkClosed isolation waiting =>
      simp only [Op.run]
      split <;> simp [Shaped, Op.helper]
  | take isolation waiting =>
      simp only [Op.run]
      split
      · simp [Shaped, Op.helper]
      · split <;> simp [Shaped, Op.helper]
  | loadStarting isolation waiting =>
      simp only [Op.run]
      split <;> simp [Shaped, Op.helper]
  | loadLive isolation waiting =>
      simp only [Op.run]
      split <;> simp [Shaped, Op.helper]
  | evict isolation waiting =>
      simp only [Op.run]
      split <;> simp [Shaped, Op.helper]
  | sleep isolation waiting =>
      simp only [Op.run]
      split <;> simp [Shaped, Op.helper]
  | leaveWaiting => simp [Op.run, Shaped]
  | countUnassigned => simp [Op.run, Shaped, Op.helper]
  | loadReady unassigned =>
      have added : ∀ n, ∀ step ∈ List.replicate n Op.addWorker, step.helper = true := by
        intro n step held
        rw [List.eq_of_mem_replicate held]
        rfl
      exact ⟨fun step held => added _ step (List.dropLast_subset _ held), fun _ => added _, by simp [Op.run]⟩
  | addWorker =>
      simp only [Op.run]
      split <;> simp [Shaped, Op.helper]
  | countStarting => simp [Op.run, Shaped]
  | startWorker =>
      cases input with
      | started process =>
          simp only [Op.run]
          split <;> simp [Shaped, Op.helper]
      | failed => simp [Op.run, Shaped, Op.helper]
      | proceed => simp [Op.run, Shaped, Op.helper]
      | deadline => simp [Op.run, Shaped, Op.helper]
      | served reusable => simp [Op.run, Shaped, Op.helper]
  | endStarting process =>
      cases process <;> simp [Op.run, Shaped, Op.helper]
  | hand isolation worker => simp [Op.run, Shaped, Op.helper]
  | serve isolation worker =>
      have ends : ∀ reusable, Shaped (afterExchange config isolation worker reusable) := by
        intro reusable
        simp only [afterExchange]
        split <;> simp [Shaped, Op.helper]
      cases input with
      | served reusable => exact ⟨ends reusable, by simp [Op.helper], by simp [Op.run]⟩
      | deadline => exact ⟨ends false, by simp [Op.helper], by simp [Op.run]⟩
      | proceed => simp [Op.run, Shaped, Op.helper]
      | started process => simp [Op.run, Shaped, Op.helper]
      | failed => simp [Op.run, Shaped, Op.helper]
  | park fresh worker => simp [Op.run, Shaped]
  | release fresh => simp [Op.run, Shaped]
  | close => simp [Op.run, Shaped, Op.helper]
  | clearIdle => simp [Op.run, Shaped]

/-- Only a start of a worker grows the live count, and only below the concurrency. -/
theorem run_live_le (bounded : pool.live ≤ config.concurrency) :
    (op.run config pool input).1.live ≤ config.concurrency := by
  cases op with
  | addWorker =>
      simp only [Op.run]
      split
      · rename_i room
        exact room.2
      · exact bounded
  | release fresh => exact le_trans (Nat.sub_le _ _) bounded
  | take isolation waiting =>
      simp only [Op.run]
      split <;> exact bounded
  | evict isolation waiting =>
      simp only [Op.run]
      split <;> exact bounded
  | startWorker =>
      cases input with
      | started process =>
          simp only [Op.run]
          split <;> exact bounded
      | _ => exact bounded
  | endStarting process => cases process <;> exact bounded
  | serve isolation worker => cases input <;> exact bounded
  | _ => exact bounded

/-- Only a closing closes the pool. -/
theorem run_closed (closes : op ≠ .close) : (op.run config pool input).1.closed = pool.closed := by
  cases op with
  | close => exact absurd rfl closes
  | take isolation waiting =>
      simp only [Op.run]
      split <;> rfl
  | evict isolation waiting =>
      simp only [Op.run]
      split <;> rfl
  | addWorker =>
      simp only [Op.run]
      split <;> rfl
  | startWorker =>
      cases input with
      | started process =>
          simp only [Op.run]
          split <;> rfl
      | _ => rfl
  | endStarting process => cases process <;> rfl
  | serve isolation worker => cases input <;> rfl
  | _ => rfl

/-- Only parking a worker makes an idle one. -/
theorem run_idle (parks : ∀ fresh worker, op ≠ .park fresh worker) (empty : pool.idle = []) :
    (op.run config pool input).1.idle = [] := by
  cases op with
  | park fresh worker => exact absurd rfl (parks fresh worker)
  | take isolation waiting =>
      have missing : ((suitable isolation pool.idle).bind fun position =>
          (pool.idle[position]?).map fun worker => (position, worker)) = none := by
        rw [empty]
        cases suitable isolation [] <;> rfl
      simp only [Op.run, missing]
      exact empty
  | evict isolation waiting => simp [Op.run, empty]
  | addWorker =>
      simp only [Op.run]
      split <;> exact empty
  | startWorker =>
      cases input with
      | started process =>
          simp only [Op.run]
          split <;> exact empty
      | _ => exact empty
  | endStarting process => cases process <;> exact empty
  | serve isolation worker => cases input <;> exact empty
  | clearIdle => rfl
  | _ => exact empty

end Access

/-! ## Every run -/

/-- What no step can break: the counts cover what they count, and the live count is bounded. -/
structure Pool.Covered (pool : Pool) (config : PoolConfig) : Prop where
  shaped : ∀ task ∈ pool.tasks, Shaped task
  slots : pool.idle.length + pool.sum Op.slot ≤ pool.live
  waits : pool.sum Op.waits ≤ pool.waiting
  bounded : pool.live ≤ config.concurrency

section Steps

variable {config : PoolConfig} {pool next : Pool} {event : Event}

/-- What follows an access that can await is nothing. -/
theorem rest_of_awaits {before after : List Task} {op : Op} {rest : Task}
    (shaped : ∀ task ∈ pool.tasks, Shaped task)
    (here : pool.tasks = before ++ (op :: rest) :: after) (awaits : op.awaits = true) : rest = [] := by
  cases rest with
  | nil => rfl
  | cons op' rest =>
      have member : (op :: op' :: rest) ∈ pool.tasks := by
        rw [here]
        exact List.mem_append_right _ List.mem_cons_self
      have helper : op.helper = true := shaped _ member op List.mem_cons_self
      cases op <;> cases awaits <;> cases helper

/-- The weight of an access is part of the sum. -/
theorem weight_le_sum (weight : Op → Nat) {before after : List Task} {op : Op} {rest : Task}
    (here : pool.tasks = before ++ (op :: rest) :: after) : weight op ≤ pool.sum weight := by
  rw [Pool.sum, here]
  simp only [List.map_append, List.map_cons, List.sum_append, List.sum_cons, taskSum_cons]
  omega

theorem shaped_append {first rest : Task} (shaped : Shaped first)
    (helper : rest ≠ [] → ∀ op ∈ first, op.helper = true) (after : Shaped rest) :
    Shaped (first ++ rest) := by
  cases rest with
  | nil => rwa [List.append_nil]
  | cons op rest =>
      intro op' held
      rw [List.dropLast_append_of_ne_nil (List.cons_ne_nil _ _)] at held
      rcases List.mem_append.mp held with held | held
      · exact helper (List.cons_ne_nil _ _) op' held
      · exact after op' held

/-- Tasks stay shaped. -/
theorem shaped_step (shaped : ∀ task ∈ pool.tasks, Shaped task)
    (step : PoolStep config pool event next) : ∀ task ∈ next.tasks, Shaped task := by
  cases step with
  | arrive isolation =>
      intro task held
      rcases List.mem_append.mp held with held | held
      · exact shaped task held
      · rw [List.mem_singleton.mp held]
        simp [Shaped]
  | closing =>
      intro task held
      rcases List.mem_append.mp held with held | held
      · exact shaped task held
      · rw [List.mem_singleton.mp held]
        simp [Shaped]
  | run before after op rest input here =>
      have tasks : ∀ task ∈ before ++ (op :: rest) :: after, Shaped task := by
        rw [← here]
        exact shaped
      have whole : Shaped (op :: rest) := tasks _ (List.mem_append_right _ List.mem_cons_self)
      have later : Shaped rest := fun step held => whole step <| by
        cases rest with
        | nil => cases held
        | cons _ _ => exact List.mem_cons_of_mem _ held
      have helper : rest ≠ [] → op.helper = true := fun more => whole op <| by
        cases rest with
        | nil => exact absurd rfl more
        | cons _ _ => exact List.mem_cons_self
      rcases run_shaped config pool op input with ⟨ends, helpers, spawns⟩
      intro task held
      rcases List.mem_append.mp held with held | held
      · rcases List.mem_append.mp held with held | held
        · exact tasks task (List.mem_append_left _ held)
        · rcases List.mem_cons.mp held with rfl | held
          · exact shaped_append ends (fun more => helpers (helper more)) later
          · exact tasks task (List.mem_append_right _ (List.mem_cons_of_mem _ held))
      · exact spawns task held
  | drop before after op rest here awaits =>
      intro task held
      refine shaped task ?_
      rw [here]
      rcases List.mem_append.mp held with held | held
      · exact List.mem_append_left _ held
      · exact List.mem_append_right _ (List.mem_cons_of_mem _ held)

/-- A step in which no worker is lost keeps the live count and the workers in balance. -/
theorem step_slots (covered : pool.Covered config) (kept : keepsWorkers pool event)
    (step : PoolStep config pool event next) :
    next.live + pool.idle.length + pool.sum Op.slot = pool.live + next.idle.length + next.sum Op.slot := by
  cases step with
  | arrive isolation => simp [Pool.sum, taskSum, Op.slot, Op.busy, Op.starts]
  | closing => simp [Pool.sum, taskSum, Op.slot, Op.busy, Op.starts]
  | run before after op rest input here =>
      have counted : op.slot ≤ pool.live :=
        le_trans (weight_le_sum Op.slot here) (le_trans (Nat.le_add_left _ _) covered.slots)
      have stops : op = .clearIdle → pool.idle = [] := by
        rintro rfl
        exact kept
      have balance := run_slots config pool op input counted stops
      have moved := sum_run Op.slot (op.run config pool input).2.1 (op.run config pool input).2.2 here
      simp only [Pool.sum] at moved ⊢
      omega
  | drop before after op rest here awaits =>
      have none_left := rest_of_awaits covered.shaped here awaits
      subst none_left
      have moved := sum_drop Op.slot here
      have free : op.slot = 0 := by
        have idle : op.busy = 0 := kept
        cases op with
        | sleep isolation waiting => rfl
        | serve isolation worker => cases idle
        | _ => cases awaits
      simp only [free, taskSum, List.map_nil, List.sum_nil] at moved
      simp only [Pool.sum] at moved ⊢
      omega

/-- A step in which no waiting request is dropped keeps the waiting count in balance. -/
theorem step_waits (covered : pool.Covered config) (kept : keepsWaiting pool event)
    (step : PoolStep config pool event next) :
    next.waiting + pool.sum Op.waits = pool.waiting + next.sum Op.waits := by
  cases step with
  | arrive isolation => simp [Pool.sum, taskSum, Op.waits]
  | closing => simp [Pool.sum, taskSum, Op.waits]
  | run before after op rest input here =>
      have counted : op.waits ≤ pool.waiting := le_trans (weight_le_sum Op.waits here) covered.waits
      have balance := run_waits config pool op input counted
      have moved := sum_run Op.waits (op.run config pool input).2.1 (op.run config pool input).2.2 here
      simp only [Pool.sum] at moved ⊢
      omega
  | drop before after op rest here awaits =>
      have none_left := rest_of_awaits covered.shaped here awaits
      subst none_left
      have moved := sum_drop Op.waits here
      have free : op.waits = 0 := kept
      simp only [free, taskSum, List.map_nil, List.sum_nil] at moved
      simp only [Pool.sum] at moved ⊢
      omega

/-- A step that parks no worker after a closing leaves a stopped pool without idle workers. -/
theorem step_stopped (covered : pool.Covered config) (kept : parksOpen pool event)
    (idle : pool.stopped → pool.idle = []) (step : PoolStep config pool event next) :
    next.stopped → next.idle = [] := by
  cases step with
  | arrive isolation =>
      rintro ⟨closed, clears⟩
      refine idle ⟨closed, ?_⟩
      simpa [Pool.sum, taskSum, Op.clears] using clears
  | closing =>
      rintro ⟨closed, clears⟩
      refine idle ⟨closed, ?_⟩
      simpa [Pool.sum, taskSum, Op.clears] using clears
  | run before after op rest input here =>
      rintro ⟨closed, clears⟩
      have moved := sum_run Op.clears (op.run config pool input).2.1 (op.run config pool input).2.2 here
      have cleared : ((before ++ ((op.run config pool input).2.1 ++ rest) :: after
          ++ (op.run config pool input).2.2).map (taskSum Op.clears)).sum = 0 := clears
      have was_closed : op ≠ .close → pool.closed = true := fun closes =>
        (run_closed config pool op input closes).symm.trans closed
      have stays_empty := run_idle config pool op input
      cases op with
      | clearIdle => rfl
      | close =>
          have pending : taskSum Op.clears (Op.run config pool .close input).2.1 = 1 := rfl
          rw [cleared, pending] at moved
          simp only [Op.clears] at moved
          omega
      | park fresh worker =>
          have unchanged : pool.sum Op.clears = 0 := by
            rw [cleared] at moved
            simp only [Op.clears] at moved
            omega
          exact absurd ⟨closed, unchanged⟩ kept
      | _ =>
          have unchanged : pool.sum Op.clears = 0 := by
            rw [cleared] at moved
            simp only [Op.clears] at moved
            omega
          exact stays_empty (by simp) (idle ⟨was_closed (by simp), unchanged⟩)
  | drop before after op rest here awaits =>
      have none_left := rest_of_awaits covered.shaped here awaits
      subst none_left
      rintro ⟨closed, clears⟩
      refine idle ⟨closed, ?_⟩
      have moved := sum_drop Op.clears here
      have free : op.clears = 0 := by
        cases op <;> cases awaits <;> rfl
      have cleared : ((before ++ after).map (taskSum Op.clears)).sum = 0 := clears
      rw [← moved, cleared, free]
      rfl

/-- No step breaks the cover, not even one that loses a count. -/
theorem covered_step (covered : pool.Covered config) (step : PoolStep config pool event next) :
    next.Covered config where
  shaped := shaped_step covered.shaped step
  slots := by
    have held := covered.slots
    by_cases kept : keepsWorkers pool event
    · have balance := step_slots covered kept step
      omega
    · cases step with
      | arrive isolation => exact absurd trivial kept
      | closing => exact absurd trivial kept
      | run before after op rest input here =>
          cases op with
          | clearIdle =>
              have moved := sum_run Op.slot [] [] here
              have free : Op.clearIdle.slot = 0 := rfl
              simp only [free, taskSum, List.map_nil, List.sum_nil] at moved
              simp only [Op.run, Pool.sum, List.length_nil] at held moved ⊢
              omega
          | _ => exact absurd trivial kept
      | drop before after op rest here awaits =>
          have moved := sum_drop Op.slot here
          simp only [Pool.sum] at held moved ⊢
          omega
  waits := by
    have held := covered.waits
    by_cases kept : keepsWaiting pool event
    · have balance := step_waits covered kept step
      omega
    · cases step with
      | arrive isolation => exact absurd trivial kept
      | closing => exact absurd trivial kept
      | run before after op rest input here => exact absurd trivial kept
      | drop before after op rest here awaits =>
          have moved := sum_drop Op.waits here
          simp only [Pool.sum] at held moved ⊢
          omega
  bounded := by
    cases step with
    | arrive isolation => exact covered.bounded
    | closing => exact covered.bounded
    | run before after op rest input here => exact run_live_le config pool op input covered.bounded
    | drop before after op rest here awaits => exact covered.bounded

end Steps

/-! ## The counts in every run -/

section Runs

variable {config : PoolConfig} {allowed : Pool → Event → Prop} {pool : Pool}

theorem initial_covered (start : pool.Initial config) : pool.Covered config where
  shaped := by simp [start.tasks]
  slots := by simp [Pool.sum, start.tasks, start.live]
  waits := by simp [Pool.sum, start.tasks]
  bounded := by
    rw [start.live, start.warm]
    exact Nat.min_le_right _ _

/-- In every run the counts cover what they count, so that none of them ever falls below zero. -/
theorem counts_covered (reachable : (poolRuns config allowed).Reachable pool) : pool.Covered config := by
  have invariant : (poolRuns config allowed).Invariant fun pool => pool.Covered config := by
    refine ⟨fun start first => initial_covered first, ?_⟩
    rintro state next _ covered ⟨event, _, step⟩
    exact covered_step covered step
  exact invariant.holds reachable

/-- The live count never exceeds the concurrency. -/
theorem live_bounded (reachable : (guestPool config).Reachable pool) : pool.live ≤ config.concurrency :=
  (counts_covered reachable).bounded

/-- The live count is exact in every run that loses no worker. -/
theorem live_counted (kept : ∀ pool event, allowed pool event → keepsWorkers pool event)
    (reachable : (poolRuns config allowed).Reachable pool) :
    pool.live = pool.idle.length + pool.sum Op.slot := by
  have invariant : (poolRuns config allowed).Invariant
      fun pool => pool.live = pool.idle.length + pool.sum Op.slot := by
    constructor
    · intro start first
      simp [Pool.sum, first.tasks, first.live]
    · rintro state next before exact_now ⟨event, permitted, step⟩
      have balance := step_slots (counts_covered before) (kept _ _ permitted) step
      omega
  exact invariant.holds reachable

/-- The waiting count is exact in every run that drops no waiting request. -/
theorem waiting_counted (kept : ∀ pool event, allowed pool event → keepsWaiting pool event)
    (reachable : (poolRuns config allowed).Reachable pool) : pool.waiting = pool.waitingRequests := by
  have invariant : (poolRuns config allowed).Invariant fun pool => pool.waiting = pool.sum Op.waits := by
    constructor
    · intro start first
      simp [Pool.sum, first.tasks, first.waiting]
    · rintro state next before exact_now ⟨event, permitted, step⟩
      have balance := step_waits (counts_covered before) (kept _ _ permitted) step
      omega
  exact invariant.holds reachable

/-- No worker is idle after a closing in every run that parks none then. -/
theorem stopped_idle (kept : ∀ pool event, allowed pool event → parksOpen pool event)
    (reachable : (poolRuns config allowed).Reachable pool) : pool.stopped → pool.idle = [] := by
  have invariant : (poolRuns config allowed).Invariant fun pool => pool.stopped → pool.idle = [] := by
    constructor
    · rintro start first ⟨closed, _⟩
      rw [first.opened] at closed
      cases closed
    · rintro state next before idle ⟨event, permitted, step⟩
      exact step_stopped (counts_covered before) (kept _ _ permitted) idle step
  exact invariant.holds reachable

theorem sum_slot : pool.sum Op.slot = pool.busy + pool.startingWorkers := by
  have split : ∀ task : Task, taskSum Op.slot task = taskSum Op.busy task + taskSum Op.starts task := by
    intro task
    induction task with
    | nil => rfl
    | cons op rest ih =>
        rw [taskSum_cons, taskSum_cons, taskSum_cons, ih, Op.slot]
        omega
  unfold Pool.busy Pool.startingWorkers Pool.sum
  induction pool.tasks with
  | nil => rfl
  | cons task rest ih =>
      simp only [List.map_cons, List.sum_cons, split, ih]
      omega

/-- The accounting holds in every run whose steps lose no count. -/
theorem pool_accounted (config : PoolConfig) (pool : Pool)
    (reachable : (poolRuns config careful).Reachable pool) : pool.Accounted config where
  live := by
    rw [live_counted (fun _ _ kept => kept.1) reachable, sum_slot, Nat.add_assoc]
  bounded := (counts_covered reachable).bounded
  waiting := waiting_counted (fun _ _ kept => kept.2.1) reachable
  idle := stopped_idle (fun _ _ kept => kept.2.2) reachable

end Runs

/-! ## One worker -/

/-- A pool of one worker, which serves two requests of a key. -/
def oneWorker : PoolConfig where
  concurrency := 1
  retireAfter := 2
  broker := true
  retires := Nat.two_pos
  fits := Nat.le_of_ble_eq_true rfl

def oneIdle : Pool where
  idle := [⟨7, 0, none⟩]
  closed := false
  live := 1
  starting := 0
  waiting := 0
  started := 1
  tasks := []
  processes := [7]
  log := []

theorem oneIdle_initial : oneIdle.Initial oneWorker where
  warm := rfl
  unused := by simp [oneIdle]
  distinct := List.nodup_singleton 7
  processes := rfl
  opened := rfl
  live := rfl
  starting := rfl
  waiting := rfl
  tasks := rfl
  log := rfl

/-- While a request waits, the pool counts it. -/
theorem pool_accounted_sample :
    (poolRuns oneWorker careful).Reachable
        { oneIdle with waiting := 1, tasks := [[.checkClosed (.shared "a") 1]] }
      ∧ ({ oneIdle with waiting := 1, tasks := [[.checkClosed (.shared "a") 1]] } : Pool).Accounted
          oneWorker := by
  have start : (poolRuns oneWorker careful).Reachable oneIdle := System.Reachable.start oneIdle_initial
  have arrived := start.next ⟨.arrive (.shared "a"), ⟨trivial, trivial, trivial⟩, .arrive _⟩
  have waits := arrived.next
    ⟨.run (.enterWaiting (.shared "a")) .proceed, ⟨trivial, trivial, trivial⟩, .run [] [] _ [] _ rfl⟩
  exact ⟨waits, pool_accounted oneWorker _ waits⟩

/-- The first task goes one access further. -/
def Pool.advance (config : PoolConfig) (pool : Pool) : Pool :=
  match pool.tasks with
  | (op :: rest) :: after =>
      { (op.run config pool .proceed).1 with
        tasks := ((op.run config pool .proceed).2.1 ++ rest) :: after ++ (op.run config pool .proceed).2.2 }
  | _ => pool

theorem advance_reachable {config : PoolConfig} (steps : Nat) {pool : Pool}
    (reachable : (guestPool config).Reachable pool) :
    (guestPool config).Reachable ((Pool.advance config)^[steps] pool) := by
  induction steps generalizing pool with
  | zero => exact reachable
  | succ steps ih =>
      refine ih ?_
      unfold Pool.advance
      split
      · rename_i op rest after here
        exact reachable.next ⟨_, trivial, .run [] after op rest .proceed here⟩
      · exact reachable

/-- A request that is dropped while its worker serves it leaves the worker on the live count: the
worker is gone, and its slot is never free again. -/
theorem dropped_request_leaks :
    ¬ ∀ (config : PoolConfig) (pool : Pool),
      (guestPool config).Reachable pool → pool.Accounted config := by
  intro claim
  have start : (guestPool oneWorker).Reachable oneIdle := System.Reachable.start oneIdle_initial
  have arrived := start.next ⟨_, trivial, .arrive (.shared "a")⟩
  have serving := advance_reachable 11 arrived
  have dropped := serving.next
    ⟨_, trivial, .drop [] [] (.serve (.shared "a") ⟨7, 0, none⟩) [] (by decide) rfl⟩
  have counted := (claim oneWorker _ dropped).live
  revert counted
  decide

end Noxide.Guest
