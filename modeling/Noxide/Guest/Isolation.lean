import Noxide.Guest.Accounting

/-!
# Pool isolation

Whom a worker process has served in its whole life.  A worker that can still be handed out has
served requests of its own key only, or nobody; a worker held by a request has been handed to it
as its latest one.

Main results:

- Theorem {lit}`sound_step`: every step, also a dropped request, keeps the record of each worker in
  line with what it has served.
- Theorem {lit}`guest_isolated`: in every run a worker process serves one isolation key, or one
  single request, and at most as many requests as it may before it is retired.
-/

namespace Noxide.Guest

/-! ## What a process has served -/

/-- The requests that a process was handed, latest first. -/
def servedBy (log : List (Nat × Isolation)) (process : Nat) : List Isolation :=
  (log.filter fun entry => entry.1 = process).map Prod.snd

/-- The isolation of the pool's workers. -/
structure Pool.Isolated (pool : Pool) (config : PoolConfig) : Prop where
  oneKey : ∀ process, (∃ key, ∀ isolation ∈ servedBy pool.log process, isolation = .shared key)
    ∨ servedBy pool.log process = [.single]
  single : ∀ worker ∈ pool.idle, .single ∉ servedBy pool.log worker.process
  unassigned : ∀ worker ∈ pool.idle, worker.isolation = none → servedBy pool.log worker.process = []
  retired : ∀ process, (servedBy pool.log process).length ≤ config.retireAfter

/-- What a worker that can be handed out has served. -/
structure Worker.Clean (worker : Worker) (config : PoolConfig) (served : List Isolation) : Prop where
  none_yet : worker.isolation = none → served = []
  keyed : ∀ key, worker.isolation = some key → ∀ isolation ∈ served, isolation = .shared key
  count : worker.served = served.length
  spare : worker.served < config.retireAfter

/-- A worker that may serve the request. -/
def Worker.fits (worker : Worker) : Isolation → Prop
  | .shared key => worker.isolation = none ∨ worker.isolation = some key
  | .single => worker.isolation = none

/-- What an access knows of the worker that it holds. -/
def Op.Sound (config : PoolConfig) (log : List (Nat × Isolation)) : Op → Prop
  | .endStarting (some process) => servedBy log process = []
  | .hand isolation worker => worker.Clean config (servedBy log worker.process) ∧ worker.fits isolation
  | .serve isolation worker =>
      ∃ earlier, servedBy log worker.process = isolation :: earlier
        ∧ worker.Clean config earlier ∧ worker.fits isolation
  | .park _ worker => worker.Clean config (servedBy log worker.process)
  | _ => True

/-- How many workers of this process an access holds. -/
def Op.holds (process : Nat) : Op → Nat
  | .endStarting (some started) => if started = process then 1 else 0
  | .hand _ worker => if worker.process = process then 1 else 0
  | .serve _ worker => if worker.process = process then 1 else 0
  | .park _ worker => if worker.process = process then 1 else 0
  | _ => 0

/-- How many idle workers run this process. -/
def idleOf (process : Nat) (idle : List Worker) : Nat :=
  idle.countP fun worker => worker.process = process

/-- One for a process that was started. -/
def startedOnce (process : Nat) (processes : List Nat) : Nat :=
  if process ∈ processes then 1 else 0

structure Pool.Sound (pool : Pool) (config : PoolConfig) : Prop where
  /-- A process belongs to one worker at most, and to none before it is started. -/
  distinct : ∀ process, idleOf process pool.idle + pool.sum (Op.holds process)
    ≤ startedOnce process pool.processes
  logged : ∀ entry ∈ pool.log, entry.1 ∈ pool.processes
  idle : ∀ worker ∈ pool.idle, worker.Clean config (servedBy pool.log worker.process)
  tasks : ∀ task ∈ pool.tasks, ∀ op ∈ task, op.Sound config pool.log
  oneKey : ∀ process, (∃ key, ∀ isolation ∈ servedBy pool.log process, isolation = .shared key)
    ∨ servedBy pool.log process = [.single]
  retired : ∀ process, (servedBy pool.log process).length ≤ config.retireAfter

/-! ## Records -/

section Records

variable {config : PoolConfig} {log : List (Nat × Isolation)} {process : Nat} {isolation : Isolation}
  {worker : Worker} {served : List Isolation}

theorem servedBy_cons_same : servedBy ((process, isolation) :: log) process = isolation :: servedBy log process := by
  rw [servedBy, List.filter_cons_of_pos (by simp), List.map_cons, servedBy]

theorem servedBy_cons_other {other : Nat} (differ : process ≠ other) :
    servedBy ((process, isolation) :: log) other = servedBy log other := by
  rw [servedBy, List.filter_cons_of_neg (by simpa using differ), servedBy]

/-- A process that was never handed a request has served nobody. -/
theorem servedBy_unstarted {processes : List Nat} (logged : ∀ entry ∈ log, entry.1 ∈ processes)
    (fresh : process ∉ processes) : servedBy log process = [] := by
  rw [servedBy, List.map_eq_nil_iff, List.filter_eq_nil_iff]
  intro entry held same
  have same : entry.1 = process := by simpa using same
  exact fresh (same ▸ logged entry held)

/-- A worker that fits has served the key of the request only. -/
theorem served_of_fits (clean : worker.Clean config served) (fits : worker.fits isolation) :
    (∃ key, isolation = .shared key ∧ ∀ earlier ∈ served, earlier = .shared key)
      ∨ isolation = .single ∧ served = [] := by
  cases isolation with
  | single => exact .inr ⟨rfl, clean.none_yet fits⟩
  | shared key =>
      refine .inl ⟨key, rfl, ?_⟩
      rcases fits with unassigned | keyed
      · rw [clean.none_yet unassigned]
        simp
      · exact clean.keyed key keyed

/-- A request of its key that is not its last leaves a worker that can be handed out again. -/
theorem clean_afterServing {key : String} (clean : worker.Clean config served)
    (fits : worker.fits (.shared key)) (spare : (worker.afterServing (.shared key)).served < config.retireAfter) :
    (worker.afterServing (.shared key)).Clean config (.shared key :: served) where
  none_yet := nofun
  keyed := by
    rintro key' same isolation held
    cases same
    rcases List.mem_cons.mp held with rfl | held
    · rfl
    · rcases served_of_fits clean fits with ⟨_, same, earlier⟩ | ⟨impossible, _⟩
      · cases same
        exact earlier isolation held
      · cases impossible
  count := by
    have bound := config.fits
    have before := clean.spare
    simp only [Worker.afterServing, List.length_cons, ← clean.count]
    omega
  spare := spare

/-- The worker at the position found fits the request. -/
theorem fits_of_suitable {idle : List Worker} {position : Nat}
    (found : suitable isolation idle = some position) (here : idle[position]? = some worker) :
    worker.fits isolation := by
  have unassigned : ∀ position, (idle.findIdx? fun worker => worker.isolation = none) = some position →
      idle[position]? = some worker → worker.isolation = none := by
    intro position found here
    rcases List.findIdx?_eq_some_iff_getElem.mp found with ⟨inside, holds, _⟩
    rw [List.getElem?_eq_getElem inside] at here
    cases here
    simpa using holds
  cases isolation with
  | single => exact unassigned position found here
  | shared key =>
      cases keyed : idle.findIdx? fun (worker : Worker) => worker.isolation = some key with
      | some other =>
          simp only [suitable, keyed, Option.orElse, Option.some.injEq] at found
          subst found
          rcases List.findIdx?_eq_some_iff_getElem.mp keyed with ⟨inside, holds, _⟩
          rw [List.getElem?_eq_getElem inside] at here
          cases here
          exact .inr (by simpa using holds)
      | none =>
          simp only [suitable, keyed, Option.orElse] at found
          exact .inl (unassigned position found here)

end Records

/-! ## One access -/

section Access

variable {config : PoolConfig} {pool : Pool} {op : Op} {input : Input}

/-- The access that hands a request to a worker is the only one that serves somebody. -/
theorem run_log (hands : ∀ isolation worker, op ≠ .hand isolation worker) :
    (op.run config pool input).1.log = pool.log := by
  cases op with
  | hand isolation worker => exact absurd rfl (hands isolation worker)
  | take isolation waiting =>
      simp only [Op.run]
      split <;> rfl
  | evict isolation waiting =>
      simp only [Op.run]
      split <;> rfl
  | addWorker =>
      simp only [Op.run]
      split <;> rfl
  | startWorker =>
      cases input with
      | started process =>
          simp only [Op.run]
          split <;> rfl
      | _ => rfl
  | endStarting process => cases process <;> rfl
  | serve isolation worker => cases input <;> rfl
  | _ => rfl

theorem run_processes {process : Nat} (held : process ∈ pool.processes) :
    process ∈ (op.run config pool input).1.processes := by
  cases op with
  | take isolation waiting =>
      simp only [Op.run]
      split <;> exact held
  | evict isolation waiting =>
      simp only [Op.run]
      split <;> exact held
  | addWorker =>
      simp only [Op.run]
      split <;> exact held
  | startWorker =>
      cases input with
      | started other =>
          simp only [Op.run]
          split
          · exact held
          · exact List.mem_cons_of_mem _ held
      | _ => exact held
  | endStarting process => cases process <;> exact held
  | serve isolation worker => cases input <;> exact held
  | _ => exact held

/-- What is idle after an access was idle before, or is the worker it parks. -/
theorem run_idle_mem {worker : Worker} (held : worker ∈ (op.run config pool input).1.idle) :
    worker ∈ pool.idle ∨ ∃ fresh, op = .park fresh worker := by
  cases op with
  | take isolation waiting =>
      simp only [Op.run] at held
      split at held
      · rename_i position taken found
        rcases Option.bind_eq_some_iff.mp found with ⟨position', _, here⟩
        rcases Option.map_eq_some_iff.mp here with ⟨worker', inside, same⟩
        cases same
        exact .inl ((swapRemove_perm inside).mem_iff.mpr (List.mem_cons_of_mem _ held))
      · exact .inl held
  | evict isolation waiting =>
      simp only [Op.run] at held
      split at held
      · exact .inl held
      · rename_i evicted rest here
        exact .inl (here ▸ List.mem_cons_of_mem _ held)
  | addWorker =>
      simp only [Op.run] at held
      split at held <;> exact .inl held
  | startWorker =>
      cases input with
      | started other =>
          simp only [Op.run] at held
          split at held <;> exact .inl held
      | _ => exact .inl held
  | endStarting process => cases process <;> exact .inl held
  | serve isolation worker => cases input <;> exact .inl held
  | park fresh parked =>
      rcases List.mem_append.mp held with held | held
      · exact .inl held
      · rw [List.mem_singleton.mp held]
        exact .inr ⟨fresh, rfl⟩
  | clearIdle => cases held
  | _ => exact .inl held

theorem idleOf_cons (process : Nat) (worker : Worker) (idle : List Worker) :
    idleOf process (worker :: idle) = idleOf process idle + if worker.process = process then 1 else 0 := by
  simp [idleOf, List.countP_cons]

/-- An access passes its worker on, or lets it go; a worker appears only with a new process. -/
theorem run_holds (config : PoolConfig) (pool : Pool) (op : Op) (input : Input) (process : Nat) :
    idleOf process (op.run config pool input).1.idle
        + taskSum (Op.holds process) (op.run config pool input).2.1
        + ((op.run config pool input).2.2.map (taskSum (Op.holds process))).sum
        + startedOnce process pool.processes
      ≤ idleOf process pool.idle + op.holds process
        + startedOnce process (op.run config pool input).1.processes := by
  cases op with
  | enterWaiting isolation => simp [Op.run, taskSum, Op.holds]
  | checkClosed isolation waiting =>
      simp only [Op.run]
      split <;> simp [taskSum, Op.holds]
  | take isolation waiting =>
      simp only [Op.run]
      split
      · rename_i position worker found
        rcases Option.bind_eq_some_iff.mp found with ⟨position', _, here⟩
        rcases Option.map_eq_some_iff.mp here with ⟨worker', inside, same⟩
        cases same
        have moved : idleOf process pool.idle = idleOf process (worker :: swapRemove position pool.idle) :=
          (swapRemove_perm inside).countP_eq _
        rw [idleOf_cons] at moved
        simp only [taskSum, Op.holds, List.map_cons, List.map_nil, List.sum_cons, List.sum_nil]
        omega
      · split <;> simp [taskSum, Op.holds]
  | loadStarting isolation waiting =>
      simp only [Op.run]
      split <;> simp [taskSum, Op.holds]
  | loadLive isolation waiting =>
      simp only [Op.run]
      split <;> simp [taskSum, Op.holds]
  | evict isolation waiting =>
      simp only [Op.run]
      split
      · simp [taskSum, Op.holds]
      · rename_i worker rest here
        have moved := idleOf_cons process worker rest
        rw [← here] at moved
        simp only [taskSum, Op.holds, List.map_cons, List.map_nil, List.sum_cons, List.sum_nil]
        omega
  | sleep isolation waiting =>
      simp only [Op.run]
      split <;> simp [taskSum, Op.holds]
  | leaveWaiting => simp [Op.run, taskSum, Op.holds]
  | countUnassigned => simp [Op.run, taskSum, Op.holds]
  | loadReady unassigned =>
      simp only [Op.run, taskSum_replicate]
      simp [Op.holds]
  | addWorker =>
      simp only [Op.run]
      split <;> simp [taskSum, Op.holds]
  | countStarting => simp [Op.run, taskSum, Op.holds]
  | startWorker =>
      cases input with
      | started other =>
          simp only [Op.run]
          split
          · simp [taskSum, Op.holds]
          · rename_i fresh
            by_cases same : other = process
            · subst same
              simp [taskSum, Op.holds, startedOnce, fresh]
            · simp [taskSum, Op.holds, startedOnce, same, Ne.symm same]
      | failed => simp [Op.run, taskSum, Op.holds]
      | proceed => simp [Op.run, taskSum, Op.holds]
      | deadline => simp [Op.run, taskSum, Op.holds]
      | served reusable => simp [Op.run, taskSum, Op.holds]
  | endStarting started =>
      cases started <;> simp [Op.run, taskSum, Op.holds]
  | hand isolation worker => simp [Op.run, taskSum, Op.holds]
  | serve isolation worker =>
      have passed : ∀ reusable, taskSum (Op.holds process) (afterExchange config isolation worker reusable)
          ≤ if worker.process = process then 1 else 0 := by
        intro reusable
        have same : (worker.afterServing isolation).process = worker.process := by
          cases isolation <;> rfl
        simp only [afterExchange]
        split <;> simp [taskSum, Op.holds, same]
      cases input with
      | served reusable =>
          have after := passed reusable
          simp only [Op.run, Op.holds, List.map_nil, List.sum_nil]
          omega
      | deadline =>
          have after := passed false
          simp only [Op.run, Op.holds, List.map_nil, List.sum_nil]
          omega
      | proceed => simp [Op.run, taskSum, Op.holds]
      | started other => simp [Op.run, taskSum, Op.holds]
      | failed => simp [Op.run, taskSum, Op.holds]
  | park fresh worker =>
      have moved : idleOf process (pool.idle ++ [worker])
          = idleOf process pool.idle + if worker.process = process then 1 else 0 := by
        simp [idleOf, List.countP_append, List.countP_cons]
      simp only [Op.run, Op.holds, moved, taskSum, List.map_nil, List.sum_nil]
      omega
  | release fresh => simp [Op.run, taskSum, Op.holds]
  | close => simp [Op.run, taskSum, Op.holds]
  | clearIdle => simp [Op.run, taskSum, Op.holds, idleOf]

/-- What a task does next knows its worker; a hand-out takes only a worker that fits. -/
theorem run_sound (input : Input)
    (idle : ∀ worker ∈ pool.idle, worker.Clean config (servedBy pool.log worker.process))
    (logged : ∀ entry ∈ pool.log, entry.1 ∈ pool.processes) (sound : op.Sound config pool.log) :
    (∀ step ∈ (op.run config pool input).2.1, step.Sound config (op.run config pool input).1.log)
      ∧ ∀ task ∈ (op.run config pool input).2.2, ∀ step ∈ task,
          step.Sound config (op.run config pool input).1.log := by
  cases op with
  | enterWaiting isolation => simp [Op.run, Op.Sound]
  | checkClosed isolation waiting =>
      simp only [Op.run]
      split <;> simp [Op.Sound]
  | take isolation waiting =>
      simp only [Op.run]
      split
      · rename_i position worker found
        rcases Option.bind_eq_some_iff.mp found with ⟨position', chosen, here⟩
        rcases Option.map_eq_some_iff.mp here with ⟨worker', inside, same⟩
        cases same
        have clean := idle worker (List.mem_of_getElem? inside)
        have fits := fits_of_suitable chosen inside
        simp [Op.Sound, clean, fits]
      · split <;> simp [Op.Sound]
  | loadStarting isolation waiting =>
      simp only [Op.run]
      split <;> simp [Op.Sound]
  | loadLive isolation waiting =>
      simp only [Op.run]
      split <;> simp [Op.Sound]
  | evict isolation waiting =>
      simp only [Op.run]
      split <;> simp [Op.Sound]
  | sleep isolation waiting =>
      simp only [Op.run]
      split <;> simp [Op.Sound]
  | leaveWaiting => simp [Op.run]
  | countUnassigned => simp [Op.run, Op.Sound]
  | loadReady unassigned =>
      refine ⟨fun step held => ?_, by simp [Op.run]⟩
      rw [List.eq_of_mem_replicate held]
      trivial
  | addWorker =>
      simp only [Op.run]
      split <;> simp [Op.Sound]
  | countStarting => simp [Op.run, Op.Sound]
  | startWorker =>
      cases input with
      | started other =>
          simp only [Op.run]
          split
          · simp [Op.Sound]
          · rename_i fresh
            simp [Op.Sound, servedBy_unstarted logged fresh]
      | failed => simp [Op.run, Op.Sound]
      | proceed => simp [Op.run, Op.Sound]
      | deadline => simp [Op.run, Op.Sound]
      | served reusable => simp [Op.run, Op.Sound]
  | endStarting started =>
      cases started with
      | none => simp [Op.run, Op.Sound]
      | some process =>
          have unserved : servedBy pool.log process = [] := sound
          have clean : (⟨process, 0, none⟩ : Worker).Clean config (servedBy pool.log process) := by
            rw [unserved]
            exact ⟨fun _ => rfl, (by intro _ h; cases h), rfl, config.retires⟩
          simp [Op.run, Op.Sound, clean]
  | hand isolation worker =>
      rcases sound with ⟨clean, fits⟩
      simp only [Op.run, List.mem_singleton, forall_eq, Op.Sound]
      exact ⟨⟨_, servedBy_cons_same, clean, fits⟩, by simp⟩
  | serve isolation worker =>
      rcases sound with ⟨earlier, record, clean, fits⟩
      have after : ∀ reusable, ∀ step ∈ afterExchange config isolation worker reusable,
          step.Sound config pool.log := by
        intro reusable step held
        simp only [afterExchange] at held
        split at held
        · rename_i parked
          rw [List.mem_singleton.mp held]
          cases isolation with
          | single => cases parked.2.1
          | shared key =>
              have again := clean_afterServing clean fits parked.2.2
              rw [← record] at again
              exact again
        · simp only [List.mem_cons, List.not_mem_nil, or_false] at held
          rcases held with rfl | rfl | rfl <;> trivial
      have same : Op.Sound config pool.log (.serve isolation worker) := ⟨earlier, record, clean, fits⟩
      cases input with
      | served reusable => exact ⟨after reusable, by simp [Op.run]⟩
      | deadline => exact ⟨after false, by simp [Op.run]⟩
      | proceed => simpa [Op.run] using same
      | started other => simpa [Op.run] using same
      | failed => simpa [Op.run] using same
  | park fresh worker => simp [Op.run]
  | release fresh => simp [Op.run]
  | close => simp [Op.run, Op.Sound]
  | clearIdle => simp [Op.run]

end Access

/-! ## Every run -/

section Runs

variable {config : PoolConfig} {pool next : Pool} {event : Event}

/-- Where a process is held by one access, no other access holds it. -/
theorem others_free (weight : Op → Nat) {before after : List Task} {op : Op} {rest : Task}
    (here : pool.tasks = before ++ (op :: rest) :: after) (whole : pool.sum weight ≤ weight op) :
    (∀ step ∈ rest, weight step = 0) ∧ ∀ task ∈ before ++ after, ∀ step ∈ task, weight step = 0 := by
  have split := sum_drop weight here
  have rest_free : taskSum weight rest = 0 := by omega
  have tasks_free : ((before ++ after).map (taskSum weight)).sum = 0 := by omega
  have members : ∀ task : Task, taskSum weight task = 0 → ∀ step ∈ task, weight step = 0 := by
    intro task free step held
    exact List.sum_eq_zero_iff_forall_eq_nat.mp free _ (List.mem_map_of_mem held)
  refine ⟨members rest rest_free, fun task held => members task ?_⟩
  exact List.sum_eq_zero_iff_forall_eq_nat.mp tasks_free _ (List.mem_map_of_mem held)

/-- A request handed to one process does not concern those who hold others. -/
theorem sound_of_free {log : List (Nat × Isolation)} {op : Op} {process : Nat} {isolation : Isolation}
    (free : op.holds process = 0) (sound : op.Sound config log) :
    op.Sound config ((process, isolation) :: log) := by
  have apart : ∀ other : Nat, (if other = process then 1 else 0) = 0 →
      servedBy ((process, isolation) :: log) other = servedBy log other := by
    intro other free
    refine servedBy_cons_other fun same => ?_
    rw [if_pos same.symm] at free
    cases free
  cases op with
  | endStarting started =>
      cases started with
      | none => trivial
      | some other => exact (apart other free).trans sound
  | hand _ worker => simpa only [Op.Sound, apart worker.process free] using sound
  | serve _ worker => simpa only [Op.Sound, apart worker.process free] using sound
  | park _ worker => simpa only [Op.Sound, apart worker.process free] using sound
  | _ => trivial

theorem idleOf_pos {idle : List Worker} {worker : Worker} (held : worker ∈ idle) :
    0 < idleOf worker.process idle :=
  List.countP_pos_iff.mpr ⟨worker, held, by simp⟩

theorem startedOnce_le (process : Nat) (processes : List Nat) : startedOnce process processes ≤ 1 := by
  unfold startedOnce
  split <;> decide

theorem mem_of_startedOnce {process : Nat} {processes : List Nat} (h : 0 < startedOnce process processes) :
    process ∈ processes := by
  by_contra fresh
  rw [startedOnce, if_neg fresh] at h
  cases h

/-- The accesses that a run leaves: what follows it, the rest of its task, the other tasks and what
it spawns. -/
theorem mem_tasks_run (after_it : Task) {before after spawned : List Task} {op : Op} {rest task : Task}
    {step : Op}
    (here : pool.tasks = before ++ (op :: rest) :: after)
    (held : task ∈ before ++ (after_it ++ rest) :: after ++ spawned) (inside : step ∈ task) :
    step ∈ after_it ∨ step ∈ rest ∨ (task ∈ before ++ after ∧ task ∈ pool.tasks) ∨ task ∈ spawned := by
  rw [here]
  simp only [List.mem_append, List.mem_cons] at held ⊢
  rcases held with (held | rfl | held) | held
  · exact .inr (.inr (.inl ⟨.inl held, .inl held⟩))
  · rcases List.mem_append.mp inside with inside | inside
    · exact .inl inside
    · exact .inr (.inl inside)
  · exact .inr (.inr (.inl ⟨.inr held, .inr (.inr held)⟩))
  · exact .inr (.inr (.inr held))

/-- No access makes a process belong to two workers. -/
theorem distinct_run {before after : List Task} {op : Op} {rest : Task} (input : Input)
    (sound : pool.Sound config) (here : pool.tasks = before ++ (op :: rest) :: after) (process : Nat) :
    idleOf process (op.run config pool input).1.idle
        + ((before ++ ((op.run config pool input).2.1 ++ rest) :: after
          ++ (op.run config pool input).2.2).map (taskSum (Op.holds process))).sum
      ≤ startedOnce process (op.run config pool input).1.processes := by
  have before_it := sound.distinct process
  have passed := run_holds config pool op input process
  have moved := sum_run (Op.holds process) (op.run config pool input).2.1 (op.run config pool input).2.2 here
  omega

/-- An access that hands out no worker leaves every record alone. -/
theorem sound_quiet {before after : List Task} {op : Op} {rest : Task} (input : Input)
    (sound : pool.Sound config) (here : pool.tasks = before ++ (op :: rest) :: after)
    (hands : ∀ isolation worker, op ≠ .hand isolation worker) :
    ({ (op.run config pool input).1 with
        tasks := before ++ ((op.run config pool input).2.1 ++ rest) :: after
          ++ (op.run config pool input).2.2 } : Pool).Sound config := by
  have log : (op.run config pool input).1.log = pool.log := run_log hands
  have task_sound : ∀ step ∈ op :: rest, step.Sound config pool.log := by
    refine sound.tasks _ ?_
    rw [here]
    exact List.mem_append_right _ List.mem_cons_self
  have op_sound := task_sound op List.mem_cons_self
  rcases run_sound input sound.idle sound.logged op_sound with ⟨follows, spawns⟩
  constructor
  · exact distinct_run input sound here
  · intro entry held
    exact run_processes (sound.logged entry (log ▸ held))
  · intro worker held
    show worker.Clean config (servedBy (op.run config pool input).1.log worker.process)
    rw [log]
    rcases run_idle_mem held with idle | ⟨fresh, rfl⟩
    · exact sound.idle worker idle
    · exact op_sound
  · intro task held step inside
    show step.Sound config (op.run config pool input).1.log
    rcases mem_tasks_run _ here held inside with inside | inside | ⟨_, held⟩ | held
    · exact follows step inside
    · rw [log]
      exact task_sound step (List.mem_cons_of_mem _ inside)
    · rw [log]
      exact sound.tasks task held step inside
    · exact spawns task held step inside
  · intro process
    show (∃ key, ∀ isolation ∈ servedBy (op.run config pool input).1.log process, isolation = .shared key) ∨ _
    rw [log]
    exact sound.oneKey process
  · intro process
    show (servedBy (op.run config pool input).1.log process).length ≤ _
    rw [log]
    exact sound.retired process

/-- Handing a request to its worker adds to the record of this worker only. -/
theorem sound_hand {before after : List Task} {isolation : Isolation} {worker : Worker} {rest : Task}
    (input : Input) (sound : pool.Sound config)
    (here : pool.tasks = before ++ (.hand isolation worker :: rest) :: after) :
    ({ pool with
        log := (worker.process, isolation) :: pool.log
        tasks := before ++ (.serve isolation worker :: rest) :: after ++ [] } : Pool).Sound config := by
  have whole := sound.distinct worker.process
  have once := startedOnce_le worker.process pool.processes
  have one : (Op.hand isolation worker).holds worker.process = 1 := if_pos rfl
  have counted := weight_le_sum (Op.holds worker.process) here
  rcases others_free (Op.holds worker.process) here (by omega) with ⟨rest_free, tasks_free⟩
  have task_sound : ∀ step ∈ Op.hand isolation worker :: rest, step.Sound config pool.log := by
    refine sound.tasks _ ?_
    rw [here]
    exact List.mem_append_right _ List.mem_cons_self
  rcases task_sound _ List.mem_cons_self with ⟨clean, fits⟩
  constructor
  · exact distinct_run input sound here
  · intro entry held
    rcases List.mem_cons.mp held with rfl | held
    · have started : 0 < startedOnce worker.process pool.processes := by omega
      exact mem_of_startedOnce started
    · exact sound.logged entry held
  · intro other held
    show other.Clean config (servedBy ((worker.process, isolation) :: pool.log) other.process)
    have apart : worker.process ≠ other.process := by
      intro same
      have pos : 0 < idleOf other.process pool.idle := idleOf_pos held
      rw [← same] at pos
      omega
    rw [servedBy_cons_other apart]
    exact sound.idle other held
  · intro task held step inside
    rcases mem_tasks_run [.serve isolation worker] here held inside with
      inside | inside | ⟨outside, held⟩ | held
    · rw [List.mem_singleton.mp inside]
      exact ⟨_, servedBy_cons_same, clean, fits⟩
    · exact sound_of_free (rest_free step inside) (task_sound step (List.mem_cons_of_mem _ inside))
    · exact sound_of_free (tasks_free task outside step inside) (sound.tasks task held step inside)
    · cases held
  · intro process
    show (∃ key, ∀ served ∈ servedBy ((worker.process, isolation) :: pool.log) process, served = .shared key)
      ∨ servedBy ((worker.process, isolation) :: pool.log) process = [.single]
    by_cases same : worker.process = process
    · subst same
      rw [servedBy_cons_same]
      rcases served_of_fits clean fits with ⟨key, rfl, earlier⟩ | ⟨rfl, unserved⟩
      · exact .inl ⟨key, List.forall_mem_cons.mpr ⟨rfl, earlier⟩⟩
      · rw [unserved]
        exact .inr rfl
    · rw [servedBy_cons_other same]
      exact sound.oneKey process
  · intro process
    show (servedBy ((worker.process, isolation) :: pool.log) process).length ≤ _
    by_cases same : worker.process = process
    · subst same
      rw [servedBy_cons_same, List.length_cons, ← clean.count]
      exact clean.spare
    · rw [servedBy_cons_other same]
      exact sound.retired process

/-- Every step keeps the records in line with what each process has served. -/
theorem sound_step (sound : pool.Sound config) (step : PoolStep config pool event next) :
    next.Sound config := by
  cases step with
  | arrive isolation =>
      refine ⟨fun process => ?_, sound.logged, sound.idle, ?_, sound.oneKey, sound.retired⟩
      · have held := sound.distinct process
        simpa [Pool.sum, taskSum, Op.holds] using held
      · intro task held
        rcases List.mem_append.mp held with held | held
        · exact sound.tasks task held
        · rw [List.mem_singleton.mp held]
          simp [Op.Sound]
  | closing =>
      refine ⟨fun process => ?_, sound.logged, sound.idle, ?_, sound.oneKey, sound.retired⟩
      · have held := sound.distinct process
        simpa [Pool.sum, taskSum, Op.holds] using held
      · intro task held
        rcases List.mem_append.mp held with held | held
        · exact sound.tasks task held
        · rw [List.mem_singleton.mp held]
          simp [Op.Sound]
  | run before after op rest input here =>
      by_cases hands : ∃ isolation worker, op = .hand isolation worker
      · rcases hands with ⟨isolation, worker, rfl⟩
        exact sound_hand input sound here
      · push Not at hands
        exact sound_quiet input sound here hands
  | drop before after op rest here awaits =>
      refine ⟨fun process => ?_, sound.logged, sound.idle, ?_, sound.oneKey, sound.retired⟩
      · have held := sound.distinct process
        have moved := sum_drop (Op.holds process) here
        simp only [Pool.sum] at held moved ⊢
        omega
      · intro task held
        refine sound.tasks task ?_
        rw [here]
        rcases List.mem_append.mp held with held | held
        · exact List.mem_append_left _ held
        · exact List.mem_append_right _ (List.mem_cons_of_mem _ held)

theorem initial_sound (start : pool.Initial config) : pool.Sound config where
  distinct := by
    intro process
    have no_tasks : pool.sum (Op.holds process) = 0 := by simp [Pool.sum, start.tasks]
    have counted : idleOf process pool.idle = (pool.idle.map Worker.process).count process := by
      rw [idleOf, List.count, List.countP_map]
      congr
    have once := List.nodup_iff_count_le_one.mp start.distinct process
    rw [no_tasks, counted, start.processes, Nat.add_zero, startedOnce]
    split
    · exact once
    · rename_i fresh
      exact le_of_eq (List.count_eq_zero.mpr fresh)
  logged := by simp [start.log]
  idle := by
    intro worker held
    rcases start.unused worker held with ⟨unserved, unassigned⟩
    rw [start.log]
    exact ⟨fun _ => rfl, by simp [unassigned], unserved, unserved ▸ config.retires⟩
  tasks := by simp [start.tasks]
  oneKey := by simp [start.log, servedBy]
  retired := by simp [start.log, servedBy]

/-- In every run a worker process serves requests of one isolation key, or one single request and
no other; an unassigned idle worker has served nobody; and no process serves more requests than it
may. -/
theorem guest_isolated (config : PoolConfig) (pool : Pool) (reachable : (guestPool config).Reachable pool) :
    pool.Isolated config := by
  have invariant : (guestPool config).Invariant fun pool => pool.Sound config := by
    refine ⟨fun start first => initial_sound first, ?_⟩
    rintro state next _ sound ⟨event, _, step⟩
    exact sound_step sound step
  have sound := invariant.holds reachable
  refine ⟨sound.oneKey, ?_, fun worker held => (sound.idle worker held).none_yet, sound.retired⟩
  intro worker held used
  have clean := sound.idle worker held
  cases assigned : worker.isolation with
  | none =>
      rw [clean.none_yet assigned] at used
      cases used
  | some key => cases clean.keyed key assigned .single used

/-- The first request of a key, handed to the only worker. -/
theorem guest_isolated_sample :
    (guestPool oneWorker).Reachable
        ((Pool.advance oneWorker)^[11] { oneIdle with tasks := [[.enterWaiting (.shared "a")]] })
      ∧ ((Pool.advance oneWorker)^[11] { oneIdle with tasks := [[.enterWaiting (.shared "a")]] }).log
          = [(7, .shared "a")]
      ∧ ((Pool.advance oneWorker)^[11] { oneIdle with tasks := [[.enterWaiting (.shared "a")]] }).Isolated
          oneWorker := by
  have start : (guestPool oneWorker).Reachable oneIdle := System.Reachable.start oneIdle_initial
  have served := advance_reachable 11 (start.next ⟨_, trivial, .arrive (.shared "a")⟩)
  exact ⟨served, by decide, guest_isolated oneWorker _ served⟩

end Runs

end Noxide.Guest
