import Noxide.Guest.Exchange
import Noxide.Library.Transition

/-!
# The guest pool

The pool of worker processes, one shared access at a time: every lock section and every atomic
counter update is a step of its own, and any number of requests, worker starts and closings
interleave between them.  A request can be dropped where it awaits: while it waits for a worker,
and while its worker serves it.

Main definitions:

- Definition {lit}`Op.run`: one shared access, and what its task does next.
- Definition {lit}`guestPool`: the pool as a transition system.
-/

namespace Noxide.Guest

/-! ## Workers -/

/-- A worker process; {lit}`isolation` is the key that it has served. -/
structure Worker where
  process : Nat
  served : Nat
  isolation : Option String
  deriving DecidableEq, Repr

structure PoolConfig where
  concurrency : Nat
  retireAfter : Nat
  /-- Absent in tests only. -/
  broker : Bool
  retires : 0 < retireAfter
  fits : retireAfter ≤ 4294967295

/-- Unassigned workers kept ready before anyone needs them. -/
def warmWorkers : Nat := 4

/-! ## Tasks -/

/-- One shared access of a task. -/
inductive Op where
  /-- Count the request as waiting. -/
  | enterWaiting (isolation : Isolation)
  | checkClosed (isolation : Isolation) (waiting : Nat)
  | take (isolation : Isolation) (waiting : Nat)
  | loadStarting (isolation : Isolation) (waiting : Nat)
  | loadLive (isolation : Isolation) (waiting : Nat)
  | evict (isolation : Isolation) (waiting : Nat)
  /-- Wait for a change, up to the deadline. -/
  | sleep (isolation : Isolation) (waiting : Nat)
  | leaveWaiting
  | countUnassigned
  | loadReady (unassigned : Nat)
  | addWorker
  | countStarting
  /-- The broker starts a worker, off the executor. -/
  | startWorker
  | endStarting (process : Option Nat)
  /-- Hand the request to the worker. -/
  | hand (isolation : Isolation) (worker : Worker)
  /-- The exchange with the worker. -/
  | serve (isolation : Isolation) (worker : Worker)
  | park (fresh : Bool) (worker : Worker)
  /-- The worker is gone; take it off the count. -/
  | release (fresh : Bool)
  | close
  | clearIdle
  deriving DecidableEq

/-- What is left of a request, of a worker's start or of a closing. -/
abbrev Task := List Op

/-- Where a future can be dropped. -/
def Op.awaits : Op → Bool
  | .sleep _ _ => true
  | .serve _ _ => true
  | _ => false

/-- What the outside decides at a step. -/
inductive Input where
  /-- Nothing, or a change that wakes a waiting request. -/
  | proceed
  | deadline
  | started (process : Nat)
  | failed
  | served (reusable : Bool)
  deriving DecidableEq

/-! ## The pool -/

/-- {lit}`processes` are the worker processes ever started, {lit}`log` the requests each was
handed, latest first. -/
structure Pool where
  idle : List Worker
  closed : Bool
  live : Nat
  starting : Nat
  waiting : Nat
  started : Nat
  tasks : List Task
  processes : List Nat
  log : List (Nat × Isolation)

/-- {lit}`swap_remove`: the last element takes the place of the removed one. -/
def swapRemove {α : Type} (position : Nat) (xs : List α) : List α :=
  match xs.getLast? with
  | none => []
  | some last => (xs.set position last).dropLast

/-- The position of a worker already serving this key, or of one that has served nobody. -/
def suitable (isolation : Isolation) (idle : List Worker) : Option Nat :=
  let keyed :=
    match isolation with
    | .shared key => idle.findIdx? fun (worker : Worker) => worker.isolation = some key
    | .single => none
  keyed.orElse fun _ => idle.findIdx? fun (worker : Worker) => worker.isolation = none

/-- The worker after its exchange. -/
def Worker.afterServing (worker : Worker) : Isolation → Worker
  | .shared key => { worker with served := min (worker.served + 1) 4294967295, isolation := some key }
  | .single => { worker with served := min (worker.served + 1) 4294967295 }

def Isolation.isShared : Isolation → Bool
  | .shared _ => true
  | .single => false

/-- Park the worker, or discard it and start its replacement. -/
def afterExchange (config : PoolConfig) (isolation : Isolation) (worker : Worker) (reusable : Bool) : Task :=
  let worker := worker.afterServing isolation
  if reusable = true ∧ isolation.isShared = true ∧ worker.served < config.retireAfter then
    [.park false worker]
  else [.release false, .addWorker, .countUnassigned]

/-- One shared access: the pool after it, what the task does before the rest of it, and a task it
spawns. -/
def Op.run (config : PoolConfig) (pool : Pool) : Op → Input → Pool × Task × List Task
  | .enterWaiting isolation, _ =>
      ({ pool with waiting := pool.waiting + 1 }, [.checkClosed isolation (pool.waiting + 1)], [])
  | .checkClosed isolation waiting, _ =>
      (pool, if pool.closed = true then [.leaveWaiting] else [.take isolation waiting], [])
  | .take isolation waiting, _ =>
      match (suitable isolation pool.idle).bind fun position =>
        (pool.idle[position]?).map fun worker => (position, worker) with
      | some (position, worker) =>
          ({ pool with idle := swapRemove position pool.idle },
            [.countUnassigned, .leaveWaiting, .hand isolation worker], [])
      | none => (pool, if config.broker = true then [.loadStarting isolation waiting] else [.leaveWaiting], [])
  | .loadStarting isolation waiting, _ =>
      (pool, if pool.starting < waiting then [.loadLive isolation waiting] else [.sleep isolation waiting], [])
  | .loadLive isolation waiting, _ =>
      (pool,
        if pool.live < config.concurrency then [.addWorker, .sleep isolation waiting]
        else [.evict isolation waiting], [])
  | .evict isolation waiting, _ =>
      match pool.idle with
      | [] => (pool, [.addWorker, .sleep isolation waiting], [])
      | _ :: rest => ({ pool with idle := rest }, [.release false, .addWorker, .sleep isolation waiting], [])
  | .sleep isolation waiting, input =>
      (pool, if input = .deadline then [.leaveWaiting] else [.checkClosed isolation waiting], [])
  | .leaveWaiting, _ => ({ pool with waiting := pool.waiting - 1 }, [], [])
  | .countUnassigned, _ =>
      (pool, [.loadReady (pool.idle.countP fun worker => worker.isolation = none)], [])
  | .loadReady unassigned, _ =>
      (pool, List.replicate (warmWorkers - (unassigned + pool.starting)) .addWorker, [])
  | .addWorker, _ =>
      if config.broker = true ∧ pool.live < config.concurrency then
        ({ pool with live := pool.live + 1 }, [.countStarting], [])
      else (pool, [], [])
  | .countStarting, _ =>
      ({ pool with starting := pool.starting + 1, started := pool.started + 1 }, [], [[.startWorker]])
  | .startWorker, .started process =>
      if process ∈ pool.processes then (pool, [.startWorker], [])
      else ({ pool with processes := process :: pool.processes }, [.endStarting (some process)], [])
  | .startWorker, .failed => (pool, [.endStarting none], [])
  | .startWorker, _ => (pool, [.startWorker], [])
  | .endStarting (some process), _ =>
      ({ pool with starting := pool.starting - 1 }, [.park true ⟨process, 0, none⟩], [])
  | .endStarting none, _ => ({ pool with starting := pool.starting - 1 }, [.release true], [])
  | .hand isolation worker, _ =>
      ({ pool with log := (worker.process, isolation) :: pool.log }, [.serve isolation worker], [])
  | .serve isolation worker, .served reusable => (pool, afterExchange config isolation worker reusable, [])
  | .serve isolation worker, .deadline => (pool, afterExchange config isolation worker false, [])
  | .serve isolation worker, _ => (pool, [.serve isolation worker], [])
  | .park _ worker, _ => ({ pool with idle := pool.idle ++ [worker] }, [], [])
  | .release _, _ => ({ pool with live := pool.live - 1 }, [], [])
  | .close, _ => ({ pool with closed := true }, [.clearIdle], [])
  | .clearIdle, _ => ({ pool with idle := [] }, [], [])

/-! ## Steps -/

/-- A step of the whole system. -/
inductive Event where
  /-- A request asks for a worker. -/
  | arrive (isolation : Isolation)
  /-- Somebody closes the pool. -/
  | closing
  | run (op : Op) (input : Input)
  /-- The future of a request is dropped where it awaits. -/
  | drop (op : Op)

inductive PoolStep (config : PoolConfig) (pool : Pool) : Event → Pool → Prop where
  | arrive (isolation : Isolation) :
      PoolStep config pool (.arrive isolation)
        { pool with tasks := pool.tasks ++ [[.enterWaiting isolation]] }
  | closing : PoolStep config pool .closing { pool with tasks := pool.tasks ++ [[.close]] }
  | run (before after : List Task) (op : Op) (rest : Task) (input : Input)
      (here : pool.tasks = before ++ (op :: rest) :: after) :
      PoolStep config pool (.run op input)
        { (op.run config pool input).1 with
          tasks := before ++ ((op.run config pool input).2.1 ++ rest) :: after
            ++ (op.run config pool input).2.2 }
  | drop (before after : List Task) (op : Op) (rest : Task)
      (here : pool.tasks = before ++ (op :: rest) :: after) (awaits : op.awaits = true) :
      PoolStep config pool (.drop op) { pool with tasks := before ++ after }

/-- A pool with its warm workers, before any request. -/
structure Pool.Initial (pool : Pool) (config : PoolConfig) : Prop where
  warm : pool.idle.length = min warmWorkers config.concurrency
  unused : ∀ worker ∈ pool.idle, worker.served = 0 ∧ worker.isolation = none
  distinct : (pool.idle.map Worker.process).Nodup
  processes : pool.processes = pool.idle.map Worker.process
  opened : pool.closed = false
  live : pool.live = pool.idle.length
  starting : pool.starting = 0
  waiting : pool.waiting = 0
  tasks : pool.tasks = []
  log : pool.log = []

/-- The pool, restricted to the steps that are allowed. -/
def poolRuns (config : PoolConfig) (allowed : Pool → Event → Prop) : System Pool where
  initial pool := pool.Initial config
  step pool next := ∃ event, allowed pool event ∧ PoolStep config pool event next

/-- The pool under every interleaving. -/
def guestPool (config : PoolConfig) : System Pool := poolRuns config fun _ _ => True

/-! ## Removing a worker -/

/-- What {lit}`swap_remove` removes and leaves is what was there. -/
theorem swapRemove_perm {α : Type} {xs : List α} {position : Nat} {x : α} (h : xs[position]? = some x) :
    xs.Perm (x :: swapRemove position xs) := by
  rcases List.eq_nil_or_concat xs with rfl | ⟨front, last, rfl⟩
  · cases h
  · rw [List.concat_eq_append] at h ⊢
    have removed : swapRemove position (front ++ [last]) = ((front ++ [last]).set position last).dropLast := by
      simp only [swapRemove, List.getLast?_append, List.getLast?_singleton, Option.some_or]
    rw [removed]
    rcases Nat.lt_or_ge position front.length with inside | outside
    · rw [List.getElem?_append_left inside, List.getElem?_eq_getElem inside] at h
      cases h
      rw [List.set_append_left _ _ inside, List.dropLast_concat]
      have split := (List.getElem_cons_eraseIdx_perm inside).symm
      have placed := List.set_perm_cons_eraseIdx inside last
      calc List.Perm (front ++ [last]) (last :: front) := List.perm_append_singleton last front
        List.Perm _ (last :: front[position] :: front.eraseIdx position) := split.cons last
        List.Perm _ (front[position] :: last :: front.eraseIdx position) := List.Perm.swap _ _ _
        List.Perm _ (front[position] :: front.set position last) := placed.symm.cons _
    · have bound : position < (front ++ [last]).length := (List.getElem?_eq_some_iff.mp h).1
      have here : position = front.length := by
        rw [List.length_append, List.length_singleton] at bound
        omega
      subst here
      have same : last = x := by
        rw [List.getElem?_append_right (le_refl _), Nat.sub_self] at h
        exact Option.some.inj h
      subst same
      have unchanged : (front ++ [last]).set front.length last = front ++ [last] := by
        rw [List.set_append_right _ _ (le_refl _), Nat.sub_self]
        rfl
      rw [unchanged, List.dropLast_concat]
      exact List.perm_append_singleton last front

end Noxide.Guest
