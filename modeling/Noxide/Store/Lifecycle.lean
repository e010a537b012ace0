import Mathlib.Data.List.Pairwise
import Mathlib.Logic.Function.Basic
import Noxide.Store.Clock

/-!
# The lifecycle clock

One durable row holds the lifecycle watermark and its version.  Maintenance ticks move it
forward; every process keeps the ticks it published and hands an attempt the watermark of the
row the attempt reads, if that row is a published tick that is still fresh or newer than all of
them.  The monotonic clock, the wall clock, failures, restarts and restored databases are
unconstrained here: a run is any sequence of events with any readings.

Main results:

- Theorem {lit}`tick_spec`: what a successful tick writes and returns.
- Theorem {lit}`lifecycle_clock_exact`: the promises of the clock in every world of every run.
- Theorem {lit}`unpublished_row_accepted`: an attempt may see a row that was never published.
-/

namespace Noxide.LifecycleClock

open Checked

/-! ## Values -/

/-- Readings of the monotonic clock, in nanoseconds. -/
abbrev Instant := Nat

/-- The source's {lit}`FRESHNESS_LIMIT`. -/
def freshnessLimit : Nat := 5000000000

/-- The source's {lit}`PUBLISHED_TICKS`. -/
def publishedTicks : Nat := 8

inductive TemporalUnavailable where
  | notStarted
  | stale
  | inconsistent
  | quarantined
  deriving DecidableEq, Repr

def TemporalUnavailable.failure : TemporalUnavailable → Failure
  | .notStarted => .temporalNotStarted
  | .stale => .message "lifecycle maintenance heartbeat is stale"
  | .inconsistent => .message "lifecycle clock regressed or observation is out of order"
  | .quarantined => .message "lifecycle maintenance cleanup is unconfirmed"

/-- Milliseconds since the epoch that a timestamp can hold. -/
def fromUnixMillis (value : Int) : Result Int := do
  check "lifecycle time cannot be negative" (0 ≤ value)
  return value

def fromUnixSeconds (value : Int) : Result Int := do
  check "lifecycle time cannot be negative" (0 ≤ value)
  check "lifecycle time overflow" (value * 1000 < 2 ^ 63)
  return value * 1000

/-- A wall clock reading, as milliseconds of either sign. -/
def fromSystemTime (millis : Int) : Result Int := do
  check "wall clock precedes Unix epoch" (0 ≤ millis)
  check "lifecycle time overflow" (millis < 2 ^ 63)
  return millis

@[ext]
structure DurableClock where
  watermark : Int
  version : Int
  deriving DecidableEq, Repr

/-- The row of {lit}`nx_clock`. -/
structure ClockRow where
  observed : Int
  lifecycleMs : Int
  lifecycleVersion : Int
  deriving DecidableEq, Repr

structure CommittedTick where
  clock : DurableClock
  started : Instant
  credentialSeconds : Int
  deriving DecidableEq, Repr

structure HeartbeatObservation where
  clock : DurableClock
  started : Instant
  deriving DecidableEq, Repr

/-! ## Ticks -/

def read (row : Option ClockRow) : Result DurableClock := do
  let row ← need "lifecycle clock missing" row
  let watermark ← fromUnixMillis row.lifecycleMs
  check "invalid lifecycle version" (0 ≤ row.lifecycleVersion)
  return { watermark := watermark, version := row.lifecycleVersion }

/-- The compare-and-set of a tick: how many rows it changed, and the row. -/
def ClockRow.advance (row : ClockRow) (previous next : DurableClock) : Nat × ClockRow :=
  if row.lifecycleMs = previous.watermark ∧ row.lifecycleVersion = previous.version then
    (1, { row with lifecycleMs := next.watermark, lifecycleVersion := next.version })
  else
    (0, row)

/-- One tick inside its transaction.  The first component is the credential mark in memory
afterwards, which a failing tick may have raised; a success carries the row to commit. -/
def tickSampled (row : Option ClockRow) (memory wall : Int) (started : Instant) :
    Int × Result (ClockRow × CommittedTick) :=
  match row with
  | none => (memory, .error (.message "clock missing"))
  | some row =>
      let (memory, observed) := tickClock row.observed (wall / 1000) memory
      (memory, do
        let observed ← observed
        let _ ← fromUnixSeconds observed.effective
        let row := { row with observed := observed.persisted }
        let previous ← read (some row)
        check "lifecycle version exhausted" (previous.version + 1 < 2 ^ 63)
        let next : DurableClock :=
          { watermark := max previous.watermark wall, version := previous.version + 1 }
        let (changed, row) := row.advance previous next
        check "concurrent lifecycle tick; retry maintenance" (changed = 1)
        return (row, { clock := next, started := started, credentialSeconds := observed.effective }))

def tick (row : Option ClockRow) (memory wall : Int) (started : Instant) :
    Int × Result (ClockRow × CommittedTick) :=
  match fromSystemTime wall with
  | .ok wall => tickSampled row memory wall started
  | .error e => (memory, .error e)

/-! ## Freshness -/

/-- One process's memory of its published ticks. -/
structure State where
  quarantined : Bool := false
  startupComplete : Bool := false
  progress : Option HeartbeatObservation := none
  freshSince : Option Instant := none
  published : List HeartbeatObservation := []
  deriving DecidableEq, Repr

/-- The source's {lit}`recent`: a reading before {lit}`start` is not recent either. -/
def recent (start now : Instant) : Prop :=
  start ≤ now ∧ now - start < freshnessLimit

instance (start now : Instant) : Decidable (recent start now) :=
  inferInstanceAs (Decidable (_ ∧ _))

def State.publish (s : State) (observation : HeartbeatObservation) : State :=
  let kept := if s.published.length = publishedTicks then s.published.drop 1 else s.published
  { s with published := kept ++ [observation], progress := some observation }

/-- A later observation may not fall behind an earlier one. -/
def Follows (clock : DurableClock) (started : Instant) (previous : HeartbeatObservation) : Prop :=
  previous.started ≤ started ∧ previous.clock.version ≤ clock.version ∧
    previous.clock.watermark ≤ clock.watermark ∧
    (clock.version = previous.clock.version → clock.watermark = previous.clock.watermark)

instance (clock : DurableClock) (started : Instant) (previous : HeartbeatObservation) :
    Decidable (Follows clock started previous) :=
  inferInstanceAs (Decidable (_ ∧ _))

def validateProgress (s : State) (clock : DurableClock) (started now : Instant) : Result Unit := do
  ensure TemporalUnavailable.quarantined.failure (s.quarantined = false)
  ensure TemporalUnavailable.stale.failure (recent started now)
  ensure TemporalUnavailable.notStarted.failure (0 < clock.version)
  match s.progress with
  | some previous => ensure TemporalUnavailable.inconsistent.failure (Follows clock started previous)
  | none => return ()

def committedAt (s : State) (tick : CommittedTick) (now : Instant) : Result State := do
  validateProgress s tick.clock tick.started now
  let s := { s with startupComplete := true, freshSince := some tick.started }
  return s.publish { clock := tick.clock, started := tick.started }

/-- The row is the last published tick, or newer than it. -/
def Current (clock progress : DurableClock) : Prop :=
  progress.version ≤ clock.version ∧ progress.watermark ≤ clock.watermark ∧ 0 < clock.version ∧
    (clock.version ≠ progress.version ∨ clock.watermark = progress.watermark)

instance (clock progress : DurableClock) : Decidable (Current clock progress) :=
  inferInstanceAs (Decidable (_ ∧ _))

/-- The row is a published tick that is still fresh. -/
def Earlier (published : List HeartbeatObservation) (clock : DurableClock) (now : Instant) : Prop :=
  ∃ tick ∈ published, tick.clock = clock ∧ recent tick.started now

instance (published : List HeartbeatObservation) (clock : DurableClock) (now : Instant) :
    Decidable (Earlier published clock now) :=
  inferInstanceAs (Decidable (∃ tick ∈ published, _))

def attemptAt (s : State) (clock : DurableClock) (now : Instant) : Result Int := do
  ensure TemporalUnavailable.quarantined.failure (s.quarantined = false)
  let since ← context TemporalUnavailable.notStarted.failure s.freshSince
  ensure TemporalUnavailable.stale.failure (recent since now)
  let progress ← context TemporalUnavailable.notStarted.failure s.progress
  ensure TemporalUnavailable.inconsistent.failure
    (Current clock progress.clock ∨ Earlier s.published clock now)
  return clock.watermark

/-- An attempt reads the clock row of its own snapshot. -/
def attempt (s : State) (row : Option ClockRow) (now : Instant) : Result Int := do
  let clock ← read row
  attemptAt s clock now

/-! ## Runs -/

/-- A process: its shared state and the credential mark, the confirmed ticks it has still to
publish, and a record of all it committed and published since it started, newest first. -/
structure Process where
  freshness : State := {}
  observed : Int := 0
  returned : List CommittedTick := []
  committed : List CommittedTick := []
  log : List CommittedTick := []
  deriving DecidableEq, Repr

/-- The durable row and the processes that share it. -/
structure World where
  row : Option ClockRow
  process : Nat → Process

/-- How a commit ends: acknowledged, done without an acknowledgement, or not done. -/
inductive Outcome where
  | confirmed
  | unacknowledged
  | failed
  deriving DecidableEq, Repr

/-- One event of a run.  All readings are free: {lit}`wall` in milliseconds of either sign,
{lit}`started` and {lit}`now` of the monotonic clock. -/
inductive Event where
  | tick (process : Nat) (wall : Int) (started : Instant) (outcome : Outcome)
  | publish (process : Nat) (tick : CommittedTick) (now : Instant)
  | request (process : Nat) (seconds : Int)
  | quarantine (process : Nat)
  | restart (process : Nat)
  | restore (row : Option ClockRow)
  deriving DecidableEq, Repr

def World.set (w : World) (i : Nat) (p : Process) : World :=
  { w with process := Function.update w.process i p }

/-- The commit of a tick: the row is written unless the commit failed, and only an acknowledged
commit gives the process evidence of it. -/
def World.commitTick (w : World) (i : Nat) (wall : Int) (started : Instant) (outcome : Outcome) :
    World :=
  let p := w.process i
  match tick w.row p.observed wall started with
  | (memory, .error _) => w.set i { p with observed := memory }
  | (memory, .ok (row, tick)) =>
      match outcome with
      | .failed => w.set i { p with observed := memory }
      | .unacknowledged => { w.set i { p with observed := memory } with row := some row }
      | .confirmed =>
          let p := { p with
            observed := memory
            returned := tick :: p.returned
            committed := tick :: p.committed }
          { w.set i p with row := some row }

/-- The source's {lit}`publish_clock`, which consumes a tick the process committed. -/
def World.publishClock (w : World) (i : Nat) (tick : CommittedTick) (now : Instant) : World :=
  let p := w.process i
  if tick ∈ p.returned then
    let p := { p with returned := p.returned.erase tick }
    match committedAt p.freshness tick now with
    | .error _ => w.set i p
    | .ok freshness =>
        w.set i { p with
          freshness := freshness
          observed := max p.observed tick.credentialSeconds
          log := tick :: p.log }
  else
    w

/-- A request observes the credential clock, which shares the row. -/
def World.observeRequest (w : World) (i : Nat) (seconds : Int) : World :=
  let p := w.process i
  match w.row with
  | none => w
  | some row =>
      match observeClockWrite row.observed seconds p.observed with
      | (memory, .error _) => w.set i { p with observed := memory }
      | (memory, .ok observed) =>
          { w.set i { p with observed := memory } with
            row := some { row with observed := observed.persisted } }

def World.quarantine (w : World) (i : Nat) : World :=
  let p := w.process i
  w.set i { p with freshness := { p.freshness with quarantined := true } }

def World.apply (w : World) : Event → World
  | .tick i wall started outcome => w.commitTick i wall started outcome
  | .publish i tick now => w.publishClock i tick now
  | .request i seconds => w.observeRequest i seconds
  | .quarantine i => w.quarantine i
  | .restart i => w.set i {}
  | .restore row => { w with row := row }

def World.run (w : World) (events : List Event) : World :=
  events.foldl World.apply w

/-- Any durable row, and processes that have only started. -/
def World.start (row : Option ClockRow) : World :=
  { row := row, process := fun _ => {} }

/-- The event is a tick whose commit took effect. -/
def World.commits (w : World) : Event → Bool
  | .tick i wall started outcome =>
      outcome != .failed && (tick w.row (w.process i).observed wall started).2.isOk
  | _ => false

/-- How many ticks of a run took effect. -/
def World.commitCount (w : World) : List Event → Nat
  | [] => 0
  | event :: events => (w.commits event).toNat + (w.apply event).commitCount events

/-- The event replaces the durable row from outside. -/
def Event.restores : Event → Bool
  | .restore _ => true
  | _ => false

/-! ## What a tick writes -/

structure Ticked (row row' : ClockRow) (tick : CommittedTick) : Prop where
  version : row'.lifecycleVersion = row.lifecycleVersion + 1
  watermark : row.lifecycleMs ≤ row'.lifecycleMs
  clock : tick.clock = { watermark := row'.lifecycleMs, version := row'.lifecycleVersion }

theorem read_spec {row : Option ClockRow} {clock : DurableClock} (h : read row = .ok clock) :
    ∃ r, row = some r ∧ clock = { watermark := r.lifecycleMs, version := r.lifecycleVersion } := by
  simp only [read, fromUnixMillis, bind_eq_ok, context_eq_ok, ensure_eq_ok] at h
  rcases h with ⟨r, present, watermark, ⟨_, _, same⟩, _, _, result⟩
  cases same
  cases result
  exact ⟨r, present, rfl⟩

theorem tickSampled_spec {row : Option ClockRow} {memory wall : Int} {started : Instant}
    {row' : ClockRow} {tick : CommittedTick}
    (h : (tickSampled row memory wall started).2 = .ok (row', tick)) :
    ∃ r, row = some r ∧ Ticked r row' tick := by
  cases row with
  | none => cases h
  | some r =>
      simp only [tickSampled, bind_eq_ok, ensure_eq_ok] at h
      rcases h with ⟨observed, _, _, _, previous, seen, _, _, _, _, result⟩
      rcases read_spec seen with ⟨_, same, rfl⟩
      cases same
      simp only [ClockRow.advance, and_self, if_true] at result
      cases result
      exact ⟨r, rfl, ⟨rfl, le_max_left r.lifecycleMs wall, rfl⟩⟩

/-- A successful tick adds one to the version, keeps the watermark or raises it, and returns
evidence of exactly the row it wrote. -/
theorem tick_spec {row : Option ClockRow} {memory wall : Int} {started : Instant}
    {row' : ClockRow} {tick : CommittedTick}
    (h : (LifecycleClock.tick row memory wall started).2 = .ok (row', tick)) :
    ∃ r, row = some r ∧ Ticked r row' tick := by
  unfold LifecycleClock.tick at h
  split at h
  · exact tickSampled_spec h
  · cases h

/-! ## The durable row along a run -/

/-- The part of the row that holds lifecycle time. -/
def ClockRow.lifecycle (row : ClockRow) : DurableClock :=
  { watermark := row.lifecycleMs, version := row.lifecycleVersion }

@[simp]
theorem World.set_row (w : World) (i : Nat) (p : Process) : (w.set i p).row = w.row :=
  rfl

@[simp]
theorem World.set_process_self (w : World) (i : Nat) (p : Process) : (w.set i p).process i = p := by
  simp only [set, Function.update_self]

theorem World.set_process_ne (w : World) {i j : Nat} (p : Process) (h : j ≠ i) :
    (w.set i p).process j = w.process j := by
  simp only [set, Function.update_of_ne h]

theorem World.commit_row {w : World} {event : Event} (h : w.commits event = true) :
    ∃ row row', w.row = some row ∧ (w.apply event).row = some row' ∧
      row'.lifecycleVersion = row.lifecycleVersion + 1 ∧ row.lifecycleMs ≤ row'.lifecycleMs := by
  cases event with
  | tick i wall started outcome =>
      simp only [commits, Bool.and_eq_true, bne_iff_ne, ne_eq] at h
      rcases h with ⟨kept, ok⟩
      cases ticked : LifecycleClock.tick w.row (w.process i).observed wall started with
      | mk memory result =>
          rw [ticked] at ok
          cases result with
          | error e => cases ok
          | ok written =>
              rcases tick_spec (congrArg Prod.snd ticked) with ⟨row, present, spec⟩
              refine ⟨row, written.1, present, ?_, spec.version, spec.watermark⟩
              cases outcome with
              | failed => exact absurd rfl kept
              | confirmed => simp only [apply, commitTick, ticked]
              | unacknowledged => simp only [apply, commitTick, ticked]
  | publish | request | quarantine | restart | restore => cases h

/-- Nothing but a committed tick and a restored database touches lifecycle time. -/
theorem World.idle_row {w : World} {event : Event} (idle : w.commits event = false)
    (kept : event.restores = false) :
    (w.apply event).row.map ClockRow.lifecycle = w.row.map ClockRow.lifecycle := by
  cases event with
  | tick i wall started outcome =>
      simp only [commits, Bool.and_eq_false_iff, bne_eq_false_iff_eq] at idle
      cases ticked : LifecycleClock.tick w.row (w.process i).observed wall started with
      | mk memory result =>
          cases result with
          | error e => simp only [apply, commitTick, ticked, set_row]
          | ok written =>
              rw [ticked] at idle
              rcases idle with rfl | failed
              · simp only [apply, commitTick, ticked, set_row]
              · cases failed
  | publish i tick now =>
      simp only [apply, publishClock]
      split
      · split <;> rfl
      · rfl
  | request i seconds =>
      simp only [apply, observeRequest]
      split
      · rfl
      · next row present =>
        split
        · rfl
        · rw [present]
          rfl
  | quarantine i => rfl
  | restart i => rfl
  | restore row => cases kept

/-- Without a restored database the version counts the committed ticks and the watermark never
falls. -/
theorem World.run_row {w : World} {row : ClockRow} (h : w.row = some row) (events : List Event)
    (kept : ∀ event ∈ events, event.restores = false) :
    ∃ row', (w.run events).row = some row' ∧
      row'.lifecycleVersion = row.lifecycleVersion + w.commitCount events ∧
      row.lifecycleMs ≤ row'.lifecycleMs := by
  induction events generalizing w row with
  | nil => exact ⟨row, h, by simp [commitCount], le_refl _⟩
  | cons event events ih =>
      have rest : ∀ event ∈ events, event.restores = false := fun e member =>
        kept e (List.mem_cons_of_mem event member)
      cases committed : w.commits event with
      | true =>
          rcases World.commit_row committed with ⟨before, next, present, written, version, watermark⟩
          rw [h] at present
          cases present
          rcases ih written rest with ⟨last, reached, count, later⟩
          refine ⟨last, reached, ?_, le_trans watermark later⟩
          rw [count, version, commitCount, committed, Bool.toNat_true]
          omega
      | false =>
          have same := World.idle_row committed (kept event List.mem_cons_self)
          rw [h, Option.map_some, Option.map_eq_some_iff] at same
          rcases same with ⟨next, written, equal⟩
          simp only [ClockRow.lifecycle, DurableClock.mk.injEq] at equal
          rcases ih written rest with ⟨last, reached, count, later⟩
          refine ⟨last, reached, ?_, equal.1 ▸ later⟩
          rw [count, equal.2, commitCount, committed, Bool.toNat_false]
          omega

/-! ## What a process knows -/

def CommittedTick.observation (tick : CommittedTick) : HeartbeatObservation :=
  { clock := tick.clock, started := tick.started }

def CommittedTick.After (newer older : CommittedTick) : Prop :=
  Follows newer.clock newer.started older.observation

/-- The memory of a process is the record of its published ticks, of which the newest proves
freshness. -/
structure Process.Sound (p : Process) : Prop where
  returned : ∀ tick ∈ p.returned, tick ∈ p.committed
  log : ∀ tick ∈ p.log, tick ∈ p.committed
  ordered : p.log.Pairwise CommittedTick.After
  progress : p.freshness.progress = p.log.head?.map CommittedTick.observation
  fresh : p.freshness.freshSince = p.log.head?.map CommittedTick.started
  published : ∀ seen ∈ p.freshness.published, ∃ tick ∈ p.log, tick.observation = seen

theorem Process.Sound.start : Process.Sound {} where
  returned := by intro _ h; cases h
  log := by intro _ h; cases h
  ordered := List.Pairwise.nil
  progress := rfl
  fresh := rfl
  published := by intro _ h; cases h

section Process

variable {p : Process} {newer older : CommittedTick}

theorem CommittedTick.After.trans {first second third : CommittedTick} (h : first.After second)
    (h' : second.After third) : first.After third := by
  simp only [After, Follows, observation] at *
  rcases h with ⟨started, version, watermark, same⟩
  rcases h' with ⟨started', version', watermark', same'⟩
  refine ⟨le_trans started' started, le_trans version' version, le_trans watermark' watermark, ?_⟩
  intro equal
  rw [same (by omega), same' (by omega)]

/-- A tick that was accepted follows every tick published before it. -/
theorem validateProgress_spec (sound : p.Sound) {tick : CommittedTick} {now : Instant}
    (h : validateProgress p.freshness tick.clock tick.started now = .ok ()) :
    ∀ older ∈ p.log, tick.After older := by
  simp only [validateProgress, bind_eq_ok, ensure_eq_ok] at h
  rcases h with ⟨_, _, _, _, _, _, follows⟩
  rw [sound.progress] at follows
  cases records : p.log with
  | nil => intro older member; cases member
  | cons last before =>
      rw [records] at follows
      simp only [List.head?_cons, Option.map_some, ensure_eq_ok] at follows
      have after : tick.After last := follows
      have ordered := sound.ordered
      rw [records, List.pairwise_cons] at ordered
      intro older member
      rcases List.mem_cons.mp member with rfl | member
      · exact after
      · exact after.trans (ordered.1 older member)

/-- The newest tick is not behind any published one. -/
theorem Process.Sound.follows_last (sound : p.Sound) {last : CommittedTick}
    (newest : p.log.head? = some last) (member : older ∈ p.log) :
    older.clock.version ≤ last.clock.version ∧ older.clock.watermark ≤ last.clock.watermark := by
  cases records : p.log with
  | nil => rw [records] at member; cases member
  | cons first before =>
      rw [records] at newest member
      cases newest
      have ordered := sound.ordered
      rw [records, List.pairwise_cons] at ordered
      rcases List.mem_cons.mp member with rfl | member
      · exact ⟨le_refl _, le_refl _⟩
      · exact ⟨(ordered.1 older member).2.1, (ordered.1 older member).2.2.1⟩

/-- Two published ticks are one, or one of them came after the other. -/
theorem Process.Sound.ordered_mem (sound : p.Sound) (member : older ∈ p.log)
    (member' : newer ∈ p.log) : older = newer ∨ older.After newer ∨ newer.After older := by
  by_cases same : older = newer
  · exact .inl same
  · have both : p.log.Pairwise fun a b => a.After b ∨ b.After a :=
      sound.ordered.imp Or.inl
    have symmetric : Std.Symm fun a b : CommittedTick => a.After b ∨ b.After a :=
      ⟨fun _ _ h => h.symm⟩
    exact .inr (both.forall member member' same)

theorem State.mem_publish {s : State} {observation seen : HeartbeatObservation}
    (h : seen ∈ (s.publish observation).published) : seen ∈ s.published ∨ seen = observation := by
  simp only [publish, List.mem_append, List.mem_singleton] at h
  refine h.imp_left fun kept => ?_
  split at kept
  · exact List.mem_of_mem_drop kept
  · exact kept

/-- Publishing keeps the memory of a process sound. -/
theorem Process.Sound.publish (sound : p.Sound) {tick : CommittedTick} {now : Instant}
    {freshness : State} (member : tick ∈ p.returned)
    (h : committedAt p.freshness tick now = .ok freshness) (observed : Int) :
    Process.Sound { p with
      returned := p.returned.erase tick
      freshness := freshness
      observed := observed
      log := tick :: p.log } := by
  simp only [committedAt, bind_eq_ok] at h
  rcases h with ⟨_, valid, result⟩
  cases result
  constructor
  · exact fun t here => sound.returned t (List.mem_of_mem_erase here)
  · intro t here
    rcases List.mem_cons.mp here with rfl | here
    · exact sound.returned t member
    · exact sound.log t here
  · exact List.pairwise_cons.mpr ⟨validateProgress_spec sound valid, sound.ordered⟩
  · rfl
  · rfl
  · intro seen here
    rcases State.mem_publish here with here | rfl
    · rcases sound.published seen here with ⟨t, logged, same⟩
      exact ⟨t, List.mem_cons_of_mem tick logged, same⟩
    · exact ⟨tick, List.mem_cons_self, rfl⟩

theorem Process.Sound.observe (sound : p.Sound) (memory : Int) :
    Process.Sound { p with observed := memory } :=
  ⟨sound.returned, sound.log, sound.ordered, sound.progress, sound.fresh, sound.published⟩

theorem Process.Sound.commit (sound : p.Sound) (memory : Int) (tick : CommittedTick) :
    Process.Sound { p with
      observed := memory
      returned := tick :: p.returned
      committed := tick :: p.committed } := by
  refine ⟨?_, ?_, sound.ordered, sound.progress, sound.fresh, sound.published⟩
  · intro t here
    rcases List.mem_cons.mp here with rfl | here
    · exact List.mem_cons_self
    · exact List.mem_cons_of_mem tick (sound.returned t here)
  · exact fun t here => List.mem_cons_of_mem tick (sound.log t here)

theorem Process.Sound.consume (sound : p.Sound) (tick : CommittedTick) :
    Process.Sound { p with returned := p.returned.erase tick } :=
  ⟨fun t here => sound.returned t (List.mem_of_mem_erase here), sound.log, sound.ordered,
    sound.progress, sound.fresh, sound.published⟩

theorem Process.Sound.quarantine (sound : p.Sound) :
    Process.Sound { p with freshness := { p.freshness with quarantined := true } } :=
  ⟨sound.returned, sound.log, sound.ordered, sound.progress, sound.fresh, sound.published⟩

end Process

/-! ## Every world of a run -/

def World.Sound (w : World) : Prop :=
  ∀ i, (w.process i).Sound

theorem World.Sound.set {w : World} (sound : w.Sound) {i : Nat} {p : Process} (h : p.Sound) :
    (w.set i p).Sound := by
  intro j
  by_cases same : j = i
  · rw [same, World.set_process_self]
    exact h
  · rw [World.set_process_ne w p same]
    exact sound j

/-- Every event keeps every process sound. -/
theorem World.Sound.apply {w : World} (sound : w.Sound) (event : Event) : (w.apply event).Sound := by
  cases event with
  | tick i wall started outcome =>
      simp only [World.apply, commitTick]
      split
      · exact sound.set ((sound i).observe _)
      · split
        · exact sound.set ((sound i).observe _)
        · exact sound.set ((sound i).observe _)
        · exact sound.set ((sound i).commit _ _)
  | publish i tick now =>
      simp only [World.apply, publishClock]
      split
      · next member =>
        split
        · exact sound.set ((sound i).consume tick)
        · next freshness accepted =>
          exact sound.set ((sound i).publish member accepted _)
      · exact sound
  | request i seconds =>
      simp only [World.apply, observeRequest]
      split
      · exact sound
      · split
        · exact sound.set ((sound i).observe _)
        · exact sound.set ((sound i).observe _)
  | quarantine i => exact sound.set (sound i).quarantine
  | restart i => exact sound.set .start
  | restore row => exact sound

theorem World.Sound.run {w : World} (sound : w.Sound) (events : List Event) :
    (w.run events).Sound := by
  induction events generalizing w with
  | nil => exact sound
  | cons event events ih => exact ih (sound.apply event)

/-! ## Attempts -/

/-- What an accepted attempt tells about the clock it read: the process published a tick that is
still fresh, and the clock is one of these ticks or newer than the last one. -/
structure Accepted (p : Process) (clock : DurableClock) (now : Instant) : Prop where
  running : p.freshness.quarantined = false
  evidence : ∃ last ∈ p.log, p.log.head? = some last ∧ recent last.started now ∧
    ((∃ tick ∈ p.log, tick.clock = clock ∧ recent tick.started now) ∨
      (last.clock.version < clock.version ∧ last.clock.watermark ≤ clock.watermark))

/-- The clock went back from the newer one. -/
def DurableClock.Behind (clock newer : DurableClock) : Prop :=
  clock.version < newer.version ∨ clock.watermark < newer.watermark ∨
    (clock.version = newer.version ∧ clock.watermark ≠ newer.watermark)

section Attempts

variable {p : Process} {clock : DurableClock} {now : Instant} {time : Int}

theorem attemptAt_spec (sound : p.Sound) (h : attemptAt p.freshness clock now = .ok time) :
    time = clock.watermark ∧ Accepted p clock now := by
  simp only [attemptAt, bind_eq_ok, ensure_eq_ok, context_eq_ok] at h
  rcases h with ⟨_, running, since, started, _, fresh, progress, latest, _, accepted, result⟩
  cases result
  rw [sound.fresh, Option.map_eq_some_iff] at started
  rcases started with ⟨last, newest, rfl⟩
  rw [sound.progress, newest, Option.map_some, Option.some.injEq] at latest
  subst latest
  have member : last ∈ p.log := List.mem_of_mem_head? newest
  refine ⟨rfl, running, last, member, newest, fresh, ?_⟩
  rcases accepted with ⟨version, watermark, _, same⟩ | ⟨seen, here, equal, recently⟩
  · rcases same with different | equal
    · exact .inr ⟨lt_of_le_of_ne version (Ne.symm different), watermark⟩
    · by_cases different : clock.version = last.clock.version
      · refine .inl ⟨last, member, ?_, fresh⟩
        exact (DurableClock.ext_iff.mpr ⟨equal, different⟩).symm
      · exact .inr ⟨lt_of_le_of_ne version (Ne.symm different), watermark⟩
  · rcases sound.published seen here with ⟨tick, logged, rfl⟩
    exact .inl ⟨tick, logged, equal, recently⟩

/-- A clock that went back from a published tick is itself a published tick, still fresh. -/
theorem Accepted.regression (sound : p.Sound) (h : Accepted p clock now) {newer : CommittedTick}
    (member : newer ∈ p.log) (behind : clock.Behind newer.clock) :
    ∃ tick ∈ p.log, tick.clock = clock ∧ recent tick.started now := by
  rcases h.evidence with ⟨last, _, newest, _, found | ⟨version, watermark⟩⟩
  · exact found
  · exfalso
    have follows := sound.follows_last newest member
    rcases behind with back | back | ⟨back, _⟩ <;> omega

/-- Every tick that started a whole freshness bound ago is at or below the time handed out. -/
theorem Accepted.horizon (sound : p.Sound) (h : Accepted p clock now) {tick : CommittedTick}
    (member : tick ∈ p.log) (old : tick.started + freshnessLimit ≤ now) :
    tick.clock.watermark ≤ clock.watermark := by
  rcases h.evidence with ⟨last, _, newest, _, ⟨fresh, logged, rfl, recently⟩ | ⟨_, watermark⟩⟩
  · rcases sound.ordered_mem member logged with rfl | after | after
    · exact le_refl _
    · have started : fresh.started ≤ tick.started := after.1
      have elapsed : fresh.started + freshnessLimit ≤ now :=
        le_trans (Nat.add_le_add_right started freshnessLimit) old
      exact absurd recently.2 (Nat.not_lt.mpr (Nat.le_sub_of_add_le' elapsed))
    · exact after.2.2.1
  · exact le_trans (sound.follows_last newest member).2 watermark

theorem attempt_spec (sound : p.Sound) {row : Option ClockRow}
    (h : attempt p.freshness row now = .ok time) :
    ∃ clock, read row = .ok clock ∧ time = clock.watermark ∧ Accepted p clock now := by
  simp only [attempt, bind_eq_ok] at h
  rcases h with ⟨clock, seen, accepted⟩
  exact ⟨clock, seen, attemptAt_spec sound accepted⟩

end Attempts

/-! ## The promises of the clock -/

/-- What holds of one world of a run.  An attempt may have read any row, of an old snapshot or
of a restored database, at any reading of the monotonic clock. -/
structure Promises (w : World) : Prop where
  /-- A committed tick adds one to the version and never lowers the watermark. -/
  commits : ∀ event, w.commits event = true → ∃ row row', w.row = some row ∧
    (w.apply event).row = some row' ∧ row'.lifecycleVersion = row.lifecycleVersion + 1 ∧
    row.lifecycleMs ≤ row'.lifecycleMs
  /-- While no database is restored the version counts the committed ticks. -/
  history : ∀ row, w.row = some row → ∀ events, (∀ event ∈ events, event.restores = false) →
    ∃ row', (w.run events).row = some row' ∧
      row'.lifecycleVersion = row.lifecycleVersion + w.commitCount events ∧
      row.lifecycleMs ≤ row'.lifecycleMs
  /-- A process publishes only ticks that it committed itself. -/
  published : ∀ i, ∀ tick ∈ (w.process i).log, tick ∈ (w.process i).committed
  /-- An attempt gets the watermark it read, and only with fresh evidence. -/
  attempts : ∀ i row now time, attempt (w.process i).freshness row now = .ok time →
    ∃ clock, read row = .ok clock ∧ time = clock.watermark ∧ Accepted (w.process i) clock now
  /-- A clock that went back from a published tick is a published tick, still fresh. -/
  regressions : ∀ i row now time, attempt (w.process i).freshness row now = .ok time →
    ∀ clock, read row = .ok clock → ∀ newer ∈ (w.process i).log, clock.Behind newer.clock →
      ∃ tick ∈ (w.process i).log, tick.clock = clock ∧ recent tick.started now
  /-- No attempt gets less than a published tick that started a freshness bound ago. -/
  horizon : ∀ i row now time, attempt (w.process i).freshness row now = .ok time →
    ∀ tick ∈ (w.process i).log, tick.started + freshnessLimit ≤ now → tick.clock.watermark ≤ time

theorem World.Sound.promises {w : World} (sound : w.Sound) : Promises w where
  commits _ := World.commit_row
  history _ := World.run_row
  published i := (sound i).log
  attempts i _ _ _ := attempt_spec (sound i)
  regressions := by
    intro i row now time accepted clock seen newer member behind
    rcases attempt_spec (sound i) accepted with ⟨clock', seen', _, evidence⟩
    cases seen.symm.trans seen'
    exact evidence.regression (sound i) member behind
  horizon := by
    intro i row now time accepted tick member old
    rcases attempt_spec (sound i) accepted with ⟨clock, _, rfl, evidence⟩
    exact evidence.horizon (sound i) member old

/-- Whatever ticks, commits, failures, restarts and restored databases came before, and whatever
the clocks read, the promises hold. -/
theorem lifecycle_clock_exact (row : Option ClockRow) (events : List Event) :
    Promises ((World.start row).run events) :=
  World.Sound.promises (World.Sound.run (fun _ => .start) events)

/-- A process publishes one tick, commits a second after the wall clock went an hour ahead, and
an attempt reads that row before it is published; then an older database is restored and the next
attempt reads the first row.  The first attempt sees no published tick, and the time handed out
goes back by an hour within a tenth of a second. -/
theorem unpublished_row_accepted :
    let first : CommittedTick := ⟨⟨1000, 1⟩, 0, 1⟩
    let w := (World.start (some ⟨0, 0, 0⟩)).run
      [.tick 0 1000 0 .confirmed, .publish 0 first 0, .tick 0 3601000 1000000000 .confirmed]
    let restored := w.apply (.restore (some ⟨1, 1000, 1⟩))
    read w.row = .ok ⟨3601000, 2⟩ ∧
    attempt (w.process 0).freshness w.row 1000000000 = .ok 3601000 ∧
    (¬ ∃ tick ∈ (w.process 0).log, tick.clock = ⟨3601000, 2⟩) ∧
    attempt (restored.process 0).freshness restored.row 1100000000 = .ok 1000 := by
  refine ⟨by rfl, by rfl, by decide, by rfl⟩

end Noxide.LifecycleClock
