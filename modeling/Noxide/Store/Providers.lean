import Mathlib.Data.List.Nodup
import Noxide.Library.Metered
import Noxide.Store.Meter

/-!
# Database providers of a request

A PostgreSQL provider from its admission to its end: the connection is opened and set up, the
request sends statements, and the stop cancels what may still run, closes the connection and
checks until the backend is gone.  The stop spends reserved units only.  What the server, the
clock and the request do is left open.

Main results:

- Theorem {lit}`costs_stop`: a stop spends at most 37 units, on every path.
- Theorem {lit}`provider_cleanup_suffices`: in every interleaving of the providers and statements of
  a request no stop is refused a unit.
-/

namespace Noxide.Provider

open Metered

/-! ## Waiting -/

/-- What a statement, a connection or a check of the clock comes to. -/
inductive Outcome where
  | answered (yes : Bool)
  | failed
  /-- The deadline of the whole part passed. -/
  | elapsed
  deriving DecidableEq, Repr

inductive StopFailure where
  | statementLimit
  | unconfirmed
  | terminationUnconfirmed
  | failed
  | elapsed
  deriving DecidableEq, Repr

abbrev Stop := Fallible Outcome StopFailure

/-- The answer of a statement. -/
def answer : Stop Bool :=
  wait fun
    | .answered yes => .ok yes
    | .failed => .error .failed
    | .elapsed => .error .elapsed

/-- Reserved units that a cleanup spends; a refusal is the source's {lit}`StatementLimit`. -/
def chargeOne : Stop Unit := charge .statementLimit

/-- The deadline of a part ends the whole, its other failures do not. -/
def StopFailure.isElapsed : StopFailure → Bool
  | .elapsed => true
  | _ => false

/-- Go on after any failure but the deadline of the whole. -/
def ignoring {α : Type} (x : Stop α) : Stop (Option α) := attempt StopFailure.isElapsed x

/-! ## The control connection -/

/-- The source's {lit}`Control::configure`: the deadline, and the timeout of the next statement. -/
def configure : Stop Unit := do
  let _ ← answer
  chargeOne
  let _ ← answer
  return ()

def cancel : Stop Unit := do
  configure
  chargeOne
  let _ ← answer
  return ()

/-- The checks of the source's {lit}`Control::stopped`. -/
def stopChecks : Nat := 16

/-- Pause and check again while the backend is there. -/
def again (next : Stop Unit) (present : Bool) : Stop Unit :=
  if present then do
    let _ ← ignoring answer
    next
  else return ()

/-- Check until the backend is gone. -/
def stoppedWithin : Nat → Stop Unit
  | 0 => throw .terminationUnconfirmed
  | attempts + 1 => do
      configure
      chargeOne
      let present ← answer
      again (stoppedWithin attempts) present

def stopped : Stop Unit := stoppedWithin stopChecks

/-! ## Stop -/

/-- The connection of a provider as its stop finds it. -/
structure Ordinary where
  /-- The work connection exists. -/
  connected : Bool
  control : Bool
  started : Bool
  setup : Bool
  active : Bool
  inFlight : Bool
  deriving DecidableEq, Repr

/-- Give back the maintenance gate after an acknowledged COMMIT. -/
def unlock : Stop Unit := do
  let _ ← answer
  chargeOne
  let _ ← answer
  chargeOne
  let _ ← answer
  return ()

/-- What may still run is cancelled and rolled back. -/
def interrupt : Stop Unit := do
  cancel
  chargeOne
  let _ ← ignoring answer
  return ()

/-- Whether something may still run: an idle connection gives back the gate first. -/
def stillRunning (o : Ordinary) : Stop Bool :=
  if o.active = false ∧ o.inFlight = false ∧ o.setup = false then do
    let unlocked ← ignoring unlock
    return unlocked.isNone
  else return o.inFlight

def interruptIf (running : Bool) : Stop Unit :=
  if running then interrupt else return ()

/-- The end of a connection that has a control connection. -/
def stopConnected (o : Ordinary) : Stop Unit := do
  let inFlight ← stillRunning o
  interruptIf (o.active || inFlight || o.setup)
  let _ ← ignoring answer
  stopped
  let _ ← answer
  return ()

def stop (o : Ordinary) : Stop Unit :=
  if o.connected then
    if o.control then stopConnected o else throw .unconfirmed
  else if o.started then throw .unconfirmed
  else return ()

/-! ## Opening -/

/-- Opening ends early with the connection as it then is. -/
abbrev Open := Fallible Outcome Ordinary

/-- Wait, and give up where the wait fails or refuses. -/
def expect (o : Ordinary) : Open Unit :=
  wait fun
    | .answered true => .ok ()
    | _ => .error o

/-- A unit of the work budget, or the end of the opening. -/
def workOne (o : Ordinary) : Open Unit :=
  ExceptT.mk (.work fun granted => .done (if granted then .ok () else .error o))

/-- The statements that set a connection up: two checks, a setting, the gate and BEGIN. -/
def setupStatements : Nat := 5

def setUp (o : Ordinary) : Nat → Open Unit
  | 0 => return ()
  | statements + 1 => do
      workOne o
      expect o
      setUp o statements

def notStarted : Ordinary where
  connected := false
  control := false
  started := false
  setup := true
  active := false
  inFlight := false

/-- The source's {lit}`open_inner` for PostgreSQL. -/
def openPostgres : Open Ordinary := do
  -- The deadline and the random name of the connection.
  expect notStarted
  expect notStarted
  let connecting := { notStarted with started := true }
  expect connecting
  let connected := { connecting with connected := true }
  -- The identity of the backend, the deadline and the control connection.
  charge connected
  expect connected
  expect connected
  expect connected
  let controlled := { connected with control := true }
  setUp controlled setupStatements
  return { controlled with active := true, setup := false }

/-! ## Statements of the request -/

/-- What a request does with its transaction, as far as it decides on the answers. -/
inductive Usage where
  | finish
  | statement (next : Bool → Usage)
  | commit (next : Usage)

/-- A statement that waits for its answer; without one it stays in flight. -/
def execute (o : Ordinary) : Program Outcome (Bool × Ordinary) :=
  .work fun granted =>
    if granted then
      .ask fun result =>
        if result = .answered true then .done (true, { o with inFlight := false })
        else .done (false, { o with inFlight := true })
    else .done (false, o)

/-- The checkpoint of the request, the timeout, and the statement itself. -/
def send (o : Ordinary) : Program Outcome (Bool × Ordinary) :=
  .ask fun alive =>
    if alive = .answered true then
      (execute o).bind fun (set, o) => if set then execute o else .done (false, o)
    else .done (false, o)

def use (o : Ordinary) : Usage → Program Outcome Ordinary
  | .finish => .done o
  | .statement next => (send o).bind fun (sent, o) => use o (next sent)
  | .commit next => (send o).bind fun (sent, o) =>
      if sent then .done { o with active := false } else use o next

/-! ## The whole life -/

inductive Finish where
  | confirmed
  | quarantined (failure : StopFailure)
  deriving DecidableEq, Repr

/-- The end of a provider; one that never started needs no confirmation. -/
def finish (o : Ordinary) : Program Outcome Finish :=
  (stop o).run.bind fun result =>
    match result with
    | .ok () => .done .confirmed
    | .error failure => .done (if o.started then .quarantined failure else .confirmed)

/-- A provider from its admission on: a failed opening is stopped like a used one. -/
def life (usage : Usage) : Program Outcome Finish :=
  openPostgres.run.bind fun result =>
    match result with
    | .ok o => (use o usage).bind finish
    | .error o => finish o

/-! ## Costs -/

/-- The cost of a part that is never refused a unit. -/
abbrev Affords {α : Type} (n : Nat) (x : Stop α) : Prop := Costs (fun e => e ≠ .statementLimit) n x

theorem costs_answer : Affords 0 answer := by
  refine costs_wait fun outcome e failed => ?_
  rintro rfl
  cases outcome <;> cases failed

theorem costs_chargeOne : Affords 1 chargeOne := costs_charge _

theorem costs_ignoring {α : Type} {x : Stop α} {n : Nat} (costs : Affords n x) :
    Affords n (ignoring x) :=
  costs.attempt _

theorem costs_configure : Affords 1 configure :=
  costs_answer.bind fun _ => costs_chargeOne.bind fun _ => costs_answer.bind fun _ => costs_pure ()

theorem costs_cancel : Affords 2 cancel :=
  costs_configure.bind fun _ => costs_chargeOne.bind fun _ => costs_answer.bind fun _ => costs_pure ()

theorem costs_again {n : Nat} {next : Stop Unit} (costs : Affords n next) (present : Bool) :
    Affords n (again next present) := by
  cases present with
  | false => exact (costs_pure ()).mono (Nat.zero_le n)
  | true => exact ((costs_ignoring costs_answer).bind fun _ => costs).mono (Nat.zero_add n).le

/-- Each check is two statements. -/
theorem costs_stoppedWithin (attempts : Nat) : Affords (2 * attempts) (stoppedWithin attempts) := by
  induction attempts with
  | zero => exact costs_throw (by decide)
  | succ attempts ih =>
      have check : Affords (1 + (1 + (0 + 2 * attempts))) (stoppedWithin (attempts + 1)) :=
        costs_configure.bind fun _ => costs_chargeOne.bind fun _ => costs_answer.bind (costs_again ih)
      exact check.mono (by omega)

theorem costs_unlock : Affords 2 unlock :=
  costs_answer.bind fun _ => costs_chargeOne.bind fun _ => costs_answer.bind fun _ =>
    costs_chargeOne.bind fun _ => costs_answer.bind fun _ => costs_pure ()

theorem costs_interruptIf (running : Bool) : Affords 3 (interruptIf running) := by
  cases running with
  | false => exact (costs_pure ()).mono (Nat.zero_le 3)
  | true =>
      exact costs_cancel.bind fun _ => costs_chargeOne.bind fun _ =>
        (costs_ignoring costs_answer).bind fun _ => costs_pure ()

theorem costs_stillRunning (o : Ordinary) : Affords 2 (stillRunning o) := by
  unfold stillRunning
  split
  · exact (costs_ignoring costs_unlock).bind fun _ => costs_pure _
  · exact (costs_pure _).mono (Nat.zero_le 2)

/-- Two units for the gate, three for the interruption, and two for each of sixteen checks. -/
theorem costs_stop (o : Ordinary) : Affords 37 (stop o) := by
  unfold stop
  split
  · split
    · have whole : Affords (2 + (3 + (0 + (2 * stopChecks + (0 + 0))))) (stopConnected o) :=
        (costs_stillRunning o).bind fun _ => (costs_interruptIf _).bind fun _ =>
          (costs_ignoring costs_answer).bind fun _ => (costs_stoppedWithin stopChecks).bind fun _ =>
            costs_answer.bind fun _ => costs_pure ()
      exact whole
    · exact (costs_throw (by decide)).mono (Nat.zero_le 37)
  · split
    · exact (costs_throw (by decide)).mono (Nat.zero_le 37)
    · exact (costs_pure ()).mono (Nat.zero_le 37)

section Opening

theorem costs_expect (o : Ordinary) : Costs (fun _ => True) 0 (expect o) :=
  costs_wait fun _ _ _ => trivial

theorem costs_setUp (o : Ordinary) (statements : Nat) :
    Costs (fun _ => True) 0 (setUp o statements) := by
  induction statements with
  | zero => exact costs_pure ()
  | succ statements ih =>
      have one : Costs (fun _ => True) 0 (workOne o) := fun _ _ _ => trivial
      exact one.bind fun _ => (costs_expect o).bind fun _ => ih

/-- Opening spends one reserved unit. -/
theorem costs_openPostgres : Costs (fun _ => True) 1 openPostgres := by
  unfold openPostgres
  exact (costs_expect _).bind fun _ => (costs_expect _).bind fun _ => (costs_expect _).bind fun _ =>
    (costs_charge _).bind fun _ => (costs_expect _).bind fun _ => (costs_expect _).bind fun _ =>
      (costs_expect _).bind fun _ => (costs_setUp _ _).bind fun _ => costs_pure _

end Opening

section Usage

open Program

theorem execute_within (o : Ordinary) : (execute o).Within (fun _ => True) 0 := by
  intro granted
  cases granted with
  | false => trivial
  | true =>
      intro result
      by_cases answered : result = .answered true
      · simp only [if_pos answered]
        trivial
      · simp only [if_neg answered]
        trivial

theorem send_within (o : Ordinary) : (send o).Within (fun _ => True) 0 := by
  intro alive
  by_cases answered : alive = .answered true
  · simp only [if_pos answered]
    refine Within.bind (n := 0) (m := 0) (execute_within o) fun sent _ => ?_
    split
    · exact execute_within _
    · trivial
  · simp only [if_neg answered]
    trivial

/-- Statements of the request spend no reserved unit. -/
theorem use_within (o : Ordinary) (usage : Usage) : (use o usage).Within (fun _ => True) 0 := by
  induction usage generalizing o with
  | finish => trivial
  | statement next ih => exact (send_within o).bind fun sent _ => ih sent.1 sent.2
  | commit next ih =>
      refine Within.bind (n := 0) (m := 0) (send_within o) fun sent _ => ?_
      simp only
      split
      · trivial
      · exact ih sent.2

/-- The end of a provider that was not refused a unit. -/
def Finish.Fine (finish : Finish) : Prop := finish ≠ .quarantined .statementLimit

theorem finish_within (o : Ordinary) : (finish o).Within Finish.Fine 37 := by
  refine Within.bind (m := 0) (costs_stop o) fun result expected => ?_
  cases result with
  | ok _ => exact fun h => by cases h
  | error failure =>
      simp only
      split
      · intro same
        exact expected failure rfl (Finish.quarantined.inj same)
      · exact fun h => by cases h

/-- A provider spends at most 38 reserved units in its life. -/
theorem life_within (usage : Usage) : (life usage).Within Finish.Fine 38 := by
  refine Within.bind (n := 1) (m := 37) costs_openPostgres fun result _ => ?_
  cases result with
  | ok o =>
      have whole : ((use o usage).bind finish).Within Finish.Fine (0 + 37) :=
        (use_within o usage).bind fun last _ => finish_within last
      exact whole
  | error o => exact finish_within o

end Usage

/-! ## The providers of a request -/

/-- The units reserved for the cleanup of a provider. -/
def postgresCleanup : Nat := 40

/-- A provider at work, with its reservation; without a program its handles are gone. -/
structure Seat where
  cleanup : Nat
  rest : Option (Program Outcome Finish)

/-- The meter of a request and all providers it ever had. -/
structure Request where
  meter : Meter
  seats : List Seat

/-- One event of a request: other work is charged, a provider is admitted, a provider goes on, or
the task of a provider is cut off. -/
inductive Event where
  | charge (statements : Nat)
  | reserve (statements : Nat)
  | begin (usage : Usage)
  | turn (seat : Nat) (outcome : Outcome)
  | cut (seat : Nat)

namespace Request

/-- A call whose answer nobody reads. -/
def call (r : Request) (c : MeterCall) : Option Request := do
  let (_, meter) ← r.meter.apply c
  return { r with meter := meter }

/-- A call on which a provider goes on. -/
def answer (r : Request) (seat : Nat) (cleanup : Nat) (c : MeterCall)
    (next : Bool → Program Outcome Finish) : Option Request := do
  let (granted, meter) ← r.meter.apply c
  return ⟨meter, r.seats.set seat ⟨cleanup, some (next granted)⟩⟩

/-- The handles of a provider go away. -/
def leave (r : Request) (seat : Nat) (cleanup : Nat) : Option Request := do
  let r ← r.call (.dropped cleanup)
  return { r with seats := r.seats.set seat ⟨cleanup, none⟩ }

/-- A provider does its next step. -/
def go (r : Request) (seat cleanup : Nat) (outcome : Outcome) :
    Program Outcome Finish → Option Request
  | .done .confirmed => do
      let r ← r.call (.confirmed cleanup)
      r.leave seat cleanup
  | .done (.quarantined _) => r.leave seat cleanup
  | .spend next => r.answer seat cleanup (.cleanupCharge cleanup 1) next
  | .work next => r.answer seat cleanup (.charge 1) next
  | .ask next => some { r with seats := r.seats.set seat ⟨cleanup, some (next outcome)⟩ }

def step (r : Request) : Event → Option Request
  | .charge statements => r.call (.charge statements)
  | .reserve statements => r.call (.reserve statements)
  | .begin usage => do
      let cleanup := r.meter.cleanups.length
      let (granted, meter) ← r.meter.apply (.reserve postgresCleanup)
      return ⟨meter, if granted then r.seats ++ [⟨cleanup, some (life usage)⟩] else r.seats⟩
  | .turn seat outcome =>
      match r.seats[seat]? with
      | some ⟨cleanup, some rest⟩ => r.go seat cleanup outcome rest
      | _ => some r
  | .cut seat =>
      match r.seats[seat]? with
      | some ⟨cleanup, some _⟩ => r.leave seat cleanup
      | _ => some r

def run (r : Request) : List Event → Option Request
  | [] => some r
  | event :: rest => do
      let r ← r.step event
      r.run rest

/-- A provider at work can pay for everything its program may still spend. -/
def Paid (m : Meter) (seat : Seat) : Prop :=
  ∀ rest, seat.rest = some rest →
    ∃ cleanup, m.live seat.cleanup = some cleanup ∧ rest.Within Finish.Fine cleanup.remaining

/-- The meter is sound, and every provider at work is paid from a reservation of its own. -/
structure Served (r : Request) (limit : Nat) : Prop where
  sound : r.meter.Sound limit
  paid : ∀ seat ∈ r.seats, Paid r.meter seat
  own : (r.seats.map Seat.cleanup).Nodup
  known : ∀ seat ∈ r.seats, seat.cleanup < r.meter.cleanups.length

/-! ## Every interleaving -/

section Steps

variable {r : Request} {limit : Nat}

/-- A call about no reservation, or another one, leaves a provider paid. -/
theorem Paid.frame {m next : Meter} {c : MeterCall} {granted : Bool} {seat : Seat}
    (paid : Paid m seat) (step : m.Step c granted next)
    (other : ∀ id, c = .confirmed id ∨ c = .dropped id ∨
      (∃ statements, c = .cleanupCharge id statements) → id ≠ seat.cleanup) : Paid next seat := by
  intro rest working
  rcases paid rest working with ⟨cleanup, live, within⟩
  rcases Meter.live_eq_some.mp live with ⟨found, alive⟩
  exact ⟨cleanup, Meter.live_eq_some.mpr ⟨step.others seat.cleanup other cleanup found, alive⟩, within⟩

theorem length_le {m next : Meter} {c : MeterCall} {granted : Bool} (step : m.Step c granted next) :
    m.cleanups.length ≤ next.cleanups.length := by
  by_contra shorter
  have inside : next.cleanups.length < m.cleanups.length := Nat.lt_of_not_le shorter
  rcases step.shrinks _ _ (List.getElem?_eq_getElem inside) with ⟨cleanup, found, _⟩
  exact absurd (List.getElem?_eq_some_iff.mp found).1 (Nat.lt_irrefl _)

/-- The seats after one of them changes. -/
theorem Served.set (served : r.Served limit) {seat cleanup : Nat}
    {rest rest' : Option (Program Outcome Finish)} {meter : Meter}
    (found : r.seats[seat]? = some ⟨cleanup, rest⟩) (sound : meter.Sound limit)
    (grown : r.meter.cleanups.length ≤ meter.cleanups.length)
    (others : ∀ other ∈ r.seats, other.cleanup ≠ cleanup → Paid meter other)
    (mine : Paid meter ⟨cleanup, rest'⟩) :
    Served ⟨meter, r.seats.set seat ⟨cleanup, rest'⟩⟩ limit := by
  have inside := (List.getElem?_eq_some_iff.mp found).1
  have here := (List.getElem?_eq_some_iff.mp found).2
  have same : (r.seats.set seat ⟨cleanup, rest'⟩).map Seat.cleanup = r.seats.map Seat.cleanup := by
    rw [List.map_set]
    have within : seat < (r.seats.map Seat.cleanup).length := by simpa using inside
    have old : (r.seats.map Seat.cleanup)[seat] = cleanup := by
      rw [List.getElem_map, here]
    conv_lhs => rw [← old]
    exact List.set_getElem_self _
  refine ⟨sound, fun other member => ?_, ?_, fun other member => ?_⟩
  · rcases List.mem_iff_getElem?.mp member with ⟨j, there⟩
    by_cases equal : seat = j
    · subst equal
      rw [List.getElem?_set_self inside] at there
      cases there
      exact mine
    · rw [List.getElem?_set_ne equal] at there
      refine others other (List.mem_of_getElem? there) fun clash => equal ?_
      have one : (r.seats.map Seat.cleanup)[seat]? = some cleanup := by
        rw [List.getElem?_map, found]
        rfl
      have two : (r.seats.map Seat.cleanup)[j]? = some cleanup := by
        rw [List.getElem?_map, there]
        exact congrArg some clash
      exact (List.getElem?_inj (by simpa using inside) served.own).mp (one.trans two.symm)
  · rw [same]
    exact served.own
  · have named : other.cleanup ∈ r.seats.map Seat.cleanup := by
      rw [← same]
      exact List.mem_map_of_mem member
    rcases List.mem_map.mp named with ⟨old, there, equal⟩
    rw [← equal]
    exact lt_of_lt_of_le (served.known old there) grown

/-- Calls of others leave all providers paid. -/
theorem Served.call (served : r.Served limit) {c : MeterCall}
    (none : ∀ id, ¬ (c = .confirmed id ∨ c = .dropped id ∨ ∃ statements, c = .cleanupCharge id statements)) :
    ∃ next, r.call c = some next ∧ next.Served limit := by
  rcases served.sound.apply c with ⟨granted, meter, applied, sound, step⟩
  refine ⟨{ r with meter := meter }, ?_, sound, fun seat member => ?_, served.own, fun seat member => ?_⟩
  · simp only [Request.call, applied, Option.bind_eq_bind, Option.bind_some, Option.pure_def]
  · exact (served.paid seat member).frame step fun id touched => absurd touched (none id)
  · exact lt_of_lt_of_le (served.known seat member) (length_le step)

theorem Served.begin (served : r.Served limit) (usage : Usage) :
    ∃ next, r.step (.begin usage) = some next ∧ next.Served limit := by
  rcases served.sound.apply (.reserve postgresCleanup) with ⟨granted, meter, applied, sound, step⟩
  have paid : ∀ seat ∈ r.seats, Paid meter seat := fun seat member =>
    (served.paid seat member).frame step fun id touched => by
      rcases touched with h | h | ⟨_, h⟩ <;> cases h
  simp only [Request.step, applied, Option.bind_eq_bind, Option.bind_some, Option.pure_def]
  cases granted with
  | false =>
      exact ⟨_, rfl, sound, paid, served.own, fun seat member =>
        lt_of_lt_of_le (served.known seat member) (length_le step)⟩
  | true =>
      have opened := step.opens postgresCleanup rfl rfl
      refine ⟨_, rfl, sound, fun seat member => ?_, ?_, fun seat member => ?_⟩
      · rcases List.mem_append.mp member with old | new
        · exact paid seat old
        · rw [List.mem_singleton.mp new]
          intro rest working
          cases working
          refine ⟨⟨postgresCleanup, false⟩, Meter.live_eq_some.mpr ⟨?_, rfl⟩, ?_⟩
          · rw [opened]
            exact List.getElem?_concat_length
          · exact (life_within usage).mono (by decide) fun _ => id
      · simp only [if_true, List.map_append, List.map_cons, List.map_nil]
        refine List.nodup_append.mpr ⟨served.own, List.nodup_singleton _, fun a old b new => ?_⟩
        rcases List.mem_map.mp old with ⟨seat, member, rfl⟩
        rw [List.mem_singleton.mp new]
        exact Nat.ne_of_lt (served.known seat member)
      · rw [opened, List.length_append, List.length_singleton]
        rcases List.mem_append.mp member with old | new
        · exact Nat.lt_succ_of_lt (served.known seat old)
        · rw [List.mem_singleton.mp new]
          exact Nat.lt_succ_self _

theorem Served.leave (served : r.Served limit) {seat cleanup : Nat}
    {rest : Option (Program Outcome Finish)} (found : r.seats[seat]? = some ⟨cleanup, rest⟩) :
    ∃ next, r.leave seat cleanup = some next ∧ next.Served limit := by
  rcases served.sound.apply (.dropped cleanup) with ⟨granted, meter, applied, sound, step⟩
  refine ⟨⟨meter, r.seats.set seat ⟨cleanup, none⟩⟩, ?_, ?_⟩
  · simp only [Request.leave, Request.call, applied, Option.bind_eq_bind, Option.bind_some,
      Option.pure_def]
  · refine served.set found sound (length_le step) (fun other member apart => ?_) fun rest h => by cases h
    refine (served.paid other member).frame step fun id touched => ?_
    rcases touched with h | h | ⟨_, h⟩
    · cases h
    · cases h
      exact Ne.symm apart
    · cases h

/-- A confirmed provider gives back what it did not spend, and leaves. -/
theorem Served.confirm (served : r.Served limit) {seat cleanup : Nat}
    {rest : Option (Program Outcome Finish)} (found : r.seats[seat]? = some ⟨cleanup, rest⟩) :
    ∃ next, (r.call (.confirmed cleanup) >>= fun r => r.leave seat cleanup) = some next ∧
      next.Served limit := by
  rcases served.sound.apply (.confirmed cleanup) with ⟨_, meter, applied, sound, step⟩
  rcases sound.apply (.dropped cleanup) with ⟨_, meter', applied', sound', step'⟩
  refine ⟨⟨meter', r.seats.set seat ⟨cleanup, none⟩⟩, ?_, ?_⟩
  · simp only [Request.leave, Request.call, applied, applied', Option.bind_eq_bind, Option.bind_some,
      Option.pure_def]
  · refine served.set found sound' (le_trans (length_le step) (length_le step'))
      (fun other member apart => ?_) fun rest h => by cases h
    have first : Paid meter other := (served.paid other member).frame step fun id touched => by
      rcases touched with h | h | ⟨_, h⟩
      · cases h
        exact Ne.symm apart
      · cases h
      · cases h
    refine first.frame step' fun id touched => ?_
    rcases touched with h | h | ⟨_, h⟩
    · cases h
    · cases h
      exact Ne.symm apart
    · cases h

/-- The step of a provider that spends a unit of its reservation, which is there. -/
theorem Served.spend (served : r.Served limit) {seat cleanup : Nat}
    {next : Bool → Program Outcome Finish}
    (found : r.seats[seat]? = some ⟨cleanup, some (.spend next)⟩) :
    ∃ after, r.answer seat cleanup (.cleanupCharge cleanup 1) next = some after ∧
      after.Served limit := by
  rcases served.sound.apply (.cleanupCharge cleanup 1) with ⟨granted, meter, applied, sound, step⟩
  refine ⟨⟨meter, r.seats.set seat ⟨cleanup, some (next granted)⟩⟩, ?_, ?_⟩
  · simp only [Request.answer, applied, Option.bind_eq_bind, Option.bind_some, Option.pure_def]
  refine served.set found sound (length_le step) (fun other member apart => ?_) ?_
  · refine (served.paid other member).frame step fun id touched => ?_
    rcases touched with h | h | ⟨_, h⟩
    · cases h
    · cases h
    · cases h
      exact Ne.symm apart
  · intro rest working
    cases working
    rcases served.paid _ (List.mem_of_getElem? found) _ rfl with ⟨reservation, live, enough, within⟩
    rcases step.covers cleanup 1 rfl reservation live with ⟨answer, left⟩
    have given : granted = true := by
      rw [answer]
      exact decide_eq_true enough
    refine ⟨_, Meter.live_eq_some.mpr ⟨left given, (Meter.live_eq_some.mp live).2⟩, ?_⟩
    rw [given]
    exact within

theorem Served.work (served : r.Served limit) {seat cleanup : Nat}
    {next : Bool → Program Outcome Finish}
    (found : r.seats[seat]? = some ⟨cleanup, some (.work next)⟩) :
    ∃ after, r.answer seat cleanup (.charge 1) next = some after ∧ after.Served limit := by
  rcases served.sound.apply (.charge 1) with ⟨granted, meter, applied, sound, step⟩
  have untouched : ∀ id, (MeterCall.charge 1 = .confirmed id ∨ MeterCall.charge 1 = .dropped id ∨
      ∃ statements, MeterCall.charge 1 = .cleanupCharge id statements) → False := by
    intro id touched
    rcases touched with h | h | ⟨_, h⟩ <;> cases h
  refine ⟨⟨meter, r.seats.set seat ⟨cleanup, some (next granted)⟩⟩, ?_, ?_⟩
  · simp only [Request.answer, applied, Option.bind_eq_bind, Option.bind_some, Option.pure_def]
  refine served.set found sound (length_le step) (fun other member apart => ?_) ?_
  · exact (served.paid other member).frame step fun id touched => (untouched id touched).elim
  · intro rest working
    cases working
    rcases served.paid _ (List.mem_of_getElem? found) _ rfl with ⟨reservation, live, within⟩
    rcases Meter.live_eq_some.mp live with ⟨here, alive⟩
    refine ⟨reservation, Meter.live_eq_some.mpr ⟨?_, alive⟩, within granted⟩
    exact step.others cleanup (fun id touched => (untouched id touched).elim) reservation here

theorem Served.go (served : r.Served limit) {seat cleanup : Nat} {rest : Program Outcome Finish}
    (found : r.seats[seat]? = some ⟨cleanup, some rest⟩) (outcome : Outcome) :
    ∃ next, r.go seat cleanup outcome rest = some next ∧ next.Served limit := by
  cases rest with
  | done finish =>
      cases finish with
      | confirmed => exact served.confirm found
      | quarantined failure => exact served.leave found
  | spend next => exact served.spend found
  | work next => exact served.work found
  | ask next =>
      rcases served.paid _ (List.mem_of_getElem? found) _ rfl with ⟨reservation, live, within⟩
      refine ⟨_, rfl, served.set found served.sound (le_refl _) (fun other member _ =>
        served.paid other member) fun rest working => ?_⟩
      cases working
      exact ⟨reservation, live, within outcome⟩

/-- No event of a request panics, and every provider at work stays paid. -/
theorem Served.step (served : r.Served limit) (event : Event) :
    ∃ next, r.step event = some next ∧ next.Served limit := by
  cases event with
  | charge statements =>
      refine served.call fun id touched => ?_
      rcases touched with h | h | ⟨_, h⟩ <;> cases h
  | reserve statements =>
      refine served.call fun id touched => ?_
      rcases touched with h | h | ⟨_, h⟩ <;> cases h
  | begin usage => exact served.begin usage
  | turn seat outcome =>
      simp only [Request.step]
      split
      · next cleanup rest found => exact served.go found outcome
      · exact ⟨r, rfl, served⟩
  | cut seat =>
      simp only [Request.step]
      split
      · next cleanup rest found => exact served.leave found
      · exact ⟨r, rfl, served⟩

theorem Served.run (served : r.Served limit) (events : List Event) :
    ∃ last, r.run events = some last ∧ last.Served limit := by
  induction events generalizing r with
  | nil => exact ⟨r, rfl, served⟩
  | cons event events ih =>
      rcases served.step event with ⟨next, stepped, served'⟩
      rcases ih served' with ⟨last, ran, served''⟩
      refine ⟨last, ?_, served''⟩
      simp only [Request.run, stepped, Option.bind_eq_bind, Option.bind_some]
      exact ran

/-- No stop is refused a unit: none ended so, and the next unit of each is there. -/
structure Unrefused (m : Meter) (seat : Seat) : Prop where
  ended : seat.rest ≠ some (.done (.quarantined .statementLimit))
  next : ∀ next, seat.rest = some (.spend next) →
    ∃ meter, m.apply (.cleanupCharge seat.cleanup 1) = some (true, meter)

theorem Served.unrefused (served : r.Served limit) {seat : Seat} (member : seat ∈ r.seats) :
    Unrefused r.meter seat := by
  refine ⟨fun ended => ?_, fun next working => ?_⟩
  · rcases served.paid seat member _ ended with ⟨_, _, fine⟩
    exact fine rfl
  · rcases served.paid seat member _ working with ⟨reservation, live, enough, _⟩
    rcases served.sound.apply (.cleanupCharge seat.cleanup 1) with ⟨granted, meter, applied, _, step⟩
    have given := (step.covers seat.cleanup 1 rfl reservation live).1
    have paid : granted = true := by
      rw [given]
      exact decide_eq_true enough
    rw [paid] at applied
    exact ⟨meter, applied⟩

end Steps

end Request

/-- A meter keeps its units together whatever its transactions call in whatever order, and whatever
the providers of a request and their environment do, no stop is refused a unit. -/
theorem provider_cleanup_suffices {limit : Nat} {m : Meter} (made : Meter.new limit = some m) :
    m.Promises limit ∧ ∀ events, ∃ r, (Request.mk m []).run events = some r ∧
      r.meter.Sound limit ∧ ∀ seat ∈ r.seats, Request.Unrefused r.meter seat := by
  refine ⟨Meter.run_promises made, fun events => ?_⟩
  have start : (Request.mk m []).Served limit :=
    ⟨Meter.new_sound made, (fun _ h => by cases h), List.nodup_nil, (fun _ h => by cases h)⟩
  rcases start.run events with ⟨r, ran, served⟩
  exact ⟨r, ran, served.sound, fun _ => served.unrefused⟩

theorem provider_cleanup_suffices_sample :
    Meter.new 64 = some ⟨64, 0, 0, []⟩ ∧ (Meter.mk 64 0 0 []).Promises 64 :=
  ⟨rfl, (provider_cleanup_suffices rfl).1⟩

end Noxide.Provider
