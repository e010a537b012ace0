import Noxide.Effects.Operations
import Noxide.Library.Transition

/-!
# The delivery owner

One process owns the deliveries of a store.  An attempt takes a permit, is entered in the
map of live attempts under its serial, and marks there the effect it claimed.  Its request
token is shared with everything that works for it: database phases, their cleanup, and file
workers.  Only when the token's gate is free again did the attempt stop; then its permit
comes back and its entry goes.  A stop that is not confirmed in time keeps both.

The store is what it is at each claim, so the wall clock and the leases may jump at will.

Main results:

- Definition {lit}`Step`: every step of attempts, of those that work for them and of time.
- Definition {lit}`deliverySystem`: every interleaving of the steps that a rule allows.
-/

namespace Noxide.Delivery

open Checked

/-! ## Attempts -/

/-- Where the {lit}`Arc` of an attempt's physical state is. -/
inductive Phase where
  /-- In the future that runs the attempt. -/
  | running
  /-- In {lit}`finish`, which waits for the gate. -/
  | finishing
  /-- In the cleanup task of an attempt whose future was dropped. -/
  | cleaning
  /-- Leaked, since the stop was not confirmed in time. -/
  | retained
  /-- With the file workers alone, since {lit}`finish` was dropped. -/
  | abandoned
  /-- Dropped: the permit is back and the entry is still to be removed. -/
  | releasing
  | gone
  deriving DecidableEq, Repr

structure Attempt where
  serial : Nat
  /-- What the attempt marked in its entry. -/
  claimed : Option String
  phase : Phase
  /-- The attempt holds the owner's claim lock. -/
  locked : Bool
  /-- The claims that were active when the lock's holder asked for one. -/
  snapshot : Option (List String)
  /-- The file workers, each with the state and the request token. -/
  holds : Nat
  /-- The others that hold the request token. -/
  tokens : Nat
  cancelled : Bool
  deriving DecidableEq, Repr

/-- The attempt's permit is not back. -/
def Attempt.holdsPermit (attempt : Attempt) : Bool :=
  match attempt.phase with
  | .running | .finishing | .cleaning | .retained | .abandoned => true
  | .releasing | .gone => false

/-- Nobody but the attempt itself holds its request token. -/
def Attempt.quiet (attempt : Attempt) : Bool :=
  decide (attempt.holds = 0 ∧ attempt.tokens = 0)

/-- The attempt was not confirmed stopped. -/
def Attempt.live (attempt : Attempt) : Bool :=
  attempt.holdsPermit || !attempt.quiet

/-! ## The owner -/

def u64Max : Nat := 18446744073709551615

structure Owner where
  concurrency : Nat
  /-- The free permits of {lit}`slots`. -/
  permits : Nat
  /-- The permits of attempts that are not entered yet. -/
  starting : Nat
  next : Nat
  /-- The map of live attempts. -/
  active : List (Nat × Option String)
  claimLock : Bool
  attempts : List Attempt
  deriving DecidableEq, Repr

def Owner.activeClaims (owner : Owner) : List String :=
  owner.active.filterMap (·.2)

/-- The entry of a fresh attempt. -/
def enter (serial : Nat) (active : List (Nat × Option String)) : List (Nat × Option String) :=
  active.filter (fun entry => entry.1 ≠ serial) ++ [(serial, none)]

/-- The source's {lit}`mark_claim`. -/
def markClaim (serial : Nat) (id : String) (active : List (Nat × Option String)) :
    List (Nat × Option String) :=
  active.map fun entry => if entry.1 = serial then (serial, some id) else entry

def removeEntry (serial : Nat) (active : List (Nat × Option String)) : List (Nat × Option String) :=
  active.filter fun entry => entry.1 ≠ serial

/-- A fresh attempt. -/
def Attempt.fresh (serial : Nat) : Attempt where
  serial := serial
  claimed := none
  phase := .running
  locked := false
  snapshot := none
  holds := 0
  tokens := 0
  cancelled := false

/-- The source's {lit}`drain` finds no entry and every permit. -/
def Owner.drained (owner : Owner) : Bool :=
  decide (owner.active = [] ∧ owner.permits = owner.concurrency)

/-! ## Steps -/

inductive Operation where
  /-- A permit is taken for a new attempt. -/
  | acquire
  /-- The new attempt gets its serial and its entry. -/
  | register
  | lock (attempt : Attempt)
  | unlock (attempt : Attempt)
  | snapshot (attempt : Attempt)
  | claim (attempt : Attempt)
  /-- Preflight, the post and finalization happen inside the attempt's future. -/
  | work (attempt : Attempt)
  /-- One more holder of the request token, and one less. -/
  | share (attempt : Attempt)
  | release (attempt : Attempt)
  /-- A file worker starts, and ends. -/
  | hold (attempt : Attempt)
  | unhold (attempt : Attempt)
  | finish (attempt : Attempt)
  /-- The future of an attempt is dropped while it runs. -/
  | cancel (attempt : Attempt)
  /-- The future of an attempt is dropped while it finishes. -/
  | abandon (attempt : Attempt)
  /-- The gate is free. -/
  | stopped (attempt : Attempt)
  /-- The deadline passes before. -/
  | expired (attempt : Attempt)
  | remove (attempt : Attempt)

inductive Step : Operation → Owner → Owner → Prop where
  | acquire (w : Owner) (free : 0 < w.permits) :
      Step .acquire w { w with permits := w.permits - 1, starting := w.starting + 1 }
  | registered (w : Owner) (waiting : 0 < w.starting) (serial : w.next < u64Max) :
      Step .register w { w with starting := w.starting - 1, next := w.next + 1,
                                active := enter w.next w.active,
                                attempts := Attempt.fresh w.next :: w.attempts }
  /-- The counter wraps around, and this one attempt is refused. -/
  | exhausted (w : Owner) (waiting : 0 < w.starting) (last : w.next = u64Max) :
      Step .register w { w with starting := w.starting - 1, permits := w.permits + 1, next := 0 }
  | lock (a : Attempt) (w : Owner) (attempts : List Attempt) (running : a.phase = .running)
      (free : w.claimLock = false)
      (replaced : Table.Replaced a { a with locked := true } w.attempts attempts) :
      Step (.lock a) w { w with attempts := attempts, claimLock := true }
  /-- The claim is over, or its future was dropped. -/
  | unlock (a : Attempt) (w : Owner) (attempts : List Attempt) (held : a.locked = true)
      (replaced : Table.Replaced a { a with locked := false, snapshot := none } w.attempts attempts) :
      Step (.unlock a) w { w with attempts := attempts, claimLock := false }
  /-- The claim's transaction is passed the active claims. -/
  | snapshot (a : Attempt) (w : Owner) (attempts : List Attempt) (held : a.locked = true)
      (unclaimed : a.claimed = none)
      (replaced : Table.Replaced a { a with snapshot := some w.activeClaims } w.attempts attempts) :
      Step (.snapshot a) w { w with attempts := attempts }
  /-- The store hands out a claim, which is marked before the transaction commits. -/
  | claim (a : Attempt) (w : Owner) (attempts : List Attempt) (active : List String)
      (asked : a.snapshot = some active) (generation contract directory : String) (skipped : List String)
      (t t' : Effects.EffectTables) (claim : Effects.EffectClaim)
      (ran : Effects.claim generation contract directory active skipped t = .ok (some claim, t'))
      (replaced : Table.Replaced a { a with claimed := some claim.id, snapshot := none } w.attempts attempts) :
      Step (.claim a) w { w with attempts := attempts, active := markClaim a.serial claim.id w.active }
  | work (a : Attempt) (w : Owner) (member : a ∈ w.attempts) (running : a.phase = .running) :
      Step (.work a) w w
  | share (a : Attempt) (w : Owner) (attempts : List Attempt)
      (held : a.phase = .running ∨ a.quiet = false)
      (replaced : Table.Replaced a { a with tokens := a.tokens + 1 } w.attempts attempts) :
      Step (.share a) w { w with attempts := attempts }
  | release (a : Attempt) (w : Owner) (attempts : List Attempt) (held : 0 < a.tokens)
      (replaced : Table.Replaced a { a with tokens := a.tokens - 1 } w.attempts attempts) :
      Step (.release a) w { w with attempts := attempts }
  | hold (a : Attempt) (w : Owner) (attempts : List Attempt) (running : a.phase = .running)
      (replaced : Table.Replaced a { a with holds := a.holds + 1 } w.attempts attempts) :
      Step (.hold a) w { w with attempts := attempts }
  /-- A file worker drops the state before its request token. -/
  | unhold (a : Attempt) (w : Owner) (attempts : List Attempt) (held : 0 < a.holds)
      (others : a.phase ≠ .abandoned ∨ 1 < a.holds)
      (replaced : Table.Replaced a { a with holds := a.holds - 1, tokens := a.tokens + 1 } w.attempts attempts) :
      Step (.unhold a) w { w with attempts := attempts }
  /-- It was the last one to hold the state. -/
  | unholdLast (a : Attempt) (w : Owner) (attempts : List Attempt) (last : a.holds = 1)
      (abandoned : a.phase = .abandoned)
      (replaced : Table.Replaced a { a with phase := .releasing, holds := 0, tokens := a.tokens + 1 }
        w.attempts attempts) :
      Step (.unhold a) w { w with attempts := attempts, permits := w.permits + 1 }
  | finish (a : Attempt) (w : Owner) (attempts : List Attempt) (running : a.phase = .running)
      (unlocked : a.locked = false)
      (replaced : Table.Replaced a { a with phase := .finishing } w.attempts attempts) :
      Step (.finish a) w { w with attempts := attempts }
  | cancel (a : Attempt) (w : Owner) (attempts : List Attempt) (running : a.phase = .running)
      (unlocked : a.locked = false)
      (replaced : Table.Replaced a { a with phase := .cleaning, cancelled := true } w.attempts attempts) :
      Step (.cancel a) w { w with attempts := attempts }
  /-- {lit}`finish` holds the state in a local variable, which is dropped with it. -/
  | abandon (a : Attempt) (w : Owner) (attempts : List Attempt) (finishing : a.phase = .finishing)
      (alone : a.holds = 0)
      (replaced : Table.Replaced a { a with phase := .releasing } w.attempts attempts) :
      Step (.abandon a) w { w with attempts := attempts, permits := w.permits + 1 }
  | abandonShared (a : Attempt) (w : Owner) (attempts : List Attempt) (finishing : a.phase = .finishing)
      (shared : 0 < a.holds)
      (replaced : Table.Replaced a { a with phase := .abandoned } w.attempts attempts) :
      Step (.abandon a) w { w with attempts := attempts }
  | stopped (a : Attempt) (w : Owner) (attempts : List Attempt)
      (waiting : a.phase = .finishing ∨ a.phase = .cleaning) (free : a.quiet = true)
      (replaced : Table.Replaced a { a with phase := .releasing } w.attempts attempts) :
      Step (.stopped a) w { w with attempts := attempts, permits := w.permits + 1 }
  | expired (a : Attempt) (w : Owner) (attempts : List Attempt)
      (waiting : a.phase = .finishing ∨ a.phase = .cleaning)
      (replaced : Table.Replaced a { a with phase := .retained } w.attempts attempts) :
      Step (.expired a) w { w with attempts := attempts }
  | remove (a : Attempt) (w : Owner) (attempts : List Attempt) (releasing : a.phase = .releasing)
      (replaced : Table.Replaced a { a with phase := .gone } w.attempts attempts) :
      Step (.remove a) w { w with attempts := attempts, active := removeEntry a.serial w.active }

/-- A new owner: {lit}`DeliveryOwner::claim`. -/
structure Owner.Fresh (w : Owner) : Prop where
  concurrency : 1 ≤ w.concurrency ∧ w.concurrency ≤ 2
  permits : w.permits = w.concurrency
  starting : w.starting = 0
  next : w.next = 1
  active : w.active = []
  claimLock : w.claimLock = false
  attempts : w.attempts = []

/-- Every interleaving of the operations that a rule allows. -/
def deliverySystem (rule : Owner → Operation → Prop) : System Owner where
  initial := Owner.Fresh
  step w w' := ∃ operation, rule w operation ∧ Step operation w w'

end Noxide.Delivery
