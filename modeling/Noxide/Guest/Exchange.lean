import Noxide.Guest.Wire

/-!
# Pooled exchanges

One request's exchange with a worker process, which may send any frames at any time.  The
server counts the calls, keeps the error of a refused one, and takes the smaller of its own
counters and those of the final frame.

How a turn goes in time (when the deadline strikes, how a host call ends) is a {lit}`Turn`; the
results hold for every sequence of turns.

Main results:

- Theorem {lit}`exchange_bounded`: an exchange keeps the counters and the call log in balance.
- Theorem {lit}`exchange_within_grant`: no frames make the server run more calls than it granted,
  report more fuel or calls than are left, or succeed after a refused call.
-/

namespace Noxide.Guest

open Checked

/-! ## Host calls -/

/-- Which requests may share a guest worker. -/
inductive Isolation where
  /-- Only requests with the same key share a worker. -/
  | shared (key : String)
  /-- This request gets a worker of its own, discarded afterwards. -/
  | single
  deriving DecidableEq, Repr

/-- Storage authority a host grants to one guest attempt. -/
structure HostCalls (Host : Type) where
  isolation : Host → Isolation
  storageAllowed : Host → Bool
  invoke : Host → Nat → Nat → Host × Result Bytes
  followSource : Host → Nat → Nat → Host × Result Unit
  follow : Host → Nat → Host × Result Bytes

/-- What became of a call that a worker asked for. -/
inductive Handled where
  | overBudget
  | withheld
  | refused
  | served
  /-- The deadline struck while the host function ran. -/
  | interrupted
  deriving DecidableEq, Repr

/-- A host function ran. -/
def Handled.isInvoked : Handled → Bool
  | .refused => true
  | .served => true
  | .interrupted => true
  | _ => false

def Handled.isRefused : Handled → Bool
  | .overBudget => true
  | .withheld => true
  | .refused => true
  | _ => false

/-! ## The exchange -/

structure Used where
  fuelLeft : Nat
  callsLeft : Nat
  failure : Option Failure

/-- The effects an attempt carries, its counters, and the calls so far, latest first. -/
structure Exchange (Host : Type) where
  effects : Option Host
  used : Used
  log : List Handled

inductive Sending where
  | sent
  | broken (failure : Failure)
  | elapsed

/-- How one turn of the loop goes in time. -/
inductive Turn (Host : Type) where
  /-- The deadline strikes while the server waits for a frame. -/
  | silent
  /-- The stream ends or fails. -/
  | broken (failure : Failure)
  /-- A frame arrives.  {lit}`cut` is the host as a deadline during its call leaves it. -/
  | frame (bytes : Bytes) (cut : Option Host) (reply : Sending)

inductive Ended where
  | elapsed
  | failed (failure : Failure)
  | finished (outcome : Outcome)

/-- A message of the worker that asks for a storage call. -/
inductive Call where
  | invoke (operation target : Nat)
  | followSource (resource id : Nat)
  | follow (operation : Nat)

section Serving

variable {Host : Type} (calls : HostCalls Host)

/-- {lit}`get_or_insert`. -/
def Used.refuse (used : Used) (failure : Failure) : Used :=
  { used with failure := some (used.failure.getD failure) }

def runCall (host : Host) : Call → Host × Result Bytes
  | .invoke operation target => calls.invoke host operation target
  | .followSource resource id =>
      let (host, result) := calls.followSource host resource id
      (host, result.map fun _ => [])
  | .follow operation => calls.follow host operation

/-- The server's checks for one storage call: a refused call keeps its error, and going over the
budget is a protocol violation. -/
def granted (state : Exchange Host) : Result (Exchange Host × Option Host) :=
  if state.used.callsLeft = 0 then .error (.message "worker exceeded its host calls")
  else
    let used := { state.used with callsLeft := state.used.callsLeft - 1 }
    match state.effects with
    | none => .ok ({ state with used := used.refuse (.message "no repository grant") }, none)
    | some host =>
        if calls.storageAllowed host = true then .ok ({ state with used := used }, some host)
        else .ok ({ state with used := used.refuse (.message "storage import during action") }, none)

/-- A refused call is answered with nothing. -/
def settle (host : Host) (result : Result Bytes) (state : Exchange Host) :
    Exchange Host × Option Bytes :=
  match result with
  | .ok bytes =>
      ({ effects := some host, used := state.used, log := .served :: state.log }, some bytes)
  | .error failure =>
      ({ effects := some host, used := state.used.refuse failure, log := .refused :: state.log }, none)

/-- One call: its answer, unless the attempt ends in it. -/
def serve (call : Call) (cut : Option Host) (state : Exchange Host) :
    Exchange Host × Except Ended (Option Bytes) :=
  match granted calls state with
  | .error failure => ({ state with log := .overBudget :: state.log }, .error (.failed failure))
  | .ok (state, none) => ({ state with log := .withheld :: state.log }, .ok none)
  | .ok (state, some host) =>
      match cut with
      | some host =>
          ({ state with effects := some host, log := .interrupted :: state.log }, .error .elapsed)
      | none =>
          let (host, result) := runCall calls host call
          let (state, answer) := settle host result state
          (state, .ok answer)

/-- Send the answer to a call. -/
def sendReply (answer : Option Bytes) (reply : Sending) : Except Ended Unit := do
  let body ← (ToWorker.encode (.reply answer)).mapError Ended.failed
  (check "message limit" (body.length ≤ maxFrame)).mapError Ended.failed
  match reply with
  | .sent => .ok ()
  | .broken failure => .error (.failed failure)
  | .elapsed => .error .elapsed

/-- The largest frame is checked before anything is allocated for it. -/
def receive (bytes : Bytes) : Result FromWorker := do
  check "message limit" (bytes.length ≤ maxFrame)
  FromWorker.decode bytes

/-- The loop: {lit}`grant` is the fuel and the calls that were granted. -/
def exchange (grant : Nat × Nat) : List (Turn Host) → Exchange Host → Exchange Host × Ended
  | [], state => (state, .elapsed)
  | .silent :: _, state => (state, .elapsed)
  | .broken failure :: _, state => (state, .failed failure)
  | .frame bytes cut reply :: turns, state =>
      let answered (call : Call) : Exchange Host × Ended :=
        match serve calls call cut state with
        | (state, .error ended) => (state, ended)
        | (state, .ok answer) =>
            match sendReply answer reply with
            | .error ended => (state, ended)
            | .ok _ => exchange grant turns state
      match receive bytes with
      | .error failure => (state, .failed failure)
      | .ok (.done fuelLeft callsLeft outcome) =>
          -- A worker cannot grant itself budget, or undo calls the server counted.
          ({ state with
            used := { state.used with
              fuelLeft := min fuelLeft grant.1
              callsLeft := min (min callsLeft state.used.callsLeft) grant.2 } }, .finished outcome)
      | .ok (.invoke operation target) => answered (.invoke operation target)
      | .ok (.followSource resource id) => answered (.followSource resource id)
      | .ok (.follow operation) => answered (.follow operation)

/-! ## Attempts -/

inductive GuestBusy where
  | deadline
  | capacity
  deriving DecidableEq, Repr

inductive GuestError where
  | busy (busy : GuestBusy)
  | failure (failure : Failure)

structure Attempt (Host Response : Type) where
  result : Except GuestError Response
  effects : Option Host
  fuelLeft : Nat
  callsLeft : Nat

/-- What a finished, failed or cut exchange comes to, and whether its worker may serve again. -/
def Ended.outcome {Response : Type} (decodeResponse : Bytes → Result Response) :
    Ended → Bool × Except GuestError Response
  | .elapsed => (false, .error (.busy .deadline))
  | .failed failure => (false, .error (.failure failure))
  | .finished (.output bytes) => (true, (decodeResponse bytes).mapError GuestError.failure)
  | .finished .deadline => (true, .error (.busy .deadline))
  | .finished .failed => (true, .error (.failure (.message "guest failed")))

/-- Encode the request, take the worker's socket and send the run. -/
def openExchange (request : Bytes) (fuel callsLeft wallMillis : Nat) (socket : Bool) (opening : Sending) :
    Except Ended Unit := do
  (check "request limit" (request.length ≤ maxRequestBytes)).mapError Ended.failed
  (check "worker socket missing" (socket = true)).mapError Ended.failed
  let body ← (ToWorker.encode (.run fuel callsLeft wallMillis request)).mapError Ended.failed
  (check "message limit" (body.length ≤ maxFrame)).mapError Ended.failed
  match opening with
  | .sent => .ok ()
  | .broken failure => .error (.failed failure)
  | .elapsed => .error .elapsed

/-- The attempt a request is told of: a refused call decides it, else how the exchange ended. -/
def Exchange.report {Response : Type} (state : Exchange Host)
    (result : Except GuestError Response) : Attempt Host Response where
  result :=
    match state.used.failure with
    | some failure => .error (.failure failure)
    | none => result
  effects := state.effects
  fuelLeft := state.used.fuelLeft
  callsLeft := state.used.callsLeft

/-- One exchange of {lit}`GuestPool::run`: what it leaves, the attempt it reports, and whether
the worker may serve again. -/
def runExchange {Response : Type} (decodeResponse : Bytes → Result Response) (request : Bytes)
    (effects : Option Host) (fuel callsLeft wallMillis : Nat) (socket : Bool) (opening : Sending)
    (turns : List (Turn Host)) : Exchange Host × Attempt Host Response × Bool :=
  let start : Exchange Host := ⟨effects, ⟨fuel, callsLeft, none⟩, []⟩
  let (state, ended) :=
    match openExchange request fuel callsLeft wallMillis socket opening with
    | .error ended => (start, ended)
    | .ok _ => exchange calls (fuel, callsLeft) turns start
  let (reusable, result) := ended.outcome decodeResponse
  (state, state.report result, reusable)

end Serving

/-! ## Bounds -/

section Bounds

variable {Host : Type} {calls : HostCalls Host} {grant : Nat × Nat} {state next : Exchange Host}

def Exchange.invoked (state : Exchange Host) : Nat := (state.log.filter Handled.isInvoked).length

def Exchange.refused (state : Exchange Host) : Prop := ∃ handled ∈ state.log, handled.isRefused = true

/-- The counters are within the grant less the calls that ran. -/
structure Exchange.Within (state : Exchange Host) (grant : Nat × Nat) : Prop where
  fuel : state.used.fuelLeft ≤ grant.1
  calls : state.used.callsLeft + state.invoked ≤ grant.2

/-- A refusal leaves its error behind. -/
def Exchange.Remembers (state : Exchange Host) : Prop := state.refused → state.used.failure ≠ none

theorem refuse_failure (used : Used) (failure : Failure) : (used.refuse failure).failure ≠ none :=
  Option.some_ne_none _

/-- What a granted call has spent. -/
structure Exchange.Charged (next state : Exchange Host) : Prop where
  fuel : next.used.fuelLeft = state.used.fuelLeft
  calls : next.used.callsLeft + 1 = state.used.callsLeft
  log : next.log = state.log
  failure : state.used.failure ≠ none → next.used.failure ≠ none

theorem granted_charged {host : Option Host} (h : granted calls state = .ok (next, host)) :
    next.Charged state ∧ (host = none → next.used.failure ≠ none) := by
  unfold granted at h
  split at h
  · cases h
  · rename_i left
    split at h
    · cases h
      refine ⟨⟨rfl, ?_, rfl, fun _ => refuse_failure _ _⟩, fun _ => refuse_failure _ _⟩
      simp only [Used.refuse]
      omega
    · split at h
      · cases h
        refine ⟨⟨rfl, ?_, rfl, fun kept => kept⟩, fun absent => by cases absent⟩
        simp only
        omega
      · cases h
        refine ⟨⟨rfl, ?_, rfl, fun _ => refuse_failure _ _⟩, fun _ => refuse_failure _ _⟩
        simp only [Used.refuse]
        omega

theorem invoked_cons (handled : Handled) (log : List Handled) :
    ((handled :: log).filter Handled.isInvoked).length
      = (log.filter Handled.isInvoked).length + if handled.isInvoked = true then 1 else 0 := by
  by_cases ran : handled.isInvoked = true
  · rw [List.filter_cons_of_pos ran, List.length_cons, if_pos ran]
  · rw [List.filter_cons_of_neg ran, if_neg ran, Nat.add_zero]

/-- One call keeps the counters in balance: it spends one call before it runs one. -/
theorem serve_within {call : Call} {cut : Option Host} {answer : Except Ended (Option Bytes)}
    (within : state.Within grant) (h : serve calls call cut state = (next, answer)) :
    next.Within grant := by
  unfold serve at h
  have fuel := within.fuel
  have balance := within.calls
  unfold Exchange.invoked at balance
  cases allowed : granted calls state with
  | error failure =>
      simp only [allowed] at h
      cases h
      refine ⟨fuel, ?_⟩
      simp only [Exchange.invoked, invoked_cons, Handled.isInvoked]
      simpa using balance
  | ok result =>
      rcases result with ⟨charged, host⟩
      have spent := (granted_charged allowed).1
      have left := spent.calls
      simp only [allowed] at h
      cases host with
      | none =>
          cases h
          refine ⟨spent.fuel ▸ fuel, ?_⟩
          simp only [Exchange.invoked, invoked_cons, Handled.isInvoked, spent.log]
          simp
          omega
      | some host =>
          cases cut with
          | some host =>
              cases h
              refine ⟨spent.fuel ▸ fuel, ?_⟩
              simp only [Exchange.invoked, invoked_cons, Handled.isInvoked, spent.log, if_true]
              omega
          | none =>
              change (((settle (runCall calls host call).1 (runCall calls host call).2 charged).1,
                Except.ok (settle (runCall calls host call).1 (runCall calls host call).2 charged).2)
                  : Exchange Host × Except Ended (Option Bytes)) = (next, answer) at h
              generalize (runCall calls host call).1 = host' at h
              cases result : (runCall calls host call).2 with
              | ok bytes =>
                  rw [result] at h
                  cases h
                  refine ⟨spent.fuel ▸ fuel, ?_⟩
                  simp only [settle, Exchange.invoked, invoked_cons, Handled.isInvoked, spent.log, if_true]
                  omega
              | error failure =>
                  rw [result] at h
                  cases h
                  refine ⟨spent.fuel ▸ fuel, ?_⟩
                  simp only [settle, Exchange.invoked, invoked_cons, Handled.isInvoked, spent.log, if_true,
                    Used.refuse]
                  omega

/-- A call is refused with an error that stays, or ends the attempt. -/
theorem serve_remembers {call : Call} {cut : Option Host} {answer : Except Ended (Option Bytes)}
    (remembers : state.Remembers) (h : serve calls call cut state = (next, answer)) :
    next.Remembers ∨ ∃ failure, answer = .error (.failed failure) := by
  unfold serve at h
  cases allowed : granted calls state with
  | error failure =>
      simp only [allowed] at h
      cases h
      exact Or.inr ⟨failure, rfl⟩
  | ok result =>
      rcases result with ⟨charged, host⟩
      have spent := granted_charged allowed
      have earlier : ∀ handled ∈ charged.log, handled.isRefused = true → charged.used.failure ≠ none :=
        fun handled member refused =>
          spent.1.failure (remembers ⟨handled, spent.1.log ▸ member, refused⟩)
      simp only [allowed] at h
      left
      cases host with
      | none =>
          cases h
          exact fun _ => spent.2 rfl
      | some host =>
          cases cut with
          | some host =>
              cases h
              rintro ⟨handled, member, refused⟩
              rcases List.mem_cons.mp member with rfl | old
              · cases refused
              · exact earlier handled old refused
          | none =>
              change (((settle (runCall calls host call).1 (runCall calls host call).2 charged).1,
                Except.ok (settle (runCall calls host call).1 (runCall calls host call).2 charged).2)
                  : Exchange Host × Except Ended (Option Bytes)) = (next, answer) at h
              generalize (runCall calls host call).1 = host' at h
              cases result : (runCall calls host call).2 with
              | ok bytes =>
                  rw [result] at h
                  cases h
                  rintro ⟨handled, member, refused⟩
                  rcases List.mem_cons.mp member with rfl | old
                  · cases refused
                  · exact earlier handled old refused
              | error failure =>
                  rw [result] at h
                  cases h
                  exact fun _ => refuse_failure _ _

/-- How an exchange ends: within the grant, and after a refusal with an error. -/
structure Exchange.EndsWithin (state : Exchange Host) (ended : Ended) (grant : Nat × Nat) : Prop where
  within : state.Within grant
  refusal : state.Remembers ∨ ∃ failure, ended = .failed failure

/-- No frames bring the counters out of balance. -/
theorem exchange_bounded (turns : List (Turn Host)) (within : state.Within grant)
    (remembers : state.Remembers) :
    (exchange calls grant turns state).1.EndsWithin (exchange calls grant turns state).2 grant := by
  induction turns generalizing state with
  | nil => exact ⟨within, Or.inl remembers⟩
  | cons turn turns ih =>
      cases turn with
      | silent => exact ⟨within, Or.inl remembers⟩
      | broken failure => exact ⟨within, Or.inl remembers⟩
      | frame bytes cut reply =>
          have answered : ∀ call : Call, Exchange.EndsWithin
              (match serve calls call cut state with
                | (state, .error ended) => (state, ended)
                | (state, .ok answer) =>
                    match sendReply answer reply with
                    | .error ended => (state, ended)
                    | .ok _ => exchange calls grant turns state : Exchange Host × Ended).1
              (match serve calls call cut state with
                | (state, .error ended) => (state, ended)
                | (state, .ok answer) =>
                    match sendReply answer reply with
                    | .error ended => (state, ended)
                    | .ok _ => exchange calls grant turns state : Exchange Host × Ended).2 grant := by
            intro call
            cases served : serve calls call cut state with
            | mk next answer =>
                have kept := serve_within within served
                have refusal := serve_remembers remembers served
                cases answer with
                | error ended =>
                    refine ⟨kept, ?_⟩
                    rcases refusal with remembered | ⟨failure, same⟩
                    · exact Or.inl remembered
                    · cases same
                      exact Or.inr ⟨failure, rfl⟩
                | ok answer =>
                    have remembered : next.Remembers := by
                      rcases refusal with remembered | ⟨failure, same⟩
                      · exact remembered
                      · cases same
                    cases sent : sendReply answer reply with
                    | error ended =>
                        simp only [sent]
                        exact ⟨kept, Or.inl remembered⟩
                    | ok _ =>
                        simp only [sent]
                        exact ih kept remembered
          unfold exchange
          cases received : receive bytes with
          | error failure => exact ⟨within, Or.inl remembers⟩
          | ok message =>
              cases message with
              | invoke operation target => exact answered (.invoke operation target)
              | followSource resource id => exact answered (.followSource resource id)
              | follow operation => exact answered (.follow operation)
              | done fuelLeft callsLeft outcome =>
                  have balance := within.calls
                  refine ⟨⟨Nat.min_le_right _ _, ?_⟩, Or.inl remembers⟩
                  have least : min (min callsLeft state.used.callsLeft) grant.2 ≤ state.used.callsLeft :=
                    le_trans (Nat.min_le_left _ _) (Nat.min_le_right _ _)
                  exact le_trans (Nat.add_le_add_right least _) balance

/-- For every sequence of frames: host functions run at most the granted number of times, no more
fuel is left than was granted, no more calls than the grant less those that ran, and after a
refused call the attempt fails whatever the final frame says. -/
theorem exchange_within_grant {Response : Type} (calls : HostCalls Host)
    (decodeResponse : Bytes → Result Response) (request : Bytes) (effects : Option Host)
    (fuel callsLeft wallMillis : Nat) (socket : Bool) (opening : Sending) (turns : List (Turn Host)) :
    let ran := runExchange calls decodeResponse request effects fuel callsLeft wallMillis socket opening turns
    ran.1.invoked ≤ callsLeft
    ∧ ran.2.1.fuelLeft ≤ fuel
    ∧ ran.2.1.callsLeft + ran.1.invoked ≤ callsLeft
    ∧ (ran.1.refused → ∃ error, ran.2.1.result = .error error) := by
  intro ran
  have start : Exchange.Within (⟨effects, ⟨fuel, callsLeft, none⟩, []⟩ : Exchange Host) (fuel, callsLeft) :=
    ⟨le_refl fuel, le_refl callsLeft⟩
  have quiet : Exchange.Remembers (⟨effects, ⟨fuel, callsLeft, none⟩, []⟩ : Exchange Host) := by
    rintro ⟨_, member, _⟩
    cases member
  have ends : ∃ ended, ran.1.EndsWithin ended (fuel, callsLeft)
      ∧ ran.2.1 = ran.1.report (ended.outcome decodeResponse).2 := by
    simp only [ran, runExchange]
    cases openExchange request fuel callsLeft wallMillis socket opening with
    | error ended => exact ⟨ended, ⟨start, Or.inl quiet⟩, rfl⟩
    | ok _ => exact ⟨_, exchange_bounded turns start quiet, rfl⟩
  rcases ends with ⟨ended, bounded, attempt⟩
  have balance := bounded.within.calls
  rw [attempt]
  refine ⟨le_trans (Nat.le_add_left _ _) balance, bounded.within.fuel, balance, fun refused => ?_⟩
  rcases bounded.refusal with remembers | ⟨failure, same⟩
  · rcases Option.ne_none_iff_exists'.mp (remembers refused) with ⟨failure, failed⟩
    exact ⟨.failure failure, by simp only [Exchange.report, failed]⟩
  · rw [same]
    cases failed : ran.1.used.failure with
    | some failure' => exact ⟨.failure failure', by simp only [Exchange.report, failed]⟩
    | none => exact ⟨.failure failure, by simp only [Exchange.report, failed, Ended.outcome]⟩

end Bounds

end Noxide.Guest
