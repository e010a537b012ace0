import Noxide.Library.Transition

/-!
# The commit frontier of a transaction

A transaction remembers how far its COMMIT has gone.  The state is set before the
provider is polled, so a call that is dropped in the middle leaves the cautious answer
behind, and only a refusal by the provider itself takes it back.  Every awaited call is
answered by a script: it returns, it fails with any error, or the future that awaits it
is dropped.

Main results:

- Theorem {lit}`commit_outcome_classified`: the recorded state never claims more than
  the provider acknowledged, never less than it may have applied, and no call made
  after a possible COMMIT returns an error that callers retry.
-/

namespace Noxide.Commit

/-! ## Errors -/

/-- An error of the store, by the types its callers test for.  Every other error is a
message. -/
inductive Error where
  /-- The source's {lit}`CommitFailure::Uncertain`. -/
  | uncertain (inner : Error)
  /-- The source's {lit}`CommitFailure::Committed`. -/
  | committed (inner : Error)
  | conditionalConflict
  /-- Injected by test builds only. -/
  | aborted
  | elapsed
  /-- A {lit}`sqlx::Error::Database` with its code. -/
  | database (code : Option String)
  | unavailable
  | statementLimit
  | message (text : String)
  deriving DecidableEq, Repr

def Error.isCommitFailure : Error → Bool
  | .uncertain _ | .committed _ => true
  | _ => false

def retryable (error : Error) : Bool :=
  if error.isCommitFailure then false
  else
    match error with
    | .conditionalConflict | .aborted | .elapsed => true
    | .database (some code) =>
        decide (code ∈ ["40001", "40P01", "55P03", "57014", "5", "517"])
    | _ => false

inductive RequestError where
  | authentication
  | invalidRequest
  | invalidCursor
  | rejected
  | busy
  | outcomeUnknown
  deriving DecidableEq, Repr

def RequestError.database (error : Error) : RequestError :=
  if error.isCommitFailure then .outcomeUnknown
  else if error = .unavailable ∨ error = .statementLimit then .busy
  else if retryable error then .busy
  else .rejected

/-! ## The provider -/

inductive Backend where
  | closed
  | sqlite
  | postgres
  deriving DecidableEq, Repr

/-- Only an actual provider refusal restores retry eligibility. -/
def refused (backend : Backend) (error : Error) : Bool :=
  match error with
  | .database (some code) =>
      match backend with
      | .postgres => decide (code ∈ ["40001", "40P01"])
      | .sqlite => decide (code ∈ ["5", "517"])
      | .closed => false
  | _ => false

/-- How an awaited call ends: it returns, it fails, or it never resumes because its
future is dropped (or unwinds). -/
inductive Ended (α : Type) where
  | returned (value : α)
  | failed (error : Error)
  | dropped
  deriving DecidableEq, Repr

/-- What the provider does with one call, and whether a COMMIT sent by it took effect.
Nothing is assumed of the effect but that a refused COMMIT has none. -/
structure Reply where
  answer : Ended Unit
  applied : Bool
  definitive : ∀ backend error, answer = .failed error → refused backend error = true →
    applied = false

/-- A COMMIT that was sent, with the provider's reply. -/
structure Sent where
  backend : Backend
  reply : Reply

def Sent.acknowledged (sent : Sent) : Prop :=
  sent.reply.answer = .returned ()

/-- The provider definitively refused. -/
def Sent.wasRefused (sent : Sent) : Prop :=
  ∃ error, sent.reply.answer = .failed error ∧ refused sent.backend error = true

/-! ## Transactions -/

inductive CommitState where
  | notAttempted
  | refused
  | sent
  | acknowledged
  deriving DecidableEq, Repr

def CommitState.mayHaveCommitted : CommitState → Bool
  | .sent | .acknowledged => true
  | _ => false

/-- The fields that commit and rollback read.  A transaction is ordinary while it owns
the lease of a request; cleanup takes the lease away. -/
structure Transaction where
  backend : Backend
  active : Bool
  commitState : CommitState
  operatorEnded : Bool
  maintenance : Bool
  maintenanceWork : Bool
  ordinary : Bool
  commitPending : Bool
  deriving DecidableEq, Repr

def Transaction.commitAcknowledged (tx : Transaction) : Bool :=
  decide (tx.commitState = .acknowledged)

def Transaction.commitMayHaveSucceeded (tx : Transaction) : Bool :=
  tx.commitState.mayHaveCommitted

/-- A transaction, the replies its next awaited calls receive, and every COMMIT sent so
far.  An exhausted script drops the call. -/
structure World where
  tx : Transaction
  script : List Reply
  log : List Sent

/-- A call on the transaction. -/
def Call (α : Type) : Type :=
  World → Ended α × World

instance : Monad Call where
  pure value := fun w => (.returned value, w)
  bind x f := fun w =>
    match x w with
    | (.returned value, w') => f value w'
    | (.failed error, w') => (.failed error, w')
    | (.dropped, w') => (.dropped, w')

def fail {α : Type} (error : Error) : Call α :=
  fun w => (.failed error, w)

/-- The call unwinds, as the source's {lit}`unreachable!` does. -/
def unwind {α : Type} : Call α :=
  fun w => (.dropped, w)

def transaction : Call Transaction :=
  fun w => (.returned w.tx, w)

def change (f : Transaction → Transaction) : Call Unit :=
  fun w => (.returned (), { w with tx := f w.tx })

/-- Look at a failure instead of passing it on. -/
def attempt {α : Type} (x : Call α) : Call (Except Error α) :=
  fun w =>
    match x w with
    | (.returned value, w') => (.returned (.ok value), w')
    | (.failed error, w') => (.returned (.error error), w')
    | (.dropped, w') => (.dropped, w')

/-- Pass a looked-at result on. -/
def handOn {α : Type} (result : Except Error α) : Call α :=
  fun w =>
    match result with
    | .ok value => (.returned value, w)
    | .error error => (.failed error, w)

/-- Wrap a failure. -/
def mapErr {α : Type} (wrap : Error → Error) (x : Call α) : Call α := do
  handOn ((← attempt x).mapError wrap)

/-- One awaited call, or one check that may fail, outside the transaction's control. -/
def awaited : Call Unit :=
  fun w =>
    match w.script with
    | [] => (.dropped, w)
    | reply :: rest => (reply.answer, { w with script := rest })

/-- The awaited COMMIT. -/
def awaitedCommit : Call Unit :=
  fun w =>
    match w.script with
    | [] => (.dropped, w)
    | reply :: rest =>
        (reply.answer, { w with script := rest, log := w.log ++ [⟨w.tx.backend, reply⟩] })

/-! ## Commit and rollback -/

def maintenanceTimeout : Call Unit := do
  if (← transaction).maintenance then awaited

def ordinaryTimeout : Call Unit := do
  if (← transaction).ordinary then awaited

def ordinaryCharge : Call Unit := do
  if (← transaction).ordinary then awaited

def ordinaryCommitPending (pending : Bool) : Call Unit :=
  change fun tx => if tx.ordinary then { tx with commitPending := pending } else tx

def prepareStatement : Call Unit := do
  maintenanceTimeout
  ordinaryTimeout
  ordinaryCharge

/-- A statement on the open connection. -/
def executePrepared (statement : Call Unit) : Call Unit := do
  match (← transaction).backend with
  | .closed => unwind
  | .sqlite | .postgres => statement

def executeInternal (statement : Call Unit) : Call Unit := do
  prepareStatement
  executePrepared statement

def releaseGate : Call Unit := do
  prepareStatement
  match (← transaction).backend with
  | .postgres => awaited
  | .sqlite | .closed => return ()

/-- Physical cleanup continues in a task of its own. -/
def dropTransaction : Call Unit :=
  change fun tx => if tx.ordinary then { tx with ordinary := false, backend := .closed } else tx

/-- Physical cleanup that the caller awaits. -/
def finishTransaction : Call Unit := do
  if (← transaction).ordinary then
    change fun tx => { tx with ordinary := false, backend := .closed }
    awaited
    change fun tx => { tx with active := false }

/-- Close an untracked SQLite connection after an acknowledged COMMIT. -/
def closeOperator : Call Unit := do
  let tx ← transaction
  if tx.maintenanceWork = false ∧ tx.backend = .sqlite then
    change fun tx => { tx with backend := .closed }
    mapErr .committed awaited

/-- The provider did not acknowledge the COMMIT. -/
def commitFailed (error : Error) : Call Unit := do
  if refused (← transaction).backend error then
    change fun tx => { tx with commitState := .refused }
    ordinaryCommitPending false
    fail error
  else
    fail (.uncertain error)

/-- The provider acknowledged the COMMIT.  The first call is the fault point of test
builds, which elsewhere returns at once. -/
def commitAnswered : Call Unit := do
  change fun tx => { tx with active := false }
  mapErr .uncertain awaited
  change fun tx => { tx with commitState := .acknowledged }
  ordinaryCommitPending false
  if (← transaction).ordinary then
    dropTransaction
  else
    mapErr .committed releaseGate
    closeOperator

/-- Enter the uncertain frontier, which is set before the provider is polled. -/
def sendCommit : Call Unit := do
  change fun tx => { tx with commitState := .sent }
  ordinaryCommitPending true
  match ← attempt (executePrepared awaitedCommit) with
  | .error error => commitFailed error
  | .ok () => commitAnswered

/-- The source's {lit}`commit`. -/
def commit : Call Unit := do
  change fun tx => { tx with operatorEnded := true }
  if (← transaction).commitMayHaveSucceeded then
    fail (.message "COMMIT already attempted")
  else
    prepareStatement
    sendCommit

/-- The cleanup of a transaction without a request lease. -/
def rollbackOperator : Call Unit := do
  if (← transaction).active then
    if (← transaction).backend = .sqlite then
      awaited
    executeInternal awaited
    change fun tx => { tx with active := false }
  releaseGate

def cleanup : Call Unit := do
  if (← transaction).ordinary then finishTransaction else rollbackOperator

/-- The first of two errors where there is one. -/
def errorOr (result : Except Error Unit) (text : String) : Error :=
  match result with
  | .error error => error
  | .ok () => .message text

/-- Preserve the semantic frontier on both successful and failed cleanup. -/
def keepFrontier (result : Except Error Unit) : Call Unit := do
  match (← transaction).commitState with
  | .sent =>
      fail (.uncertain
        (errorOr result "cleanup cannot prove a previously sent COMMIT aborted"))
  | .acknowledged =>
      fail (.committed (errorOr result "ROLLBACK cannot undo an acknowledged COMMIT"))
  | .notAttempted | .refused => handOn result

/-- The source's {lit}`rollback`. -/
def rollback : Call Unit := do
  change fun tx => { tx with operatorEnded := true }
  let result ← attempt cleanup
  keepFrontier result

/-- Commit and report the prepared result, telling a commit whose outcome is unknown
from one known to have failed. -/
def finishCommit {α : Type} (prepared : α) : Call (Except RequestError α) := do
  let result ← attempt commit
  let tx ← transaction
  if tx.commitAcknowledged then
    return .ok prepared
  else if tx.commitMayHaveSucceeded then
    return .error .outcomeUnknown
  else
    return (result.map fun _ => prepared).mapError RequestError.database

/-! ## Calls that leave the frontier alone -/

theorem bind_run {α β : Type} (x : Call α) (f : α → Call β) (w : World) :
    (x >>= f) w = match x w with
      | (.returned value, w') => f value w'
      | (.failed error, w') => (.failed error, w')
      | (.dropped, w') => (.dropped, w') :=
  rfl

/-- A sequence runs its second part only where the first returns. -/
theorem bind_cases {α β : Type} {x : Call α} {f : α → Call β} {w : World}
    {motive : Ended β × World → Prop}
    (returned : ∀ value w', x w = (.returned value, w') → motive (f value w'))
    (failed : ∀ error w', x w = (.failed error, w') → motive (.failed error, w'))
    (dropped : ∀ w', x w = (.dropped, w') → motive (.dropped, w')) : motive ((x >>= f) w) := by
  rw [bind_run]
  rcases ran : x w with ⟨ended, w'⟩
  cases ended with
  | returned value => exact returned value w' ran
  | failed error => exact failed error w' ran
  | dropped => exact dropped w' ran

/-- The call neither moves the commit state nor sends a COMMIT. -/
def Quiet {α : Type} (x : Call α) : Prop :=
  ∀ w, (x w).2.tx.commitState = w.tx.commitState ∧ (x w).2.log = w.log

section Quiet

variable {α β : Type}

theorem Quiet.pure (value : α) : Quiet (Pure.pure value : Call α) :=
  fun _ => ⟨rfl, rfl⟩

theorem Quiet.bind {x : Call α} {f : α → Call β} (first : Quiet x) (next : ∀ value, Quiet (f value)) :
    Quiet (x >>= f) := by
  intro w
  have kept := first w
  refine bind_cases (motive := fun out => out.2.tx.commitState = w.tx.commitState ∧ out.2.log = w.log)
    (fun value w' ran => ?_) (fun error w' ran => ?_) fun w' ran => ?_
  · rw [ran] at kept
    exact ⟨(next value w').1.trans kept.1, (next value w').2.trans kept.2⟩
  · rw [ran] at kept
    exact kept
  · rw [ran] at kept
    exact kept

theorem Quiet.fail (error : Error) : Quiet (fail error : Call α) :=
  fun _ => ⟨rfl, rfl⟩

theorem Quiet.unwind : Quiet (unwind : Call α) :=
  fun _ => ⟨rfl, rfl⟩

theorem Quiet.transaction : Quiet transaction :=
  fun _ => ⟨rfl, rfl⟩

theorem Quiet.change {f : Transaction → Transaction}
    (same : ∀ tx, (f tx).commitState = tx.commitState) : Quiet (change f) :=
  fun w => ⟨same w.tx, rfl⟩

theorem Quiet.attempt {x : Call α} (h : Quiet x) : Quiet (attempt x) := by
  intro w
  have kept := h w
  unfold Commit.attempt
  generalize x w = ran at kept ⊢
  rcases ran with ⟨ended, w'⟩
  cases ended <;> exact kept

theorem Quiet.mapErr {x : Call α} (wrap : Error → Error) (h : Quiet x) : Quiet (mapErr wrap x) := by
  refine Quiet.bind (Quiet.attempt h) fun result w => ?_
  cases result with
  | ok value => exact ⟨rfl, rfl⟩
  | error error => exact ⟨rfl, rfl⟩

theorem Quiet.awaited : Quiet awaited := by
  intro w
  unfold Commit.awaited
  cases w.script with
  | nil => exact ⟨rfl, rfl⟩
  | cons reply rest => exact ⟨rfl, rfl⟩

/-- A step taken only when a condition on the transaction holds. -/
theorem Quiet.guarded {condition : Transaction → Prop} [DecidablePred condition] {x : Call Unit}
    (h : Quiet x) : Quiet (Commit.transaction >>= fun tx => if condition tx then x else Pure.pure ()) := by
  refine Quiet.bind Quiet.transaction fun tx => ?_
  split
  · exact h
  · exact Quiet.pure ()

theorem quiet_prepareStatement : Quiet prepareStatement := by
  have once : ∀ field : Transaction → Bool,
      Quiet (transaction >>= fun tx => if field tx = true then awaited else Pure.pure ()) :=
    fun field => @Quiet.guarded (fun tx => field tx = true) _ _ Quiet.awaited
  exact Quiet.bind (once (·.maintenance)) fun _ => Quiet.bind (once (·.ordinary)) fun _ =>
    once (·.ordinary)

theorem quiet_ordinaryCommitPending (pending : Bool) : Quiet (ordinaryCommitPending pending) := by
  refine Quiet.change fun tx => ?_
  split <;> rfl

theorem quiet_executePrepared {statement : Call Unit} (h : Quiet statement) :
    Quiet (executePrepared statement) := by
  refine Quiet.bind Quiet.transaction fun tx => ?_
  cases tx.backend with
  | closed => exact Quiet.unwind
  | sqlite => exact h
  | postgres => exact h

theorem quiet_releaseGate : Quiet releaseGate := by
  refine Quiet.bind quiet_prepareStatement fun _ => Quiet.bind Quiet.transaction fun tx => ?_
  cases tx.backend with
  | closed => exact Quiet.pure ()
  | sqlite => exact Quiet.pure ()
  | postgres => exact Quiet.awaited

theorem quiet_dropTransaction : Quiet dropTransaction := by
  refine Quiet.change fun tx => ?_
  split <;> rfl

theorem quiet_closeOperator : Quiet closeOperator := by
  refine Quiet.bind Quiet.transaction fun tx => ?_
  split
  · exact Quiet.bind (Quiet.change fun _ => rfl) fun _ => Quiet.mapErr _ Quiet.awaited
  · exact Quiet.pure ()

theorem quiet_cleanup : Quiet cleanup := by
  refine Quiet.bind Quiet.transaction fun tx => ?_
  split
  · refine Quiet.bind Quiet.transaction fun tx => ?_
    split
    · exact Quiet.bind (Quiet.change fun _ => rfl) fun _ => Quiet.bind Quiet.awaited fun _ =>
        Quiet.change fun _ => rfl
    · exact Quiet.pure ()
  · refine Quiet.bind Quiet.transaction fun tx => ?_
    have inner : Quiet (executeInternal awaited) :=
      Quiet.bind quiet_prepareStatement fun _ => quiet_executePrepared Quiet.awaited
    have gate : Quiet (change fun tx => { tx with active := false }) := Quiet.change fun _ => rfl
    split
    · refine Quiet.bind Quiet.transaction fun tx => ?_
      split
      · exact Quiet.bind Quiet.awaited fun _ => Quiet.bind inner fun _ =>
          Quiet.bind gate fun _ => quiet_releaseGate
      · exact Quiet.bind inner fun _ => Quiet.bind gate fun _ => quiet_releaseGate
    · exact quiet_releaseGate

end Quiet

/-! ## What one commit does -/

/-- Same commit state, same COMMITs sent. -/
def World.SameFrontier (w w' : World) : Prop :=
  w'.tx.commitState = w.tx.commitState ∧ w'.log = w.log

theorem Quiet.same {α : Type} {x : Call α} (h : Quiet x) {w w' : World} {ended : Ended α}
    (ran : x w = (ended, w')) : w.SameFrontier w' := by
  have kept := h w
  rw [ran] at kept
  exact kept

/-- A failure that is looked at becomes the next part's argument. -/
theorem attempt_bind {α β : Type} (x : Call α) (f : Except Error α → Call β) (w : World) :
    (attempt x >>= f) w = match x w with
      | (.returned value, w') => f (.ok value) w'
      | (.failed error, w') => f (.error error) w'
      | (.dropped, w') => (.dropped, w') := by
  rw [bind_run]
  unfold attempt
  rcases x w with ⟨ended, w'⟩
  cases ended <;> rfl

/-- Every failure of a wrapped call is wrapped. -/
theorem mapErr_failed {α : Type} {wrap : Error → Error} {x : Call α} {w w' : World} {error : Error}
    (ran : mapErr wrap x w = (.failed error, w')) : ∃ inner, error = wrap inner := by
  have unfolded : mapErr wrap x w = (attempt x >>= fun result => handOn (result.mapError wrap)) w :=
    rfl
  rw [unfolded, attempt_bind] at ran
  generalize x w = inside at ran
  rcases inside with ⟨ended, middle⟩
  cases ended with
  | returned value => cases ran
  | failed inner =>
      cases ran
      exact ⟨inner, rfl⟩
  | dropped => cases ran

/-- The ends of a COMMIT that entered the frontier from {lit}`w`. -/
inductive Transmitted (w : World) : Ended Unit → World → Prop where
  /-- Without a known end. -/
  | uncertain (ended : Ended Unit) (w' : World) (state : w'.tx.commitState = .sent)
      (log : w'.log = w.log ∨ ∃ sent, w'.log = w.log ++ [sent])
      (failure : ended = .dropped ∨ ∃ inner, ended = .failed (.uncertain inner)) :
      Transmitted w ended w'
  /-- Definitively refused by the provider. -/
  | refused (ended : Ended Unit) (w' : World) (sent : Sent) (state : w'.tx.commitState = .refused)
      (log : w'.log = w.log ++ [sent]) (refusal : sent.wasRefused) (stopped : ended ≠ .returned ()) :
      Transmitted w ended w'
  /-- Acknowledged, whatever cleanup does afterwards. -/
  | acknowledged (ended : Ended Unit) (w' : World) (sent : Sent)
      (state : w'.tx.commitState = .acknowledged) (log : w'.log = w.log ++ [sent])
      (answer : sent.acknowledged)
      (failure : ∀ error, ended = .failed error → ∃ inner, error = .committed inner) :
      Transmitted w ended w'

/-- The ends of a commit call. -/
inductive Committed (w : World) : Ended Unit → World → Prop where
  /-- Turned away, because a COMMIT may already have succeeded. -/
  | again (text : String) (w' : World) (attempted : w.tx.commitMayHaveSucceeded = true)
      (same : w.SameFrontier w') : Committed w (.failed (.message text)) w'
  /-- Stopped before anything was sent. -/
  | unsent (ended : Ended Unit) (w' : World) (first : w.tx.commitMayHaveSucceeded = false)
      (same : w.SameFrontier w') (stopped : ended ≠ .returned ()) : Committed w ended w'
  | sent (ended : Ended Unit) (w' : World) (first : w.tx.commitMayHaveSucceeded = false)
      (transmitted : Transmitted w ended w') : Committed w ended w'

theorem commitFailed_ends (error : Error) (w : World) :
    (refused w.tx.backend error = true ∧ (commitFailed error w).1 = .failed error
      ∧ (commitFailed error w).2.tx.commitState = .refused ∧ (commitFailed error w).2.log = w.log)
    ∨ (commitFailed error w).1 = .failed (.uncertain error) ∧ w.SameFrontier (commitFailed error w).2 := by
  have unfolded : commitFailed error w = (if refused w.tx.backend error = true then
      (change fun tx => { tx with commitState := .refused }) >>= fun _ =>
        ordinaryCommitPending false >>= fun _ => fail error
      else fail (.uncertain error) : Call Unit) w := rfl
  rw [unfolded]
  split
  · rename_i refusal
    have quiet : Quiet (ordinaryCommitPending false >>= fun _ => (fail error : Call Unit)) :=
      Quiet.bind (quiet_ordinaryCommitPending false) fun _ => Quiet.fail error
    have kept := quiet { w with tx := { w.tx with commitState := .refused } }
    exact Or.inl ⟨refusal, rfl, kept.1, kept.2⟩
  · exact Or.inr ⟨rfl, rfl, rfl⟩
/-- After the acknowledgement only cleanup may fail, and it keeps the frontier. -/
theorem cleanup_ends (w : World) :
    let after := (transaction >>= fun tx => if tx.ordinary = true then dropTransaction else
      mapErr .committed releaseGate >>= fun _ => closeOperator) w
    w.SameFrontier after.2 ∧ ∀ error, after.1 = .failed error → ∃ inner, error = .committed inner := by
  intro after
  by_cases owned : w.tx.ordinary = true
  · have unfolded : after = dropTransaction w := by
      change (if w.tx.ordinary = true then dropTransaction else _ : Call Unit) w = _
      rw [if_pos owned]
    rw [unfolded]
    exact ⟨quiet_dropTransaction w, fun error failed => by cases failed⟩
  · have unfolded : after = (mapErr .committed releaseGate >>= fun _ => closeOperator) w := by
      change (if w.tx.ordinary = true then dropTransaction else _ : Call Unit) w = _
      rw [if_neg owned]
    rw [unfolded]
    have quiet : Quiet (mapErr .committed releaseGate >>= fun _ => closeOperator) :=
      Quiet.bind (Quiet.mapErr _ quiet_releaseGate) fun _ => quiet_closeOperator
    refine ⟨quiet w, ?_⟩
    refine bind_cases (motive := fun out => ∀ error, out.1 = .failed error → ∃ inner, error = .committed inner)
      (fun _ w' ran error failed => ?_) (fun error w' ran error' failed => ?_) fun w' ran error failed => ?_
    · have closing : closeOperator w' = (if w'.tx.maintenanceWork = false ∧ w'.tx.backend = .sqlite then
          (change fun tx => { tx with backend := .closed }) >>= fun _ => mapErr .committed awaited
          else pure () : Call Unit) w' := rfl
      rw [closing] at failed
      split at failed
      · exact mapErr_failed (Prod.ext failed rfl)
      · cases failed
    · cases failed
      exact mapErr_failed ran
    · cases failed

theorem commitAnswered_ends (w : World) (sending : w.tx.commitState = .sent) :
    let after := commitAnswered w
    after.2.log = w.log
    ∧ (after.2.tx.commitState = .sent ∧ (after.1 = .dropped ∨ ∃ inner, after.1 = .failed (.uncertain inner))
      ∨ after.2.tx.commitState = .acknowledged
        ∧ ∀ error, after.1 = .failed error → ∃ inner, error = .committed inner) := by
  intro after
  have unfolded : after = (mapErr .uncertain awaited >>= fun _ =>
      (change fun tx => { tx with commitState := .acknowledged }) >>= fun _ =>
        ordinaryCommitPending false >>= fun _ => transaction >>= fun tx =>
          if tx.ordinary = true then dropTransaction else
            mapErr .committed releaseGate >>= fun _ => closeOperator)
      { w with tx := { w.tx with active := false } } := rfl
  rw [unfolded]
  have quiet : Quiet (mapErr .uncertain awaited) := Quiet.mapErr _ Quiet.awaited
  refine bind_cases (motive := fun out => out.2.log = w.log
    ∧ (out.2.tx.commitState = .sent ∧ (out.1 = .dropped ∨ ∃ inner, out.1 = .failed (.uncertain inner))
      ∨ out.2.tx.commitState = .acknowledged
        ∧ ∀ error, out.1 = .failed error → ∃ inner, error = .committed inner))
    (fun _ w' ran => ?_) (fun error w' ran => ?_) fun w' ran => ?_
  · have kept := quiet.same ran
    have pending := quiet_ordinaryCommitPending false { w' with tx := { w'.tx with commitState := .acknowledged } }
    have cleaned := cleanup_ends
      (ordinaryCommitPending false { w' with tx := { w'.tx with commitState := .acknowledged } }).2
    exact ⟨cleaned.1.2.trans (pending.2.trans kept.2),
      Or.inr ⟨cleaned.1.1.trans pending.1, cleaned.2⟩⟩
  · rcases mapErr_failed ran with ⟨inner, rfl⟩
    have kept := quiet.same ran
    exact ⟨kept.2, Or.inl ⟨kept.1.trans sending, Or.inr ⟨inner, rfl⟩⟩⟩
  · have kept := quiet.same ran
    exact ⟨kept.2, Or.inl ⟨kept.1.trans sending, Or.inl rfl⟩⟩

/-- What becomes of one COMMIT handed to the connection. -/
theorem awaitedCommit_ends {w w' : World} {ended : Ended Unit}
    (ran : executePrepared awaitedCommit w = (ended, w')) :
    w'.tx = w.tx ∧ (ended = .dropped ∧ w'.log = w.log
      ∨ ∃ sent, w'.log = w.log ++ [sent] ∧ sent.backend = w.tx.backend ∧ sent.reply.answer = ended) := by
  have unfolded : executePrepared awaitedCommit w = (match w.tx.backend with
      | .closed => unwind
      | .sqlite | .postgres => awaitedCommit : Call Unit) w := rfl
  have polled : ∀ {ended w'}, awaitedCommit w = (ended, w') → w'.tx = w.tx
      ∧ (ended = .dropped ∧ w'.log = w.log ∨ ∃ sent, w'.log = w.log ++ [sent]
        ∧ sent.backend = w.tx.backend ∧ sent.reply.answer = ended) := by
    intro ended w' ran
    unfold awaitedCommit at ran
    cases script : w.script with
    | nil =>
        rw [script] at ran
        cases ran
        exact ⟨rfl, Or.inl ⟨rfl, rfl⟩⟩
    | cons reply rest =>
        rw [script] at ran
        cases ran
        exact ⟨rfl, Or.inr ⟨⟨w.tx.backend, reply⟩, rfl, rfl, rfl⟩⟩
  rw [unfolded] at ran
  cases backend : w.tx.backend with
  | closed =>
      rw [backend] at ran
      cases ran
      exact ⟨rfl, Or.inl ⟨rfl, rfl⟩⟩
  | sqlite =>
      rw [backend] at ran
      rw [← backend]
      exact polled ran
  | postgres =>
      rw [backend] at ran
      rw [← backend]
      exact polled ran

theorem sendCommit_ends (w : World) : Transmitted w (sendCommit w).1 (sendCommit w).2 := by
  let start := (ordinaryCommitPending true { w with tx := { w.tx with commitState := .sent } }).2
  have begun := quiet_ordinaryCommitPending true { w with tx := { w.tx with commitState := .sent } }
  have sending : start.tx.commitState = .sent := begun.1
  have unsent : start.log = w.log := begun.2
  have unfolded : sendCommit w = (attempt (executePrepared awaitedCommit) >>= fun result =>
      match result with
      | .error error => commitFailed error
      | .ok () => commitAnswered) start := rfl
  rw [unfolded]
  rw [attempt_bind]
  rcases polled : executePrepared awaitedCommit start with ⟨ended, w'⟩
  rcases awaitedCommit_ends polled with ⟨kept, outcome⟩
  have still : w'.tx.commitState = .sent := by rw [kept, sending]
  rw [unsent] at outcome
  have logged : w'.log = w.log ∨ ∃ sent, w'.log = w.log ++ [sent] := by
    rcases outcome with ⟨_, same⟩ | ⟨sent, log, _⟩
    · exact Or.inl same
    · exact Or.inr ⟨sent, log⟩
  cases ended with
  | dropped => exact Transmitted.uncertain _ _ still logged (Or.inl rfl)
  | failed error =>
      rcases commitFailed_ends error w' with ⟨refusal, ended, state, log⟩ | ⟨ended, same⟩
      · rcases outcome with ⟨dropped, _⟩ | ⟨sent, sent_log, backend, answer⟩
        · cases dropped
        · refine Transmitted.refused _ _ sent state (log.trans sent_log) ⟨error, answer, ?_⟩ ?_
          · rw [backend, ← kept]
            exact refusal
          · change (commitFailed error w').1 ≠ _
            rw [ended]
            simp
      · refine Transmitted.uncertain _ _ (same.1.trans still) ?_ (Or.inr ⟨error, ended⟩)
        change (commitFailed error w').2.log = _ ∨ ∃ sent, (commitFailed error w').2.log = _
        rw [same.2]
        exact logged
  | returned value =>
      rcases outcome with ⟨dropped, _⟩ | ⟨sent, sent_log, _, answer⟩
      · cases dropped
      · have after := commitAnswered_ends w' still
        have log : (commitAnswered w').2.log = w.log ++ [sent] := after.1.trans sent_log
        rcases after.2 with ⟨state, failure⟩ | ⟨state, failure⟩
        · exact Transmitted.uncertain _ _ state (Or.inr ⟨sent, log⟩) failure
        · exact Transmitted.acknowledged _ _ sent state log answer failure

theorem commit_ends (w : World) : Committed w (commit w).1 (commit w).2 := by
  have unfolded : commit w = (if w.tx.commitMayHaveSucceeded = true then
      fail (.message "COMMIT already attempted")
      else prepareStatement >>= fun _ => sendCommit : Call Unit)
        { w with tx := { w.tx with operatorEnded := true } } := rfl
  rw [unfolded]
  by_cases attempted : w.tx.commitMayHaveSucceeded = true
  · rw [if_pos attempted]
    exact Committed.again _ _ attempted ⟨rfl, rfl⟩
  · rw [if_neg attempted]
    have first : w.tx.commitMayHaveSucceeded = false := by simpa using attempted
    refine bind_cases (motive := fun out => Committed w out.1 out.2)
      (fun _ w' ran => ?_) (fun error w' ran => ?_) fun w' ran => ?_
    · have same := quiet_prepareStatement.same ran
      refine Committed.sent _ _ first ?_
      have ends := sendCommit_ends w'
      have log : w'.log = w.log := same.2
      cases ends with
      | uncertain state sent failure =>
          rw [log] at sent
          exact Transmitted.uncertain _ _ state sent failure
      | refused sent state sent_log refusal stopped =>
          rw [log] at sent_log
          exact Transmitted.refused _ _ sent state sent_log refusal stopped
      | acknowledged sent state sent_log answer failure =>
          rw [log] at sent_log
          exact Transmitted.acknowledged _ _ sent state sent_log answer failure
    · have same := quiet_prepareStatement.same ran
      exact Committed.unsent _ _ first ⟨same.1, same.2⟩ (by simp)
    · have same := quiet_prepareStatement.same ran
      exact Committed.unsent _ _ first ⟨same.1, same.2⟩ (by simp)

/-! ## What one rollback does -/

theorem keepFrontier_ends (result : Except Error Unit) (w : World) :
    (keepFrontier result w).2 = w ∧ (w.tx.commitMayHaveSucceeded = true →
      ∃ error, (keepFrontier result w).1 = .failed error ∧ error.isCommitFailure = true) := by
  have unfolded : keepFrontier result w = (match w.tx.commitState with
      | .sent => fail (.uncertain
          (errorOr result "cleanup cannot prove a previously sent COMMIT aborted"))
      | .acknowledged =>
          fail (.committed (errorOr result "ROLLBACK cannot undo an acknowledged COMMIT"))
      | .notAttempted | .refused => handOn result : Call Unit) w := rfl
  have passed : (handOn result w).2 = w := by
    cases result <;> rfl
  rw [unfolded]
  unfold Transaction.commitMayHaveSucceeded
  cases w.tx.commitState with
  | notAttempted => exact ⟨passed, fun attempted => by cases attempted⟩
  | refused => exact ⟨passed, fun attempted => by cases attempted⟩
  | sent => exact ⟨rfl, fun _ => ⟨_, rfl, rfl⟩⟩
  | acknowledged => exact ⟨rfl, fun _ => ⟨_, rfl, rfl⟩⟩

/-- A rollback keeps the frontier, and where a COMMIT may have succeeded its failure
says so. -/
theorem rollback_ends (w : World) : w.SameFrontier (rollback w).2
    ∧ (w.tx.commitMayHaveSucceeded = true → ∀ error, (rollback w).1 = .failed error →
      error.isCommitFailure = true) := by
  let start : World := { w with tx := { w.tx with operatorEnded := true } }
  have unfolded : rollback w = (attempt cleanup >>= keepFrontier) start := rfl
  have quiet := Quiet.attempt quiet_cleanup
  rw [unfolded]
  refine bind_cases (motive := fun out => w.SameFrontier out.2
    ∧ (w.tx.commitMayHaveSucceeded = true → ∀ error, out.1 = .failed error →
      error.isCommitFailure = true)) (fun result w' ran => ?_) (fun error w' ran => ?_) fun w' ran => ?_
  · have same : start.SameFrontier w' := quiet.same ran
    have ends := keepFrontier_ends result w'
    rw [ends.1]
    refine ⟨same, fun attempted error failed => ?_⟩
    have still : w'.tx.commitMayHaveSucceeded = true := by
      unfold Transaction.commitMayHaveSucceeded at attempted ⊢
      rw [same.1]
      exact attempted
    rcases ends.2 still with ⟨kept, raised, failure⟩
    rw [raised] at failed
    cases failed
    exact failure
  · unfold attempt at ran
    generalize cleanup start = inside at ran
    rcases inside with ⟨ended, middle⟩
    cases ended <;> cases ran
  · have same : start.SameFrontier w' := quiet.same ran
    exact ⟨same, fun _ error failed => by cases failed⟩

/-! ## Every sequence of calls -/

/-- A call of the transaction's owner. -/
inductive Operation where
  | commit
  | rollback
  | finishCommit
  deriving DecidableEq, Repr

/-- A call with the result it prepares left out. -/
def Operation.call : Operation → Call Unit
  | .commit => Commit.commit
  | .rollback => Commit.rollback
  | .finishCommit => do
      let _ ← Commit.finishCommit ()

def World.scripted (w : World) (script : List Reply) : World :=
  { w with script := script }

/-- A transaction whose owner makes any calls, each against any replies. -/
def transactions : System World where
  initial w := w.tx.commitState = .notAttempted ∧ w.log = []
  step w w' := ∃ (operation : Operation) (script : List Reply),
    w' = (operation.call (w.scripted script)).2

/-- The state of the frontier is justified by the COMMITs sent. -/
structure Classified (w : World) : Prop where
  acknowledged : w.tx.commitAcknowledged = true → ∃ sent ∈ w.log, sent.acknowledged
  unsent : w.tx.commitMayHaveSucceeded = false → ∀ sent ∈ w.log, sent.wasRefused

theorem commitMayHaveSucceeded_of_acknowledged {tx : Transaction} (h : tx.commitAcknowledged = true) :
    tx.commitMayHaveSucceeded = true := by
  have state : tx.commitState = .acknowledged := by simpa [Transaction.commitAcknowledged] using h
  simp [Transaction.commitMayHaveSucceeded, state, CommitState.mayHaveCommitted]

theorem World.SameFrontier.mayHave {w w' : World} (same : w.SameFrontier w') :
    w'.tx.commitMayHaveSucceeded = w.tx.commitMayHaveSucceeded := by
  unfold Transaction.commitMayHaveSucceeded
  rw [same.1]

theorem World.SameFrontier.classified {w w' : World} (same : w.SameFrontier w') (h : Classified w) :
    Classified w' := by
  refine ⟨fun acknowledged => ?_, fun unsent => ?_⟩
  · unfold Transaction.commitAcknowledged at acknowledged
    rw [same.1] at acknowledged
    rw [same.2]
    exact h.acknowledged acknowledged
  · rw [same.mayHave] at unsent
    rw [same.2]
    exact h.unsent unsent

/-- What holds after any call from a classified world. -/
structure Judged (w : World) (ended : Ended Unit) (w' : World) : Prop where
  classified : Classified w'
  /-- A possible commit stays possible. -/
  stays : w.tx.commitMayHaveSucceeded = true → w'.tx.commitMayHaveSucceeded = true
  /-- No failure after a possible commit is retried. -/
  final : w'.tx.commitMayHaveSucceeded = true → ∀ error, ended = .failed error →
    retryable error = false

theorem retryable_of_isCommitFailure {error : Error} (h : error.isCommitFailure = true) :
    retryable error = false := by
  unfold retryable
  rw [if_pos h]

theorem commit_judged {w : World} (h : Classified w) : Judged w (commit w).1 (commit w).2 := by
  have ends := commit_ends w
  generalize (commit w).1 = ended at ends ⊢
  generalize (commit w).2 = w' at ends ⊢
  cases ends with
  | again text _ attempted same =>
      refine ⟨same.classified h, fun _ => same.mayHave.trans attempted, fun _ error failed => ?_⟩
      cases failed
      rfl
  | unsent _ _ first same stopped =>
      refine ⟨same.classified h, fun attempted => ?_, fun possible => ?_⟩
      · rw [first] at attempted
        cases attempted
      · rw [same.mayHave, first] at possible
        cases possible
  | sent _ _ first transmitted =>
      have never : w.tx.commitMayHaveSucceeded = true → w'.tx.commitMayHaveSucceeded = true := by
        intro attempted
        rw [first] at attempted
        cases attempted
      cases transmitted with
      | uncertain state log failure =>
          refine ⟨⟨fun acknowledged => ?_, fun unsent => ?_⟩, never, fun _ error failed => ?_⟩
          · simp [Transaction.commitAcknowledged, state] at acknowledged
          · simp [Transaction.commitMayHaveSucceeded, state, CommitState.mayHaveCommitted] at unsent
          · rcases failure with dropped | ⟨inner, raised⟩
            · rw [dropped] at failed
              cases failed
            · rw [raised] at failed
              cases failed
              rfl
      | refused sent state log refusal stopped =>
          refine ⟨⟨fun acknowledged => ?_, fun _ other member => ?_⟩, never, fun possible => ?_⟩
          · simp [Transaction.commitAcknowledged, state] at acknowledged
          · rw [log] at member
            rcases List.mem_append.mp member with before | last
            · exact h.unsent first other before
            · rw [List.mem_singleton.mp last]
              exact refusal
          · simp [Transaction.commitMayHaveSucceeded, state, CommitState.mayHaveCommitted] at possible
      | acknowledged sent state log answer failure =>
          refine ⟨⟨fun _ => ⟨sent, ?_, answer⟩, fun unsent => ?_⟩, never, fun _ error failed => ?_⟩
          · rw [log]
            exact List.mem_append_right _ (List.mem_singleton_self sent)
          · simp [Transaction.commitMayHaveSucceeded, state, CommitState.mayHaveCommitted] at unsent
          · rcases failure error failed with ⟨inner, rfl⟩
            rfl

theorem rollback_judged {w : World} (h : Classified w) : Judged w (rollback w).1 (rollback w).2 := by
  have ends := rollback_ends w
  refine ⟨ends.1.classified h, fun attempted => ends.1.mayHave.trans attempted,
    fun possible error failed => ?_⟩
  rw [ends.1.mayHave] at possible
  exact retryable_of_isCommitFailure (ends.2 possible error failed)

/-- A commit that returns is acknowledged. -/
theorem commit_returned {w w' : World} {value : Unit} (ran : commit w = (.returned value, w')) :
    w'.tx.commitAcknowledged = true := by
  have ends := commit_ends w
  rw [ran] at ends
  cases ends with
  | unsent _ _ first same stopped => exact absurd rfl stopped
  | sent _ _ first transmitted =>
      cases transmitted with
      | uncertain state log failure =>
          rcases failure with dropped | ⟨inner, raised⟩
          · cases dropped
          · cases raised
      | refused sent state log refusal stopped => exact absurd rfl stopped
      | acknowledged sent state log answer failure =>
          change w'.tx.commitState = .acknowledged at state
          simp [Transaction.commitAcknowledged, state]

/-- How a finished commit reports the world its commit call leaves. -/
inductive Reported {α : Type} (prepared : α) (w' : World) : Ended (Except RequestError α) → Prop where
  | dropped : Reported prepared w' .dropped
  | prepared (acknowledged : w'.tx.commitAcknowledged = true) :
      Reported prepared w' (.returned (.ok prepared))
  | unknown (possible : w'.tx.commitMayHaveSucceeded = true) :
      Reported prepared w' (.returned (.error .outcomeUnknown))
  | failed (error : RequestError) (impossible : w'.tx.commitMayHaveSucceeded = false) :
      Reported prepared w' (.returned (.error error))

theorem finishCommit_ends {α : Type} (prepared : α) (w : World) :
    (finishCommit prepared w).2 = (commit w).2
    ∧ Reported prepared (commit w).2 (finishCommit prepared w).1 := by
  have report : ∀ (result : Except Error Unit) (w' : World),
      (∀ value, result = .ok value → w'.tx.commitAcknowledged = true) →
      let reported := (transaction >>= fun tx =>
        if tx.commitAcknowledged = true then pure (.ok prepared)
        else if tx.commitMayHaveSucceeded = true then pure (.error .outcomeUnknown)
        else pure ((result.map fun _ => prepared).mapError RequestError.database) :
          Call (Except RequestError α)) w'
      reported.2 = w' ∧ Reported prepared w' reported.1 := by
    intro result w' returned reported
    have unfolded : reported = (if w'.tx.commitAcknowledged = true then pure (.ok prepared)
        else if w'.tx.commitMayHaveSucceeded = true then pure (.error .outcomeUnknown)
        else pure ((result.map fun _ => prepared).mapError RequestError.database) :
          Call (Except RequestError α)) w' := rfl
    rw [unfolded]
    by_cases acknowledged : w'.tx.commitAcknowledged = true
    · rw [if_pos acknowledged]
      exact ⟨rfl, Reported.prepared acknowledged⟩
    · rw [if_neg acknowledged]
      by_cases possible : w'.tx.commitMayHaveSucceeded = true
      · rw [if_pos possible]
        exact ⟨rfl, Reported.unknown possible⟩
      · rw [if_neg possible]
        cases result with
        | ok value => exact absurd (returned value rfl) acknowledged
        | error error => exact ⟨rfl, Reported.failed _ (by simpa using possible)⟩
  have unfolded : finishCommit prepared w = (attempt commit >>= fun result => transaction >>= fun tx =>
      if tx.commitAcknowledged = true then pure (.ok prepared)
      else if tx.commitMayHaveSucceeded = true then pure (.error .outcomeUnknown)
      else pure ((result.map fun _ => prepared).mapError RequestError.database)) w := rfl
  rw [unfolded, attempt_bind]
  rcases ran : commit w with ⟨ended, w'⟩
  cases ended with
  | returned value => exact report _ w' fun _ _ => commit_returned ran
  | failed error => exact report _ w' fun value same => by cases same
  | dropped => exact ⟨rfl, Reported.dropped⟩

/-! ## Soundness -/

theorem operation_judged {w : World} (h : Classified w) (operation : Operation) :
    Judged w (operation.call w).1 (operation.call w).2 := by
  cases operation with
  | commit => exact commit_judged h
  | rollback => exact rollback_judged h
  | finishCommit =>
      have judged := commit_judged h
      have ends := finishCommit_ends () w
      have unfolded : Operation.finishCommit.call w =
          (finishCommit () >>= fun _ => pure () : Call Unit) w := rfl
      rw [unfolded]
      refine bind_cases (motive := fun out => Judged w out.1 out.2)
        (fun result w' ran => ?_) (fun error w' ran => ?_) fun w' ran => ?_
      · rw [ran] at ends
        rw [← ends.1] at judged
        exact ⟨judged.classified, judged.stays, fun _ error failed => by cases failed⟩
      · rw [ran] at ends
        cases ends.2
      · rw [ran] at ends
        rw [← ends.1] at judged
        exact ⟨judged.classified, judged.stays, fun _ error failed => by cases failed⟩

theorem Classified.scripted {w : World} (h : Classified w) (script : List Reply) :
    Classified (w.scripted script) :=
  ⟨h.acknowledged, h.unsent⟩

theorem classified_invariant : transactions.Invariant Classified where
  initial w fresh := by
    refine ⟨fun acknowledged => ?_, fun _ sent member => ?_⟩
    · simp [Transaction.commitAcknowledged, fresh.1] at acknowledged
    · rw [fresh.2] at member
      cases member
  step w w' _ h step := by
    rcases step with ⟨operation, script, rfl⟩
    exact (operation_judged (h.scripted script) operation).classified

theorem possible_stable :
    transactions.Stable fun w => w.tx.commitMayHaveSucceeded = true := by
  intro w w' reachable possible step
  rcases step with ⟨operation, script, rfl⟩
  have classified := classified_invariant.holds reachable
  exact (operation_judged (classified.scripted script) operation).stays possible

/-- A refused COMMIT has no effect. -/
theorem Sent.wasRefused.unapplied {sent : Sent} (h : sent.wasRefused) : sent.reply.applied = false := by
  rcases h with ⟨error, answer, refusal⟩
  exact sent.reply.definitive sent.backend error answer refusal

/-- Over any calls and any provider outcomes: an acknowledged state has an acknowledged
COMMIT; a state without a possible commit has only refused ones; a possible commit stays
possible and no call that leaves one fails with an error that is retried; and a finished
commit reports a known failure only where no COMMIT took effect. -/
theorem commit_outcome_classified {w : World} (reachable : transactions.Reachable w) :
    (w.tx.commitAcknowledged = true → ∃ sent ∈ w.log, sent.acknowledged)
    ∧ (w.tx.commitMayHaveSucceeded = false → ∀ sent ∈ w.log, sent.wasRefused)
    ∧ (w.tx.commitMayHaveSucceeded = true → ∀ later, transactions.Run w later →
        later.tx.commitMayHaveSucceeded = true
        ∧ ∀ (operation : Operation) (script : List Reply) (error : Error),
          (operation.call (later.scripted script)).1 = .failed error → retryable error = false)
    ∧ (∀ (operation : Operation) (script : List Reply) (error : Error),
        (operation.call (w.scripted script)).2.tx.commitMayHaveSucceeded = true →
        (operation.call (w.scripted script)).1 = .failed error → retryable error = false)
    ∧ ∀ (α : Type) (prepared : α) (script : List Reply) (error : RequestError),
        (finishCommit prepared (w.scripted script)).1 = .returned (.error error) →
        error ≠ .outcomeUnknown →
        ∀ sent ∈ (finishCommit prepared (w.scripted script)).2.log, sent.reply.applied = false := by
  have classified := classified_invariant.holds reachable
  refine ⟨classified.acknowledged, classified.unsent, fun possible later run => ?_,
    fun operation script error possible failed => ?_, fun α prepared script error reported known => ?_⟩
  · have still := possible_stable.along reachable possible run
    have classified := classified_invariant.holds (reachable.run run)
    refine ⟨still, fun operation script error failed => ?_⟩
    have judged := operation_judged (classified.scripted script) operation
    exact judged.final (judged.stays still) error failed
  · exact (operation_judged (classified.scripted script) operation).final possible error failed
  · have judged := commit_judged (classified.scripted script)
    have ends := finishCommit_ends prepared (w.scripted script)
    rw [ends.1]
    intro sent member
    have impossible : (commit (w.scripted script)).2.tx.commitMayHaveSucceeded = false := by
      have report := ends.2
      rw [reported] at report
      cases report with
      | unknown possible => exact absurd rfl known
      | failed _ impossible => exact impossible
    exact (judged.classified.unsent impossible sent member).unapplied

/-! ## A lost acknowledgement -/

/-- The COMMIT took effect and its acknowledgement timed out. -/
def lostReply : Reply where
  answer := .failed .elapsed
  applied := true
  definitive backend error answer refusal := by
    cases answer
    cases refusal

def freshTransaction : World where
  tx :=
    { backend := .sqlite, active := true, commitState := .notAttempted, operatorEnded := false,
      maintenance := false, maintenanceWork := false, ordinary := false, commitPending := false }
  script := []
  log := []

/-- The transaction after a COMMIT whose acknowledgement was lost. -/
def lostCommit : World :=
  (Operation.commit.call (freshTransaction.scripted [lostReply])).2

theorem lostCommit_reachable : transactions.Reachable lostCommit :=
  System.Reachable.next (System.Reachable.start ⟨rfl, rfl⟩) ⟨.commit, [lostReply], rfl⟩

/-- The commit took effect and was never acknowledged; no rollback makes it look like a
known failure. -/
theorem commit_outcome_classified_sample : lostCommit.tx.commitMayHaveSucceeded = true
    ∧ lostCommit.tx.commitAcknowledged = false ∧ (∃ sent ∈ lostCommit.log, sent.reply.applied = true)
    ∧ ∀ (script : List Reply) (error : Error),
      (rollback (lostCommit.scripted script)).1 = .failed error → retryable error = false :=
  ⟨rfl, rfl, ⟨_, List.mem_cons_self, rfl⟩, fun script error failed =>
    ((commit_outcome_classified lostCommit_reachable).2.2.1 rfl lostCommit
      (System.Run.refl lostCommit)).2 .rollback script error failed⟩

end Noxide.Commit
