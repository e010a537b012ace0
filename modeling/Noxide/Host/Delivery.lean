import Noxide.Host.Fencing
import Noxide.Library.Transition

/-!
# Delivery of submissions

Any number of processes serve one database.  A step is one transaction at its
place in the serialization order, or one answer: submissions with their retry
rounds, commits whose outcome is unknown and that take effect later or never,
recoveries, maintenance, the clock tick, every other writer, and a change of the
deployment.

Main results:

- Theorem {lit}`sound_invariant`: every reachable world is fenced and answered
  truthfully.
- Theorem {lit}`submissions_execute_at_most_once`: along every run an action is
  committed at most once for each submission token, and every other success
  repeats its stored outcome.
-/

namespace Noxide

open Checked

/-! ## The world -/

/-- A submission being served, with the rounds it has left. -/
structure Request (Host : Type) where
  host : Host
  form : Submission
  left : Nat

/-- A commit that was sent and never acknowledged. -/
structure InFlight (Host Records : Type) where
  host : Host
  form : Submission
  conditions : Conditions Records
  memory : Int

structure Answer (Host : Type) where
  host : Host
  form : Submission
  result : Except RequestError Reply

structure World (Host Records : Type) where
  database : Database Records
  memory : Host → Int
  live : List (Request Host)
  inFlight : List (InFlight Host Records)
  executions : List Execution
  answers : List (Answer Host)
  scopes : List String

variable {Host Records : Type}

namespace World

/-- A transaction takes effect, with the action it executed. -/
def commit (world : World Host Records) (tx : Database Records)
    (execution : Option Execution) : World Host Records :=
  { world with database := tx, executions := world.executions ++ execution.toList }

/-- What one round does to the database: an acknowledged transaction takes
effect, and one without acknowledgement may do so later. -/
def store (world : World Host Records) (request : Request Host)
    (conditions : Conditions Records) (cut : Option Bool) (outcome : CommitOutcome)
    (prepared : Prepared Records) : World Host Records :=
  match cut, prepared with
  | none, .ready tx execution _ _ =>
      if outcome.isAcknowledged then world.commit tx execution
      else if outcome = .uncertain then
        { world with
          inFlight := ⟨request.host, request.form, conditions, world.memory request.host⟩
            :: world.inFlight }
      else world
  | _, _ => world

/-- The submit loop after one round: answer, or try again while rounds are left. -/
def proceed (world : World Host Records) (rest : List (Request Host)) (request : Request Host) :
    Next → World Host Records
  | .answer result =>
      { world with
        live := rest
        answers := ⟨request.host, request.form, result⟩ :: world.answers }
  | .again =>
      match request.left with
      | 0 =>
          { world with
            live := rest
            answers := ⟨request.host, request.form, .error .busy⟩ :: world.answers }
      | left + 1 => { world with live := { request with left := left } :: rest }

def remember [DecidableEq Host] (world : World Host Records) (host : Host) (memory : Int) : World Host Records :=
  { world with memory := Function.update world.memory host memory }

/-- One round of a live request. -/
def round [DecidableEq Host] (world : World Host Records) (cluster : Cluster Host) (rest : List (Request Host))
    (request : Request Host) (conditions : Conditions Records) (cut : Option Bool)
    (inTime : Bool) (outcome : CommitOutcome) : World Host Records :=
  let (memory, prepared) := transact (cluster.app request.host) conditions request.form
    (world.memory request.host) world.database
  ((world.store request conditions cut outcome prepared).proceed rest request
    (submitRound cut inTime outcome prepared)).remember request.host memory

/-- An unacknowledged commit takes effect.  Transactions are serializable, so
it does what its attempt does at this place in the order, or is refused. -/
def land (world : World Host Records) (cluster : Cluster Host) (flight : InFlight Host Records) :
    World Host Records :=
  match (transact (cluster.app flight.host) flight.conditions flight.form flight.memory
    world.database).2 with
  | .ready tx execution _ _ => world.commit tx execution
  | _ => world

/-- One recovery: its commit takes effect or not, and its answer is given. -/
def recover [DecidableEq Host] (world : World Host Records) (cluster : Cluster Host) (host : Host)
    (form : Submission) (conditions : Conditions Records) (applied : Bool)
    (outcome : CommitOutcome) : World Host Records :=
  let (memory, recovered) := recoverForm (cluster.app host) conditions form (world.memory host)
    world.database
  match recovered with
  | .error fault =>
      ({ world with answers := ⟨host, form, .error fault.answer⟩ :: world.answers }).remember
        host memory
  | .ok (tx, reply) =>
      ({ world with
        database := if reply.commits ∧ applied then tx else world.database
        answers := ⟨host, form, (afterRecovery outcome reply).mapError Fault.answer⟩
          :: world.answers }).remember host memory

/-- {lit}`maintain`: observe the clock, then delete receipts (and sessions) that
expired more than sixty seconds ago. -/
def maintain (world : World Host Records) (observed : Observed) (records : Records) :
    World Host Records :=
  { world with
    database := { world.database with
      records := records
      observed := observed.persisted
      receipts := world.database.receipts.sweep (observed.effective - 60) } }

/-- A new deployment row and everything retired with the old one. -/
def redeploy (world : World Host Records) (deployment : DeploymentRow) (observed : Int)
    (records : Records) : World Host Records :=
  { world with
    database := { world.database with
      deployment := deployment
      observed := observed
      records := records }
    scopes := deployment.scope :: world.scopes }

end World

/-- One step of the whole system. -/
inductive DeliveryStep [DecidableEq Host] (cluster : Cluster Host) :
    World Host Records → World Host Records → Prop where
  /-- A browser posts a form; the submit loop has three rounds. -/
  | submit (world) (host : Host) (form : Submission) :
      DeliveryStep cluster world
        { world with live := ⟨host, form, 2⟩ :: world.live }
  | round (world) (before after : List (Request Host)) (request : Request Host)
      (conditions : Conditions Records) (cut : Option Bool) (inTime : Bool)
      (outcome : CommitOutcome) (live : world.live = before ++ request :: after) :
      DeliveryStep cluster world
        (world.round cluster (before ++ after) request conditions cut inTime outcome)
  | land (world) (before after : List (InFlight Host Records)) (flight : InFlight Host Records)
      (sent : world.inFlight = before ++ flight :: after) :
      DeliveryStep cluster world
        ({ world with inFlight := before ++ after }.land cluster flight)
  | recover (world) (host : Host) (form : Submission) (conditions : Conditions Records)
      (applied : Bool) (outcome : CommitOutcome) :
      DeliveryStep cluster world (world.recover cluster host form conditions applied outcome)
  | maintain (world) (now : Int) (observed : Observed) (records : Records)
      (accepted : observeClock world.database.observed now = .ok observed) :
      DeliveryStep cluster world (world.maintain observed records)
  /-- The maintenance tick persists the clock of its process. -/
  | tick (world) (host : Host) (now : Int) (observed : Observed) (records : Records)
      (accepted : (tickClock world.database.observed now (world.memory host)).2 = .ok observed) :
      DeliveryStep cluster world
        ({ world with
          database := { world.database with
            observed := observed.persisted
            records := records } }.remember
          host (tickClock world.database.observed now (world.memory host)).1)
  /-- Any other request: it may observe the clock and write other tables. -/
  | write (world) (host : Host) (now : Int) (observed : Observed) (records : Records)
      (accepted : (observeClockWrite world.database.observed now (world.memory host)).2
        = .ok observed) :
      DeliveryStep cluster world
        ({ world with
          database := { world.database with
            observed := observed.persisted
            records := records } }.remember
          host (observeClockWrite world.database.observed now (world.memory host)).1)
  /-- A job or a capability rotation claims a receipt of its own. -/
  | claim (world) (receipt : Receipt) (records : Records)
      (foreign : ¬ cluster.FormNonce receipt.nonce) :
      DeliveryStep cluster world
        { world with
          database := { world.database with
            receipts := (world.database.receipts.claim receipt).2
            records := records } }
  /-- Activation of another contract or key draws a fresh random generation. -/
  | activate (world) (host : Host) (generation : String)
      (superseded : world.database.deployment.contract ≠ (cluster.app host).contract
        ∨ world.database.deployment.incarnation ≠ (cluster.app host).keys.incarnation)
      (fresh : (cluster.app host).contract ++ ":" ++ generation ∉ world.scopes) :
      DeliveryStep cluster world
        (world.redeploy
          ⟨(cluster.app host).contract, (cluster.app host).keys.incarnation, generation⟩
          world.database.observed world.database.records)
  /-- Clock recovery sets the persisted clock anew, possibly back. -/
  | recoverClock (world) (incarnation generation : String) (now : Int) (records : Records)
      (changed : world.database.deployment.incarnation ≠ incarnation)
      (fresh : world.database.deployment.contract ++ ":" ++ generation ∉ world.scopes) :
      DeliveryStep cluster world
        (world.redeploy ⟨world.database.deployment.contract, incarnation, generation⟩ now records)

/-- A freshly bound database under its first deployment. -/
structure World.Initial (world : World Host Records) : Prop where
  receipts : world.database.receipts = Receipts.empty
  live : world.live = []
  inFlight : world.inFlight = []
  executions : world.executions = []
  answers : world.answers = []
  scopes : world.scopes = [world.database.deployment.scope]

def delivery [DecidableEq Host] (cluster : Cluster Host) (Records : Type) : System (World Host Records) where
  initial := World.Initial
  step := DeliveryStep cluster

namespace World

variable (world : World Host Records) (rest : List (Request Host)) (request : Request Host)
  (next : Next)

@[simp]
theorem proceed_database : (world.proceed rest request next).database = world.database := by
  unfold proceed
  split
  · rfl
  · split <;> rfl

@[simp]
theorem proceed_executions : (world.proceed rest request next).executions = world.executions := by
  unfold proceed
  split
  · rfl
  · split <;> rfl

@[simp]
theorem proceed_inFlight : (world.proceed rest request next).inFlight = world.inFlight := by
  unfold proceed
  split
  · rfl
  · split <;> rfl

@[simp]
theorem proceed_scopes : (world.proceed rest request next).scopes = world.scopes := by
  unfold proceed
  split
  · rfl
  · split <;> rfl

/-- The loop answers with the result of its round, or gives up busy. -/
theorem proceed_answers {answer : Answer Host}
    (h : answer ∈ (world.proceed rest request next).answers) :
    answer ∈ world.answers ∨
      (answer.host = request.host ∧ answer.form = request.form ∧
        (next = .answer answer.result ∨ answer.result = .error .busy)) := by
  unfold proceed at h
  split at h
  · rcases List.mem_cons.mp h with rfl | old
    · exact .inr ⟨rfl, rfl, .inl rfl⟩
    · exact .inl old
  · split at h
    · rcases List.mem_cons.mp h with rfl | old
      · exact .inr ⟨rfl, rfl, .inr rfl⟩
      · exact .inl old
    · exact .inl h

theorem store_answers (conditions : Conditions Records) (cut : Option Bool)
    (outcome : CommitOutcome) (prepared : Prepared Records) :
    (world.store request conditions cut outcome prepared).answers = world.answers := by
  unfold store
  split
  · split
    · rfl
    · split <;> rfl
  · rfl

end World

/-! ## The invariant -/

/-- A committed answer tells the outcome of the one execution of its token. -/
def Answer.Truthful (answer : Answer Host) (cluster : Cluster Host)
    (executions : List Execution) : Prop :=
  ∀ payload prepared, answer.result = .ok (.committed payload prepared) →
    cluster.Delivered answer.host answer.form executions payload

structure World.Sound (world : World Host Records) (cluster : Cluster Host) : Prop where
  fenced : Fenced cluster world.database world.executions world.scopes
  answered : ∀ answer ∈ world.answers, answer.Truthful cluster world.executions

theorem Cluster.Delivered.later {cluster : Cluster Host} {host : Host} {form : Submission}
    {executions : List Execution} {payload : String}
    (h : cluster.Delivered host form executions payload) (more : List Execution) :
    cluster.Delivered host form (executions ++ more) payload := by
  rcases h with ⟨token, opened, execution, mem, rest⟩
  exact ⟨token, opened, execution, List.mem_append_left more mem, rest⟩

section Rounds

variable {cluster : Cluster Host} {world : World Host Records} {request : Request Host}
  {conditions : Conditions Records} {prepared : Prepared Records}

/-- The database effect of a round keeps the fence. -/
theorem World.store_fenced (sound : Fenced cluster world.database world.executions world.scopes)
    (attempted : Transacted (cluster.app request.host) world.database request.form prepared)
    (cut : Option Bool) (outcome : CommitOutcome) :
    let stored := world.store request conditions cut outcome prepared
    Fenced cluster stored.database stored.executions stored.scopes := by
  intro stored
  simp only [stored, World.store]
  split
  · next tx execution reply evidence =>
    split
    · exact sound.transacted attempted
    · split
      · exact sound
      · exact sound
  · exact sound

/-- A round only ever adds executions. -/
theorem World.store_executions (world : World Host Records) (request : Request Host)
    (conditions : Conditions Records) (cut : Option Bool) (outcome : CommitOutcome)
    (prepared : Prepared Records) :
    ∃ more, (world.store request conditions cut outcome prepared).executions
      = world.executions ++ more := by
  unfold World.store
  split
  · split
    · exact ⟨_, rfl⟩
    · split
      · exact ⟨[], by simp⟩
      · exact ⟨[], by simp⟩
  · exact ⟨[], by simp⟩

/-- Evidence is owed to an execution that already committed. -/
theorem evidence_delivered
    (sound : Fenced cluster world.database world.executions world.scopes)
    (attempted : Transacted (cluster.app request.host) world.database request.form prepared)
    {payload : String} {shown : Bool}
    (owed : prepared.evidence = some (.committed payload shown)) :
    cluster.Delivered request.host request.form world.executions payload := by
  cases attempted with
  | failed fault => cases owed
  | settled settled => cases owed
  | executed time admitted claims clock deployment => cases owed
  | @replayed context token tx now receipt time admitted answers response =>
      cases owed
      exact sound.delivered_of_receipt admitted.accepted (admitted.nonce ▸ answers.found)
  | @confirmed context token tx now receipt time admitted answers =>
      cases owed
      exact sound.delivered_of_receipt admitted.accepted (admitted.nonce ▸ answers.found)

/-- A committed answer of a round was committed by then. -/
theorem round_delivered
    (sound : Fenced cluster world.database world.executions world.scopes)
    (attempted : Transacted (cluster.app request.host) world.database request.form prepared)
    {cut : Option Bool} {inTime : Bool} {outcome : CommitOutcome} {payload : String}
    {shown : Bool}
    (answered : submitRound cut inTime outcome prepared = .answer (.ok (.committed payload shown))) :
    cluster.Delivered request.host request.form
      (world.store request conditions cut outcome prepared).executions payload := by
  rcases world.store_executions request conditions cut outcome prepared with ⟨more, grown⟩
  rw [grown]
  cases cut with
  | some validated =>
      simp only [submitRound] at answered
      split at answered
      · next reply found =>
        cases answered
        have owed : prepared.evidence = some (.committed payload shown) := by
          cases validated
          · cases found
          · exact found
        exact (evidence_delivered sound attempted owed).later more
      · cases answered
  | none =>
      cases attempted with
      | failed fault =>
          simp only [submitRound] at answered
          split at answered <;> cases answered
      | settled settled => cases answered
      | @executed context token observed tx now body time admitted claims clock deployment =>
          -- without evidence only an acknowledged commit answers with success
          have acknowledged : outcome.isAcknowledged = true ∧ body = payload := by
            cases outcome with
            | acknowledged => cases answered; exact ⟨rfl, rfl⟩
            | acknowledgedLate => cases answered; exact ⟨rfl, rfl⟩
            | statementLimit rolledBack => cases rolledBack <;> cases answered
            | refused rolledBack => cases rolledBack <;> cases answered
            | notSent => cases answered
            | uncertain => cases answered
          have stored : world.executions ++ more
              = world.executions ++ [context.execution (cluster.app request.host) body] := by
            rw [← grown]
            simp only [World.store, acknowledged.1, if_true, World.commit, Option.toList_some]
          rw [stored]
          exact ⟨token, admitted.accepted.opened, context.execution (cluster.app request.host) body,
            by simp, admitted.nonce, acknowledged.2⟩
      | @replayed context token tx now receipt time admitted answers response =>
          have same : receipt.outcome = payload := by
            cases outcome <;> cases answered <;> rfl
          have found : world.database.receipts.find? token.nonce = some receipt :=
            admitted.nonce ▸ answers.found
          exact same ▸ (sound.delivered_of_receipt admitted.accepted found).later more
      | @confirmed context token tx now receipt time admitted answers =>
          have same : receipt.outcome = payload := by
            cases answered
            rfl
          have found : world.database.receipts.find? token.nonce = some receipt :=
            admitted.nonce ▸ answers.found
          exact same ▸ (sound.delivered_of_receipt admitted.accepted found).later more

end Rounds

/-! ## Steps -/

section Steps

variable {cluster : Cluster Host} {world : World Host Records}

/-- Earlier answers stay true when executions are added, and a new answer must
be true then. -/
theorem World.Sound.extend {next : World Host Records} (sound : world.Sound cluster)
    (fenced : Fenced cluster next.database next.executions next.scopes)
    (grown : ∃ more, next.executions = world.executions ++ more)
    (answered : ∀ answer ∈ next.answers,
      answer ∈ world.answers ∨ answer.Truthful cluster next.executions) :
    next.Sound cluster where
  fenced := fenced
  answered := by
    intro answer mem
    rcases grown with ⟨more, grown⟩
    rcases answered answer mem with old | new
    · intro payload shown result
      rw [grown]
      exact (sound.answered answer old payload shown result).later more
    · exact new

/-- A step that executes nothing and answers nobody needs only the fence. -/
theorem World.Sound.unanswered {next : World Host Records} (sound : world.Sound cluster)
    (fenced : Fenced cluster next.database world.executions next.scopes)
    (executions : next.executions = world.executions) (answers : next.answers = world.answers) :
    next.Sound cluster :=
  sound.extend (executions.symm ▸ fenced) ⟨[], by rw [executions, List.append_nil]⟩
    fun answer mem => .inl (answers ▸ mem)

/-- One round keeps the world sound. -/
theorem World.Sound.round [DecidableEq Host] (sound : world.Sound cluster) (rest : List (Request Host))
    (request : Request Host) (conditions : Conditions Records) (cut : Option Bool)
    (inTime : Bool) (outcome : CommitOutcome) :
    (world.round cluster rest request conditions cut inTime outcome).Sound cluster := by
  have attempted := transact_cases (cluster.app request.host) conditions request.form
    (world.memory request.host) world.database
  unfold World.round
  generalize transact (cluster.app request.host) conditions request.form
    (world.memory request.host) world.database = result at attempted ⊢
  rcases result with ⟨memory, prepared⟩
  refine sound.extend ?_ ?_ ?_
  · simpa [World.remember] using World.store_fenced sound.fenced attempted cut outcome
  · simpa [World.remember] using world.store_executions request conditions cut outcome prepared
  · intro answer mem
    simp only [World.remember, World.proceed_executions] at mem ⊢
    rcases World.proceed_answers _ _ _ _ mem with old | ⟨host, form, replied | busy⟩
    · rw [World.store_answers] at old
      exact .inl old
    · right
      intro payload shown result
      rw [result] at replied
      rw [host, form]
      exact round_delivered sound.fenced attempted replied
    · right
      intro payload shown result
      rw [result] at busy
      cases busy

/-- A commit that takes effect late keeps the world sound. -/
theorem World.Sound.land (sound : world.Sound cluster) (flight : InFlight Host Records) :
    (world.land cluster flight).Sound cluster := by
  have attempted := transact_cases (cluster.app flight.host) flight.conditions flight.form
    flight.memory world.database
  unfold World.land
  split
  · next tx execution reply evidence prepared =>
    rw [prepared] at attempted
    exact sound.extend (sound.fenced.transacted attempted) ⟨_, rfl⟩ fun _ mem => .inl mem
  · exact sound

/-- A recovery keeps the world sound. -/
theorem World.Sound.recover [DecidableEq Host] (sound : world.Sound cluster) (host : Host) (form : Submission)
    (conditions : Conditions Records) (applied : Bool) (outcome : CommitOutcome) :
    (world.recover cluster host form conditions applied outcome).Sound cluster := by
  unfold World.recover
  cases recovered : recoverForm (cluster.app host) conditions form (world.memory host)
    world.database with
  | mk memory result =>
  rcases result with fault | ⟨tx, reply⟩
  · refine sound.extend sound.fenced ⟨[], by simp [World.remember]⟩ fun answer mem => ?_
    rcases List.mem_cons.mp mem with rfl | old
    · right
      intro payload shown result
      cases result
    · exact .inl old
  · have replied : (recoverForm (cluster.app host) conditions form (world.memory host)
        world.database).2 = .ok (tx, reply) := by rw [recovered]
    rcases recoverForm_spec replied with ⟨token, now, time, accepted, stored⟩
    refine sound.extend ?_ ⟨[], by simp [World.remember]⟩ fun answer mem => ?_
    · simp only [World.remember]
      split
      · exact sound.fenced.frame time.receipts time.keeps time.deployment
      · exact sound.fenced
    · rcases List.mem_cons.mp mem with rfl | old
      · right
        intro payload shown result
        rcases afterRecovery_committed (mapError_eq_ok.mp result) with ⟨prepared, same⟩
        rcases stored payload prepared same with ⟨receipt, found, rfl⟩
        exact sound.fenced.delivered_of_receipt accepted found
      · exact .inl old

/-- Every step keeps the world sound. -/
theorem World.Sound.step [DecidableEq Host] {next : World Host Records} (sound : world.Sound cluster)
    (step : DeliveryStep cluster world next) : next.Sound cluster := by
  cases step with
  | submit host form => exact sound.unanswered sound.fenced rfl rfl
  | round before after request conditions cut inTime outcome live =>
      exact sound.round (before ++ after) request conditions cut inTime outcome
  | land before after flight sent =>
      have kept : World.Sound { world with inFlight := before ++ after } cluster :=
        sound.unanswered sound.fenced rfl rfl
      exact kept.land flight
  | recover host form conditions applied outcome =>
      exact sound.recover host form conditions applied outcome
  | maintain now observed records accepted =>
      exact sound.unanswered (sound.fenced.sweep accepted rfl rfl rfl) rfl rfl
  | tick host now observed records accepted =>
      have kept := (tickClock_spec accepted).keeps
      exact sound.unanswered (sound.fenced.frame rfl kept rfl) rfl rfl
  | write host now observed records accepted =>
      have kept := (observeClockWrite_spec accepted).keeps
      exact sound.unanswered (sound.fenced.frame rfl kept rfl) rfl rfl
  | claim receipt records foreign =>
      exact sound.unanswered (sound.fenced.claim foreign rfl rfl rfl) rfl rfl
  | activate host generation superseded fresh =>
      exact sound.unanswered (sound.fenced.redeploy rfl fresh) rfl rfl
  | recoverClock incarnation generation now records changed fresh =>
      exact sound.unanswered (sound.fenced.redeploy rfl fresh) rfl rfl

theorem World.Initial.sound (initial : world.Initial) : world.Sound cluster where
  fenced := {
    serving := by rw [initial.scopes]; exact List.mem_singleton_self _
    known := by rw [initial.executions]; exact fun _ mem => nomatch mem
    genuine := by rw [initial.executions]; exact fun _ mem => nomatch mem
    fenced := by rw [initial.executions]; exact fun _ mem => nomatch mem
    owned := by
      intro nonce receipt found
      rw [initial.receipts] at found
      cases found
    once := by rw [initial.executions]; exact List.nodup_nil }
  answered := by rw [initial.answers]; exact fun _ mem => nomatch mem

end Steps

/-- Every reachable world is fenced and answered truthfully. -/
theorem sound_invariant [DecidableEq Host] (cluster : Cluster Host) :
    (delivery cluster Records).Invariant fun world => world.Sound cluster where
  initial := fun _ initial => initial.sound
  step := fun _ _ _ sound step => sound.step step

end Noxide
