import Noxide.Host.Delivery

/-!
# At-most-once submissions

The guarantee of the receipt protocol over whole runs: any interleaving of
submissions, retries, replays, late commits, recoveries, maintenance, clock
observations and deployments.

Main results:

- Theorem {lit}`gone_stable`: a receipt that maintenance deleted never returns.
- Theorem {lit}`submissions_execute_at_most_once`: a token's action commits at
  most once, every other success repeats its stored outcome, other forms under
  the token are refused, and after its receipt is gone so is the token.
-/

namespace Noxide

open Checked

variable {Host Records : Type}

/-! ## Refusals -/

/-- An attempt or a recovery of this form changes nothing that is fenced, and
is not answered with success. -/
structure World.Refuses [DecidableEq Host] (world : World Host Records) (cluster : Cluster Host)
    (host : Host) (form : Submission) (conditions : Conditions Records) : Prop where
  round : ∀ rest left cut inTime outcome,
    let next := world.round cluster rest ⟨host, form, left⟩ conditions cut inTime outcome
    next.database = world.database ∧ next.executions = world.executions ∧
      next.inFlight = world.inFlight ∧
      ∀ answer ∈ next.answers, answer ∈ world.answers ∨ ∃ error, answer.result = .error error
  recover : ∀ applied outcome,
    let next := world.recover cluster host form conditions applied outcome
    next.database.records = world.database.records ∧
      next.database.receipts = world.database.receipts ∧
      next.executions = world.executions ∧
      ∀ answer ∈ next.answers, answer ∈ world.answers ∨
        ∀ payload shown, answer.result ≠ .ok (.committed payload shown)

section Refusals

variable [DecidableEq Host] {cluster : Cluster Host} {world : World Host Records} {host : Host}
  {form : Submission} {conditions : Conditions Records}

/-- A failed preparation leaves the loop with an error or another round. -/
theorem submitRound_failed (Records : Type) (cut : Option Bool) (inTime : Bool) (outcome : CommitOutcome)
    (fault : Fault) :
    submitRound cut inTime outcome (.failed fault none : Prepared Records) = .again ∨
      ∃ error, submitRound cut inTime outcome (.failed fault none : Prepared Records)
        = .answer (.error error) := by
  cases cut with
  | some validated => cases validated <;> exact .inr ⟨_, rfl⟩
  | none =>
      simp only [submitRound]
      split
      · exact .inl rfl
      · exact .inr ⟨_, rfl⟩

/-- A form whose attempts fail and whose recoveries find nothing committed is
refused. -/
theorem World.refuses_of_failed
    (failed : ∃ fault, (transact (cluster.app host) conditions form (world.memory host)
      world.database).2 = .failed fault none)
    (recovered : ∀ tx reply, (recoverForm (cluster.app host) conditions form (world.memory host)
      world.database).2 = .ok (tx, reply) →
        ∀ payload shown, reply ≠ .committed payload shown) :
    world.Refuses cluster host form conditions where
  round := by
    intro rest left cut inTime outcome next
    rcases failed with ⟨fault, failed⟩
    have stored : ∀ request : Request Host,
        world.store request conditions cut outcome (.failed fault none) = world := by
      intro request
      unfold World.store
      split
      · next h => cases h
      · rfl
    have shape : next = (world.proceed rest ⟨host, form, left⟩
        (submitRound cut inTime outcome (.failed fault none : Prepared Records))).remember host
          (transact (cluster.app host) conditions form (world.memory host) world.database).1 := by
      simp only [next, World.round]
      rw [failed, stored]
    rw [shape]
    refine ⟨by simp [World.remember], by simp [World.remember], ?_, ?_⟩
    · simp [World.remember]
    · intro answer mem
      rcases World.proceed_answers _ _ _ _ mem with old | ⟨_, _, replied | busy⟩
      · exact .inl old
      · right
        rcases submitRound_failed Records cut inTime outcome fault with again | ⟨error, refused⟩
        · rw [again] at replied
          cases replied
        · rw [refused] at replied
          exact ⟨error, (Next.answer.inj replied).symm⟩
      · exact .inr ⟨_, busy⟩
  recover := by
    intro applied outcome next
    simp only [next, World.recover]
    cases ran : recoverForm (cluster.app host) conditions form (world.memory host)
      world.database with
    | mk memory result =>
    rw [ran] at recovered
    rcases result with fault | ⟨tx, reply⟩
    · refine ⟨rfl, rfl, rfl, fun answer mem => ?_⟩
      rcases List.mem_cons.mp mem with rfl | old
      · exact .inr fun payload shown h => by cases h
      · exact .inl old
    · have replied : (recoverForm (cluster.app host) conditions form (world.memory host)
          world.database).2 = .ok (tx, reply) := by rw [ran]
      rcases recoverForm_spec replied with ⟨token, now, time, accepted, stored⟩
      refine ⟨?_, ?_, rfl, fun answer mem => ?_⟩
      · simp only [World.remember]
        split
        · exact time.records
        · rfl
      · simp only [World.remember]
        split
        · exact time.receipts
        · rfl
      · rcases List.mem_cons.mp mem with rfl | old
        · refine .inr fun payload shown result => ?_
          rcases afterRecovery_committed (mapError_eq_ok.mp result) with ⟨prepared, same⟩
          exact recovered tx reply rfl payload prepared same
        · exact .inl old

/-- A form under an executed token that is not the executed invocation is
refused. -/
theorem World.Sound.refuses_other (sound : world.Sound cluster) {execution : Execution}
    (mem : execution ∈ world.executions) {context : InvocationContext}
    (admitted : submissionContext (cluster.app host) conditions form (world.memory host)
      world.database = .ok context)
    (same : context.nonce = execution.nonce) (differs : context.identity ≠ execution.identity) :
    world.Refuses cluster host form conditions := by
  have stored : ∃ receipt, world.database.receipts.find? context.nonce = some receipt := by
    simp only [submissionContext, bind_eq_ok] at admitted
    rcases admitted with ⟨⟨tx, now⟩, observed, hcontext⟩
    have time := observeNow_spec observed
    rcases admitWebInvocation_spec hcontext with ⟨token, by_⟩
    rw [same]
    exact sound.fenced.accepted_has_receipt mem by_.accepted (same.symm.trans by_.nonce)
      time.serving (le_trans time.keeps time.covers)
  rcases stored with ⟨receipt, found⟩
  have wrote : execution.Wrote receipt := sound.fenced.receipt_of_execution mem (same ▸ found)
  have other : receipt.input ≠ context.identity := by
    rw [wrote.identity]
    exact differs.symm
  refine World.refuses_of_failed (transact_refused admitted found other) ?_
  intro tx reply recovered payload shown committed
  have used := recoverForm_refused admitted found other recovered
  rw [used] at committed
  cases committed

end Refusals

/-! ## Deleted receipts -/

section Gone

variable {cluster : Cluster Host} {world : World Host Records}

/-- An executed token whose receipt was deleted. -/
structure World.Gone (world : World Host Records) (execution : Execution) : Prop where
  executed : execution ∈ world.executions
  deleted : world.database.receipts.find? execution.nonce = none

/-- Nobody accepts a token whose receipt is gone. -/
theorem World.Gone.not_accepted {execution : Execution} (gone : world.Gone execution)
    (sound : world.Sound cluster) {host : Host} {token : Token} {form : Submission} {now : Int}
    {tx : Database Records}
    (time : tx.ObservedAt world.database (cluster.app host) now)
    (same : token.nonce = execution.nonce) :
    ¬ token.AcceptedAt (cluster.app host) form now := by
  intro accepted
  rcases sound.fenced.accepted_has_receipt gone.executed accepted same.symm time.serving
    (le_trans time.keeps time.covers) with ⟨receipt, found⟩
  rw [gone.deleted] at found
  cases found

/-- A prepared transaction does not bring a deleted receipt back. -/
theorem World.Gone.transacted {execution : Execution} (gone : world.Gone execution)
    (sound : world.Sound cluster) {host : Host} {form : Submission} {tx : Database Records}
    {executed : Option Execution} {reply : Reply} {evidence : Option Reply}
    (prepared : Transacted (cluster.app host) world.database form
      (.ready tx executed reply evidence)) :
    tx.receipts.find? execution.nonce = none := by
  cases prepared with
  | @executed context token observed _ now payload time admitted claims clock deployment =>
      have other : execution.nonce ≠ (context.execution (cluster.app host) payload).nonce :=
        fun same => gone.not_accepted sound time (admitted.nonce.symm.trans same.symm)
          admitted.accepted
      rw [claims.others _ other]
      exact gone.deleted
  | replayed time admitted answers response =>
      rw [time.receipts]
      exact gone.deleted

theorem World.Gone.extend {execution : Execution} (gone : world.Gone execution)
    {next : World Host Records} (grown : ∃ more, next.executions = world.executions ++ more)
    (deleted : next.database.receipts.find? execution.nonce = none) : next.Gone execution where
  executed := by
    rcases grown with ⟨more, grown⟩
    rw [grown]
    exact List.mem_append_left more gone.executed
  deleted := deleted

/-- No step brings a deleted receipt back. -/
theorem World.Gone.step [DecidableEq Host] {execution : Execution} {next : World Host Records}
    (gone : world.Gone execution) (sound : world.Sound cluster)
    (step : DeliveryStep cluster world next) : next.Gone execution := by
  cases step with
  | submit host form => exact ⟨gone.executed, gone.deleted⟩
  | round before after request conditions cut inTime outcome live =>
      have attempted := transact_cases (cluster.app request.host) conditions request.form
        (world.memory request.host) world.database
      unfold World.round
      generalize transact (cluster.app request.host) conditions request.form
        (world.memory request.host) world.database = result at attempted ⊢
      rcases result with ⟨memory, prepared⟩
      refine gone.extend ?_ ?_
      · simpa [World.remember] using
          world.store_executions request conditions cut outcome prepared
      · simp only [World.remember, World.proceed_database, World.store]
        split
        · split
          · exact gone.transacted sound attempted
          · split <;> exact gone.deleted
        · exact gone.deleted
  | land before after flight sent =>
      have attempted := transact_cases (cluster.app flight.host) flight.conditions flight.form
        flight.memory world.database
      unfold World.land
      split
      · next tx executed reply evidence prepared =>
        rw [prepared] at attempted
        exact gone.extend ⟨_, rfl⟩ (gone.transacted sound attempted)
      · exact ⟨gone.executed, gone.deleted⟩
  | recover host form conditions applied outcome =>
      unfold World.recover
      cases ran : recoverForm (cluster.app host) conditions form (world.memory host)
        world.database with
      | mk memory result =>
      rcases result with fault | ⟨tx, reply⟩
      · exact ⟨gone.executed, gone.deleted⟩
      · have replied : (recoverForm (cluster.app host) conditions form (world.memory host)
            world.database).2 = .ok (tx, reply) := by rw [ran]
        rcases recoverForm_spec replied with ⟨token, now, time, _⟩
        refine ⟨gone.executed, ?_⟩
        simp only [World.remember]
        split
        · rw [time.receipts]
          exact gone.deleted
        · exact gone.deleted
  | maintain now observed records accepted =>
      refine ⟨gone.executed, ?_⟩
      rcases world.database.receipts.sweep_find (observed.effective - 60) execution.nonce with
        kept | ⟨_, _, _, swept⟩
      · exact kept.trans gone.deleted
      · exact swept
  | tick host now observed records accepted => exact ⟨gone.executed, gone.deleted⟩
  | write host now observed records accepted => exact ⟨gone.executed, gone.deleted⟩
  | claim receipt records foreign =>
      refine ⟨gone.executed, ?_⟩
      have other : receipt.nonce ≠ execution.nonce :=
        fun same => foreign (same ▸ sound.fenced.formNonce gone.executed)
      exact (Receipts.claim_find_ne other).trans gone.deleted
  | activate host generation superseded fresh => exact ⟨gone.executed, gone.deleted⟩
  | recoverClock incarnation generation now records changed fresh =>
      exact ⟨gone.executed, gone.deleted⟩

/-- A receipt that maintenance deleted never returns. -/
theorem gone_stable [DecidableEq Host] (cluster : Cluster Host) (execution : Execution) :
    (delivery cluster Records).Stable fun world => world.Gone execution :=
  fun _ _ reachable gone step =>
    gone.step ((sound_invariant cluster).holds reachable) step

/-- Every attempt and every recovery under a token whose receipt is gone fails. -/
theorem World.Gone.fails {execution : Execution} (gone : world.Gone execution)
    (sound : world.Sound cluster) {host : Host} {token : Token} {form : Submission}
    (opened : (cluster.app host).keys.openToken form.submission = some token)
    (same : token.nonce = execution.nonce) (conditions : Conditions Records) (memory : Int) :
    (∃ fault, (transact (cluster.app host) conditions form memory world.database).2
        = .failed fault none) ∧
      ∃ fault, (recoverForm (cluster.app host) conditions form memory world.database).2
        = .error fault := by
  have matches_ : ∀ {accepted : Token} {now : Int},
      accepted.AcceptedAt (cluster.app host) form now → accepted.nonce = execution.nonce := by
    intro accepted now h
    have heq : accepted = token := Option.some.inj (h.opened.symm.trans opened)
    rw [heq, same]
  constructor
  · cases admitted : submissionContext (cluster.app host) conditions form memory
      world.database with
    | error fault => exact ⟨fault, transact_unadmitted admitted⟩
    | ok context =>
        simp only [submissionContext, bind_eq_ok] at admitted
        rcases admitted with ⟨⟨tx, now⟩, observed, hcontext⟩
        rcases admitWebInvocation_spec hcontext with ⟨accepted, by_⟩
        exact absurd by_.accepted
          (gone.not_accepted sound (observeNow_spec observed) (matches_ by_.accepted))
  · cases recovered : (recoverForm (cluster.app host) conditions form memory
      world.database).2 with
    | error fault => exact ⟨fault, rfl⟩
    | ok found =>
        rcases found with ⟨tx, reply⟩
        rcases recoverForm_spec recovered with ⟨accepted, now, time, by_, _⟩
        exact absurd by_ (gone.not_accepted sound time (matches_ by_))

end Gone

/-! ## The guarantee -/

/-- A collision of SHA-256 between what a form would execute and what its token
executed: two invocations, or two canonical inputs, with one digest. -/
def Digests.Collide (digests : Digests) (context : InvocationContext) (execution : Execution) :
    Prop :=
  (context.invocation ≠ execution.invocation ∧
    digests.invocation context.invocation = digests.invocation execution.invocation) ∨
  (context.input ≠ execution.input ∧
    digests.input context.action.version context.action.inputs context.input =
      digests.input execution.action.version execution.action.inputs execution.input)

/-- Short of a collision, another action or another input has another identity. -/
theorem InvocationContext.identity_ne {cluster : Cluster Host} {context : InvocationContext}
    {execution : Execution} (genuine : execution.Genuine cluster) {host : Host}
    {form : Submission} {token : Token} {now : Int}
    (admitted : context.AdmittedBy (cluster.app host) form token now)
    (differs : context.invocation.action ≠ execution.invocation.action ∨
      context.input ≠ execution.input) :
    context.identity ≠ execution.identity ∨ cluster.digests.Collide context execution := by
  by_cases same : context.identity = execution.identity
  · right
    rw [admitted.identity, cluster.sameDigests host, genuine.identity] at same
    by_cases invocation : context.invocation = execution.invocation
    · right
      rcases differs with action | input
      · exact absurd (by rw [invocation]) action
      · have digest := admitted.input
        rw [invocation, genuine.input, cluster.sameDigests host] at digest
        exact ⟨input, digest.symm⟩
    · exact .inl ⟨invocation, same⟩
  · exact .inl same

/-- The admitted context of an attempt, with the token behind it. -/
theorem submissionContext_spec {app : Application} {conditions : Conditions Records}
    {form : Submission} {memory : Int} {db : Database Records} {context : InvocationContext}
    (h : submissionContext app conditions form memory db = .ok context) :
    ∃ token now, context.AdmittedBy app form token now := by
  simp only [submissionContext, bind_eq_ok] at h
  rcases h with ⟨⟨tx, now⟩, _, admitted⟩
  rcases admitWebInvocation_spec admitted with ⟨token, by_⟩
  exact ⟨token, now, by_⟩

/-- Distinct nonces leave at most one execution for each. -/
theorem Fenced.at_most_once {cluster : Cluster Host} {db : Database Records}
    {executions : List Execution} {scopes : List String}
    (h : Fenced cluster db executions scopes) (nonce : String) :
    (executions.filter fun execution => execution.nonce = nonce).length ≤ 1 := by
  have distinct : ((executions.filter fun execution => execution.nonce = nonce).map
      Execution.nonce).Nodup := (List.filter_sublist.map Execution.nonce).nodup h.once
  have constant : (executions.filter fun execution => execution.nonce = nonce).map
      Execution.nonce = List.replicate
        (executions.filter fun execution => execution.nonce = nonce).length nonce := by
    rw [List.map_eq_replicate_iff]
    intro execution mem
    simpa using (List.mem_filter.mp mem).2
  rw [constant] at distinct
  exact List.nodup_replicate.mp distinct

/-- Over every interleaving, the action behind a submission token commits at
most once; every other success under the token is the outcome stored in the
receipt of that execution; a form with another identity, action or input under
an executed token changes nothing and is refused, short of a digest collision;
and once the receipt is gone, the token is never accepted again. -/
theorem submissions_execute_at_most_once [DecidableEq Host] (cluster : Cluster Host)
    (world : World Host Records) (reachable : (delivery cluster Records).Reachable world) :
    (∀ nonce, (world.executions.filter fun execution => execution.nonce = nonce).length ≤ 1) ∧
    (∀ answer ∈ world.answers, ∀ payload prepared,
      answer.result = .ok (.committed payload prepared) →
      ∃ token, (cluster.app answer.host).keys.openToken answer.form.submission = some token ∧
        ∃ execution ∈ world.executions,
          execution.nonce = token.nonce ∧ execution.payload = payload) ∧
    (∀ execution ∈ world.executions, ∀ receipt,
      world.database.receipts.find? execution.nonce = some receipt →
      receipt.input = execution.identity ∧ receipt.outcome = execution.payload) ∧
    (∀ execution ∈ world.executions, ∀ host form conditions context,
      submissionContext (cluster.app host) conditions form (world.memory host) world.database
        = .ok context →
      context.nonce = execution.nonce →
      (context.identity ≠ execution.identity → world.Refuses cluster host form conditions) ∧
      (context.invocation.action ≠ execution.invocation.action ∨
          context.input ≠ execution.input →
        world.Refuses cluster host form conditions ∨
          cluster.digests.Collide context execution)) ∧
    (∀ execution ∈ world.executions,
      world.database.receipts.find? execution.nonce = none →
      ∀ later, (delivery cluster Records).Run world later →
      ∀ host form token, (cluster.app host).keys.openToken form.submission = some token →
      token.nonce = execution.nonce → ∀ conditions memory,
      (∃ fault, (transact (cluster.app host) conditions form memory later.database).2
          = .failed fault none) ∧
        ∃ fault, (recoverForm (cluster.app host) conditions form memory later.database).2
          = .error fault) := by
  have sound := (sound_invariant cluster).holds reachable
  refine ⟨sound.fenced.at_most_once, sound.answered, ?_, ?_, ?_⟩
  · intro execution mem receipt found
    have wrote := sound.fenced.receipt_of_execution mem found
    exact ⟨wrote.identity, wrote.outcome⟩
  · intro execution mem host form conditions context admitted same
    refine ⟨sound.refuses_other mem admitted same, fun differs => ?_⟩
    rcases submissionContext_spec admitted with ⟨token, now, by_⟩
    rcases InvocationContext.identity_ne (sound.fenced.genuine execution mem) by_ differs with
      other | collision
    · exact .inl (sound.refuses_other mem admitted same other)
    · exact .inr collision
  · intro execution mem deleted later run host form token opened same conditions memory
    have gone : later.Gone execution :=
      (gone_stable cluster execution).along reachable ⟨mem, deleted⟩ run
    have soundLater := (sound_invariant cluster).holds (reachable.run run)
    exact gone.fails soundLater opened same conditions memory

/-! ### One run -/

namespace Sample

/-- Anyone may add a note. -/
def createNote : Operation where
  maintenance := false
  query := none
  bind := []
  scope := none
  via := none
  filter := []
  disclose := []
  list := none
  id := 1
  resource := 1
  kind := .create
  policy := ⟨[[.everyone]]⟩
  visibility := none
  fields := none

def addNote : Action where
  id := 1
  version := 1
  name := "add_note"
  targets := []
  inputs := []
  steps := [⟨[], 1, .none, []⟩]

def noteForm : WebBinding where
  id := 1
  version := 1
  action := 1
  redirect := ⟨1, .step 0⟩

def visitor : Token := ⟨.anonymous, "", "visitor", 100, 400, "keys"⟩

def formToken : Token :=
  ⟨.anonymousSubmission ⟨"contract:first", 1, 1, []⟩, "visitor", "nonce", 100, 700, "keys"⟩

def app : Application where
  manifest := {
    effects := none
    jobs := none
    version := 13
    resources := []
    operations := [createNote]
    routes := []
    actions := [addNote]
    webBindings := [noteForm] }
  contract := "contract"
  generation := "first"
  keys := {
    incarnation := "keys"
    openToken := fun encoded =>
      if encoded = "cookie" then some visitor
      else if encoded = "form" then some formToken
      else none
    csrfMatches := fun session csrf => session == "visitor" && csrf == "csrf" }
  digests := ⟨fun _ _ _ => "input", fun _ => "subject", fun _ => "invocation"⟩

theorem opened {encoded : String} {token : Token} (h : app.keys.openToken encoded = some token) :
    token = visitor ∨ token = formToken := by
  simp only [app] at h
  split at h
  · exact .inl (Option.some.inj h).symm
  · split at h
    · exact .inr (Option.some.inj h).symm
    · cases h

def cluster : Cluster Unit where
  app := fun _ => app
  digests := app.digests
  sameDigests := fun _ => rfl
  nonceUnique := by
    intro _ _ _ _ token token' h h' same
    rcases opened h with rfl | rfl <;> rcases opened h' with rfl | rfl
    · rfl
    · simp [visitor, formToken] at same
    · simp [visitor, formToken] at same
    · rfl

/-- Records are counted only; the action adds one. -/
def conditions : Conditions Nat where
  now := 200
  schemaMatches := fun _ => true
  sessions := fun _ _ _ => .error (.request .authentication)
  run := fun count => .executed (count + 1) "saved"
  resolves := fun _ => .ok none
  validates := fun _ _ => true
  responds := fun _ _ => true
  renders := true
  beforeDeadline := true

def form : Submission := ⟨"cookie", 1, "form", "csrf", ∅⟩

def start : World Unit Nat where
  database := ⟨0, Receipts.empty, 150, ⟨"contract", "keys", "first"⟩⟩
  memory := fun _ => 0
  live := []
  inFlight := []
  executions := []
  answers := []
  scopes := ["contract:first"]

def posted : World Unit Nat := { start with live := [⟨(), form, 2⟩] }

/-- The first round commits and is acknowledged. -/
def saved : World Unit Nat :=
  posted.round cluster [] ⟨(), form, 2⟩ conditions none true .acknowledged

theorem saved_reachable : (delivery cluster Nat).Reachable saved := by
  have initial : (delivery cluster Nat).Reachable start :=
    System.Reachable.start ⟨rfl, rfl, rfl, rfl, rfl, rfl⟩
  have submitted : (delivery cluster Nat).Reachable posted :=
    initial.next (DeliveryStep.submit start () form)
  exact submitted.next (DeliveryStep.round posted [] [] ⟨(), form, 2⟩ conditions none true
    .acknowledged rfl)

end Sample

/-- The note is added once, whatever follows. -/
theorem submissions_execute_at_most_once_sample :
    Sample.saved.database.records = 1 ∧
      Sample.saved.executions.map Execution.payload = ["saved"] ∧
      (Sample.saved.executions.filter fun execution => execution.nonce = "nonce").length ≤ 1 :=
  ⟨rfl, rfl, (submissions_execute_at_most_once Sample.cluster Sample.saved
    Sample.saved_reachable).1 "nonce"⟩

end Noxide
