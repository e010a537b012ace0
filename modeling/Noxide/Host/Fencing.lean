import Noxide.Host.Recovery

/-!
# Fencing executed tokens

What the database remembers of an executed submission token: its receipt, until
maintenance deletes it more than sixty seconds after the token expired, or the
deployment that issued it is superseded.

Main results:

- Theorem {lit}`Fenced.accepted_has_receipt`: while a process still accepts a
  token at the observed time, an execution under it still has its receipt.
- Theorem {lit}`Fenced.transacted`: every prepared transaction that takes effect
  keeps every execution fenced, and every nonce executed at most once.
- Theorem {lit}`Fenced.sweep`: maintenance keeps the fence.
- Theorem {lit}`Fenced.redeploy`: so does a new deployment, wherever it sets the
  clock.
-/

namespace Noxide

open Checked

variable {Host Records : Type}

/-! ## Processes -/

/-- Every process that ever serves the database.  Token nonces are random, and
only sealed envelopes open; all processes compute the same digests. -/
structure Cluster (Host : Type) where
  app : Host → Application
  digests : Digests
  sameDigests : ∀ host, (app host).digests = digests
  nonceUnique : ∀ host host' encoded encoded' token token',
    (app host).keys.openToken encoded = some token →
    (app host').keys.openToken encoded' = some token' →
    token.nonce = token'.nonce → token = token'

/-- A nonce that some process accepts in a form token of one of its bindings. -/
def Cluster.FormNonce (cluster : Cluster Host) (nonce : String) : Prop :=
  ∃ host encoded token scope binding, (cluster.app host).keys.openToken encoded = some token ∧
    token.nonce = nonce ∧ token.kind.submissionScope = some scope ∧
    (cluster.app host).manifest.webBinding scope.action = .ok binding

/-! ## Fencing -/

/-- An execution is one of a form token: its nonce, expiry and deployment are
the token's, and its identity is the digest of what it executed. -/
structure Execution.Genuine (execution : Execution) (cluster : Cluster Host) : Prop where
  token : ∃ host encoded token scope binding,
    (cluster.app host).keys.openToken encoded = some token ∧
    token.nonce = execution.nonce ∧ token.expires = execution.expires ∧
    token.kind.submissionScope = some scope ∧ scope.contract = execution.scope ∧
    (cluster.app host).manifest.webBinding scope.action = .ok binding
  identity : execution.identity = cluster.digests.invocation execution.invocation
  input : execution.invocation.input = cluster.digests.input execution.action.version
    execution.action.inputs execution.input

/-- The receipt an execution wrote. -/
structure Execution.Wrote (execution : Execution) (receipt : Receipt) : Prop where
  identity : receipt.input = execution.identity
  outcome : receipt.outcome = execution.payload
  expires : receipt.expires = execution.expires

/-- The lifetime of an executed nonce: its receipt is there, or its token has
been expired for more than sixty seconds, or its deployment is superseded. -/
def Execution.FencedIn (execution : Execution) (db : Database Records) : Prop :=
  (∃ receipt, db.receipts.find? execution.nonce = some receipt) ∨
    execution.expires + 60 < db.observed ∨ execution.scope ≠ db.deployment.scope

/-- Nothing that has executed can execute again. -/
structure Fenced (cluster : Cluster Host) (db : Database Records) (executions : List Execution)
    (scopes : List String) : Prop where
  serving : db.deployment.scope ∈ scopes
  known : ∀ execution ∈ executions, execution.scope ∈ scopes
  genuine : ∀ execution ∈ executions, execution.Genuine cluster
  fenced : ∀ execution ∈ executions, execution.FencedIn db
  owned : ∀ nonce receipt, db.receipts.find? nonce = some receipt → cluster.FormNonce nonce →
    ∃ execution ∈ executions, execution.nonce = nonce ∧ execution.Wrote receipt
  once : (executions.map Execution.nonce).Nodup

/-- A form token was executed with this outcome. -/
def Cluster.Delivered (cluster : Cluster Host) (host : Host) (form : Submission)
    (executions : List Execution) (payload : String) : Prop :=
  ∃ token, (cluster.app host).keys.openToken form.submission = some token ∧
    ∃ execution ∈ executions, execution.nonce = token.nonce ∧ execution.payload = payload

theorem Execution.FencedIn.keep {execution : Execution} {db db' : Database Records}
    (h : execution.FencedIn db)
    (receipts : ∀ receipt, db.receipts.find? execution.nonce = some receipt →
      ∃ receipt', db'.receipts.find? execution.nonce = some receipt')
    (observed : db.observed ≤ db'.observed) (deployment : db'.deployment = db.deployment) :
    execution.FencedIn db' := by
  rcases h with ⟨receipt, found⟩ | expired | superseded
  · exact .inl (receipts receipt found)
  · exact .inr (.inl (by omega))
  · exact .inr (.inr (by rw [deployment]; exact superseded))

namespace Fenced

variable {cluster : Cluster Host} {db db' : Database Records} {executions : List Execution}
  {scopes : List String}

/-- Records and the clock do not matter to fencing, as long as time does not go
back. -/
theorem frame (h : Fenced cluster db executions scopes) (receipts : db'.receipts = db.receipts)
    (observed : db.observed ≤ db'.observed) (deployment : db'.deployment = db.deployment) :
    Fenced cluster db' executions scopes where
  serving := deployment ▸ h.serving
  known := h.known
  genuine := h.genuine
  fenced := fun execution mem => (h.fenced execution mem).keep
    (fun receipt found => ⟨receipt, receipts ▸ found⟩) observed deployment
  owned := receipts ▸ h.owned
  once := h.once

/-- The execution of a nonce is unique. -/
theorem unique (h : Fenced cluster db executions scopes) {first second : Execution}
    (hfirst : first ∈ executions) (hsecond : second ∈ executions)
    (same : first.nonce = second.nonce) : first = second :=
  List.inj_on_of_nodup_map h.once hfirst hsecond same

theorem formNonce (h : Fenced cluster db executions scopes) {execution : Execution}
    (mem : execution ∈ executions) : cluster.FormNonce execution.nonce := by
  rcases (h.genuine execution mem).token with
    ⟨host, encoded, token, scope, binding, opened, nonce, _, hscope, _, bound⟩
  exact ⟨host, encoded, token, scope, binding, opened, nonce, hscope, bound⟩

/-- An accepted token is a form token. -/
theorem formNonce_of_accepted {host : Host} {token : Token} {form : Submission} {now : Int}
    (accepted : token.AcceptedAt (cluster.app host) form now) :
    cluster.FormNonce token.nonce := by
  rcases accepted.scope with ⟨scope, hscope, _, binding, bound⟩
  exact ⟨host, form.submission, token, scope, binding, accepted.opened, rfl, hscope, bound⟩

/-- While a process of the current deployment accepts a token at the observed
time, an execution under its nonce still has its receipt. -/
theorem accepted_has_receipt (h : Fenced cluster db executions scopes) {execution : Execution}
    (mem : execution ∈ executions) {host : Host} {token : Token} {form : Submission} {now : Int}
    (accepted : token.AcceptedAt (cluster.app host) form now)
    (same : execution.nonce = token.nonce)
    (serving : db.deployment.scope = (cluster.app host).submissionContract)
    (current : db.observed ≤ now) :
    ∃ receipt, db.receipts.find? execution.nonce = some receipt := by
  rcases (h.genuine execution mem).token with
    ⟨host', encoded, token', scope', _, opened, nonce, expires, hscope', contract, _⟩
  have hsame : token' = token :=
    cluster.nonceUnique host' host _ _ _ _ opened accepted.opened (nonce.trans same)
  subst hsame
  rcases accepted.scope with ⟨scope, hscope, hcontract, _⟩
  rcases h.fenced execution mem with stored | expired | superseded
  · exact stored
  · have live := accepted.live
    omega
  · have heq : scope = scope' := Option.some.inj (hscope.symm.trans hscope')
    refine absurd ?_ superseded
    rw [serving, ← contract, ← heq, hcontract]

/-- The receipt of an executed nonce is the one its execution wrote. -/
theorem receipt_of_execution (h : Fenced cluster db executions scopes) {execution : Execution}
    (mem : execution ∈ executions) {receipt : Receipt}
    (found : db.receipts.find? execution.nonce = some receipt) : execution.Wrote receipt := by
  rcases h.owned _ _ found (h.formNonce mem) with ⟨writer, hwriter, same, wrote⟩
  exact h.unique hwriter mem same ▸ wrote

/-! ## Steps -/

/-- Running the action keeps the fence: its nonce was free, and now carries the
receipt. -/
theorem execute (h : Fenced cluster db executions scopes) {execution : Execution}
    {tx : Database Records} (claims : execution.Claims db tx)
    (genuine : execution.Genuine cluster)
    (unexecuted : ∀ earlier ∈ executions, earlier.nonce ≠ execution.nonce)
    (serving : execution.scope = db.deployment.scope)
    (observed : db.observed ≤ tx.observed) (deployment : tx.deployment = db.deployment) :
    Fenced cluster tx (executions ++ [execution]) scopes where
  serving := deployment ▸ h.serving
  known := by
    intro candidate mem
    rcases List.mem_append.mp mem with old | new
    · exact h.known candidate old
    · rw [List.mem_singleton.mp new, serving]
      exact h.serving
  genuine := by
    intro candidate mem
    rcases List.mem_append.mp mem with old | new
    · exact h.genuine candidate old
    · exact List.mem_singleton.mp new ▸ genuine
  fenced := by
    intro candidate mem
    rcases List.mem_append.mp mem with old | new
    · refine (h.fenced candidate old).keep (fun receipt found => ⟨receipt, ?_⟩) observed deployment
      rw [claims.others _ (unexecuted candidate old)]
      exact found
    · rcases claims.written with ⟨receipt, found, _⟩
      exact .inl ⟨receipt, List.mem_singleton.mp new ▸ found⟩
  owned := by
    intro nonce receipt found isForm
    by_cases same : nonce = execution.nonce
    · subst same
      rcases claims.written with ⟨written, hwritten, identity, outcome, expires⟩
      rw [hwritten] at found
      cases found
      exact ⟨execution, by simp, rfl, identity, outcome, expires⟩
    · rw [claims.others nonce same] at found
      rcases h.owned nonce receipt found isForm with ⟨writer, mem, rest⟩
      exact ⟨writer, List.mem_append_left _ mem, rest⟩
  once := by
    rw [List.map_append, List.nodup_append]
    refine ⟨h.once, by simp, ?_⟩
    rintro nonce old _ new rfl
    rcases List.mem_map.mp old with ⟨earlier, mem, hnonce⟩
    simp only [List.map_cons, List.map_nil, List.mem_singleton] at new
    exact unexecuted earlier mem (hnonce.trans new)

/-- What an execution of an admitted context records is genuine. -/
theorem genuine_of_admitted {host : Host} {context : InvocationContext} {form : Submission}
    {token : Token} {now : Int} {payload : String}
    (admitted : context.AdmittedBy (cluster.app host) form token now) :
    (context.execution (cluster.app host) payload).Genuine cluster := by
  rcases admitted.accepted.scope with ⟨scope, hscope, hcontract, binding, bound⟩
  refine ⟨⟨host, form.submission, token, scope, binding, admitted.accepted.opened,
    admitted.nonce.symm, admitted.expires.symm, hscope, hcontract, bound⟩, ?_, ?_⟩
  · rw [← cluster.sameDigests host]
    exact admitted.identity
  · rw [← cluster.sameDigests host]
    exact admitted.input

/-- A prepared transaction that takes effect keeps the fence. -/
theorem transacted (h : Fenced cluster db executions scopes) {host : Host} {form : Submission}
    {tx : Database Records} {execution : Option Execution} {reply : Reply}
    {evidence : Option Reply}
    (prepared : Transacted (cluster.app host) db form (.ready tx execution reply evidence)) :
    Fenced cluster tx (executions ++ execution.toList) scopes := by
  cases prepared with
  | @executed context token observed _ now payload time admitted claims clock deployment =>
      refine h.execute claims (genuine_of_admitted admitted) ?_ time.serving.symm
        (clock ▸ time.keeps) deployment
      intro earlier mem same
      rcases h.accepted_has_receipt mem admitted.accepted (same.trans admitted.nonce)
        time.serving (le_trans time.keeps time.covers) with ⟨receipt, found⟩
      rw [same, claims.free] at found
      cases found
  | replayed time admitted answers prepared =>
      rw [Option.toList_none, List.append_nil]
      exact h.frame time.receipts time.keeps time.deployment

/-- Maintenance deletes only receipts whose expiry it has left sixty seconds
behind. -/
theorem sweep (h : Fenced cluster db executions scopes) {now : Int} {observed : Observed}
    (accepted : observeClock db.observed now = .ok observed)
    (receipts : db'.receipts = db.receipts.sweep (observed.effective - 60))
    (clock : db'.observed = observed.persisted) (deployment : db'.deployment = db.deployment) :
    Fenced cluster db' executions scopes where
  serving := deployment ▸ h.serving
  known := h.known
  genuine := h.genuine
  fenced := by
    intro execution mem
    have advance := observeClock_spec accepted
    have keeps := advance.1.keeps
    rcases h.fenced execution mem with ⟨receipt, found⟩ | expired | superseded
    · have wrote := h.receipt_of_execution mem found
      rcases db.receipts.sweep_find (observed.effective - 60) execution.nonce with
        kept | ⟨row, hrow, hexpired, _⟩
      · exact .inl ⟨receipt, by rw [receipts, kept, found]⟩
      · rw [found] at hrow
        cases hrow
        have expiry := wrote.expires
        have same := advance.2
        exact .inr (.inl (by omega))
    · exact .inr (.inl (by omega))
    · exact .inr (.inr (by rw [deployment]; exact superseded))
  owned := by
    intro nonce receipt found isForm
    rw [receipts] at found
    rcases db.receipts.sweep_find (observed.effective - 60) nonce with kept | ⟨_, _, _, gone⟩
    · exact h.owned nonce receipt (kept ▸ found) isForm
    · rw [gone] at found
      cases found
  once := h.once

/-- A receipt claimed under a nonce of no form fences nothing and frees nothing. -/
theorem claim (h : Fenced cluster db executions scopes) {receipt : Receipt}
    (foreign : ¬ cluster.FormNonce receipt.nonce)
    (receipts : db'.receipts = (db.receipts.claim receipt).2)
    (clock : db'.observed = db.observed) (deployment : db'.deployment = db.deployment) :
    Fenced cluster db' executions scopes := by
  have same : ∀ nonce, cluster.FormNonce nonce →
      db'.receipts.find? nonce = db.receipts.find? nonce := by
    intro nonce isForm
    have ne : receipt.nonce ≠ nonce := fun heq => foreign (heq ▸ isForm)
    rw [receipts, Receipts.claim_find_ne ne]
  exact {
    serving := deployment ▸ h.serving
    known := h.known
    genuine := h.genuine
    fenced := fun execution mem => (h.fenced execution mem).keep
      (fun receipt found => ⟨receipt, by rw [same _ (h.formNonce mem), found]⟩)
      (le_of_eq clock.symm) deployment
    owned := fun nonce receipt found isForm =>
      h.owned nonce receipt (same nonce isForm ▸ found) isForm
    once := h.once }

/-- A fresh deployment supersedes every execution, so the clock may restart. -/
theorem redeploy (h : Fenced cluster db executions scopes)
    (receipts : db'.receipts = db.receipts) (fresh : db'.deployment.scope ∉ scopes) :
    Fenced cluster db' executions (db'.deployment.scope :: scopes) where
  serving := List.mem_cons_self
  known := fun execution mem => List.mem_cons_of_mem _ (h.known execution mem)
  genuine := h.genuine
  fenced := by
    intro execution mem
    refine .inr (.inr fun same => fresh ?_)
    rw [← same]
    exact h.known execution mem
  owned := receipts ▸ h.owned
  once := h.once

/-! ## Answers -/

/-- The outcome in a form's receipt is that of its execution. -/
theorem delivered_of_receipt (h : Fenced cluster db executions scopes) {host : Host}
    {form : Submission} {token : Token} {now : Int} {receipt : Receipt}
    (accepted : token.AcceptedAt (cluster.app host) form now)
    (found : db.receipts.find? token.nonce = some receipt) :
    cluster.Delivered host form executions receipt.outcome := by
  rcases h.owned _ _ found (formNonce_of_accepted accepted) with ⟨execution, mem, same, wrote⟩
  exact ⟨token, accepted.opened, execution, mem, same, wrote.outcome.symm⟩

end Fenced

end Noxide
