import Noxide.Effects.Moves
import Noxide.Library.Transition

/-!
# Workers over the outbox

Any number of workers hold claims that they took at some time, and run transactions
with them while an operator runs commands, captures arrive and the clock moves.  A
commit whose outcome is unknown changes the tables without an answer to its worker.

The delivery loop uses each claim once: it runs one preflight, and then either releases
the claim, where the preflight did not answer, or finalizes it, where it was told to send.

Main results:

- Theorem {lit}`Step.progress`: what a step does to the outbox, the workers and the log.
- Theorem {lit}`tracked_invariant`: the stored rows keep their captures, their times are
  in order, and a held claim is current or superseded.
-/

namespace Noxide.Effects

open Checked

/-! ## Worlds -/

/-- How far the delivery loop has gone with a claim. -/
inductive Stage where
  | claimed
  /-- The preflight did not answer. -/
  | failed
  | sending
  | finished
  deriving DecidableEq, Repr

structure Worker where
  claim : EffectClaim
  stage : Stage
  deriving DecidableEq

/-- What the outside observes: a send that was handed out, and an operator's retry. -/
inductive Observed where
  | sent (id : String)
  | retried (id : String)
  deriving DecidableEq, Repr

/-- The tables, the claims that workers were given, and the observations, latest first. -/
structure World where
  tables : EffectTables
  workers : List Worker
  log : List Observed

/-- The commands of an operator, and the pause of a change of epoch. -/
inductive Command where
  | cancel (generation id : String)
  | revokeEndpoint (generation tenant endpoint : String)
  | revokeSecret (generation slot : String)
  | grantEndpoint (generation contract : String) (binding : EffectiveEffectGrant)
  | grantSecret (generation contract slot : String) (effective : EffectiveEffectDeployment)
  | resume (generation contract : String) (effective : EffectiveEffectDeployment) (id : String)
      (version : Nat) (retry : Bool)
  | pauseForEpoch

def Command.run (encoding : Encoding) : Command → EffectTables → Result EffectTables
  | .cancel generation id => cancelEffect generation id
  | .revokeEndpoint generation tenant endpoint => revokeEffectEndpoint generation tenant endpoint
  | .revokeSecret generation slot => revokeEffectSecret generation slot
  | .grantEndpoint generation contract binding => grantEffectEndpoint generation contract binding
  | .grantSecret generation contract slot effective =>
      grantEffectSecret generation contract slot effective
  | .resume generation contract effective id version retry =>
      resumeEffect encoding generation contract effective id version retry
  | .pauseForEpoch => pauseEffectsForEpoch

/-- An operator's retry is observed. -/
def Command.observed : Command → List Observed
  | .resume _ _ _ id _ true => [.retried id]
  | _ => []

def Preflight.stage : Preflight → Stage
  | .send _ => .sending
  | .settled _ => .finished

def Preflight.observed (id : String) : Preflight → List Observed
  | .send _ => [.sent id]
  | .settled _ => []

def restage (claim : EffectClaim) (stage : Stage) (workers : List Worker) : List Worker :=
  workers.map fun worker => if worker.claim = claim then { worker with stage := stage } else worker

/-- The parameters of a claim transaction. -/
structure ClaimRequest where
  generation : String
  contract : String
  directory : String
  active : List String
  skipped : List String

def ClaimRequest.run (request : ClaimRequest) (t : EffectTables) :
    Result (Option EffectClaim × EffectTables) :=
  claim request.generation request.contract request.directory request.active request.skipped t

/-- One committed transaction.  A transaction that stops commits nothing. -/
inductive Operation where
  | enqueue (capture : CapturedEffect)
  | claim (request : ClaimRequest)
  | preflight (claim : EffectClaim)
  | release (claim : EffectClaim)
  | finalize (claim : EffectClaim) (result : DeliveryResult)
  | command (command : Command)
  /-- The lifecycle clock ticks. -/
  | tick
  /-- Any transaction that changes neither outbox nor clock: an activation, a change of
  the runtime or of the limits. -/
  | administer

/-- The worker holds the claim, in whatever stage. -/
def World.hands (w : World) (claim : EffectClaim) : Prop :=
  claim ∈ w.workers.map (·.claim)

inductive Step (encoding : Encoding) : Operation → World → World → Prop where
  | enqueue (capture : CapturedEffect) (w : World) (t : EffectTables)
      (ran : enqueue encoding capture w.tables = .ok t) :
      Step encoding (.enqueue capture) w { w with tables := t }
  /-- A claim that its worker learns of. -/
  | claimed (request : ClaimRequest) (w : World) (claim : EffectClaim) (t : EffectTables)
      (ran : request.run w.tables = .ok (some claim, t)) :
      Step encoding (.claim request) w
        { w with tables := t, workers := ⟨claim, .claimed⟩ :: w.workers }
  /-- A poll that finds nothing, or a claim whose commit is not acknowledged. -/
  | unclaimed (request : ClaimRequest) (w : World) (found : Option EffectClaim) (t : EffectTables)
      (ran : request.run w.tables = .ok (found, t)) :
      Step encoding (.claim request) w { w with tables := t }
  | answered (claim : EffectClaim) (w : World) (answer : Preflight) (t : EffectTables)
      (handed : w.hands claim) (ran : preflight encoding claim w.tables = .ok (answer, t)) :
      Step encoding (.preflight claim) w
        { w with tables := t, workers := restage claim answer.stage w.workers,
                 log := answer.observed claim.id ++ w.log }
  /-- A preflight whose commit is not acknowledged. -/
  | unanswered (claim : EffectClaim) (w : World) (answer : Preflight) (t : EffectTables)
      (handed : w.hands claim) (ran : preflight encoding claim w.tables = .ok (answer, t)) :
      Step encoding (.preflight claim) w
        { w with tables := t, workers := restage claim .failed w.workers }
  /-- A preflight that stops. -/
  | failed (claim : EffectClaim) (w : World) (handed : w.hands claim) :
      Step encoding (.preflight claim) w { w with workers := restage claim .failed w.workers }
  | release (claim : EffectClaim) (w : World) (t : EffectTables) (handed : w.hands claim)
      (ran : releaseUnsent claim w.tables = .ok t) :
      Step encoding (.release claim) w
        { w with tables := t, workers := restage claim .finished w.workers }
  | finalize (claim : EffectClaim) (result : DeliveryResult) (w : World) (outcome : Finalized)
      (t : EffectTables) (handed : w.hands claim)
      (ran : finalize encoding claim result w.tables = .ok (outcome, t)) :
      Step encoding (.finalize claim result) w
        { w with tables := t, workers := restage claim .finished w.workers }
  | command (command : Command) (w : World) (t : EffectTables)
      (ran : command.run encoding w.tables = .ok t) :
      Step encoding (.command command) w { w with tables := t, log := command.observed ++ w.log }
  | tick (w : World) (wall : Int) (later : w.tables.watermark ≤ wall) :
      Step encoding .tick w { w with tables := { w.tables with watermark := wall } }
  | administer (w : World) (t : EffectTables) (outbox : t.outbox = w.tables.outbox)
      (watermark : t.watermark = w.tables.watermark) :
      Step encoding .administer w { w with tables := t }

/-- No capture yet, no claims and no observations. -/
structure World.Fresh (w : World) : Prop where
  outbox : w.tables.outbox = []
  workers : w.workers = []
  log : w.log = []

/-- Every interleaving of the operations that a rule allows. -/
def allowing (encoding : Encoding) (rule : World → Operation → Prop) : System World where
  initial := World.Fresh
  step w w' := ∃ operation, rule w operation ∧ Step encoding operation w w'

/-- Every interleaving, whatever workers do with their claims. -/
def outboxSystem (encoding : Encoding) : System World :=
  allowing encoding fun _ _ => True

/-- What the delivery loop does with a claim: one preflight, then a release where it did
not answer, or a finalization where it answered to send. -/
def Obeys (w : World) : Operation → Prop
  | .preflight claim => ⟨claim, .claimed⟩ ∈ w.workers
  | .release claim => ⟨claim, .failed⟩ ∈ w.workers
  | .finalize claim _ => ⟨claim, .sending⟩ ∈ w.workers
  | _ => True

/-- Every interleaving of delivery loops, of which any may stop at any time. -/
def deliverySystem (encoding : Encoding) : System World :=
  allowing encoding Obeys

/-! ## Progress -/

/-- What a step does, by rows. -/
inductive Progress (encoding : Encoding) (w : World) : World → Prop where
  /-- The rows stay. -/
  | kept (w' : World) (outbox : w'.tables.outbox = w.tables.outbox)
      (watermark : w.tables.watermark ≤ w'.tables.watermark)
      (workers : w'.workers.map (·.claim) = w.workers.map (·.claim)) : Progress encoding w w'
  | added (capture : CapturedEffect) (w' : World) (added : Added encoding capture w.tables w'.tables)
      (workers : w'.workers = w.workers) : Progress encoding w w'
  | paused (w' : World) (paused : Pauses w.tables w'.tables) (workers : w'.workers = w.workers) :
      Progress encoding w w'
  | claimed (claim : EffectClaim) (r : OutboxRow) (w' : World)
      (moved : Moved (.claim claim) r (r.claimed claim.fence claim.leaseUntil) w.tables w'.tables)
      (workers : w'.workers = ⟨claim, .claimed⟩ :: w.workers ∨ w'.workers = w.workers) :
      Progress encoding w w'
  | moved (move : Move) (r r' : OutboxRow) (w' : World) (moved : Moved move r r' w.tables w'.tables)
      (others : ∀ claim, move ≠ .claim claim)
      (workers : w'.workers.map (·.claim) = w.workers.map (·.claim)) : Progress encoding w w'

theorem restage_claims (claim : EffectClaim) (stage : Stage) (workers : List Worker) :
    (restage claim stage workers).map (·.claim) = workers.map (·.claim) := by
  unfold restage
  rw [List.map_map]
  refine List.map_congr_left fun worker _ => ?_
  simp only [Function.comp_apply]
  split <;> rfl

section Progress

variable {encoding : Encoding} {w : World}

theorem Preflighted.progress {claim : EffectClaim} {answer : Preflight} {t : EffectTables}
    (h : Preflighted encoding claim w.tables answer t) (workers : List Worker)
    (same : workers.map (·.claim) = w.workers.map (·.claim)) (log : List Observed) :
    Progress encoding w ⟨t, workers, log⟩ := by
  cases h with
  | settled outcome => exact Progress.kept _ rfl (le_refl _) same
  | sent r member held running first live => exact Progress.kept _ rfl (le_refl _) same
  | finished outcome r state reason eligible _ moved settles =>
      exact Progress.moved _ r _ _ moved (fun _ equal => by cases equal) same

theorem Command.progress {command : Command} {t : EffectTables} (constrained : Constrained w.tables.outbox)
    (h : command.run encoding w.tables = .ok t) (log : List Observed) :
    Progress encoding w ⟨t, w.workers, log⟩ := by
  cases command with
  | cancel generation id =>
      rcases cancel_moves h with ⟨r, _, moved⟩
      exact Progress.moved _ r _ _ moved (fun _ equal => by cases equal) rfl
  | revokeEndpoint generation tenant endpoint =>
      exact Progress.paused _ (revokeEffectEndpoint_pauses constrained h) rfl
  | revokeSecret generation slot =>
      exact Progress.paused _ (revokeEffectSecret_pauses constrained h) rfl
  | grantEndpoint generation contract binding =>
      exact Progress.paused _ (grantEffectEndpoint_pauses constrained h) rfl
  | grantSecret generation contract slot effective =>
      exact Progress.paused _ (grantEffectSecret_pauses constrained h) rfl
  | resume generation contract effective id version retry =>
      rcases resume_moves constrained h with ⟨r, r', _, moved⟩
      exact Progress.moved _ r r' _ moved (fun _ equal => by cases equal) rfl
  | pauseForEpoch => exact Progress.paused _ (pauseEffectsForEpoch_pauses h) rfl

theorem Step.progress {operation : Operation} {w' : World} (constrained : Constrained w.tables.outbox)
    (h : Step encoding operation w w') : Progress encoding w w' := by
  cases h with
  | enqueue capture _ t ran =>
      rcases enqueue_adds ran with rfl | added
      · exact Progress.kept _ rfl (le_refl _) rfl
      · exact Progress.added capture _ added rfl
  | claimed request _ claim t ran =>
      rcases claim_moves constrained ran with ⟨none, _⟩ | ⟨taken, r, same, moved⟩
      · cases none
      · cases same
        exact Progress.claimed claim r _ moved (Or.inl rfl)
  | unclaimed request _ found t ran =>
      rcases claim_moves constrained ran with ⟨_, rfl⟩ | ⟨taken, r, _, moved⟩
      · exact Progress.kept _ rfl (le_refl _) rfl
      · exact Progress.claimed taken r _ moved (Or.inr rfl)
  | answered claim _ answer t handed ran =>
      exact (preflight_moves constrained ran).progress _ (restage_claims claim _ _) _
  | unanswered claim _ answer t handed ran =>
      exact (preflight_moves constrained ran).progress _ (restage_claims claim _ _) _
  | failed claim _ handed => exact Progress.kept _ rfl (le_refl _) (restage_claims claim _ _)
  | release claim _ t handed ran =>
      rcases release_moves constrained ran with rfl | ⟨r, moved⟩
      · exact Progress.kept _ rfl (le_refl _) (restage_claims claim _ _)
      · exact Progress.moved _ r _ _ moved (fun _ equal => by cases equal) (restage_claims claim _ _)
  | finalize claim result _ outcome t handed ran =>
      cases finalize_moves constrained ran with
      | unchanged => exact Progress.kept _ rfl (le_refl _) (restage_claims claim _ _)
      | finished _ r state reason eligible _ moved retried =>
          exact Progress.moved _ r _ _ moved (fun _ equal => by cases equal) (restage_claims claim _ _)
      | delivered r eligible _ moved =>
          exact Progress.moved _ r _ _ moved (fun _ equal => by cases equal) (restage_claims claim _ _)
  | command command _ t ran => exact Command.progress constrained ran _
  | tick _ wall later => exact Progress.kept _ rfl later rfl
  | administer _ t outbox watermark => exact Progress.kept _ outbox (le_of_eq watermark.symm) rfl

end Progress

/-! ## Rows over time -/

/-- What every later version of a row keeps: its key, its capture, and a delivery.  The
fence never falls, and a row that changes hands gets a new one. -/
structure Evolves (r r' : OutboxRow) : Prop where
  id : r'.id = r.id
  tenant : r'.tenant = r.tenant
  origin : r'.origin = r.origin
  ordinal : r'.ordinal = r.ordinal
  endpoint : r'.endpoint = r.endpoint
  payload : r'.payload = r.payload
  digest : r'.payloadDigest = r.payloadDigest
  fence : r.fence ≤ r'.fence
  deployment : r'.fence = r.fence → r'.deployment = r.deployment
  delivered : r.state = .delivered → r'.state = .delivered

theorem Evolves.refl (r : OutboxRow) : Evolves r r :=
  ⟨rfl, rfl, rfl, rfl, rfl, rfl, rfl, le_refl _, fun _ => rfl, fun same => same⟩

theorem Evolves.trans {first second third : OutboxRow} (before : Evolves first second)
    (after : Evolves second third) : Evolves first third := by
  have low := before.fence
  have high := after.fence
  exact ⟨after.id.trans before.id, after.tenant.trans before.tenant, after.origin.trans before.origin,
    after.ordinal.trans before.ordinal, after.endpoint.trans before.endpoint,
    after.payload.trans before.payload, after.digest.trans before.digest, by omega,
    fun same => (after.deployment (by omega)).trans (before.deployment (by omega)),
    fun same => after.delivered (before.delivered same)⟩

theorem RowMove.evolves {now : Int} {move : Move} {r r' : OutboxRow} (h : RowMove now move r r') :
    Evolves r r' := by
  cases h with
  | claim claim _ id scope due fence lease exhausted =>
      refine ⟨rfl, rfl, rfl, rfl, rfl, rfl, rfl, ?_, fun _ => rfl, fun delivered => ?_⟩
      · change r.fence ≤ claim.fence
        omega
      · rw [delivered] at due
        rcases due with ⟨pending, _⟩ | ⟨running, _⟩
        · cases pending
        · cases running
  | finish claim _ state reason eligible held running stopped later =>
      refine ⟨rfl, rfl, rfl, rfl, rfl, rfl, rfl, le_refl _, fun _ => rfl, fun delivered => ?_⟩
      rw [running] at delivered
      cases delivered
  | release claim _ held running =>
      refine ⟨rfl, rfl, rfl, rfl, rfl, rfl, rfl, le_refl _, fun _ => rfl, fun delivered => ?_⟩
      rw [running] at delivered
      cases delivered
  | deliver claim _ eligible held epoch later =>
      exact ⟨rfl, rfl, rfl, rfl, rfl, rfl, rfl, le_refl _, fun _ => rfl, fun _ => rfl⟩
  | cancel _ cancellable =>
      refine ⟨rfl, rfl, rfl, rfl, rfl, rfl, rfl, le_refl _, fun _ => rfl, fun delivered => ?_⟩
      simp [OutboxRow.cancellable, delivered] at cancellable
  | resume _ generation contract grant round paused allowance =>
      refine ⟨rfl, rfl, rfl, rfl, rfl, rfl, rfl, ?_, fun same => ?_, fun delivered => ?_⟩
      · change r.fence ≤ r.fence + 1
        omega
      · change r.fence + 1 = r.fence at same
        omega
      · rw [paused] at delivered
        cases delivered
  | retry _ generation contract grant round stopped =>
      refine ⟨rfl, rfl, rfl, rfl, rfl, rfl, rfl, ?_, fun same => ?_, fun delivered => ?_⟩
      · change r.fence ≤ r.fence + 1
        omega
      · change r.fence + 1 = r.fence at same
        omega
      · rw [delivered] at stopped
        rcases stopped with dead | paused
        · cases dead
        · cases paused

/-- A row that moves under the same fence stops running. -/
theorem RowMove.stopped {now : Int} {move : Move} {r r' : OutboxRow} (h : RowMove now move r r')
    (same : r'.fence = r.fence) : r'.state ≠ .running := by
  cases h with
  | claim claim _ id scope due fence lease exhausted =>
      change claim.fence = r.fence at same
      omega
  | finish claim _ state reason eligible held running stopped later => exact stopped
  | release claim _ held running => exact fun running => by cases running
  | deliver claim _ eligible held epoch later => exact fun running => by cases running
  | cancel _ cancellable => exact fun running => by cases running
  | resume _ generation contract grant round paused allowance => exact fun running => by cases running
  | retry _ generation contract grant round stopped => exact fun running => by cases running

theorem Paused.evolves {r r' : OutboxRow} (h : Paused r r') : Evolves r r' := by
  cases h with
  | same => exact Evolves.refl r
  | paused reason pausable =>
      refine ⟨rfl, rfl, rfl, rfl, rfl, rfl, rfl, le_refl _, fun _ => rfl, fun delivered => ?_⟩
      simp [OutboxRow.pausable, delivered] at pausable

/-- Every row has a later version. -/
theorem Progress.evolves {encoding : Encoding} {w w' : World} (h : Progress encoding w w') :
    ∀ r ∈ w.tables.outbox, ∃ r' ∈ w'.tables.outbox, Evolves r r' := by
  have replaced : ∀ {move r r'}, Moved move r r' w.tables w'.tables → ∀ x ∈ w.tables.outbox,
      ∃ x' ∈ w'.tables.outbox, Evolves x x' := by
    intro move r r' moved x member
    rcases moved.replaced.mem_old member with rfl | still
    · exact ⟨r', moved.replaced.mem_after, moved.row.evolves⟩
    · exact ⟨x, still, Evolves.refl x⟩
  intro r member
  cases h with
  | kept _ outbox watermark workers =>
      rw [outbox]
      exact ⟨r, member, Evolves.refl r⟩
  | added capture _ added workers =>
      rw [added.outbox]
      exact ⟨r, List.mem_append_left _ member, Evolves.refl r⟩
  | paused _ paused workers =>
      rcases forall₂_mem_left paused.rows member with ⟨r', here, related⟩
      exact ⟨r', here, related.evolves⟩
  | claimed claim x _ moved workers => exact replaced moved r member
  | moved move x x' _ moved others workers => exact replaced moved r member

/-! ## What every interleaving keeps -/

/-- A row stores its capture, its times are in order, and only a running row has a lease
and must have been claimed. -/
structure RowSound (encoding : Encoding) (watermark : Int) (r : OutboxRow) : Prop where
  captured : r.Captured encoding
  created : r.payload.created ≤ r.first
  first : r.first ≤ r.eligible
  past : r.first ≤ watermark
  stopped : r.state ≠ .running → r.lease = 0
  running : r.state = .running → 0 < r.attempts ∧ 0 < r.fence

theorem RowSound.later {encoding : Encoding} {watermark watermark' : Int} {r : OutboxRow}
    (h : RowSound encoding watermark r) (later : watermark ≤ watermark') :
    RowSound encoding watermark' r :=
  ⟨h.captured, h.created, h.first, by have := h.past; omega, h.stopped, h.running⟩

theorem Evolves.captured {encoding : Encoding} {r r' : OutboxRow} (h : Evolves r r')
    (captured : r.Captured encoding) : r'.Captured encoding := by
  refine ⟨?_, ?_, ?_, ?_, ?_, ?_, ?_, ?_⟩
  · rw [h.payload]
    exact captured.bytes
  · rw [h.payload]
    exact captured.valid
  · rw [h.payload, h.id]
    exact captured.id
  · rw [h.payload, h.digest]
    exact captured.digest
  · rw [h.payload, h.tenant]
    exact captured.tenant
  · rw [h.payload, h.origin]
    exact captured.origin
  · rw [h.payload, h.ordinal]
    exact captured.ordinal
  · rw [h.payload, h.endpoint]
    exact captured.endpoint

theorem RowMove.sound {encoding : Encoding} {now : Int} {move : Move} {r r' : OutboxRow}
    (h : RowMove now move r r') (checked : r.Checked) (sound : RowSound encoding now r) :
    RowSound encoding now r' := by
  have captured := h.evolves.captured sound.captured
  have created := sound.created
  have past := sound.past
  cases h with
  | claim claim _ id scope due fence lease exhausted =>
      refine ⟨captured, created, sound.first, past, fun stopped => absurd rfl stopped, fun _ => ?_⟩
      have attempts := checked.attempts.1
      have before := checked.fence
      constructor
      · change 0 < if r.attempts < 5 then r.attempts + 1 else r.attempts
        split <;> omega
      · change 0 < claim.fence
        omega
  | finish claim _ state reason eligible held running stopped later =>
      refine ⟨captured, created, ?_, past, fun _ => rfl, fun running => absurd running stopped⟩
      change r.first ≤ eligible
      omega
  | release claim _ held running =>
      exact ⟨captured, created, sound.first, past, fun _ => rfl, fun running => by cases running⟩
  | deliver claim _ eligible held epoch later =>
      refine ⟨captured, created, ?_, past, fun _ => rfl, fun running => by cases running⟩
      change r.first ≤ eligible
      omega
  | cancel _ cancellable =>
      exact ⟨captured, created, sound.first, past, fun _ => rfl, fun running => by cases running⟩
  | resume _ generation contract grant round paused allowance =>
      exact ⟨captured, created, past, past, fun _ => rfl, fun running => by cases running⟩
  | retry _ generation contract grant round stopped =>
      refine ⟨captured, ?_, le_refl _, le_refl _, fun _ => rfl, fun running => by cases running⟩
      change r.payload.created ≤ now
      omega

theorem Paused.sound {encoding : Encoding} {now : Int} {r r' : OutboxRow} (h : Paused r r')
    (sound : RowSound encoding now r) : RowSound encoding now r' := by
  have captured := h.evolves.captured sound.captured
  cases h with
  | same => exact sound
  | paused reason pausable =>
      exact ⟨captured, sound.created, sound.first, sound.past, fun _ => rfl,
        fun running => by cases running⟩

theorem Added.sound {encoding : Encoding} {capture : CapturedEffect} {t t' : EffectTables}
    (h : Added encoding capture t t') : RowSound encoding t.watermark (capture.row encoding t.watermark) := by
  have valid := h.valid
  simp only [CapturedEffect.validate, bind_eq_ok, ensure_eq_ok] at valid
  rcases valid with ⟨_, _, _, _, _, _, _, _, _, _, bytes⟩
  exact ⟨⟨bytes, h.valid, rfl, rfl, rfl, rfl, rfl, rfl⟩, le_of_eq h.created, le_refl _, le_refl _,
    fun _ => rfl, fun running => by cases running⟩

/-- A held claim is of a stored row, and is current or superseded.  While it is current
and the row runs, the row carries its lease. -/
structure ClaimTracked (r : OutboxRow) (claim : EffectClaim) : Prop where
  id : r.id = claim.id
  tenant : r.tenant = claim.scope.tenant
  pos : 0 < claim.fence
  fence : claim.fence ≤ r.fence
  deployment : r.fence = claim.fence → r.deployment = claim.scope.deployment
  lease : r.fence = claim.fence → r.state = .running → r.lease = claim.leaseUntil

theorem ClaimTracked.evolves {r r' : OutboxRow} {claim : EffectClaim} (h : ClaimTracked r claim)
    (evolves : Evolves r r') (stopped : r'.fence = r.fence → r'.state ≠ .running ∨ r' = r) :
    ClaimTracked r' claim := by
  have low := h.fence
  have high := evolves.fence
  refine ⟨evolves.id.trans h.id, evolves.tenant.trans h.tenant, h.pos, by omega, fun same => ?_,
    fun same running => ?_⟩
  · exact (evolves.deployment (by omega)).trans (h.deployment (by omega))
  · rcases stopped (by omega) with idle | rfl
    · exact absurd running idle
    · exact h.lease same running

/-- The stored rows are sound, and every held claim is tracked by its row. -/
structure Tracked (encoding : Encoding) (w : World) : Prop where
  constrained : Constrained w.tables.outbox
  rows : ∀ r ∈ w.tables.outbox, RowSound encoding w.tables.watermark r
  claims : ∀ claim, w.hands claim → ∃ r ∈ w.tables.outbox, ClaimTracked r claim
  distinct : (w.workers.map fun worker => (worker.claim.id, worker.claim.fence)).Nodup

section Tracked

variable {encoding : Encoding} {w w' : World}

/-- One row moved: the others stay, and so do the claims on them. -/
theorem Tracked.moved {move : Move} {r r' : OutboxRow} (h : Tracked encoding w)
    (moved : Moved move r r' w.tables w'.tables)
    (workers : w'.workers.map (·.claim) = w.workers.map (·.claim)) : Tracked encoding w' := by
  have before := moved.replaced.mem_before
  have evolves := moved.row.evolves
  refine ⟨moved.constrained, fun x member => ?_, fun claim handed => ?_, ?_⟩
  · rw [moved.watermark]
    rcases moved.replaced.mem member with rfl | old
    · exact moved.row.sound (h.constrained.rows r before) (h.rows r before)
    · exact h.rows x old
  · have held : w.hands claim := by
      unfold World.hands at handed ⊢
      rw [← workers]
      exact handed
    rcases h.claims claim held with ⟨x, member, tracked⟩
    rcases moved.replaced.mem_old member with rfl | still
    · exact ⟨r', moved.replaced.mem_after,
        tracked.evolves evolves fun same => Or.inl (moved.row.stopped same)⟩
    · exact ⟨x, still, tracked⟩
  · have same : w'.workers.map (fun worker => (worker.claim.id, worker.claim.fence))
        = w.workers.map fun worker => (worker.claim.id, worker.claim.fence) := by
      have mapped := congrArg (List.map fun claim : EffectClaim => (claim.id, claim.fence)) workers
      simpa only [List.map_map, Function.comp_def] using mapped
    rw [same]
    exact h.distinct

/-- A claim moves its row and is then tracked by it. -/
theorem Tracked.claimed {claim : EffectClaim} {r : OutboxRow} (h : Tracked encoding w)
    (moved : Moved (.claim claim) r (r.claimed claim.fence claim.leaseUntil) w.tables w'.tables)
    (workers : w'.workers = ⟨claim, .claimed⟩ :: w.workers ∨ w'.workers = w.workers) :
    Tracked encoding w' := by
  let moved_only : World := ⟨w'.tables, w.workers, w'.log⟩
  have base : Tracked encoding moved_only := h.moved moved rfl
  have before := moved.replaced.mem_before
  rcases workers with added | same
  · have row := moved.row
    cases row with
    | claim _ _ id scope due fence lease exhausted =>
        have old := (h.constrained.rows r before).fence
        refine ⟨base.constrained, base.rows, fun other handed => ?_, ?_⟩
        · unfold World.hands at handed
          rw [added, List.map_cons, List.mem_cons] at handed
          rcases handed with rfl | handed
          · refine ⟨_, moved.replaced.mem_after, id.symm, ?_, by omega, le_refl _, fun _ => ?_, fun _ _ => rfl⟩
            · rw [scope]
              rfl
            · rw [scope]
              rfl
          · exact base.claims other handed
        · rw [added, List.map_cons, List.nodup_cons]
          refine ⟨fun present => ?_, h.distinct⟩
          rcases List.mem_map.mp present with ⟨worker, member, same⟩
          rcases h.claims worker.claim (List.mem_map_of_mem member) with ⟨x, here, tracked⟩
          have named : worker.claim.id = claim.id := congrArg Prod.fst same
          have fenced : worker.claim.fence = claim.fence := congrArg Prod.snd same
          have chosen : x = r := Table.eq_of_key (·.id) h.constrained.ids here before
            ((tracked.id.trans named).trans id)
          have low := tracked.fence
          rw [chosen] at low
          omega
  · exact ⟨base.constrained, base.rows, fun claim handed => base.claims claim (by
      unfold World.hands at handed ⊢
      rw [same] at handed
      exact handed), by rw [same]; exact h.distinct⟩

theorem Tracked.progress (h : Tracked encoding w) (progress : Progress encoding w w') :
    Tracked encoding w' := by
  have distinct_of : w'.workers.map (·.claim) = w.workers.map (·.claim) →
      (w'.workers.map fun worker => (worker.claim.id, worker.claim.fence)).Nodup := by
    intro workers
    have mapped := congrArg (List.map fun claim : EffectClaim => (claim.id, claim.fence)) workers
    simp only [List.map_map, Function.comp_def] at mapped
    rw [mapped]
    exact h.distinct
  have handed_of : w'.workers.map (·.claim) = w.workers.map (·.claim) → ∀ claim, w'.hands claim →
      w.hands claim := by
    intro workers claim handed
    unfold World.hands at handed ⊢
    rw [← workers]
    exact handed
  cases progress with
  | kept _ outbox watermark workers =>
      refine ⟨by rw [outbox]; exact h.constrained, fun r member => ?_, fun claim handed => ?_,
        distinct_of workers⟩
      · rw [outbox] at member
        exact (h.rows r member).later watermark
      · rw [outbox]
        exact h.claims claim (handed_of workers claim handed)
  | added capture _ added workers =>
      refine ⟨added.constrained, fun r member => ?_, fun claim handed => ?_,
        distinct_of (congrArg _ workers)⟩
      · rw [added.outbox, List.mem_append, List.mem_singleton] at member
        rw [added.watermark]
        rcases member with member | rfl
        · exact h.rows r member
        · exact added.sound
      · rcases h.claims claim (handed_of (congrArg _ workers) claim handed) with ⟨r, member, tracked⟩
        rw [added.outbox]
        exact ⟨r, List.mem_append_left _ member, tracked⟩
  | paused _ paused workers =>
      refine ⟨paused.constrained, fun r' member => ?_, fun claim handed => ?_,
        distinct_of (congrArg _ workers)⟩
      · rcases forall₂_mem_left paused.rows.flip member with ⟨r, here, related⟩
        rw [paused.watermark]
        exact related.sound (h.rows r here)
      · rcases h.claims claim (handed_of (congrArg _ workers) claim handed) with ⟨r, member, tracked⟩
        rcases forall₂_mem_left paused.rows member with ⟨r', here, related⟩
        refine ⟨r', here, tracked.evolves related.evolves fun _ => ?_⟩
        cases related with
        | same => exact Or.inr rfl
        | paused reason pausable => exact Or.inl fun running => by cases running
  | claimed claim r _ moved workers => exact h.claimed moved workers
  | moved move r r' _ moved others workers => exact h.moved moved workers

theorem tracked_invariant (rule : World → Operation → Prop) :
    (allowing encoding rule).Invariant (Tracked encoding) where
  initial w fresh := by
    refine ⟨?_, fun r member => ?_, fun claim handed => ?_, ?_⟩
    · rw [fresh.outbox]
      exact ⟨List.nodup_nil, List.nodup_nil, fun r member => by cases member⟩
    · rw [fresh.outbox] at member
      cases member
    · unfold World.hands at handed
      rw [fresh.workers] at handed
      cases handed
    · rw [fresh.workers]
      exact List.nodup_nil
  step w w' _ h step := by
    rcases step with ⟨operation, _, step⟩
    exact h.progress (step.progress h.constrained)

/-- Every restricted run is one of the runs of all workers. -/
theorem allowing_reachable {rule : World → Operation → Prop}
    (reachable : (allowing encoding rule).Reachable w) : (outboxSystem encoding).Reachable w := by
  refine reachable.mono (fun state fresh => ?_) fun state next step => ?_
  · exact fresh
  · rcases step with ⟨operation, _, step⟩
    exact ⟨operation, trivial, step⟩

end Tracked

/-! ## One capture -/

/-- The values of the digests for the capture below. -/
def sampleEncoding : Encoding where
  identityDigest _ _ _ := "Dsr29-w4gLnVrJabqnLAnqvqrMhHOrAHT27WOEIZm4Y"
  captureDigest _ := "wCtHthHTlwzFcZNumNH4vgj1X7o2p919cSuXkXCn6kc"
  emissionDigest _ := "MoNBx0J9DYtugg0RmDFyqFKVX1QgV_Baxjv3cqScAFk"
  captureBytes _ := 396
  bodyAccepted fields body := fields.isEmpty && body == "\x7b\x7d"
  addressAccepted host port path := host == "api.service.net" && port == 443 && path == "/in"
  retryHash _ attempts := if attempts = 1 then 12358 else if attempts = 2 then 33969
    else if attempts = 3 then 57505 else 31344

def sampleBinding : EffectiveEffectGrant where
  tenant := ""
  endpoint := ⟨"events", none⟩
  host := "api.service.net"
  port := 443
  path := "/in"

def sampleCapture : CapturedEffect where
  scope := ⟨"g1", ""⟩
  origin := "o1"
  ordinal := 0
  sourceAction := 1
  sourceActionVersion := 1
  contract := "c1"
  epoch := "e1"
  grantVersion := 1
  secretVersion := 0
  binding := sampleBinding
  schemaDigest := "MoNBx0J9DYtugg0RmDFyqFKVX1QgV_Baxjv3cqScAFk"
  fields := []
  body := "\x7b\x7d"
  created := 0

def sampleStart : World where
  tables :=
    { runtime := ⟨some "g1", some ⟨"g1", "c1", "e1", .active⟩⟩, watermark := 0,
      queue := some ⟨0, "s1", "d1", 1000, 1000, 2⟩, tenants := [],
      grants := [⟨"g1", "", "events", 1, "c1", "e1", .active, sampleBinding⟩], secrets := [],
      outbox := [] }
  workers := []
  log := []

def sampleRequest : ClaimRequest := ⟨"g1", "c1", "d1", [], []⟩

/-- The sample capture is admitted. -/
def World.captures (w : World) : World :=
  match enqueue sampleEncoding sampleCapture w.tables with
  | .ok t => { w with tables := t }
  | .error _ => w

/-- A worker claims what is due. -/
def World.claims (w : World) : World :=
  match sampleRequest.run w.tables with
  | .ok (some claim, t) => { w with tables := t, workers := ⟨claim, .claimed⟩ :: w.workers }
  | _ => w

/-- The clock moves on by the length of a lease. -/
def World.waits (w : World) : World :=
  { w with tables := { w.tables with watermark := w.tables.watermark + effectLeaseMillis } }

/-- The latest worker that has not used its claim runs its preflight. -/
def World.preflights (w : World) : World :=
  match w.workers with
  | ⟨claim, .claimed⟩ :: _ =>
      match preflight sampleEncoding claim w.tables with
      | .ok (answer, t) =>
          { w with tables := t, workers := restage claim answer.stage w.workers,
                   log := answer.observed claim.id ++ w.log }
      | .error _ => w
  | _ => w

section Sample

variable {rule : World → Operation → Prop} {w : World}

theorem captures_reachable (h : (allowing sampleEncoding rule).Reachable w)
    (allowed : rule w (.enqueue sampleCapture)) : (allowing sampleEncoding rule).Reachable w.captures := by
  unfold World.captures
  split
  · rename_i t ran
    exact h.next ⟨.enqueue sampleCapture, allowed, Step.enqueue sampleCapture w t ran⟩
  · exact h

theorem claims_reachable (h : (allowing sampleEncoding rule).Reachable w)
    (allowed : rule w (.claim sampleRequest)) : (allowing sampleEncoding rule).Reachable w.claims := by
  unfold World.claims
  split
  · rename_i claim t ran
    exact h.next ⟨.claim sampleRequest, allowed, Step.claimed sampleRequest w claim t ran⟩
  · exact h

theorem waits_reachable (h : (allowing sampleEncoding rule).Reachable w) (allowed : rule w .tick) :
    (allowing sampleEncoding rule).Reachable w.waits := by
  refine h.next ⟨.tick, allowed, Step.tick w _ ?_⟩
  unfold effectLeaseMillis
  omega

theorem preflights_reachable (h : (deliverySystem sampleEncoding).Reachable w) :
    (deliverySystem sampleEncoding).Reachable w.preflights := by
  unfold World.preflights
  split
  · rename_i claim rest workers
    split
    · rename_i answer t ran
      have member : ⟨claim, .claimed⟩ ∈ w.workers := by
        rw [workers]
        exact List.mem_cons_self
      exact h.next ⟨.preflight claim, member,
        Step.answered claim w answer t (List.mem_map_of_mem member) ran⟩
    · exact h
  · exact h

/-- A capture that was claimed five times, each time but the last until its lease ran out. -/
def fifthClaim : World :=
  sampleStart.captures.claims.waits.claims.waits.claims.waits.claims.waits.claims

/-- No rule that allows captures, claims and ticks excludes it. -/
theorem fifthClaim_reachable (captures : ∀ w, rule w (.enqueue sampleCapture))
    (claims : ∀ w, rule w (.claim sampleRequest)) (ticks : ∀ w, rule w .tick) :
    (allowing sampleEncoding rule).Reachable fifthClaim := by
  have captured : (allowing sampleEncoding rule).Reachable sampleStart.captures :=
    captures_reachable (System.Reachable.start ⟨rfl, rfl, rfl⟩) (captures _)
  have again : ∀ {w}, (allowing sampleEncoding rule).Reachable w →
      (allowing sampleEncoding rule).Reachable w.claims.waits := fun h =>
    waits_reachable (claims_reachable h (claims _)) (ticks _)
  exact claims_reachable (again (again (again (again captured)))) (claims _)

end Sample

end Noxide.Effects
