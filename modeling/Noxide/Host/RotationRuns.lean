import Noxide.Host.Fencing
import Noxide.Host.Rotation
import Noxide.Library.Transition

/-!
# Runs of capability rotations

Any number of processes serve rotations over one database.  A step is one transaction at its
place in the serialization order: a round of a rotation, a commit whose outcome was unknown, any
other transaction (mutations, migrations and deletions of records among them), maintenance, a
change of the signing keys, or a new deployment.

Main results:

- Theorem {lit}`rotationSound_invariant`: every version is one more than the number of tokens
  consumed for its record, and no token is consumed twice.
- Theorem {lit}`RotationWorld.later_of_run`: a record keeps its incarnation and a removed one
  never returns.
- Theorem {lit}`rotations_consume_once`: rotations are exactly-once, revoke the old secret,
  change nothing without the current one, and show a secret only while it is current.
-/

namespace Noxide

open Checked

/-! ## The world -/

/-- A rotation being served, with the rounds it has left. -/
structure RotationRequest (Host : Type) where
  host : Host
  form : RotationForm
  left : Nat

/-- A commit that was sent and never acknowledged. -/
structure RotationFlight (Host : Type) where
  host : Host
  form : RotationForm
  conditions : RotationConditions
  keys : EditKeys
  memory : Int

structure RotationAnswer (Host : Type) where
  host : Host
  form : RotationForm
  result : Except RequestError RotationPage

structure RotationWorld (Host : Type) where
  database : Database AuthorityTables
  memory : Host → Int
  keys : Host → EditKeys
  live : List (RotationRequest Host)
  inFlight : List (RotationFlight Host)
  rotations : List Rotation
  answers : List (RotationAnswer Host)
  used : List (Nat × Nat)
  scopes : List String

variable {Host : Type}

namespace RotationWorld

abbrev rows (world : RotationWorld Host) : List StoredRow := world.database.records.records

/-- How many tokens were consumed for a record. -/
def rotated (world : RotationWorld Host) (key : Nat × Nat) : Nat :=
  world.rotations.countP fun rotation => rotation.key = key

/-- A transaction takes effect, with the rotation it made. -/
def commit (world : RotationWorld Host) (tx : Database AuthorityTables) (rotation : Option Rotation) :
    RotationWorld Host :=
  { world with database := tx, rotations := world.rotations ++ rotation.toList }

/-- What one round does to the database. -/
def store (world : RotationWorld Host) (request : RotationRequest Host)
    (conditions : RotationConditions) (cut : Option Bool) (outcome : CommitOutcome)
    (prepared : PreparedRotation) : RotationWorld Host :=
  match cut, prepared with
  | none, .ready tx rotation _ _ =>
      if outcome.isAcknowledged then world.commit tx rotation
      else if outcome = .uncertain then
        { world with
          inFlight := ⟨request.host, request.form, conditions, world.keys request.host,
            world.memory request.host⟩ :: world.inFlight }
      else world
  | _, _ => world

/-- The loop after one round: answer, or try again while rounds are left. -/
def proceed (world : RotationWorld Host) (rest : List (RotationRequest Host))
    (request : RotationRequest Host) : RotationNext → RotationWorld Host
  | .answer result =>
      { world with
        live := rest
        answers := ⟨request.host, request.form, result⟩ :: world.answers }
  | .again =>
      match request.left with
      | 0 =>
          { world with
            live := rest
            answers := ⟨request.host, request.form, .error .busy⟩ :: world.answers }
      | left + 1 => { world with live := { request with left := left } :: rest }

def remember [DecidableEq Host] (world : RotationWorld Host) (host : Host) (memory : Int) :
    RotationWorld Host :=
  { world with memory := Function.update world.memory host memory }

/-- One round of a live request. -/
def round [DecidableEq Host] (world : RotationWorld Host) (shared : RotationHost)
    (cluster : Cluster Host) (rest : List (RotationRequest Host)) (request : RotationRequest Host)
    (conditions : RotationConditions) (cut : Option Bool) (inTime : Bool) (outcome : CommitOutcome) :
    RotationWorld Host :=
  let (memory, prepared) := prepareRotation shared (cluster.app request.host)
    (world.keys request.host) conditions request.form (world.memory request.host) world.database
  ((world.store request conditions cut outcome prepared).proceed rest request
    (rotationRound cut inTime outcome prepared)).remember request.host memory

/-- An unacknowledged commit takes effect: it does what its attempt does at this place in the
order, or is refused. -/
def land (world : RotationWorld Host) (shared : RotationHost) (cluster : Cluster Host)
    (flight : RotationFlight Host) : RotationWorld Host :=
  match (prepareRotation shared (cluster.app flight.host) flight.keys flight.conditions flight.form
    flight.memory world.database).2 with
  | .ready tx rotation _ _ => world.commit tx rotation
  | .failed _ _ => world

/-- Any other transaction. -/
def other (world : RotationWorld Host) (statements : List RecordStatement)
    (tables : AuthorityTables) (receipts : Receipts) (observed : Int) : RotationWorld Host :=
  { world with
    database := { world.database with
      records := tables
      receipts := receipts
      observed := observed }
    used := editInserts statements ++ world.used }

def redeploy (world : RotationWorld Host) (deployment : DeploymentRow) (observed : Int) :
    RotationWorld Host :=
  { world with
    database := { world.database with deployment := deployment, observed := observed }
    scopes := deployment.scope :: world.scopes }

end RotationWorld

/-- A nonce that some process accepts in the token of a rotation form. -/
def Cluster.RotationNonce (cluster : Cluster Host) (nonce : String) : Prop :=
  ∃ host encoded token scope, (cluster.app host).keys.openToken encoded = some token ∧
    token.nonce = nonce ∧ token.kind = .anonymousSubmission scope ∧ scope.action = 0

/-- Zero is no identifier of a web binding, so a form's token is no rotation token. -/
theorem Cluster.FormNonce.not_rotation {cluster : Cluster Host} {nonce : String}
    (nonzero : ∀ host id binding, (cluster.app host).manifest.webBinding id = .ok binding → id ≠ 0)
    (form : cluster.FormNonce nonce) : ¬ cluster.RotationNonce nonce := by
  rintro ⟨host', encoded', token', scope', opened', nonce', kind, action⟩
  rcases form with ⟨host, encoded, token, scope, binding, opened, same, sealing, bound⟩
  have equal : token = token' :=
    cluster.nonceUnique host host' encoded encoded' token token' opened opened' (same.trans nonce'.symm)
  rw [equal, kind] at sealing
  cases sealing
  exact nonzero host scope'.action binding bound action

/-- One step of the whole system.  Record identifiers are random and never drawn twice. -/
inductive RotationStep [DecidableEq Host] (shared : RotationHost) (cluster : Cluster Host) :
    RotationWorld Host → RotationWorld Host → Prop where
  /-- A visitor posts a rotation form; the loop has three rounds. -/
  | submit (world) (host : Host) (form : RotationForm) :
      RotationStep shared cluster world { world with live := ⟨host, form, 2⟩ :: world.live }
  | round (world) (before after : List (RotationRequest Host)) (request : RotationRequest Host)
      (conditions : RotationConditions) (cut : Option Bool) (inTime : Bool)
      (outcome : CommitOutcome) (live : world.live = before ++ request :: after) :
      RotationStep shared cluster world
        (world.round shared cluster (before ++ after) request conditions cut inTime outcome)
  | land (world) (before after : List (RotationFlight Host)) (flight : RotationFlight Host)
      (sent : world.inFlight = before ++ flight :: after) :
      RotationStep shared cluster world
        ({ world with inFlight := before ++ after }.land shared cluster flight)
  /-- It may write records and every other table, raise the persisted clock mark, and claim a
  receipt of its own. -/
  | other (world) (statements : List RecordStatement) (tables : AuthorityTables)
      (receipt : Option Receipt) (observed : Int)
      (edited : edit statements world.rows = some tables.records)
      (fresh : ∀ key ∈ editInserts statements, key ∉ world.used)
      (foreign : ∀ row ∈ receipt, ¬ cluster.RotationNonce row.nonce)
      (later : world.database.observed ≤ observed) :
      RotationStep shared cluster world
        (world.other statements tables
          (match receipt with
            | none => world.database.receipts
            | some row => (world.database.receipts.claim row).2) observed)
  | maintain (world) (now : Int) (observed : Observed)
      (accepted : observeClock world.database.observed now = .ok observed) :
      RotationStep shared cluster world
        (world.other [] world.database.records
          (world.database.receipts.sweep (observed.effective - 60)) observed.persisted)
  /-- The edit signing key of a process is rotated. -/
  | rotateKey (world) (host : Host) (drawn : List UInt8) (keys : EditKeys)
      (rotated : rotateEditKey drawn (world.keys host) = .ok keys) :
      RotationStep shared cluster world
        { world with keys := Function.update world.keys host keys }
  /-- A process restarts with the keys of its key file. -/
  | restart (world) (host : Host) (keys : EditKeys) :
      RotationStep shared cluster world
        { world with keys := Function.update world.keys host keys }
  /-- Activation of another contract or key draws a fresh random generation. -/
  | activate (world) (host : Host) (generation : String)
      (superseded : world.database.deployment.contract ≠ (cluster.app host).contract
        ∨ world.database.deployment.incarnation ≠ (cluster.app host).keys.incarnation)
      (fresh : (cluster.app host).contract ++ ":" ++ generation ∉ world.scopes) :
      RotationStep shared cluster world
        (world.redeploy
          ⟨(cluster.app host).contract, (cluster.app host).keys.incarnation, generation⟩
          world.database.observed)
  /-- Clock recovery sets the persisted clock anew, possibly back. -/
  | recoverClock (world) (incarnation generation : String) (now : Int)
      (changed : world.database.deployment.incarnation ≠ incarnation)
      (fresh : world.database.deployment.contract ++ ":" ++ generation ∉ world.scopes) :
      RotationStep shared cluster world
        (world.redeploy ⟨world.database.deployment.contract, incarnation, generation⟩ now)

/-- A freshly bound database under its first deployment, without records. -/
structure RotationWorld.Initial (world : RotationWorld Host) : Prop where
  rows : world.rows = []
  receipts : world.database.receipts = Receipts.empty
  live : world.live = []
  inFlight : world.inFlight = []
  rotations : world.rotations = []
  answers : world.answers = []
  scopes : world.scopes = [world.database.deployment.scope]

def rotationRuns [DecidableEq Host] (shared : RotationHost) (cluster : Cluster Host) :
    System (RotationWorld Host) where
  initial := RotationWorld.Initial
  step := RotationStep shared cluster

/-! ## Frame of a round -/

namespace RotationWorld

variable (world : RotationWorld Host) (rest : List (RotationRequest Host))
  (request : RotationRequest Host) (next : RotationNext)

@[simp]
theorem proceed_database : (world.proceed rest request next).database = world.database := by
  unfold proceed
  split
  · rfl
  · split <;> rfl

@[simp]
theorem proceed_rotations : (world.proceed rest request next).rotations = world.rotations := by
  unfold proceed
  split
  · rfl
  · split <;> rfl

@[simp]
theorem proceed_used : (world.proceed rest request next).used = world.used := by
  unfold proceed
  split
  · rfl
  · split <;> rfl

@[simp]
theorem proceed_scopes : (world.proceed rest request next).scopes = world.scopes := by
  unfold proceed
  split
  · rfl
  · split <;> rfl

/-- The loop answers with the result of its round, or gives up busy. -/
theorem proceed_answers {answer : RotationAnswer Host}
    (h : answer ∈ (world.proceed rest request next).answers) :
    answer ∈ world.answers ∨
      (answer.host = request.host ∧ answer.form = request.form ∧
        (next = .answer answer.result ∨ answer.result = .error .busy)) := by
  unfold proceed at h
  split at h
  · rcases List.mem_cons.mp h with rfl | old
    · exact Or.inr ⟨rfl, rfl, Or.inl rfl⟩
    · exact Or.inl old
  · split at h
    · rcases List.mem_cons.mp h with rfl | old
      · exact Or.inr ⟨rfl, rfl, Or.inr rfl⟩
      · exact Or.inl old
    · exact Or.inl h

/-- What a round does to the database is nothing, or a commit that was acknowledged. -/
theorem store_cases (conditions : RotationConditions) (cut : Option Bool) (outcome : CommitOutcome)
    (prepared : PreparedRotation) :
    let stored := world.store request conditions cut outcome prepared
    stored.answers = world.answers ∧ stored.used = world.used ∧ stored.scopes = world.scopes
    ∧ ((stored.database = world.database ∧ stored.rotations = world.rotations)
      ∨ ∃ tx rotation page receiptCommit, prepared = .ready tx rotation page receiptCommit
        ∧ cut = none ∧ outcome.isAcknowledged = true
        ∧ stored.database = tx ∧ stored.rotations = world.rotations ++ rotation.toList) := by
  intro stored
  simp only [stored, store]
  split
  · rename_i tx rotation page receiptCommit
    split
    · rename_i acknowledged
      exact ⟨rfl, rfl, rfl, Or.inr ⟨tx, rotation, page, receiptCommit, rfl, rfl, acknowledged, rfl, rfl⟩⟩
    · split <;> exact ⟨rfl, rfl, rfl, Or.inl ⟨rfl, rfl⟩⟩
  · exact ⟨rfl, rfl, rfl, Or.inl ⟨rfl, rfl⟩⟩

end RotationWorld

/-! ## The invariant -/

/-- A rotation is one of a rotation token: its nonce, expiry and deployment are the token's. -/
def Rotation.Genuine (rotation : Rotation) (cluster : Cluster Host) : Prop :=
  ∃ host encoded token scope, (cluster.app host).keys.openToken encoded = some token
    ∧ token.nonce = rotation.nonce ∧ token.expires = rotation.expires
    ∧ token.kind = .anonymousSubmission scope ∧ scope.action = 0 ∧ scope.contract = rotation.scope

/-- The receipt a rotation wrote. -/
structure Rotation.Wrote (rotation : Rotation) (receipt : Receipt) : Prop where
  subject : receipt.subject = rotation.subject
  input : receipt.input = rotation.input
  expires : receipt.expires = rotation.expires

/-- The lifetime of a consumed token: its receipt is there, or the token has been expired for
more than sixty seconds, or its deployment is superseded. -/
def Rotation.FencedIn (rotation : Rotation) (db : Database AuthorityTables) : Prop :=
  (∃ receipt, db.receipts.find? rotation.nonce = some receipt) ∨
    rotation.expires + 60 < db.observed ∨ rotation.scope ≠ db.deployment.scope

/-- No consumed token can be consumed again. -/
structure RotationFenced (cluster : Cluster Host) (db : Database AuthorityTables)
    (rotations : List Rotation) (scopes : List String) : Prop where
  serving : db.deployment.scope ∈ scopes
  known : ∀ rotation ∈ rotations, rotation.scope ∈ scopes
  genuine : ∀ rotation ∈ rotations, rotation.Genuine cluster
  fenced : ∀ rotation ∈ rotations, rotation.FencedIn db
  owned : ∀ nonce receipt, db.receipts.find? nonce = some receipt → cluster.RotationNonce nonce →
    ∃ rotation ∈ rotations, rotation.nonce = nonce ∧ rotation.Wrote receipt
  once : (rotations.map Rotation.nonce).Nodup

/-- The version of a record is one more than the number of tokens consumed for it. -/
structure Versioned (rows : List StoredRow) (used : List (Nat × Nat)) (rotations : List Rotation) :
    Prop where
  distinct : (rows.map StoredRow.key).Nodup
  known : ∀ row ∈ rows, row.key ∈ used
  rotated : ∀ rotation ∈ rotations, rotation.key ∈ used
  counted : ∀ row ∈ rows, ∀ version, row.capVersion = some version →
    version = 1 + rotations.countP fun rotation => rotation.key = row.key

structure RotationWorld.Sound (world : RotationWorld Host) (cluster : Cluster Host) : Prop where
  fenced : RotationFenced cluster world.database world.rotations world.scopes
  versioned : Versioned world.rows world.used world.rotations

/-! ### Versions -/

section Versions

variable {rows rows' : List StoredRow} {used : List (Nat × Nat)} {rotations : List Rotation}

/-- An unused key has no consumed token. -/
theorem Versioned.unused (h : Versioned rows used rotations) {key : Nat × Nat} (fresh : key ∉ used) :
    (rotations.countP fun rotation => rotation.key = key) = 0 := by
  rw [List.countP_eq_zero]
  intro rotation member same
  rw [decide_eq_true_eq] at same
  exact fresh (same ▸ h.rotated rotation member)

/-- Mutations, migrations and deletions keep the versions. -/
theorem Versioned.edit (h : Versioned rows used rotations) {statements : List RecordStatement}
    (edited : edit statements rows = some rows')
    (fresh : ∀ key ∈ editInserts statements, key ∉ used) :
    Versioned rows' (editInserts statements ++ used) rotations where
  distinct := edit_distinct edited h.distinct
  known := by
    intro row member
    rcases edit_origin edited member with ⟨old, inside, continues⟩ | new
    · rw [continues.key]
      exact List.mem_append_right _ (h.known old inside)
    · exact List.mem_append_left _ new.key
  rotated := fun rotation member => List.mem_append_right _ (h.rotated rotation member)
  counted := by
    intro row member version current
    rcases edit_origin edited member with ⟨old, inside, continues⟩ | new
    · rw [continues.key]
      exact h.counted old inside version (continues.capVersion ▸ current)
    · rw [h.unused (fresh row.key new.key)]
      rcases new.capVersion with none_ | one
      · rw [none_] at current
        cases current
      · rw [one] at current
        cases current
        rfl

/-- An advance moves one record's version on, and consumes one token for it. -/
theorem Versioned.advance (h : Versioned rows used rotations) {rotation : Rotation} {row : StoredRow}
    {version : Nat} (key : row.key = rotation.key) (current : row.capVersion = some version)
    (next : rotation.version = version + 1)
    (replaced : Table.Replaced row { row with capVersion := some rotation.version } rows rows') :
    Versioned rows' used (rotations ++ [rotation]) where
  distinct := by
    rw [replaced.map_key StoredRow.key rfl]
    exact h.distinct
  known := by
    intro other member
    rcases replaced.mem member with rfl | old
    · exact h.known row replaced.mem_before
    · exact h.known other old
  rotated := by
    intro earlier member
    rcases List.mem_append.mp member with old | new
    · exact h.rotated earlier old
    · rw [List.mem_singleton.mp new, ← key]
      exact h.known row replaced.mem_before
  counted := by
    intro other member found hfound
    rw [List.countP_append, List.countP_singleton]
    rcases replaced.mem_other StoredRow.key rfl h.distinct member with rfl | ⟨old, apart⟩
    · have counted := h.counted row replaced.mem_before version current
      have same : rotation.key = StoredRow.key { row with capVersion := some rotation.version } := key.symm
      rw [if_pos (decide_eq_true same)]
      cases hfound
      rw [next, counted]
      rfl
    · have differs : ¬ rotation.key = other.key := fun same => apart (same.symm.trans key.symm)
      rw [if_neg (by simpa using differs)]
      exact h.counted other old found hfound

end Versions

/-! ### Tokens -/

namespace RotationFenced

variable {cluster : Cluster Host} {db db' : Database AuthorityTables} {rotations : List Rotation}
  {scopes : List String}

/-- An admitted rotation token is one of a rotation form. -/
theorem rotationNonce_of_admitted {shared : RotationHost} {host : Host} {claim : RotationClaim}
    {form : RotationForm} {token : Token} {now : Int}
    (admitted : claim.AdmittedBy shared (cluster.app host) form token now) :
    cluster.RotationNonce claim.nonce := by
  rcases admitted.scope with ⟨scope, kind, action, _⟩
  exact ⟨host, form.submission, token, scope, admitted.opened, admitted.nonce.symm, kind, action⟩

theorem rotationNonce (h : RotationFenced cluster db rotations scopes) {rotation : Rotation}
    (member : rotation ∈ rotations) : cluster.RotationNonce rotation.nonce := by
  rcases h.genuine rotation member with ⟨host, encoded, token, scope, opened, nonce, _, kind, action, _⟩
  exact ⟨host, encoded, token, scope, opened, nonce, kind, action⟩

/-- The rotation of a nonce is unique, and its receipt is the one it wrote. -/
theorem receipt_of_rotation (h : RotationFenced cluster db rotations scopes) {rotation : Rotation}
    (member : rotation ∈ rotations) {receipt : Receipt}
    (found : db.receipts.find? rotation.nonce = some receipt) : rotation.Wrote receipt := by
  rcases h.owned _ _ found (h.rotationNonce member) with ⟨writer, writes, same, wrote⟩
  have equal : writer = rotation := List.inj_on_of_nodup_map h.once writes member same
  exact equal ▸ wrote

/-- While a process of the current deployment accepts a token at the observed time, a rotation
under it still has its receipt. -/
theorem accepted_has_receipt (h : RotationFenced cluster db rotations scopes) {rotation : Rotation}
    (member : rotation ∈ rotations) {shared : RotationHost} {host : Host} {claim : RotationClaim}
    {form : RotationForm} {token : Token} {now : Int}
    (admitted : claim.AdmittedBy shared (cluster.app host) form token now)
    (same : rotation.nonce = claim.nonce)
    (serving : db.deployment.scope = (cluster.app host).submissionContract)
    (current : db.observed ≤ now) :
    ∃ receipt, db.receipts.find? rotation.nonce = some receipt := by
  rcases h.genuine rotation member with
    ⟨host', encoded, token', scope', opened, nonce, expires, kind', _, contract⟩
  have equal : token' = token :=
    cluster.nonceUnique host' host _ _ _ _ opened admitted.opened
      (nonce.trans (same.trans admitted.nonce))
  subst equal
  rcases admitted.scope with ⟨scope, kind, _, bound⟩
  rcases h.fenced rotation member with stored | expired | superseded
  · exact stored
  · have live := admitted.live
    omega
  · have scopes : scope = scope' := by
      rw [kind] at kind'
      exact TokenKind.anonymousSubmission.inj kind'
    refine absurd ?_ superseded
    rw [serving, ← contract, ← scopes, bound]

/-! ### Steps -/

/-- Receipts of rotations stay, or are deleted when they have been expired for more than sixty
seconds. -/
theorem keep (h : RotationFenced cluster db rotations scopes)
    (deployment : db'.deployment = db.deployment) (later : db.observed ≤ db'.observed)
    (receipts : ∀ nonce, cluster.RotationNonce nonce →
      db'.receipts.find? nonce = db.receipts.find? nonce ∨
        ∃ row, db.receipts.find? nonce = some row ∧ row.expires + 60 < db'.observed
          ∧ db'.receipts.find? nonce = none) :
    RotationFenced cluster db' rotations scopes where
  serving := deployment ▸ h.serving
  known := h.known
  genuine := h.genuine
  fenced := by
    intro rotation member
    rcases h.fenced rotation member with ⟨receipt, found⟩ | expired | superseded
    · rcases receipts rotation.nonce (h.rotationNonce member) with same | ⟨row, stored, gone, _⟩
      · exact Or.inl ⟨receipt, same.trans found⟩
      · have wrote := h.receipt_of_rotation member stored
        have expiry := wrote.expires
        exact Or.inr (Or.inl (by omega))
    · exact Or.inr (Or.inl (by omega))
    · exact Or.inr (Or.inr (by rw [deployment]; exact superseded))
  owned := by
    intro nonce receipt found genuine
    rcases receipts nonce genuine with same | ⟨_, _, _, gone⟩
    · exact h.owned nonce receipt (same ▸ found) genuine
    · rw [gone] at found
      cases found
  once := h.once

/-- A fresh deployment supersedes every rotation, so the clock may restart. -/
theorem redeploy (h : RotationFenced cluster db rotations scopes) (receipts : db'.receipts = db.receipts)
    (fresh : db'.deployment.scope ∉ scopes) :
    RotationFenced cluster db' rotations (db'.deployment.scope :: scopes) where
  serving := List.mem_cons_self
  known := fun rotation member => List.mem_cons_of_mem _ (h.known rotation member)
  genuine := h.genuine
  fenced := by
    intro rotation member
    refine Or.inr (Or.inr fun same => fresh ?_)
    rw [← same]
    exact h.known rotation member
  owned := receipts ▸ h.owned
  once := h.once

/-- A rotation that takes effect consumes a token that none consumed before. -/
theorem rotate (h : RotationFenced cluster db rotations scopes) {shared : RotationHost} {host : Host}
    {keys : EditKeys} {claim : RotationClaim} {form : RotationForm} {token : Token} {now : Int}
    {observed tx : Database AuthorityTables} {rotation : Rotation} {receipt : EditReceipt}
    (time : observed.ObservedAt db (cluster.app host) now)
    (admitted : claim.AdmittedBy shared (cluster.app host) form token now)
    (free : db.receipts.find? claim.nonce = none)
    (advances : rotation.Advances claim receipt shared (cluster.app host) keys
      { observed with receipts := (db.receipts.claim (claim.receipt (cluster.app host))).2 } tx) :
    RotationFenced cluster tx (rotations ++ [rotation]) scopes := by
  have unconsumed : ∀ earlier ∈ rotations, earlier.nonce ≠ claim.nonce := by
    intro earlier member same
    rcases h.accepted_has_receipt member admitted same time.serving
      (le_trans time.keeps time.covers) with ⟨stored, found⟩
    rw [same, free] at found
    cases found
  have claimed : (db.receipts.claim (claim.receipt (cluster.app host))).2.find? claim.nonce
      = some (claim.receipt (cluster.app host)) := (Receipts.claim_free free).2
  have written : tx.receipts.find? claim.nonce = some
      { claim.receipt (cluster.app host) with outcome := shared.receipts.print receipt } := by
    have same : (claim.receipt (cluster.app host)).nonce = claim.nonce := rfl
    rw [advances.receipts, Receipts.setOutcome_find, claimed, Option.map_some, if_pos same]
  have others : ∀ nonce, nonce ≠ claim.nonce → ∀ row, db.receipts.find? nonce = some row →
      tx.receipts.find? nonce = some row := by
    intro nonce apart row found
    have ne : (claim.receipt (cluster.app host)).nonce ≠ nonce := fun same => apart same.symm
    have key : row.nonce ≠ claim.nonce := by
      rw [(Receipts.find?_eq_some.mp found).2]
      exact apart
    rw [advances.receipts, Receipts.setOutcome_find, Receipts.claim_find_ne ne, found, Option.map_some,
      if_neg key]
  have deployment : tx.deployment = db.deployment := advances.deployment.trans time.deployment
  have mark : db.observed ≤ tx.observed := by
    have kept := time.keeps
    rw [advances.observed]
    exact kept
  refine ⟨deployment ▸ h.serving, ?_, ?_, ?_, ?_, ?_⟩
  · intro candidate member
    rcases List.mem_append.mp member with old | new
    · exact h.known candidate old
    · rw [List.mem_singleton.mp new, advances.scope, ← time.serving]
      exact h.serving
  · intro candidate member
    rcases List.mem_append.mp member with old | new
    · exact h.genuine candidate old
    · rcases admitted.scope with ⟨scope, kind, action, contract⟩
      rw [List.mem_singleton.mp new]
      exact ⟨host, form.submission, token, scope, admitted.opened,
        admitted.nonce.symm.trans advances.nonce.symm, admitted.expires.symm.trans advances.expires.symm,
        kind, action, contract.trans advances.scope.symm⟩
  · intro candidate member
    rcases List.mem_append.mp member with old | new
    · rcases h.fenced candidate old with ⟨stored, found⟩ | expired | superseded
      · exact Or.inl ⟨stored, others candidate.nonce (unconsumed candidate old) stored found⟩
      · exact Or.inr (Or.inl (by omega))
      · exact Or.inr (Or.inr (by rw [deployment]; exact superseded))
    · rw [List.mem_singleton.mp new]
      exact Or.inl ⟨_, advances.nonce ▸ written⟩
  · intro nonce stored found genuine
    by_cases same : nonce = claim.nonce
    · rw [same, written] at found
      cases found
      exact ⟨rotation, List.mem_append_right _ List.mem_cons_self, advances.nonce.trans same.symm,
        advances.subject.symm, advances.input.symm, advances.expires.symm⟩
    · have before : db.receipts.find? nonce = some stored := by
        cases earlier : db.receipts.find? nonce with
        | some row =>
            rw [others nonce same row earlier] at found
            exact found
        | none =>
            have ne : (claim.receipt (cluster.app host)).nonce ≠ nonce := fun equal => same equal.symm
            rw [advances.receipts, Receipts.setOutcome_find, Receipts.claim_find_ne ne, earlier] at found
            cases found
      rcases h.owned nonce stored before genuine with ⟨writer, member, rest⟩
      exact ⟨writer, List.mem_append_left _ member, rest⟩
  · rw [List.map_append, List.nodup_append]
    refine ⟨h.once, List.nodup_singleton _, fun nonce old nonce' new same => ?_⟩
    rcases List.mem_map.mp old with ⟨earlier, member, rfl⟩
    rw [List.map_singleton, List.mem_singleton] at new
    exact unconsumed earlier member (same.trans (new.trans advances.nonce))

end RotationFenced

/-! ## Soundness of runs -/

section Runs

variable {shared : RotationHost} {cluster : Cluster Host} {world next : RotationWorld Host}

/-- A prepared rotation that takes effect keeps the invariant. -/
theorem RotationWorld.Sound.commit (sound : world.Sound cluster) {host : Host} {keys : EditKeys}
    {conditions : RotationConditions} {form : RotationForm} {tx : Database AuthorityTables}
    {rotation : Option Rotation} {page : RotationPage} {receiptCommit : Bool}
    (prepared : RotationOutcome shared (cluster.app host) keys conditions world.database form
      (.ready tx rotation page receiptCommit)) : (world.commit tx rotation).Sound cluster := by
  cases prepared with
  | replayed time admitted repeats shown =>
      refine ⟨?_, ?_⟩
      · simp only [RotationWorld.commit, Option.toList_none, List.append_nil]
        exact sound.fenced.keep time.deployment time.keeps fun nonce _ =>
          Or.inl (by rw [time.receipts])
      · have same : (world.commit tx none).rows = world.rows := congrArg AuthorityTables.records time.records
        simp only [RotationWorld.commit, Option.toList_none, List.append_nil]
        exact same ▸ sound.versioned
  | rotated time admitted free advances shown =>
      refine ⟨sound.fenced.rotate time admitted free advances, ?_⟩
      rcases advances.row with ⟨row, version, key, current, moved, _, _, replaced⟩
      have before : world.rows = _ := congrArg AuthorityTables.records time.records.symm
      refine Versioned.advance sound.versioned key current moved ?_
      rw [before]
      exact replaced

variable [DecidableEq Host]

/-- A round keeps the invariant: the answer of the loop changes nothing that it speaks of. -/
theorem RotationWorld.Sound.of_round (sound : world.Sound cluster)
    (rest : List (RotationRequest Host)) (request : RotationRequest Host)
    (conditions : RotationConditions) (cut : Option Bool) (inTime : Bool) (outcome : CommitOutcome) :
    (world.round shared cluster rest request conditions cut inTime outcome).Sound cluster := by
  have attempted := prepareRotation_cases shared (cluster.app request.host) (world.keys request.host)
    conditions request.form (world.memory request.host) world.database
  unfold RotationWorld.round
  generalize prepareRotation shared (cluster.app request.host) (world.keys request.host) conditions
    request.form (world.memory request.host) world.database = result at attempted ⊢
  rcases result with ⟨memory, prepared⟩
  rcases world.store_cases request conditions cut outcome prepared with
    ⟨_, used, scopes, ⟨database, rotations⟩ | ⟨tx, rotation, page, receiptCommit, rfl, _, _, database, rotations⟩⟩
  · refine ⟨?_, ?_⟩
    · simp only [RotationWorld.remember, RotationWorld.proceed_database, RotationWorld.proceed_rotations,
        RotationWorld.proceed_scopes, database, rotations, scopes]
      exact sound.fenced
    · simp only [RotationWorld.remember, RotationWorld.rows, RotationWorld.proceed_database,
        RotationWorld.proceed_rotations, RotationWorld.proceed_used, database, rotations, used]
      exact sound.versioned
  · have committed := sound.commit attempted
    refine ⟨?_, ?_⟩
    · simp only [RotationWorld.remember, RotationWorld.proceed_database, RotationWorld.proceed_rotations,
        RotationWorld.proceed_scopes, database, rotations, scopes]
      exact committed.fenced
    · simp only [RotationWorld.remember, RotationWorld.rows, RotationWorld.proceed_database,
        RotationWorld.proceed_rotations, RotationWorld.proceed_used, database, rotations, used]
      exact committed.versioned

theorem RotationWorld.Sound.step (sound : world.Sound cluster)
    (step : RotationStep shared cluster world next) : next.Sound cluster := by
  cases step with
  | submit host form => exact ⟨sound.fenced, sound.versioned⟩
  | round before after request conditions cut inTime outcome live =>
      exact sound.of_round (before ++ after) request conditions cut inTime outcome
  | land before after flight sent =>
      have attempted := prepareRotation_cases shared (cluster.app flight.host) flight.keys
        flight.conditions flight.form flight.memory world.database
      unfold RotationWorld.land
      split
      · rename_i tx rotation page receiptCommit prepared
        rw [prepared] at attempted
        have committed := sound.commit attempted
        exact ⟨committed.fenced, committed.versioned⟩
      · exact ⟨sound.fenced, sound.versioned⟩
  | other statements tables receipt observed edited fresh foreign later =>
      refine ⟨sound.fenced.keep rfl later fun nonce genuine => Or.inl ?_, sound.versioned.edit edited fresh⟩
      cases receipt with
      | none => rfl
      | some row =>
          have apart : row.nonce ≠ nonce := fun same => foreign row rfl (same ▸ genuine)
          exact Receipts.claim_find_ne apart
  | maintain now observed accepted =>
      have advance := observeClock_spec accepted
      refine ⟨sound.fenced.keep rfl advance.1.keeps fun nonce genuine => ?_, ?_⟩
      · rcases world.database.receipts.sweep_find (observed.effective - 60) nonce with
          kept | ⟨row, found, expired, gone⟩
        · exact Or.inl kept
        · have same := advance.2
          refine Or.inr ⟨row, found, ?_, gone⟩
          simp only [RotationWorld.other]
          omega
      · exact Versioned.edit sound.versioned rfl fun key member => by cases member
  | rotateKey host drawn keys rotated => exact ⟨sound.fenced, sound.versioned⟩
  | restart host keys => exact ⟨sound.fenced, sound.versioned⟩
  | activate host generation superseded fresh =>
      exact ⟨sound.fenced.redeploy rfl fresh, sound.versioned⟩
  | recoverClock incarnation generation now changed fresh =>
      exact ⟨sound.fenced.redeploy rfl fresh, sound.versioned⟩

/-- In every reachable world each version is one more than the number of tokens consumed for its
record, and no token was consumed twice. -/
theorem rotationSound_invariant (shared : RotationHost) (cluster : Cluster Host) :
    (rotationRuns shared cluster).Invariant fun world => world.Sound cluster where
  initial world fresh := by
    have none_stored : ∀ nonce receipt, world.database.receipts.find? nonce ≠ some receipt := by
      intro nonce receipt found
      rw [fresh.receipts] at found
      cases found
    refine ⟨⟨?_, ?_, ?_, ?_, fun nonce receipt found => absurd found (none_stored nonce receipt), ?_⟩,
      ⟨?_, ?_, ?_, ?_⟩⟩
    · rw [fresh.scopes]
      exact List.mem_singleton.mpr rfl
    · simp [fresh.rotations]
    · simp [fresh.rotations]
    · simp [fresh.rotations]
    · simp [fresh.rotations]
    · simp [fresh.rows]
    · simp [fresh.rows]
    · simp [fresh.rotations]
    · simp [fresh.rows]
  step _ _ _ sound step := RotationWorld.Sound.step sound step

/-! ## Later worlds -/

/-- What every later world keeps: used keys, consumed tokens, and of a record under a used key
its incarnation and that it has a version. -/
structure RotationWorld.Follows (next world : RotationWorld Host) : Prop where
  used : ∀ key ∈ world.used, key ∈ next.used
  rotations : ∃ more, next.rotations = world.rotations ++ more
  rows : ∀ row ∈ next.rows, row.key ∈ world.used → ∃ old ∈ world.rows, old.key = row.key
    ∧ old.incarnation = row.incarnation ∧ old.capVersion.isSome = row.capVersion.isSome

omit [DecidableEq Host] in
theorem RotationWorld.Follows.of_same {next world : RotationWorld Host} (used : next.used = world.used)
    (rotations : next.rotations = world.rotations) (rows : next.rows = world.rows) : next.Follows world where
  used := by
    rw [used]
    exact fun _ member => member
  rotations := ⟨[], by rw [rotations, List.append_nil]⟩
  rows := by
    rw [rows]
    exact fun row member _ => ⟨row, member, rfl, rfl, rfl⟩

omit [DecidableEq Host] in
theorem RotationWorld.Follows.trans {last : RotationWorld Host} (later : last.Follows next)
    (h : next.Follows world) : last.Follows world where
  used := fun key member => later.used key (h.used key member)
  rotations := by
    rcases h.rotations with ⟨more, grown⟩
    rcases later.rotations with ⟨more', grown'⟩
    exact ⟨more ++ more', by rw [grown', grown, List.append_assoc]⟩
  rows := by
    intro row member used
    rcases later.rows row member (h.used row.key used) with ⟨middle, inside, key, incarnation, version⟩
    rcases h.rows middle inside (key ▸ used) with ⟨old, before, key', incarnation', version'⟩
    exact ⟨old, before, key'.trans key, incarnation'.trans incarnation, version'.trans version⟩

omit [DecidableEq Host] in
/-- A commit only moves versions on. -/
theorem RotationWorld.commit_follows {host : Host} {keys : EditKeys} {conditions : RotationConditions}
    {form : RotationForm} {tx : Database AuthorityTables} {rotation : Option Rotation}
    {page : RotationPage} {receiptCommit : Bool}
    (prepared : RotationOutcome shared (cluster.app host) keys conditions world.database form
      (.ready tx rotation page receiptCommit)) : (world.commit tx rotation).Follows world where
  used := fun _ member => member
  rotations := ⟨rotation.toList, rfl⟩
  rows := by
    intro row member _
    cases prepared with
    | replayed time admitted repeats shown =>
        have same : (world.commit tx none).rows = world.rows := congrArg AuthorityTables.records time.records
        exact ⟨row, same ▸ member, rfl, rfl, rfl⟩
    | rotated time admitted free advances shown =>
        rcases advances.row with ⟨old, version, _, current, _, _, _, replaced⟩
        have before : world.rows = _ := congrArg AuthorityTables.records time.records.symm
        rw [before]
        rcases replaced.mem member with rfl | kept
        · exact ⟨old, replaced.mem_before, rfl, rfl, by rw [current]; rfl⟩
        · exact ⟨row, kept, rfl, rfl, rfl⟩

/-- What a round leaves is the old world or a commit of it, up to what is being served. -/
theorem RotationWorld.round_cases (world : RotationWorld Host) (shared : RotationHost)
    (cluster : Cluster Host) (rest : List (RotationRequest Host)) (request : RotationRequest Host)
    (conditions : RotationConditions) (cut : Option Bool) (inTime : Bool) (outcome : CommitOutcome) :
    let prepared := (prepareRotation shared (cluster.app request.host) (world.keys request.host)
      conditions request.form (world.memory request.host) world.database).2
    let next := world.round shared cluster rest request conditions cut inTime outcome
    next.used = world.used
    ∧ (∀ answer ∈ next.answers, answer ∈ world.answers ∨
      (answer.host = request.host ∧ answer.form = request.form ∧
        (rotationRound cut inTime outcome prepared = .answer answer.result
          ∨ answer.result = .error .busy)))
    ∧ ((next.database = world.database ∧ next.rotations = world.rotations
        ∧ (cut = none → outcome.isAcknowledged = true → ∀ tx rotation page receiptCommit,
          prepared ≠ .ready tx rotation page receiptCommit))
      ∨ ∃ tx rotation page receiptCommit, prepared = .ready tx rotation page receiptCommit
        ∧ next.database = tx ∧ next.rotations = world.rotations ++ rotation.toList) := by
  intro prepared next
  have stored := world.store_cases request conditions cut outcome prepared
  have shape : next = ((world.store request conditions cut outcome prepared).proceed rest request
      (rotationRound cut inTime outcome prepared)).remember request.host
        (prepareRotation shared (cluster.app request.host) (world.keys request.host) conditions
          request.form (world.memory request.host) world.database).1 := rfl
  rw [shape]
  simp only [RotationWorld.remember, RotationWorld.proceed_used, RotationWorld.proceed_database,
    RotationWorld.proceed_rotations]
  refine ⟨stored.2.1, fun answer member => ?_, ?_⟩
  · rcases RotationWorld.proceed_answers _ _ _ _ member with old | new
    · rw [stored.1] at old
      exact Or.inl old
    · exact Or.inr new
  · rcases stored.2.2.2 with ⟨database, rotations⟩ | ⟨tx, rotation, page, receiptCommit, ready, _, _, database,
      rotations⟩
    · by_cases silent : cut = none → outcome.isAcknowledged = true → ∀ tx rotation page receiptCommit,
          prepared ≠ .ready tx rotation page receiptCommit
      · exact Or.inl ⟨database, rotations, silent⟩
      · push Not at silent
        rcases silent with ⟨uncut, acknowledged, tx, rotation, page, receiptCommit, ready⟩
        refine Or.inr ⟨tx, rotation, page, receiptCommit, ready, ?_⟩
        have committed : world.store request conditions cut outcome prepared = world.commit tx rotation := by
          rw [uncut, ready]
          simp only [RotationWorld.store, acknowledged, if_true]
        rw [committed]
        exact ⟨rfl, rfl⟩
    · exact Or.inr ⟨tx, rotation, page, receiptCommit, ready, database, rotations⟩

theorem RotationWorld.follows_of_step (step : RotationStep shared cluster world next) :
    next.Follows world := by
  cases step with
  | submit host form => exact .of_same rfl rfl rfl
  | round before after request conditions cut inTime outcome live =>
      have attempted := prepareRotation_cases shared (cluster.app request.host) (world.keys request.host)
        conditions request.form (world.memory request.host) world.database
      rcases world.round_cases shared cluster (before ++ after) request conditions cut inTime outcome with
        ⟨used, _, ⟨database, rotations, _⟩ | ⟨tx, rotation, page, receiptCommit, ready, database, rotations⟩⟩
      · exact .of_same used rotations (congrArg (fun db => db.records.records) database)
      · rw [ready] at attempted
        have committed := RotationWorld.commit_follows attempted
        refine RotationWorld.Follows.trans (.of_same ?_ ?_ ?_) committed
        · exact used
        · exact rotations
        · exact congrArg (fun db : Database AuthorityTables => db.records.records) database
  | land before after flight sent =>
      have attempted := prepareRotation_cases shared (cluster.app flight.host) flight.keys
        flight.conditions flight.form flight.memory world.database
      unfold RotationWorld.land
      split
      · rename_i tx rotation page receiptCommit prepared
        rw [prepared] at attempted
        have committed := RotationWorld.commit_follows attempted
        exact ⟨committed.used, committed.rotations, committed.rows⟩
      · exact .of_same rfl rfl rfl
  | other statements tables receipt observed edited fresh foreign later =>
      refine ⟨fun key member => List.mem_append_right _ member, ⟨[], (List.append_nil _).symm⟩, ?_⟩
      intro row member used
      rcases edit_origin edited member with ⟨old, inside, continues⟩ | new
      · exact ⟨old, inside, continues.key.symm, continues.incarnation.symm,
          congrArg Option.isSome continues.capVersion.symm⟩
      · exact absurd used (fresh row.key new.key)
  | maintain now observed accepted => exact .of_same rfl rfl rfl
  | rotateKey host drawn keys rotated => exact .of_same rfl rfl rfl
  | restart host keys => exact .of_same rfl rfl rfl
  | activate host generation superseded fresh => exact .of_same rfl rfl rfl
  | recoverClock incarnation generation now changed fresh => exact .of_same rfl rfl rfl

/-- A record keeps its incarnation, a removed one never returns, and no consumed token is
forgotten. -/
theorem RotationWorld.later_of_run (run : (rotationRuns shared cluster).Run world next) :
    next.Follows world := by
  induction run with
  | refl => exact .of_same rfl rfl rfl
  | tail _ step ih => exact (RotationWorld.follows_of_step step).trans ih

/-! ## Answers -/

/-- A page is answered for a prepared transaction that is acknowledged or rests on a verified
receipt, and the plain confirmation for a verified receipt. -/
theorem rotationRound_page {cut : Option Bool} {inTime : Bool} {outcome : CommitOutcome}
    {prepared : PreparedRotation} {page : RotationPage}
    (h : rotationRound cut inTime outcome prepared = .answer (.ok page)) :
    (prepared.receiptCommit = true ∧ (page = .success ∨ ∃ tx rotation, prepared = .ready tx rotation page true))
      ∨ ∃ tx rotation, cut = none ∧ outcome.isAcknowledged = true
          ∧ prepared = .ready tx rotation page false := by
  unfold rotationRound at h
  cases cut with
  | some verified =>
      simp only at h
      split at h
      · rename_i proven
        cases h
        exact Or.inl ⟨proven.2, Or.inl rfl⟩
      · cases h
  | none =>
      cases prepared with
      | failed fault receiptCommit =>
          cases receiptCommit with
          | true =>
              cases h
              exact Or.inl ⟨rfl, Or.inl rfl⟩
          | false =>
              simp only at h
              split at h <;> cases h
      | ready tx rotation shown receiptCommit =>
          cases receiptCommit with
          | true =>
              have same : page = shown := by
                cases outcome <;> (cases h; rfl)
              exact Or.inl ⟨rfl, Or.inr ⟨tx, rotation, by rw [same]⟩⟩
          | false =>
              cases outcome with
              | acknowledged =>
                  cases h
                  exact Or.inr ⟨tx, rotation, rfl, rfl, rfl⟩
              | acknowledgedLate =>
                  cases h
                  exact Or.inr ⟨tx, rotation, rfl, rfl, rfl⟩
              | statementLimit rolledBack => cases rolledBack <;> cases h
              | refused rolledBack => cases rolledBack <;> cases h
              | notSent => cases h
              | uncertain => cases h

/-- The token of a form was consumed. -/
def Cluster.Consumed (cluster : Cluster Host) (host : Host) (form : RotationForm)
    (rotations : List Rotation) : Prop :=
  ∃ token, (cluster.app host).keys.openToken form.submission = some token
    ∧ ∃ rotation ∈ rotations, rotation.nonce = token.nonce

omit [DecidableEq Host] in
/-- The receipt that a replay repeats is one of a consumed token. -/
theorem RotationFenced.consumed {db : Database AuthorityTables} {rotations : List Rotation}
    {scopes : List String} (h : RotationFenced cluster db rotations scopes) {host : Host}
    {claim : RotationClaim} {form : RotationForm} {token : Token} {now : Int} {row : Receipt}
    (admitted : claim.AdmittedBy shared (cluster.app host) form token now)
    (repeats : claim.Repeats row db.receipts) : cluster.Consumed host form rotations := by
  rcases h.owned claim.nonce row repeats.found (RotationFenced.rotationNonce_of_admitted admitted) with
    ⟨rotation, member, same, _⟩
  exact ⟨token, admitted.opened, rotation, member, same.trans admitted.nonce⟩

/-- What an answered page says: its token was consumed, and a secret on it is the one of the
current version of the record. -/
structure RotationAnswer.Truthful (answer : RotationAnswer Host) (shared : RotationHost)
    (cluster : Cluster Host) (keys : EditKeys) (next : RotationWorld Host) : Prop where
  consumed : ∀ page, answer.result = .ok page → cluster.Consumed answer.host answer.form next.rotations
  current : ∀ secret link, answer.result = .ok (.handover (some secret) link) →
    ∃ receipt storage, EditReceipt.CurrentIn receipt (cluster.app answer.host) next.database.records storage
      ∧ editSecret shared.secrets keys receipt.keyId storage receipt.id receipt.capVersion = .ok secret

/-- Every answer of a round is truthful. -/
theorem RotationWorld.Sound.round_truthful (sound : world.Sound cluster)
    (rest : List (RotationRequest Host)) (request : RotationRequest Host)
    (conditions : RotationConditions) (cut : Option Bool) (inTime : Bool) (outcome : CommitOutcome) :
    let next := world.round shared cluster rest request conditions cut inTime outcome
    ∀ answer ∈ next.answers, answer ∈ world.answers
      ∨ answer.Truthful shared cluster (world.keys request.host) next := by
  intro next answer member
  have attempted := prepareRotation_cases shared (cluster.app request.host) (world.keys request.host)
    conditions request.form (world.memory request.host) world.database
  rcases world.round_cases shared cluster rest request conditions cut inTime outcome with ⟨_, answers, stored⟩
  rcases answers answer member with old | ⟨host, form, replied⟩
  · exact Or.inl old
  · generalize (prepareRotation shared (cluster.app request.host) (world.keys request.host) conditions
      request.form (world.memory request.host) world.database).2 = prepared at attempted stored replied
    have grown : ∀ rotation ∈ world.rotations, rotation ∈ next.rotations := by
      intro rotation inside
      rcases stored with ⟨_, rotations, _⟩ | ⟨_, _, _, _, _, _, rotations⟩
      · exact rotations ▸ inside
      · exact rotations ▸ List.mem_append_left _ inside
    have later : cluster.Consumed request.host request.form world.rotations →
        cluster.Consumed answer.host answer.form next.rotations := by
      rintro ⟨token, opened, rotation, inside, same⟩
      rw [host, form]
      exact ⟨token, opened, rotation, grown rotation inside, same⟩
    have committed : ∀ tx rotation page receiptCommit, prepared = .ready tx rotation page receiptCommit →
        (cut = none ∧ outcome.isAcknowledged = true) ∨ tx.records = world.database.records →
        next.database.records = tx.records := by
      intro tx rotation page receiptCommit ready reason
      rcases stored with ⟨database, _, silent⟩ | ⟨tx', _, _, _, ready', database, _⟩
      · rcases reason with ⟨uncut, acknowledged⟩ | same
        · exact absurd ready (silent uncut acknowledged tx rotation page receiptCommit)
        · exact (congrArg Database.records database).trans same.symm
      · rw [ready] at ready'
        cases ready'
        exact congrArg Database.records database
    refine Or.inr ⟨fun page result => ?_, fun secret link result => ?_⟩
    · rcases replied with replied | busy
      · rw [result] at replied
        rcases rotationRound_page replied with ⟨proven, _⟩ | ⟨tx, rotation, uncut, acknowledged, ready⟩
        · cases attempted with
          | failed fault => cases proven
          | proven time admitted repeats fault => exact later (sound.fenced.consumed admitted repeats)
          | replayed time admitted repeats shown => exact later (sound.fenced.consumed admitted repeats)
          | rotated time admitted free advances shown => cases proven
        · cases attempted with
          | failed fault => cases ready
          | proven time admitted repeats fault => cases ready
          | replayed time admitted repeats shown => cases ready
          | @rotated claim token now observed tx' rotation' _ _ _ time admitted free advances shown =>
              cases ready
              have appended : rotation' ∈ next.rotations := by
                rcases stored with ⟨_, _, silent⟩ | ⟨_, _, _, _, same, _, rotations⟩
                · exact absurd rfl (silent uncut acknowledged tx (some rotation') page false)
                · cases same
                  rw [rotations]
                  exact List.mem_append_right _ List.mem_cons_self
              rw [host, form]
              exact ⟨token, admitted.opened, rotation', appended, advances.nonce.trans admitted.nonce⟩
      · rw [result] at busy
        cases busy
    · rcases replied with replied | busy
      · rw [result] at replied
        rcases rotationRound_page replied with ⟨proven, success | ⟨tx, rotation, ready⟩⟩ |
          ⟨tx, rotation, uncut, acknowledged, ready⟩
        · cases success
        · cases attempted with
          | failed fault => cases proven
          | proven time admitted repeats fault => cases ready
          | rotated time admitted free advances shown => cases proven
          | @replayed claim token now tx' row receipt route page' time admitted repeats shown =>
              cases ready
              rcases editHandover_shows shown with ⟨storage, current, secret_⟩
              rw [host, committed tx none _ true rfl (Or.inr time.records)]
              exact ⟨receipt, storage, current, secret_⟩
        · cases attempted with
          | failed fault => cases ready
          | proven time admitted repeats fault => cases ready
          | replayed time admitted repeats shown => cases ready
          | @rotated claim token now observed tx' rotation' receipt route page' time admitted free advances
              shown =>
              cases ready
              rcases editHandover_shows shown with ⟨storage, current, secret_⟩
              rw [host, committed tx (some rotation') _ false rfl (Or.inl ⟨uncut, acknowledged⟩)]
              exact ⟨receipt, storage, current, secret_⟩
      · rw [result] at busy
        cases busy

/-! ## Refusals -/

/-- Nothing is written but the clock mark. -/
structure RotationWorld.Unmoved (next world : RotationWorld Host) : Prop where
  records : next.database.records = world.database.records
  receipts : next.database.receipts = world.database.receipts
  deployment : next.database.deployment = world.database.deployment
  rotations : next.rotations = world.rotations

/-- Neither a round of this form, under the keys of its process, nor a late commit of it under
these keys changes anything. -/
structure RotationWorld.Inert (world : RotationWorld Host) (shared : RotationHost)
    (cluster : Cluster Host) (keys : EditKeys) (host : Host) (form : RotationForm) : Prop where
  round : world.keys host = keys → ∀ rest left conditions cut inTime outcome,
    (world.round shared cluster rest ⟨host, form, left⟩ conditions cut inTime outcome).Unmoved world
  land : ∀ conditions memory,
    (world.land shared cluster ⟨host, form, conditions, keys, memory⟩).Unmoved world

/-- A form whose attempts prepare no rotation changes nothing. -/
theorem RotationWorld.inert_of {keys : EditKeys} {host : Host} {form : RotationForm}
    (none_rotated : ∀ conditions memory tx rotation page receiptCommit,
      (prepareRotation shared (cluster.app host) keys conditions form memory world.database).2
        = .ready tx rotation page receiptCommit → rotation = none) :
    world.Inert shared cluster keys host form := by
  have kept : ∀ conditions memory tx rotation page receiptCommit,
      (prepareRotation shared (cluster.app host) keys conditions form memory world.database).2
        = .ready tx rotation page receiptCommit → tx.records = world.database.records
        ∧ tx.receipts = world.database.receipts ∧ tx.deployment = world.database.deployment := by
    intro conditions memory tx rotation page receiptCommit ready
    have absent := none_rotated conditions memory tx rotation page receiptCommit ready
    have attempted := prepareRotation_cases shared (cluster.app host) keys conditions form memory
      world.database
    rw [ready, absent] at attempted
    cases attempted with
    | replayed time admitted repeats shown => exact ⟨time.records, time.receipts, time.deployment⟩
  refine ⟨fun same rest left conditions cut inTime outcome => ?_, fun conditions memory => ?_⟩
  · rcases world.round_cases shared cluster rest ⟨host, form, left⟩ conditions cut inTime outcome with
      ⟨_, _, ⟨database, rotations, _⟩ | ⟨tx, rotation, page, receiptCommit, ready, database, rotations⟩⟩
    · exact ⟨congrArg Database.records database, congrArg Database.receipts database,
        congrArg Database.deployment database, rotations⟩
    · subst same
      have absent := none_rotated conditions _ tx rotation page receiptCommit ready
      have unchanged := kept conditions _ tx rotation page receiptCommit ready
      rw [absent, Option.toList_none, List.append_nil] at rotations
      exact ⟨(congrArg Database.records database).trans unchanged.1,
        (congrArg Database.receipts database).trans unchanged.2.1,
        (congrArg Database.deployment database).trans unchanged.2.2, rotations⟩
  · unfold RotationWorld.land
    split
    · rename_i tx rotation page receiptCommit ready
      have absent := none_rotated conditions memory tx rotation page receiptCommit ready
      have unchanged := kept conditions memory tx rotation page receiptCommit ready
      refine ⟨unchanged.1, unchanged.2.1, unchanged.2.2, ?_⟩
      rw [absent]
      exact List.append_nil _
    · exact ⟨rfl, rfl, rfl, rfl⟩

/-- The secret of a form verifies for the record it names. -/
def RotationForm.Current (form : RotationForm) (shared : RotationHost) (app : Application)
    (keys : EditKeys) (tables : AuthorityTables) : Prop :=
  ∃ row ∈ tables.records, storageResource tables app.manifest form.resource = .ok row.resource
    ∧ row.id = form.id ∧ ∃ version, row.capVersion = some version
    ∧ verifyEdit shared.secrets keys form.secret row.resource row.id (version : Int) = .ok ()

/-- A rotation whose secret is not the current one changes nothing. -/
theorem RotationWorld.inert_of_stale {keys : EditKeys} {host : Host} {form : RotationForm}
    (stale : ¬ form.Current shared (cluster.app host) keys world.database.records) :
    world.Inert shared cluster keys host form := by
  refine RotationWorld.inert_of fun conditions memory tx rotation page receiptCommit ready => ?_
  have attempted := prepareRotation_cases shared (cluster.app host) keys conditions form memory
    world.database
  rw [ready] at attempted
  cases attempted with
  | replayed time admitted repeats shown => rfl
  | rotated time admitted free advances shown =>
      rcases advances.row with ⟨row, version, key, current, _, bound, proven, replaced⟩
      have id : row.id = form.id :=
        (congrArg Prod.snd key).trans (advances.id.trans admitted.id)
      rw [admitted.resource] at bound
      rw [admitted.secret] at proven
      have member := replaced.mem_before
      simp only [time.records] at bound member
      exact absurd ⟨row, member, bound, id, version, current, proven⟩ stale

/-- A rotation whose token was consumed changes nothing. -/
theorem RotationWorld.Sound.inert_of_consumed (sound : world.Sound cluster) {host : Host}
    {form : RotationForm} (consumed : cluster.Consumed host form world.rotations) (keys : EditKeys) :
    world.Inert shared cluster keys host form := by
  refine RotationWorld.inert_of fun conditions memory tx rotation page receiptCommit ready => ?_
  have attempted := prepareRotation_cases shared (cluster.app host) keys conditions form memory
    world.database
  rw [ready] at attempted
  cases attempted with
  | replayed time admitted repeats shown => rfl
  | rotated time admitted free advances shown =>
      rcases consumed with ⟨token, opened, earlier, member, same⟩
      have equal := Option.some.inj (opened.symm.trans admitted.opened)
      have nonce : earlier.nonce = _ := same.trans ((congrArg Token.nonce equal).trans admitted.nonce.symm)
      rcases sound.fenced.accepted_has_receipt member admitted nonce time.serving
        (le_trans time.keeps time.covers) with ⟨stored, found⟩
      rw [nonce, free] at found
      cases found

/-- A different request under a consumed token is not answered with a page. -/
theorem RotationWorld.Sound.refuses_different (sound : world.Sound cluster) {host : Host}
    {form : RotationForm} {token : Token} {rotation : Rotation}
    (opened : (cluster.app host).keys.openToken form.submission = some token)
    (member : rotation ∈ world.rotations) (same : rotation.nonce = token.nonce)
    (differs : rotation.input ≠ shared.receipts.digest protocolVersion form.resource form.id form.secret)
    (rest : List (RotationRequest Host)) (left : Nat) (conditions : RotationConditions)
    (cut : Option Bool) (inTime : Bool) (outcome : CommitOutcome) :
    let next := world.round shared cluster rest ⟨host, form, left⟩ conditions cut inTime outcome
    ∀ answer ∈ next.answers, answer ∈ world.answers ∨ ∃ error, answer.result = .error error := by
  intro next answer answered
  have attempted := prepareRotation_cases shared (cluster.app host) (world.keys host) conditions form
    (world.memory host) world.database
  have other : ∀ {claim : RotationClaim} {token' : Token} {now : Int} {row : Receipt},
      claim.AdmittedBy shared (cluster.app host) form token' now →
      ¬ claim.Repeats row world.database.receipts := by
    intro claim token' now row admitted repeats
    have equal := Option.some.inj (opened.symm.trans admitted.opened)
    have nonce : rotation.nonce = claim.nonce :=
      same.trans ((congrArg Token.nonce equal).trans admitted.nonce.symm)
    have wrote := sound.fenced.receipt_of_rotation member (nonce ▸ repeats.found)
    exact differs (wrote.input.symm.trans (repeats.input.trans admitted.input))
  have inert : world.Inert shared cluster (world.keys host) host form :=
    sound.inert_of_consumed ⟨token, opened, rotation, member, same⟩ (world.keys host)
  rcases world.round_cases shared cluster rest ⟨host, form, left⟩ conditions cut inTime outcome with
    ⟨_, answers, _⟩
  rcases answers answer answered with old | ⟨_, _, replied | busy⟩
  · exact Or.inl old
  · generalize ready : (prepareRotation shared (cluster.app host) (world.keys host) conditions form
      (world.memory host) world.database).2 = prepared at attempted
    have replied' : rotationRound cut inTime outcome prepared = .answer answer.result := ready ▸ replied
    cases result : answer.result with
    | error error => exact Or.inr ⟨error, rfl⟩
    | ok page =>
        rw [result] at replied'
        exfalso
        cases attempted with
        | failed fault =>
            rcases rotationRound_page replied' with ⟨proven, _⟩ | ⟨_, _, _, _, shape⟩
            · cases proven
            · cases shape
        | proven time admitted repeats fault => exact other admitted repeats
        | replayed time admitted repeats shown => exact other admitted repeats
        | rotated time admitted free advances shown =>
            have equal := Option.some.inj (opened.symm.trans admitted.opened)
            have nonce : rotation.nonce = _ :=
              same.trans ((congrArg Token.nonce equal).trans admitted.nonce.symm)
            rcases sound.fenced.accepted_has_receipt member admitted nonce time.serving
              (le_trans time.keeps time.covers) with ⟨stored, found⟩
            rw [nonce, free] at found
            cases found
  · exact Or.inr ⟨_, busy⟩

/-! ## The guarantee -/

omit [DecidableEq Host] in
/-- A later version of a record is the earlier one and the tokens consumed for it since. -/
theorem RotationWorld.Sound.grown (sound : world.Sound cluster) (sound' : next.Sound cluster)
    (follows : next.Follows world) {row row' : StoredRow} {version : Nat} (member : row ∈ world.rows)
    (current : row.capVersion = some version) (member' : row' ∈ next.rows) (key : row'.key = row.key) :
    row'.incarnation = row.incarnation ∧ ∃ grown, row'.capVersion = some (version + grown)
      ∧ next.rotated row.key = world.rotated row.key + grown := by
  rcases follows.rows row' member' (key ▸ sound.versioned.known row member) with
    ⟨old, inside, same, incarnation, versioned⟩
  have equal : old = row := Table.eq_of_key _ sound.versioned.distinct inside member (same.trans key)
  subst equal
  refine ⟨incarnation.symm, ?_⟩
  rw [current] at versioned
  rcases Option.isSome_iff_exists.mp versioned.symm with ⟨version', current'⟩
  have counted := sound.versioned.counted old member version current
  have counted' := sound'.versioned.counted row' member' version' current'
  rcases follows.rotations with ⟨more, grown⟩
  have more_rotated : next.rotated old.key
      = world.rotated old.key + more.countP fun rotation => rotation.key = old.key := by
    unfold RotationWorld.rotated
    rw [grown, List.countP_append]
  refine ⟨more.countP fun rotation => rotation.key = old.key, ?_, more_rotated⟩
  rw [current', counted, counted', grown, List.countP_append, key, Nat.add_assoc]

end Runs

/-! ### One run -/

namespace RotationSample

def visitor : Token := ⟨.anonymous, "", "visitor", 100, 400, "keys"⟩

def rotationToken : Token :=
  ⟨.anonymousSubmission ⟨"contract:first", 0, 1, [("target", ⟨1, 42, "record", 1, some 5⟩)]⟩, "visitor",
    "nonce", 100, 700, "keys"⟩

/-- Notes without fields, and their page. -/
def notes : Resource where
  search := none
  expiry := none
  unique := []
  gate := none
  id := 1
  name := "notes"
  fields := []

def app : Application where
  manifest := {
    effects := none
    jobs := none
    version := 13
    resources := [notes]
    operations := []
    routes := [⟨[], 5, "/notes/{id}", some 1, [], [], .everyone⟩]
    actions := []
    webBindings := [] }
  contract := "contract"
  generation := "first"
  keys := {
    incarnation := "keys"
    openToken := fun encoded =>
      if encoded = "cookie" then some visitor
      else if encoded = "form" then some rotationToken
      else none
    csrfMatches := fun session csrf => session == "visitor" && csrf == "csrf" }
  digests := ⟨fun _ _ _ => "input", fun _ => "subject", fun _ => "invocation"⟩

theorem opened {encoded : String} {token : Token} (h : app.keys.openToken encoded = some token) :
    token = visitor ∨ token = rotationToken := by
  simp only [app] at h
  split at h
  · exact Or.inl (Option.some.inj h).symm
  · split at h
    · exact Or.inr (Option.some.inj h).symm
    · cases h

def cluster : Cluster Unit where
  app := fun _ => app
  digests := app.digests
  sameDigests := fun _ => rfl
  nonceUnique := by
    intro _ _ _ _ token token' h h' same
    rcases opened h with rfl | rfl <;> rcases opened h' with rfl | rfl
    · rfl
    · simp [visitor, rotationToken] at same
    · simp [visitor, rotationToken] at same
    · rfl

/-- A number in unary, and the rest of the text. -/
def printNumber (n : Nat) (rest : List Char) : List Char := List.replicate n 'i' ++ '.' :: rest

def parseNumber (text : List Char) : Nat × List Char :=
  ((text.takeWhile fun c => c == 'i').length, (text.dropWhile fun c => c == 'i').tail)

theorem parseNumber_print (n : Nat) (rest : List Char) : parseNumber (printNumber n rest) = (n, rest) := by
  induction n with
  | zero => rfl
  | succ n ih =>
      have step : printNumber (n + 1) rest = 'i' :: printNumber n rest := by
        simp only [printNumber, List.replicate_succ, List.cons_append]
      rw [step]
      simp only [parseNumber, Prod.mk.injEq] at ih ⊢
      rw [List.takeWhile_cons_of_pos rfl, List.dropWhile_cons_of_pos rfl, List.length_cons, ih.1, ih.2]
      exact ⟨rfl, rfl⟩

def shared : RotationHost where
  url := FormUrlencoded.standard
  secrets := {
    mac := fun key _ _ _ => key
    encode := fun _ => "mac"
    decode := fun text => if text = "mac" then some [7] else none }
  receipts := {
    print := fun receipt => String.ofList (printNumber receipt.resource (printNumber receipt.id
      (printNumber receipt.capVersion (printNumber receipt.keyId receipt.incarnation.toList))))
    parse := fun text =>
      let (resource, text) := parseNumber text.toList
      let (id, text) := parseNumber text
      let (capVersion, text) := parseNumber text
      let (keyId, text) := parseNumber text
      some ⟨resource, id, String.ofList text, capVersion, keyId⟩
    parse_print := by
      intro receipt
      simp only [String.toList_ofList, parseNumber_print, String.ofList_toList]
    fieldsBytes := fun _ => 2
    digest := fun _ _ _ secret => secret }

def conditions : RotationConditions where
  now := 200
  schemaMatches := fun _ => true
  sessions := fun _ _ _ => .error (.request .authentication)
  run := fun _ => .settled .rejected
  resolves := fun _ => .ok none
  validates := fun _ _ => true
  responds := fun _ _ => true
  renders := true
  beforeDeadline := true
  time := fun _ => .ok none

def form : RotationForm := ⟨1, 42, "cookie", "csrf", "form", "nxc1.3.1.mac"⟩

def start : RotationWorld Unit where
  database := ⟨⟨[], [], none, [("notes", 9)]⟩, Receipts.empty, 150, ⟨"contract", "keys", "first"⟩⟩
  memory := fun _ => 0
  keys := fun _ => [⟨3, [7], true⟩]
  live := []
  inFlight := []
  rotations := []
  answers := []
  used := []
  scopes := ["contract:first"]

/-- A visitor adds a note and posts its rotation form. -/
def noteTables : AuthorityTables :=
  ⟨[⟨9, 42, none, "", ∅, "record", 1, some 1, 1⟩], [], none, [("notes", 9)]⟩

def noted : RotationWorld Unit :=
  start.other [.insertUnowned 9 42 ∅ "record" 1] noteTables Receipts.empty 160

def posted : RotationWorld Unit := { noted with live := [⟨(), form, 2⟩] }

/-- The first round commits and is acknowledged. -/
def rotated : RotationWorld Unit :=
  posted.round shared cluster [] ⟨(), form, 2⟩ conditions none true .acknowledged

theorem posted_reachable : (rotationRuns shared cluster).Reachable posted := by
  have initial : (rotationRuns shared cluster).Reachable start :=
    System.Reachable.start ⟨rfl, rfl, rfl, rfl, rfl, rfl, rfl⟩
  have noted_reachable : (rotationRuns shared cluster).Reachable noted :=
    initial.next (RotationStep.other start [.insertUnowned 9 42 ∅ "record" 1] noteTables none 160 rfl
      (fun _ _ => List.not_mem_nil) (fun _ absent => by cases absent) (by decide))
  exact noted_reachable.next (RotationStep.submit noted () form)

theorem rotated_run : (rotationRuns shared cluster).Run posted rotated :=
  (System.Run.refl posted).tail
    (RotationStep.round posted [] [] ⟨(), form, 2⟩ conditions none true .acknowledged rfl)

end RotationSample

end Noxide
