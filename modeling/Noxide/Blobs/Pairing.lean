import Noxide.Blobs.Quota

/-!
# Store pairing

At a start the store row is read back and its counters are validated before the pair of
database and directory is decided.  The writers bound the counters one by one; only the
charge of an unknown object is bounded by the integer range alone.

Main results:

- Theorem {lit}`Within.step`: every transaction but an oversized quarantine keeps the
  counters within the validator's bounds.
- Theorem {lit}`pairing_accepts_written`: in every run whose quarantines fit, the next
  start accepts the counters; and a next step keeps that exactly when it fits too.
-/

namespace Noxide
namespace Blobs

open Checked

/-! ## Deciding -/

/-- The identity of a pair. -/
structure PairId where
  key : ObjectKey
  deriving DecidableEq

inductive PairPhase where
  | pending
  | paired
  deriving DecidableEq, Repr

structure PairRecord where
  store : ObjectKey
  pair : PairId
  phase : PairPhase
  emptyMetadata : Bool
  deriving DecidableEq

/-- What the directory shows: its identity, the marker, a partial marker, emptiness. -/
structure PairObservation where
  store : ObjectKey
  marker : Option PairId
  pending : Option (List UInt8)
  empty : Bool
  deriving DecidableEq

inductive PairStep where
  | createPending
  | installMarker (pair : PairId)
  | acknowledge (pair : PairId)
  | ready (pair : PairId)
  deriving DecidableEq

/-- A paired record needs its durable marker. -/
def decidePaired (observation : PairObservation) (record : PairRecord) : Result PairStep := do
  check "paired database lacks matching durable marker"
    (observation.pending = none ∧ observation.marker = some record.pair)
  return .ready record.pair

/-- A pending record adopts only an empty store, with its own marker or a part of it. -/
def decidePending (observation : PairObservation) (record : PairRecord) : Result PairStep := do
  check "pending database cannot adopt populated store or metadata"
    (record.emptyMetadata = true ∧ observation.empty = true)
  match observation.marker with
  | some marker => do
      check "pending pair marker mismatch" (marker = record.pair ∧ observation.pending = none)
      return .acknowledge record.pair
  | none => do
      check "partial pairing marker disagrees with pending database"
        (∀ bytes ∈ observation.pending, bytes <+: record.pair.key.value.toUTF8.toList)
      return .installMarker record.pair

def PairObservation.decide (observation : PairObservation) : Option PairRecord → Result PairStep
  | none => do
      check "unpaired database cannot adopt an existing store"
        (observation.marker = none ∧ observation.pending = none ∧ observation.empty = true)
      return .createPending
  | some record => do
      check "pair store identity mismatch" (record.store = observation.store)
      match record.phase with
      | .paired => decidePaired observation record
      | .pending => decidePending observation record

/-! ## Reading the store row -/

/-- The selected texts of the store row; the last tells whether the other tables are empty. -/
structure StoreTexts where
  identity : String
  pairId : String
  pairState : String
  serial : String
  reservedBytes : String
  usedBytes : String
  objects : String
  anonymousReservedBytes : String
  anonymousUsedBytes : String
  empty : String
  deriving DecidableEq

def StoreTexts.Bounded (texts : StoreTexts) : Prop :=
  texts.identity.utf8ByteSize ≤ 64 ∧ texts.pairId.utf8ByteSize ≤ 64
    ∧ texts.pairState.utf8ByteSize ≤ 7
    ∧ ∀ number ∈ [texts.serial, texts.reservedBytes, texts.usedBytes, texts.objects,
      texts.anonymousReservedBytes, texts.anonymousUsedBytes], number.utf8ByteSize ≤ 20

instance (texts : StoreTexts) : Decidable texts.Bounded :=
  inferInstanceAs (Decidable (_ ∧ _))

def StoreRow.texts (row : StoreRow) (empty : Bool) : StoreTexts where
  identity := row.identity
  pairId := row.pairId
  pairState := row.pairState
  serial := toString row.serial
  reservedBytes := toString row.reservedBytes
  usedBytes := toString row.usedBytes
  objects := toString row.objects
  anonymousReservedBytes := toString row.anonymousReservedBytes
  anonymousUsedBytes := toString row.anonymousUsedBytes
  empty := if empty then "1" else "0"

def StoreRow.select (row : StoreRow) (empty : Bool) : Result StoreTexts := do
  check "unexpected null" (row.texts empty).Bounded
  return row.texts empty

structure Counters where
  reserved : Nat
  used : Nat
  objects : Nat
  anonymousReserved : Nat
  anonymousUsed : Nat
  deriving DecidableEq

/-- The bounds of the counters; every number is below {lit}`2^63`, so no sum overflows. -/
def Counters.Valid (c : Counters) : Prop :=
  c.reserved + c.used ≤ maxAppBlobBytes ∧ c.objects ≤ maxAppBlobObjects
    ∧ c.anonymousReserved ≤ c.reserved ∧ c.anonymousUsed ≤ c.used
    ∧ c.anonymousReserved + c.anonymousUsed ≤ maxAnonymousBytes
    ∧ (0 < c.objects ∨ c.reserved = 0 ∧ c.used = 0)

instance (c : Counters) : Decidable c.Valid :=
  inferInstanceAs (Decidable (_ ∧ _))

def StoreTexts.counters (texts : StoreTexts) : Result Counters := do
  let reserved ← unsigned texts.reservedBytes
  let used ← unsigned texts.usedBytes
  let objects ← unsigned texts.objects
  let anonymousReserved ← unsigned texts.anonymousReservedBytes
  let anonymousUsed ← unsigned texts.anonymousUsedBytes
  return ⟨reserved, used, objects, anonymousReserved, anonymousUsed⟩

def PairPhase.parse (text : String) : Result PairPhase :=
  match text with
  | "pending" => .ok .pending
  | "paired" => .ok .paired
  | _ => .error (.message "invalid store pairing phase")

def PairId.parse (text : String) : Result PairId := do
  let key ← ObjectKey.parse text
  return ⟨key⟩

/-- Decode the phase and the identities of a row with valid counters. -/
def StoreTexts.record (texts : StoreTexts) (c : Counters) : Result PairRecord := do
  let phase ← PairPhase.parse texts.pairState
  let empty := decide (texts.empty = "1" ∧ c.objects = 0 ∧ c.reserved = 0 ∧ c.used = 0)
  check "pending pairing contains metadata or charges" (phase = .pending → empty = true)
  let store ← ObjectKey.parse texts.identity
  let pair ← PairId.parse texts.pairId
  return ⟨store, pair, phase, empty⟩

def StoreTexts.parse (texts : StoreTexts) : Result PairRecord := do
  let serial ← integer texts.serial
  check "invalid blob store serial" (0 < serial.val)
  let c ← texts.counters
  check "invalid blob store counters" c.Valid
  texts.record c

/-- No row of any other table. -/
def BlobTables.isEmpty (t : BlobTables) : Bool :=
  t.blobs = [] ∧ t.subjects = [] ∧ t.orphans = []

def pairRecord (t : BlobTables) : Result (Option PairRecord) :=
  match t.store with
  | none => .ok none
  | some row => do
      let texts ← row.select t.isEmpty
      let record ← texts.parse
      return some record

structure PairPreparation where
  record : PairRecord
  step : PairStep
  pendingInserted : Bool
  deriving DecidableEq

/-- {lit}`INSERT_PENDING_PAIR`. -/
def insertPendingPair (store : ObjectKey) (pair : PairId) (t : BlobTables) : Result BlobTables := do
  check "store pairing raced or metadata exists" (t.isEmpty = true ∧ t.store = none)
  return { t with store := some ⟨store.value, pair.key.value, "pending", 1, 0, 0, 0, 0, 0⟩ }

/-- Startup only; {lit}`pair` is the random identity of a new pair. -/
def preparePair (observation : PairObservation) (pair : PairId) (t : BlobTables) :
    Result (PairPreparation × BlobTables) := do
  match ← pairRecord t with
  | some record => do
      let step ← observation.decide (some record)
      return (⟨record, step, false⟩, t)
  | none => do
      let step ← observation.decide none
      check "unsafe new store pairing" (step = .createPending)
      let t ← insertPendingPair observation.store pair t
      return (⟨⟨observation.store, pair, .pending, true⟩, .installMarker pair, true⟩, t)

/-! ## Accepted counters -/

/-- The counters of the store row, as the validator reads them. -/
structure Reads (s : StoreRow) (c : Counters) : Prop where
  reserved : s.reservedBytes = c.reserved
  used : s.usedBytes = c.used
  objects : s.objects = c.objects
  anonymousReserved : s.anonymousReservedBytes = c.anonymousReserved
  anonymousUsed : s.anonymousUsedBytes = c.anonymousUsed

/-- The validator accepts the counters of the store row. -/
def Accepted (t : BlobTables) : Prop :=
  ∃ s c, t.store = some s ∧ Reads s c ∧ c.Valid

section Accepting

variable {t : BlobTables}

theorem Reads.counters {s : StoreRow} {c : Counters} (h : Reads s c) (valid : c.Valid) (empty : Bool) :
    (s.texts empty).counters = .ok c := by
  rcases valid with ⟨bytes, objects, reserved, used, _, _⟩
  unfold maxAppBlobBytes at bytes
  unfold maxAppBlobObjects at objects
  have read : ∀ n : Nat, n < 2 ^ 63 → unsigned (toString (n : Int)) = .ok n :=
    fun _ range => unsigned_printNat range
  unfold StoreTexts.counters StoreRow.texts
  rw [h.reserved, h.used, h.objects, h.anonymousReserved, h.anonymousUsed]
  rw [read c.reserved (by omega), bind_ok, read c.used (by omega), bind_ok,
    read c.objects (by omega), bind_ok, read c.anonymousReserved (by omega), bind_ok,
    read c.anonymousUsed (by omega), bind_ok]
  rfl

/-- The failure of the counter validation. -/
def invalidCounters : Failure := .message "invalid blob store counters"

theorem integer_says {text : String} {e : Failure} (h : integer text = .error e) :
    e ≠ invalidCounters := by
  unfold integer at h
  split at h
  · cases h
    nofun
  · simp only [check, bind_eq_error, ensure_eq_error] at h
    rcases h with ⟨_, rfl⟩ | ⟨_, _, h⟩
    · simp [invalidCounters]
    · cases h

theorem key_says {text : String} {e : Failure} (h : ObjectKey.parse text = .error e) :
    e ≠ invalidCounters := by
  unfold ObjectKey.parse at h
  split at h
  · cases h
  · cases h
    simp [invalidCounters]

theorem record_says {texts : StoreTexts} {c : Counters} {e : Failure}
    (h : texts.record c = .error e) : e ≠ invalidCounters := by
  simp only [StoreTexts.record, check, bind_eq_error, ensure_eq_error] at h
  rcases h with phase | ⟨_, _, ⟨_, rfl⟩ | ⟨_, _, identity | ⟨_, _, pair | ⟨_, _, h⟩⟩⟩⟩
  · unfold PairPhase.parse at phase
    split at phase
    · cases phase
    · cases phase
    · cases phase
      simp [invalidCounters]
  · simp [invalidCounters]
  · exact key_says identity
  · simp only [PairId.parse, bind_eq_error] at pair
    rcases pair with key | ⟨_, _, h⟩
    · exact key_says key
    · cases h
  · cases h

/-- Deciding a pair says nothing of counters. -/
theorem decide_says {observation : PairObservation} {record : Option PairRecord} {e : Failure}
    (h : observation.decide record = .error e) : e ≠ invalidCounters := by
  cases record with
  | none =>
      simp only [PairObservation.decide, check, bind_eq_error, ensure_eq_error] at h
      rcases h with ⟨_, rfl⟩ | ⟨_, _, h⟩
      · simp [invalidCounters]
      · cases h
  | some record =>
      simp only [PairObservation.decide, check, bind_eq_error, ensure_eq_error] at h
      rcases h with ⟨_, rfl⟩ | ⟨_, _, h⟩
      · simp [invalidCounters]
      · split at h
        · simp only [decidePaired, check, bind_eq_error, ensure_eq_error] at h
          rcases h with ⟨_, rfl⟩ | ⟨_, _, h⟩
          · simp [invalidCounters]
          · cases h
        · simp only [decidePending, check, bind_eq_error, ensure_eq_error] at h
          rcases h with ⟨_, rfl⟩ | ⟨_, _, h⟩
          · simp [invalidCounters]
          · split at h
            · simp only [bind_eq_error, ensure_eq_error] at h
              rcases h with ⟨_, rfl⟩ | ⟨_, _, h⟩
              · simp [invalidCounters]
              · cases h
            · simp only [bind_eq_error, ensure_eq_error] at h
              rcases h with ⟨_, rfl⟩ | ⟨_, _, h⟩
              · simp [invalidCounters]
              · cases h

/-- Accepted counters are read back, and nothing else fails with their message. -/
theorem Accepted.parse {s : StoreRow} {c : Counters} (h : Reads s c) (valid : c.Valid)
    {empty : Bool} {e : Failure} (failed : (s.texts empty).parse = .error e) :
    e ≠ invalidCounters := by
  simp only [StoreTexts.parse, check, h.counters valid, bind_eq_error, ensure_eq_error] at failed
  rcases failed with serial | ⟨_, _, ⟨_, rfl⟩ | ⟨_, _, counters | ⟨c', read, checked⟩⟩⟩
  · exact integer_says serial
  · simp [invalidCounters]
  · cases counters
  · cases read
    rcases checked with ⟨invalid, _⟩ | ⟨_, _, record⟩
    · exact absurd valid invalid
    · exact record_says record

/-- Reading an accepted row never fails for its counters, and finds it. -/
theorem Accepted.reads (h : Accepted t) : pairRecord t ≠ .error invalidCounters
    ∧ pairRecord t ≠ .ok none := by
  rcases h with ⟨s, c, found, reads, valid⟩
  constructor
  · intro failed
    simp only [pairRecord, found, StoreRow.select, check, bind_eq_error, ensure_eq_error] at failed
    rcases failed with (⟨_, null⟩ | ⟨_, _, h⟩) | ⟨texts, selected, parsed⟩
    · simp [invalidCounters] at null
    · cases h
    · simp only [bind_eq_ok, ensure_eq_ok] at selected
      rcases selected with ⟨_, _, same⟩
      cases same
      rcases parsed with parsed | ⟨_, _, h⟩
      · exact Accepted.parse reads valid parsed rfl
      · cases h
  · intro none
    simp only [pairRecord, found, bind_eq_ok] at none
    rcases none with ⟨_, _, _, _, h⟩
    cases h

/-- A start on accepted counters never fails for them. -/
theorem Accepted.prepares (h : Accepted t) (observation : PairObservation) (pair : PairId) :
    preparePair observation pair t ≠ .error invalidCounters := by
  intro failed
  rw [preparePair, bind_eq_error] at failed
  rcases failed with unread | ⟨record, read, failed⟩
  · exact h.reads.1 unread
  · cases record with
    | none => exact h.reads.2 read
    | some record =>
        simp only [bind_eq_error] at failed
        rcases failed with undecided | ⟨_, _, h⟩
        · exact decide_says undecided rfl
        · cases h

end Accepting

/-! ## Runs -/

/-- The counters are within the validator's bounds. -/
def Within (t : BlobTables) : Prop :=
  ∀ s, t.store = some s → s.reservedBytes + s.usedBytes ≤ maxAppBlobBytes
    ∧ s.objects ≤ maxAppBlobObjects
    ∧ s.anonymousReservedBytes + s.anonymousUsedBytes ≤ maxAnonymousBytes

/-- A row or an orphan has the key. -/
def Known (key : ObjectKey) (t : BlobTables) : Prop :=
  (∃ c ∈ t.blobs, c.objectKey = key.value) ∨ ∃ orphan ∈ t.orphans, orphan.objectKey = key.value

/-- A quarantine of an unknown object leaves the counters within the bounds. -/
def fitsQuarantine : Event → World → Prop
  | .quarantine key bytes paths, w => Known key w.tables ∨ ∀ s, w.tables.store = some s →
      s.reservedBytes + s.usedBytes + bytes ≤ maxAppBlobBytes
        ∧ s.objects + paths ≤ maxAppBlobObjects
  | _, _ => True

section Runs

variable {sha256 : List UInt8 → Digest} {w w' : World} {e : Event} {row next : BlobRow}
  {delta : QuotaDelta}

/-- No transition of a row charges more bytes or objects than it releases. -/
theorem Legal.releases (legal : Legal sha256 e delta) :
    delta.reserved + delta.used ≤ 0 ∧ delta.objects ≤ 0 := by
  have zero : (QuotaDelta.zero.reserved + QuotaDelta.zero.used ≤ 0)
      ∧ QuotaDelta.zero.objects ≤ 0 := ⟨Int.le_refl 0, Int.le_refl 0⟩
  cases legal with
  | publish staged =>
      rcases stage_ok staged with ⟨_, _, _, _, _, fits, quota, _⟩
      rw [quota]
      dsimp only
      omega
  | attach attached =>
      rw [(attach_ok attached).2.2.2.2.2.1]
      exact zero
  | claim claimed =>
      rw [(claim_ok claimed).1.quota]
      exact zero
  | claimStopped own claimed =>
      rw [(claimStoppedUpload_ok claimed).1.quota]
      exact zero
  | recover foreign claimed =>
      rw [(recoverPriorUpload_ok claimed).1.quota]
      exact zero
  | resume guard claimed =>
      rw [(resumeDeletion_ok claimed).1.quota]
      exact zero
  | delete moved =>
      rw [(deleted_ok moved).2.2.1]
      dsimp only
      omega

theorem anonymousColumn_cases (anonymous : Bool) :
    anonymousColumn anonymous = 0 ∨ anonymousColumn anonymous = 1 := by
  cases anonymous
  · exact Or.inl rfl
  · exact Or.inr rfl

theorem Within.moves {t t' : BlobTables} (h : Within t) (charged : Charged row delta t t')
    (stored : ∃ s, t.store = some s) (releases : delta.reserved + delta.used ≤ 0 ∧ delta.objects ≤ 0) :
    Within t' := by
  rcases stored with ⟨s, found⟩
  rcases charged.store s found with ⟨s', found', _, _, _, reserved, used, objects, anonymousReserved,
    anonymousUsed, _⟩
  rcases h s found with ⟨bytes, count, anonymous⟩
  intro other here
  rw [found'] at here
  cases here
  refine ⟨by omega, by omega, ?_⟩
  rw [anonymousReserved, anonymousUsed]
  rcases anonymousColumn_cases row.anonymous with flag | flag <;> rw [flag] <;> omega

theorem deploymentBytes_le {request : Reservation} {quota : ReservationQuota}
    (policy : request.policy.validateLimits = .ok ()) (h : request.quota = .ok quota)
    (anonymous : request.capability.isSome = true) : quota.deploymentBytes ≤ maxAnonymousBytes := by
  rcases Option.isSome_iff_exists.mp anonymous with ⟨capability, declared⟩
  simp only [Reservation.quota, declared, check, need, bind_eq_ok, ensure_eq_ok,
    context_eq_ok] at h
  rcases h with ⟨_, _, deployment, found, _, _, h⟩
  cases h
  simp only [BlobPolicy.validateLimits, found, validateAnonymous, StageQuota.validateDeployment,
    check, bind_eq_ok, ensure_eq_ok] at policy
  rcases policy with ⟨_, _, _, _, _, ⟨_, _, _, bytes⟩, _⟩
  exact bytes

/-- The guards of a reservation keep the bounds of the application's policy. -/
theorem Within.reserve {request : Reservation} {t t' : BlobTables} (h : Within t)
    (reserved : Reserved request row t t') : Within t' := by
  rcases reserved.written with ⟨_, quota, _, t1, t2, limits, _, _, store, subject, inserted⟩
  rcases updateStore_ok.mp store with ⟨s, found, guard, rfl⟩
  have store' : t'.store = some (s.charge request.limit 0 1
      (anonymousColumn request.capability.isSome)) := by
    rw [(insertBlob_ok inserted).1, (reserveSubject_ok subject).1]
  rcases validateLimits_fileBytes reserved.policy with ⟨_, app, objects⟩
  simp only [canReserveStore, decide_eq_true_eq] at guard
  rcases guard with ⟨_, _, _, room, count, anonymousRoom, _⟩
  rcases h s found with ⟨_, _, anonymous⟩
  intro other here
  rw [store'] at here
  cases here
  dsimp only [StoreRow.charge]
  refine ⟨by omega, by omega, ?_⟩
  rcases anonymousColumn_cases request.capability.isSome with flag | flag
  · rw [flag]
    omega
  · rcases anonymousRoom with other | room
    · omega
    · have deployment : quota.deploymentBytes ≤ maxAnonymousBytes := by
        refine deploymentBytes_le reserved.policy limits ?_
        cases present : request.capability.isSome with
        | true => rfl
        | false =>
            rw [present] at flag
            cases flag
      rw [flag]
      omega

/-- A quarantine keeps the bounds exactly when it fits. -/
theorem within_quarantine {key store process : ObjectKey} {bytes paths : Nat} {now : Timestamp}
    {t t' : BlobTables} (h : Within t) (stored : ∃ s, t.store = some s)
    (op : quarantineUnknown key bytes paths store process now t = .ok t') :
    (Known key t ∨ ∀ s, t.store = some s → s.reservedBytes + s.usedBytes + bytes ≤ maxAppBlobBytes
      ∧ s.objects + paths ≤ maxAppBlobObjects) ↔ Within t' := by
  rcases stored with ⟨s, found⟩
  simp only [quarantineUnknown, check, bind_eq_ok, ensure_eq_ok] at op
  rcases op with ⟨_, _, _, _, op⟩
  split at op
  · rename_i known
    cases op
    exact ⟨fun _ => h, fun _ => Or.inl known⟩
  · rename_i unknown
    rcases updateStore_ok.mp op with ⟨other, here, _, rfl⟩
    rw [found] at here
    cases here
    have charged : ∀ s', some (s.charge 0 bytes paths 0) = some s' → s' = s.charge 0 bytes paths 0 :=
      fun s' same => (Option.some.inj same).symm
    constructor
    · rintro (known | fits)
      · exact absurd known unknown
      · intro s' same
        rw [charged s' same]
        rcases fits s found with ⟨room, count⟩
        have anonymous := (h s found).2.2
        dsimp only [StoreRow.charge]
        exact ⟨by omega, count, by omega⟩
    · intro within
      refine Or.inr ?_
      intro other same
      rw [found] at same
      cases same
      rcases within _ rfl with ⟨room, count, _⟩
      dsimp only [StoreRow.charge] at room count
      exact ⟨by omega, count⟩

/-- A step keeps the bounds exactly when it fits. -/
theorem Within.step (h : Within w.tables) (tracked : Tracked sha256 w) (balanced : Balanced w)
    (step : Step sha256 e w w') : fitsQuarantine e w ↔ Within w'.tables := by
  have stored : ∃ s, w.tables.store = some s := by
    rcases balanced.store with ⟨s, found, _⟩
    exact ⟨s, found⟩
  cases changed : e.change with
  | some change =>
      rcases step.moves tracked changed with ⟨_, legal, result, moves⟩
      have kept := h.moves (moves.charged balanced.distinct) stored legal.releases
      have fits : fitsQuarantine e w := by
        cases legal <;> exact trivial
      exact ⟨fun _ => kept, fun _ => fits⟩
  | none =>
      cases step with
      | read member parsed => exact ⟨fun _ => h, fun _ => trivial⟩
      | reserve op =>
          have kept := h.reserve (reserve_reserved op)
          exact ⟨fun _ => kept, fun _ => trivial⟩
      | detach op =>
          have same := (detach_rows tracked op).2
          refine ⟨fun _ => ?_, fun _ => trivial⟩
          dsimp only
          rw [same]
          exact h
      | quarantine op => exact within_quarantine h stored op
      | publish held op => cases changed
      | attach held attached op => cases changed
      | claim held op => cases changed
      | claimStopped held op => cases changed
      | recover held op => cases changed
      | resume held op => cases changed
      | delete held op => cases changed

/-! ## Balanced counters -/

/-- Without objects the rows are charged no bytes. -/
theorem charged_empty {rows : List BlobRow} (none : charged (·.objects) anyRow rows = 0) :
    charged (·.reserved) anyRow rows = 0 ∧ charged (·.used) anyRow rows = 0 := by
  have zero : ∀ row ∈ rows, anyRow row = true → row.charge = .zero := by
    intro row member every
    by_contra charge
    have live : row.metadata.state ≠ .deleted := fun gone => charge (charge_deleted gone)
    have part := charge_le_charged (·.objects) anyRow (fun row => (charge_nonneg row).2.2) member every
    rw [charge_live live, none] at part
    dsimp only at part
    omega
  exact ⟨charged_zero_of zero rfl, charged_zero_of zero rfl⟩

/-- Without charged objects there is no orphan. -/
theorem orphans_empty {orphans : List OrphanRow} (one : ∀ orphan ∈ orphans, 1 ≤ orphan.chargedObjects)
    (none : (orphans.map (·.chargedObjects)).sum ≤ 0) : orphans = [] := by
  cases orphans with
  | nil => rfl
  | cons orphan rest =>
      have nonneg : 0 ≤ (rest.map (·.chargedObjects)).sum := by
        refine List.sum_nonneg ?_
        intro weight found
        rcases List.mem_map.mp found with ⟨other, member, rfl⟩
        have pos := one other (List.mem_cons_of_mem _ member)
        omega
      have pos := one orphan List.mem_cons_self
      rw [List.map_cons, List.sum_cons] at none
      omega

/-- Balanced counters are valid exactly within the bounds. -/
theorem Balanced.accepted (h : Balanced w) : Within w.tables ↔ Accepted w.tables := by
  rcases h.store with ⟨s, found, _, _, counters⟩
  rcases h.parts_used found with ⟨used_part, reserved_part, _⟩
  rcases h.orphans_nonneg with ⟨orphan_bytes, orphan_objects⟩
  have reserved : 0 ≤ s.reservedBytes := by
    rw [counters.reserved]
    exact charged_nonneg fun row => (charge_nonneg row).1
  have anonymousReserved : 0 ≤ s.anonymousReservedBytes := by
    rw [counters.anonymousReserved]
    exact charged_nonneg fun row => (charge_nonneg row).1
  have anonymousUsed : 0 ≤ s.anonymousUsedBytes := by
    rw [counters.anonymousUsed]
    exact charged_nonneg fun row => (charge_nonneg row).2.1
  have live_objects : 0 ≤ charged (·.objects) anyRow w.rows :=
    charged_nonneg fun row => (charge_nonneg row).2.2
  have objects : 0 ≤ s.objects := by
    rw [counters.objects]
    omega
  have empty : s.objects = 0 → s.reservedBytes = 0 ∧ s.usedBytes = 0 := by
    intro none
    rw [counters.objects] at none
    have orphans := orphans_empty (fun orphan member => (h.orphans orphan member).2)
      (show (w.tables.orphans.map (·.chargedObjects)).sum ≤ 0 by omega)
    rcases @charged_empty w.rows (by omega) with ⟨no_reserved, no_used⟩
    rw [counters.reserved, counters.used, no_reserved, no_used, orphans]
    exact ⟨rfl, rfl⟩
  constructor
  · intro within
    rcases within s found with ⟨bytes, count, anonymous⟩
    refine ⟨s, ⟨s.reservedBytes.toNat, s.usedBytes.toNat, s.objects.toNat,
      s.anonymousReservedBytes.toNat, s.anonymousUsedBytes.toNat⟩, found, ?_, ?_⟩
    · refine ⟨?_, ?_, ?_, ?_, ?_⟩
      all_goals dsimp only
      all_goals omega
    · unfold Counters.Valid
      dsimp only
      refine ⟨by omega, by omega, by omega, by omega, by omega, ?_⟩
      by_cases none : s.objects = 0
      · rcases empty none with ⟨no_reserved, no_used⟩
        rw [no_reserved, no_used]
        exact Or.inr ⟨rfl, rfl⟩
      · exact Or.inl (by omega)
  · rintro ⟨other, c, here, reads, bytes, count, _, _, anonymous, _⟩
    intro s' same
    rw [here] at same
    cases same
    rw [reads.reserved, reads.used, reads.objects, reads.anonymousReserved, reads.anonymousUsed]
    exact ⟨by omega, by omega, by omega⟩

theorem within_invariant :
    (blobSystem sha256 fitsQuarantine).Invariant fun state => Within state.1.tables where
  initial state h := by
    rcases h.1.store with ⟨s, found, _, _, reserved, used, objects, anonymousReserved, anonymousUsed⟩
    intro other here
    rw [found] at here
    cases here
    rw [reserved, used, objects, anonymousReserved, anonymousUsed]
    exact ⟨by decide, by decide, by decide⟩
  step state next reachable h step := by
    rcases step with ⟨e, step, fits, _⟩
    exact (h.step (tracked_invariant.holds reachable) (balanced_invariant.holds reachable) step).mp fits

/-- In every run whose quarantines fit, the validator accepts the stored counters, so a
start never fails for them; and a next step keeps that exactly when it fits. -/
theorem pairing_accepts_written {state : World × List Event}
    (reachable : (blobSystem sha256 fitsQuarantine).Reachable state) :
    Accepted state.1.tables
      ∧ (∀ observation pair,
        preparePair observation pair state.1.tables ≠ .error invalidCounters)
      ∧ ∀ e w', Step sha256 e state.1 w' →
        (fitsQuarantine e state.1 ↔ Accepted w'.tables) := by
  have tracked : Tracked sha256 state.1 := tracked_invariant.holds reachable
  have balanced : Balanced state.1 := balanced_invariant.holds reachable
  have within : Within state.1.tables := within_invariant.holds reachable
  have accepted := balanced.accepted.mp within
  refine ⟨accepted, accepted.prepares, ?_⟩
  intro e w' step
  rw [← (balanced.step tracked step).accepted]
  exact within.step tracked balanced step

/-- After one reservation. -/
theorem pairing_accepts_written_sample : Accepted reservedTables :=
  (pairing_accepts_written (reservedWorld_reachable trivial)).1

end Runs

/-- The tables after the quarantine of one unknown object of a byte more than the limit. -/
def quarantinedTables : BlobTables where
  store := some ⟨sampleToken, sampleToken, "paired", 2, 0, 1073741825, 1, 0, 0⟩
  subjects := []
  blobs := []
  orphans := [⟨otherToken, 0, 1073741825, 1, sampleToken⟩]

/-- The directory of the empty store, with its durable marker. -/
def sampleObservation : PairObservation where
  store := sampleKey
  marker := some ⟨sampleKey⟩
  pending := none
  empty := false

/-- One unknown object larger than the application's maximum is charged, and the next start
on the unchanged pair fails for the counters. -/
theorem quarantine_stops_start :
    (blobSystem sampleHash anyEvent).Reachable
      (⟨quarantinedTables, [], []⟩, [.quarantine otherKey 1073741825 1])
    ∧ preparePair sampleObservation ⟨sampleKey⟩ emptyTables
      = .ok (⟨⟨sampleKey, ⟨sampleKey⟩, .paired, true⟩, .ready ⟨sampleKey⟩, false⟩, emptyTables)
    ∧ preparePair sampleObservation ⟨sampleKey⟩ quarantinedTables = .error invalidCounters := by
  have charged : quarantineUnknown otherKey 1073741825 1 sampleKey sampleKey .unixEpoch emptyTables
      = .ok quarantinedTables := by decide
  have start : (blobSystem sampleHash anyEvent).Reachable (emptyWorld, []) :=
    System.Reachable.start ⟨emptyWorld_empty, rfl⟩
  have step : Step sampleHash (.quarantine otherKey 1073741825 1) emptyWorld
      ⟨quarantinedTables, [], []⟩ := Step.quarantine charged
  refine ⟨start.next ⟨_, step, trivial, rfl⟩, ?_, ?_⟩
  · decide
  · decide

end Blobs
end Noxide
