import Noxide.Blobs.Files
import Noxide.Blobs.Pairing
import Noxide.Blobs.PartHeaders

/-!
# Pairing a directory with its database

A database and a store directory belong to each other: the store row names the directory, and the
marker file of the directory names the row.  A start records a pending pair, installs the marker
and then acknowledges it.  Starts of any number of databases and directories interleave, a process
may stop and the power may fail between any two calls, and a commit may have succeeded unseen.

Main results:

- Theorem {lit}`sound_invariant`: a paired row has its marker, durable in its directory.
- Theorem {lit}`Sound.exclusive`: two databases that are paired with one directory are one.
-/

namespace Noxide
namespace Blobs
namespace Pairs

open Checked
open Disks
open Form (utf8Bytes fromUTF8_bytes)
open Files (Folder StoreDisk WriteAnswer writeLoop regular)

/-! ## The directory -/

/-- A store directory: its disk, of which pairing sees the root, and the entries of the folders of
partial files and of objects. -/
structure Directory where
  identity : ObjectKey
  disk : StoreDisk
  partials : List String
  objects : List String

def scanBatch : Nat := 64

/-- The keys among the next entries. -/
def nextBatch (entries : List String) : Result (List ObjectKey) :=
  ((entries.take scanBatch).filter fun name => name ≠ "." ∧ name ≠ "..").mapM ObjectKey.parse

def pairName : String := "pair"

def pendingName : String := "pair.pending"

/-- The links of a file in the root. -/
def links (disk : StoreDisk) (file : Nat) : Nat :=
  [pairName, pendingName].countP fun name => disk.lookup .root name = some file

def regularMarker (disk : StoreDisk) (file mode : Nat) (bytes : Option Nat) : Result Unit := do
  regular disk file mode bytes
  check "invalid immutable object metadata" (links disk file = 1)

def isHex (byte : UInt8) : Bool := (48 ≤ byte && byte ≤ 57) || (97 ≤ byte && byte ≤ 102)

/-- The bytes of a marker; only a pending one may be incomplete or writable. -/
def readMarker (name : String) (part : Bool) (disk : StoreDisk) : Result (Option (List UInt8)) :=
  match disk.lookup .root name with
  | none => .ok none
  | some file => do
      let found ← need "open pairing marker" (disk.files file)
      check "pair marker length" (found.data.length ≤ 64)
      check "pair marker mode" (found.mode.now = 0o400 ∨ part = true ∧ found.mode.now = 0o600)
      regularMarker disk file found.mode.now none
      check "pair marker length" (part = true ∨ found.data.length = 64)
      check "invalid pair marker encoding" (found.data.all isHex = true)
      return some found.data

def markerId (bytes : List UInt8) : Result PairId := do
  let text ← need "invalid utf-8 sequence" (String.fromUTF8? bytes.toByteArray)
  PairId.parse text

/-- One batch of each folder tells whether the store is empty. -/
def Directory.observeEmpty (d : Directory) : Result Bool := do
  match ← nextBatch d.partials with
  | [] => do
      let second ← nextBatch d.objects
      return second.isEmpty
  | _ :: _ => return false

/-- What the directory shows before anything is decided. -/
def observePair (d : Directory) : Result PairObservation := do
  let marker ← (← readMarker pairName false d.disk).mapM markerId
  let pending ← readMarker pendingName true d.disk
  check "ambiguous pairing markers" (marker = none ∨ pending = none)
  let empty ← d.observeEmpty
  return ⟨d.identity, marker, pending, empty⟩

/-! ## Installing the marker -/

/-- The bytes of a marker. -/
def text (pair : PairId) : List UInt8 := pair.key.value.toUTF8.toList

/-- Remove a part of the same marker that an earlier start left. -/
def removePending (pending : Option (List UInt8)) (disk : StoreDisk) : Result StoreDisk :=
  match pending with
  | none => .ok disk
  | some _ => do
      let disk ← need "No such file or directory (os error 2)" (disk.unlink .root pendingName)
      return disk.syncFolder .root

/-- Write the marker under its pending name, seal and sync it, and move it to its name. -/
def writeMarker (pair : PairId) (answers : List WriteAnswer) (disk : StoreDisk) : Result StoreDisk := do
  let (file, disk) ← need "File exists (os error 17)" (disk.create .root pendingName 0o600)
  regularMarker disk file 0o600 (some 0)
  match writeLoop file answers (text pair) disk with
  | (_, .error _) => .error (.message "write pending pair marker")
  | (disk, .ok _) =>
      need "File exists (os error 17)"
        (((disk.chmod file 0o400).syncFile file).rename (.root, pendingName) (.root, pairName))

/-- A marker is durable once its file and the root are synced and it is read again. -/
def confirmMarker (pair : PairId) (disk : StoreDisk) : Result StoreDisk := do
  let file ← need "No such file or directory (os error 2)" (disk.lookup .root pairName)
  regularMarker disk file 0o400 (some 64)
  let disk := (disk.syncFile file).syncFolder .root
  let marker ← need "pair marker unavailable" (← readMarker pairName false disk)
  check "pair marker changed" (marker = text pair)
  return disk

def installPair (record : PairRecord) (answers : List WriteAnswer) (d : Directory) : Result StoreDisk := do
  let observation ← observePair d
  match ← observation.decide (some record) with
  | .installMarker _ => do
      let disk ← removePending observation.pending d.disk
      let disk ← writeMarker record.pair answers disk
      confirmMarker record.pair disk
  | .acknowledge _ => confirmMarker record.pair d.disk
  | .createPending | .ready _ => .error (.message "pair installation requires pending database")

/-! ## The database -/

/-- The condition of {lit}`COMPLETE_PAIR`. -/
def completes (store : ObjectKey) (pair : PairId) (t : BlobTables) (row : StoreRow) : Bool :=
  row.identity = store.value ∧ row.pairId = pair.key.value ∧ row.pairState = "pending"
    ∧ row.serial < 9223372036854775807 ∧ row.reservedBytes = 0 ∧ row.usedBytes = 0 ∧ row.objects = 0
    ∧ row.anonymousReservedBytes = 0 ∧ row.anonymousUsedBytes = 0 ∧ t.isEmpty = true

/-- Record that the marker of this pair is durable in this directory. -/
def acknowledgePair (store : ObjectKey) (pair : PairId) (t : BlobTables) : Result BlobTables :=
  match t.store.filter (completes store pair t) with
  | some row => .ok { t with store := some { row with pairState := "paired", serial := row.serial + 1 } }
  | none => do
      let record ← need "store pairing missing" (← pairRecord t)
      check "store pairing acknowledgement mismatch"
        (record.store = store ∧ record.pair = pair ∧ record.phase = .paired)
      return t

/-- A start without a failure: {lit}`fresh` is the random identity of a new pair, and every commit
is acknowledged. -/
def activate (fresh : PairId) (answers : List WriteAnswer) (d : Directory) (t : BlobTables) :
    Result (StoreDisk × BlobTables) := do
  let observation ← observePair d
  let (prepared, t) ← preparePair observation fresh t
  check "new pairing must install its pending marker"
    (prepared.pendingInserted = true → prepared.step = .installMarker prepared.record.pair)
  match prepared.step with
  | .ready _ => return (d.disk, t)
  | _ => do
      let disk ← installPair prepared.record answers d
      let t ← acknowledgePair d.identity prepared.record.pair t
      return (disk, t)

/-! ## The text of a marker -/

theorem toList_loop (bytes : ByteArray) (index : Nat) (read : List UInt8) :
    ByteArray.toList.loop bytes index read = read.reverse ++ bytes.data.toList.drop index := by
  induction index, read using ByteArray.toList.loop.induct bytes with
  | case1 index read inside ih =>
      rw [ByteArray.toList.loop, if_pos inside, ih, List.reverse_cons, List.append_assoc]
      have bound : index < bytes.data.toList.length := inside
      rw [List.drop_eq_getElem_cons bound]
      have here : bytes.get! index = bytes.data.toList[index] := by
        have sized : index < bytes.data.size := inside
        rw [Array.getElem_toList]
        exact getElem!_pos bytes.data index sized
      rw [here, List.singleton_append]
  | case2 index read outside =>
      rw [ByteArray.toList.loop, if_neg outside]
      have beyond : bytes.data.toList.length ≤ index := Nat.le_of_not_lt outside
      rw [List.drop_eq_nil_of_le beyond, List.append_nil]

theorem text_eq (pair : PairId) : text pair = utf8Bytes pair.key.value :=
  toList_loop _ 0 []

theorem text_inj {pair other : PairId} (same : text pair = text other) : pair = other := by
  rw [text_eq, text_eq] at same
  have values := Form.utf8Bytes_inj same
  have keys := Files.ObjectKey.value_injective values
  cases pair
  cases other
  cases keys
  rfl

/-! ## Steps -/

/-- Between two calls of an installation. -/
inductive Point where
  | stale
  | unlinked
  | absent
  | writing (file : Nat) (rest : List UInt8)
  | sealed (file : Nat)
  | synced
  | named
  | opened (file : Nat)
  | confirmed
  | settled
  | durable
  deriving DecidableEq

/-- One call of an installation. -/
inductive InstallStep (pair : PairId) : Point → StoreDisk → Point → StoreDisk → Prop where
  | unlink {disk after : StoreDisk} : disk.unlink .root pendingName = some after →
      InstallStep pair .stale disk .unlinked after
  | syncUnlink {disk : StoreDisk} : InstallStep pair .unlinked disk .absent (disk.syncFolder .root)
  | create {disk after : StoreDisk} {file : Nat} : disk.create .root pendingName 0o600 = some (file, after) →
      InstallStep pair .absent disk (.writing file (text pair)) after
  | write {disk : StoreDisk} {file : Nat} (bytes rest : List UInt8) :
      InstallStep pair (.writing file (bytes ++ rest)) disk (.writing file rest) (disk.append file bytes)
  | chmod {disk : StoreDisk} {file : Nat} :
      InstallStep pair (.writing file []) disk (.sealed file) (disk.chmod file 0o400)
  | sync {disk : StoreDisk} {file : Nat} : InstallStep pair (.sealed file) disk .synced (disk.syncFile file)
  | rename {disk after : StoreDisk} : disk.rename (.root, pendingName) (.root, pairName) = some after →
      InstallStep pair .synced disk .named after
  | «open» {disk : StoreDisk} {file : Nat} : disk.lookup .root pairName = some file →
      regularMarker disk file 0o400 (some 64) = .ok () → InstallStep pair .named disk (.opened file) disk
  | syncFile {disk : StoreDisk} {file : Nat} :
      InstallStep pair (.opened file) disk .confirmed (disk.syncFile file)
  | syncRoot {disk : StoreDisk} : InstallStep pair .confirmed disk .settled (disk.syncFolder .root)
  | reread {disk : StoreDisk} : readMarker pairName false disk = .ok (some (text pair)) →
      InstallStep pair .settled disk .durable disk

/-- Where an installation begins. -/
def firstPoint (pending : Option (List UInt8)) : PairStep → Option Point
  | .installMarker _ => some (if pending = none then .absent else .stale)
  | .acknowledge _ => some .named
  | .createPending | .ready _ => none

/-- Where a start stands. -/
inductive Stage where
  | starting
  | observed (observation : PairObservation)
  | prepared (record : PairRecord)
  | installing (record : PairRecord) (point : Point)
  | ready

structure Process where
  database : Nat
  stage : Stage

/-- After the first transaction. -/
def PairPreparation.stage (prepared : PairPreparation) : Stage :=
  match prepared.step with
  | .ready _ => .ready
  | _ => .prepared prepared.record

/-- Databases, directories by their identities with the process that holds the lease of each, and
the history of which database was served from which directory. -/
structure World where
  databases : Nat → BlobTables
  directories : ObjectKey → Directory
  processes : ObjectKey → Option Process
  served : List (Nat × ObjectKey)

/-- An identity that no pair has yet. -/
def World.Fresh (w : World) (pair : PairId) : Prop :=
  ∀ a row, (w.databases a).store = some row → row.pairId ≠ pair.key.value

/-- A transaction that leaves the columns of the pair. -/
structure KeepsPair (t t' : BlobTables) : Prop where
  kept : ∀ row, t.store = some row → ∃ row', t'.store = some row' ∧ row'.identity = row.identity
    ∧ row'.pairId = row.pairId ∧ row'.pairState = row.pairState

def World.setStage (w : World) (i : ObjectKey) (a : Nat) (stage : Stage) : World :=
  { w with processes := Function.update w.processes i (some ⟨a, stage⟩) }

def World.setDatabase (w : World) (a : Nat) (t : BlobTables) : World :=
  { w with databases := Function.update w.databases a t }

def World.setDirectory (w : World) (i : ObjectKey) (d : Directory) : World :=
  { w with directories := Function.update w.directories i d }

/-- The process of a directory ends. -/
def World.stop (w : World) (i : ObjectKey) : World :=
  { w with processes := Function.update w.processes i none }

@[simp]
theorem World.setStage_processes (w : World) (i : ObjectKey) (a : Nat) (stage : Stage) :
    (w.setStage i a stage).processes i = some ⟨a, stage⟩ := Function.update_self _ _ _

@[simp]
theorem World.setDatabase_databases (w : World) (a : Nat) (t : BlobTables) : (w.setDatabase a t).databases a = t :=
  Function.update_self _ _ _

@[simp]
theorem World.stop_processes (w : World) (i : ObjectKey) : (w.stop i).processes i = none :=
  Function.update_self _ _ _

/-- One call or transaction of a start or of a served request, the end of a process, or a loss of
power at one directory.  A request names its objects by keys. -/
inductive Step (uses : Nat → ObjectKey → Prop) (loss : StoreDisk → StoreDisk → Prop) (w : World) : World → Prop where
  | start {i : ObjectKey} {a : Nat} : w.processes i = none → uses a i → Step uses loss w (w.setStage i a .starting)
  | observe {i : ObjectKey} {a : Nat} {o : PairObservation} : w.processes i = some ⟨a, .starting⟩ →
      observePair (w.directories i) = .ok o → Step uses loss w (w.setStage i a (.observed o))
  | prepare {i : ObjectKey} {a : Nat} {o : PairObservation} {fresh : PairId} {prepared : PairPreparation}
      {t : BlobTables} :
      w.processes i = some ⟨a, .observed o⟩ → w.Fresh fresh →
        preparePair o fresh (w.databases a) = .ok (prepared, t) →
          Step uses loss w ((w.setDatabase a t).setStage i a (PairPreparation.stage prepared))
  | prepareUnknown {i : ObjectKey} {a : Nat} {o : PairObservation} {fresh : PairId} {prepared : PairPreparation}
      {t : BlobTables} :
      w.processes i = some ⟨a, .observed o⟩ → w.Fresh fresh →
        preparePair o fresh (w.databases a) = .ok (prepared, t) →
          Step uses loss w ((w.setDatabase a t).stop i)
  | begin {i : ObjectKey} {a : Nat} {record : PairRecord} {o : PairObservation} {step : PairStep} {point : Point} :
      w.processes i = some ⟨a, .prepared record⟩ → observePair (w.directories i) = .ok o →
        o.decide (some record) = .ok step → firstPoint o.pending step = some point →
          Step uses loss w (w.setStage i a (.installing record point))
  | install {i : ObjectKey} {a : Nat} {record : PairRecord} {point next : Point} {disk : StoreDisk} :
      w.processes i = some ⟨a, .installing record point⟩ →
        InstallStep record.pair point (w.directories i).disk next disk →
          Step uses loss w ((w.setDirectory i { w.directories i with disk := disk }).setStage i a
            (.installing record next))
  | acknowledge {i : ObjectKey} {a : Nat} {record : PairRecord} {t : BlobTables} :
      w.processes i = some ⟨a, .installing record .durable⟩ →
        acknowledgePair (w.directories i).identity record.pair (w.databases a) = .ok t →
          Step uses loss w ((w.setDatabase a t).setStage i a .ready)
  | acknowledgeUnknown {i : ObjectKey} {a : Nat} {record : PairRecord} {t : BlobTables} :
      w.processes i = some ⟨a, .installing record .durable⟩ →
        acknowledgePair (w.directories i).identity record.pair (w.databases a) = .ok t →
          Step uses loss w ((w.setDatabase a t).stop i)
  | serve {i : ObjectKey} {a : Nat} {t : BlobTables} {partials objects : List String} :
      w.processes i = some ⟨a, .ready⟩ → KeepsPair (w.databases a) t →
        (∀ name ∈ partials, name ∈ (w.directories i).partials ∨ hexToken name = true) →
        (∀ name ∈ objects, name ∈ (w.directories i).objects ∨ hexToken name = true) →
        Step uses loss w { (w.setDatabase a t).setDirectory i
          { w.directories i with partials := partials, objects := objects } with served := (a, i) :: w.served }
  | stop {i : ObjectKey} : Step uses loss w (w.stop i)
  | powerLoss {i : ObjectKey} {found : StoreDisk} {partials objects : List String} :
      loss (w.directories i).disk found → partials ⊆ (w.directories i).partials →
        objects ⊆ (w.directories i).objects →
          Step uses loss w ((w.setDirectory i
            { w.directories i with disk := found, partials := partials, objects := objects }).stop i)

/-- A root without markers. -/
structure Bare (disk : StoreDisk) : Prop where
  allocated : ∀ file, disk.next ≤ file → disk.files file = none
  names : (disk.folders .root).Always fun names => names pairName = none ∧ names pendingName = none

/-- Directories without markers, and databases that were never paired. -/
structure World.Initial (w : World) : Prop where
  identity : ∀ i, (w.directories i).identity = i
  bare : ∀ i, Bare (w.directories i).disk
  unpaired : ∀ a, (w.databases a).store = none
  idle : ∀ i, w.processes i = none
  served : w.served = []

/-- The starts of databases at directories that may use each other, under losses of a kind. -/
def pairSystem (uses : Nat → ObjectKey → Prop) (loss : StoreDisk → StoreDisk → Prop) : System World where
  initial := World.Initial
  step := Step uses loss

/-! ## What a transaction does -/

section Transactions

variable {o : PairObservation} {fresh : PairId} {t t' : BlobTables} {record : PairRecord} {step : PairStep}

theorem pairRecord_some (h : pairRecord t = .ok (some record)) : ∃ row, t.store = some row
    ∧ row.identity = record.store.value ∧ row.pairId = record.pair.key.value
    ∧ (record.phase = .paired ↔ row.pairState = "paired") := by
  unfold pairRecord at h
  cases stored : t.store with
  | none =>
      rw [stored] at h
      cases h
  | some row =>
      rw [stored] at h
      simp only [StoreRow.select, StoreTexts.parse, StoreTexts.record, check, bind_eq_ok] at h
      rcases h with ⟨texts, ⟨_, _, selected⟩, found, ⟨_, _, _, _, _, _, _, _, phase, phased, _, _,
        store, parsed, pair, paired, same⟩, found'⟩
      cases selected
      cases found'
      cases same
      refine ⟨row, rfl, ?_, ?_, ?_⟩
      · unfold ObjectKey.parse at parsed
        split at parsed
        · cases parsed
          rfl
        · cases parsed
      · simp only [PairId.parse, bind_eq_ok] at paired
        rcases paired with ⟨key, parsed', same⟩
        unfold ObjectKey.parse at parsed'
        split at parsed'
        · cases parsed'
          cases same
          rfl
        · cases parsed'
      · unfold PairPhase.parse at phased
        split at phased
        · rename_i state
          have other : row.pairState = "pending" := state
          cases phased
          rw [other]
          have distinct : ("pending" : String) ≠ "paired" := by decide
          exact iff_of_false (fun absurd => by cases absurd) distinct
        · rename_i state
          cases phased
          exact ⟨fun _ => state, fun _ => rfl⟩
        · cases phased

/-- A decision on a record. -/
inductive Decided (o : PairObservation) (record : PairRecord) : PairStep → Prop where
  | ready : record.phase = .paired → o.pending = none → o.marker = some record.pair →
      Decided o record (.ready record.pair)
  | acknowledge : record.phase = .pending → o.empty = true → o.marker = some record.pair → o.pending = none →
      Decided o record (.acknowledge record.pair)
  | install : record.phase = .pending → o.empty = true → o.marker = none →
      (∀ bytes ∈ o.pending, bytes <+: text record.pair) → Decided o record (.installMarker record.pair)

theorem decide_some (h : o.decide (some record) = .ok step) : record.store = o.store ∧ Decided o record step := by
  simp only [PairObservation.decide, check, bind_eq_ok, ensure_eq_ok] at h
  rcases h with ⟨_, store, h⟩
  refine ⟨store, ?_⟩
  cases phase : record.phase with
  | paired =>
      simp only [phase, decidePaired, check, bind_eq_ok, ensure_eq_ok] at h
      rcases h with ⟨_, ⟨pending, marker⟩, same⟩
      cases same
      exact .ready phase pending marker
  | pending =>
      simp only [phase, decidePending, check, bind_eq_ok, ensure_eq_ok] at h
      rcases h with ⟨_, ⟨_, empty⟩, h⟩
      cases marked : o.marker with
      | some marker =>
          simp only [marked, bind_eq_ok, ensure_eq_ok] at h
          rcases h with ⟨_, ⟨rfl, pending⟩, same⟩
          cases same
          exact .acknowledge phase empty marked pending
      | none =>
          simp only [marked, bind_eq_ok, ensure_eq_ok] at h
          rcases h with ⟨_, part, same⟩
          cases same
          exact .install phase empty marked part

/-- The row of a new pair. -/
def pendingRow (store : ObjectKey) (pair : PairId) : StoreRow :=
  ⟨store.value, pair.key.value, "pending", 1, 0, 0, 0, 0, 0⟩

/-- What the first transaction of a start did. -/
inductive Prepares (o : PairObservation) (fresh : PairId) (t : BlobTables) :
    PairPreparation → BlobTables → Prop where
  | found {record : PairRecord} {step : PairStep} : pairRecord t = .ok (some record) →
      o.decide (some record) = .ok step → Prepares o fresh t ⟨record, step, false⟩ t
  | inserted : t.store = none → t.isEmpty = true → o.marker = none → o.pending = none → o.empty = true →
      Prepares o fresh t ⟨⟨o.store, fresh, .pending, true⟩, .installMarker fresh, true⟩
        { t with store := some (pendingRow o.store fresh) }

theorem preparePair_ok {prepared : PairPreparation} (h : preparePair o fresh t = .ok (prepared, t')) :
    Prepares o fresh t prepared t' := by
  unfold preparePair at h
  rcases bind_eq_ok.mp h with ⟨found, read, h⟩
  cases found with
  | some record =>
      rcases bind_eq_ok.mp h with ⟨step, decided, same⟩
      cases same
      exact .found read decided
  | none =>
      simp only [PairObservation.decide, insertPendingPair, check, bind_eq_ok, ensure_eq_ok] at h
      rcases h with ⟨step, ⟨_, ⟨marker, pending, empty⟩, decided⟩, _, _, t₁, ⟨_, ⟨clean, none⟩, inserted⟩, same⟩
      cases decided
      cases inserted
      cases same
      exact .inserted none clean marker pending empty

/-- The row of a pair that is acknowledged. -/
def pairedRow (row : StoreRow) : StoreRow := { row with pairState := "paired", serial := row.serial + 1 }

theorem acknowledgePair_ok {store : ObjectKey} {pair : PairId} (h : acknowledgePair store pair t = .ok t') :
    ∃ row, t.store = some row ∧ row.identity = store.value ∧ row.pairId = pair.key.value
      ∧ (t' = { t with store := some (pairedRow row) } ∨ t' = t ∧ row.pairState = "paired") := by
  unfold acknowledgePair at h
  cases chosen : t.store.filter (completes store pair t) with
  | some row =>
      rw [chosen] at h
      cases h
      rcases Option.filter_eq_some_iff.mp chosen with ⟨stored, holds⟩
      unfold completes at holds
      rw [decide_eq_true_iff] at holds
      exact ⟨row, stored, holds.1, holds.2.1, .inl rfl⟩
  | none =>
      rw [chosen] at h
      simp only [check, need, bind_eq_ok, ensure_eq_ok, context_eq_ok] at h
      rcases h with ⟨found, read, record, same, _, ⟨rfl, rfl, phase⟩, unchanged⟩
      rw [same] at read
      cases unchanged
      rcases pairRecord_some read with ⟨row, stored, identity, paired, state⟩
      exact ⟨row, stored, identity, paired, .inr ⟨rfl, state.mp phase⟩⟩

end Transactions

/-- The transactions of a paired store leave the columns of its pair. -/
theorem keepsPair_step {sha256 : List UInt8 → Digest} {w w' : Blobs.World} {e : Event} (tracked : Tracked sha256 w)
    (balanced : Balanced w) (step : Blobs.Step sha256 e w w') : KeepsPair w.tables w'.tables := by
  cases changed : e.change with
  | some change =>
      rcases step.moves tracked changed with ⟨_, _, result, moves⟩
      refine ⟨fun row stored => ?_⟩
      rcases (moves.charged balanced.distinct).store row stored with ⟨row', stored', identity, state, pairId, _⟩
      exact ⟨row', stored', identity, pairId, state⟩
  | none =>
      cases step with
      | read _ _ => exact ⟨fun row stored => ⟨row, stored, rfl, rfl, rfl⟩⟩
      | @reserve _ request _ _ _ op =>
          rcases (reserve_reserved op).written with ⟨_, _, _, t₁, t₂, _, _, rfl, store, subject, inserted⟩
          rcases updateStore_ok.mp store with ⟨before, found, _, rfl⟩
          rcases reserveSubject_ok subject with ⟨others, _⟩
          have kept := (insertBlob_ok inserted).1
          refine ⟨fun row stored => ?_⟩
          rw [found] at stored
          cases stored
          refine ⟨before.charge request.limit 0 1 (anonymousColumn request.capability.isSome), ?_, rfl, rfl, rfl⟩
          rw [kept, others]
      | detach op =>
          refine ⟨fun row stored => ⟨row, ?_, rfl, rfl, rfl⟩⟩
          rw [(detach_rows tracked op).2]
          exact stored
      | quarantine op =>
          rcases (quarantine_ok op).2 with rfl | ⟨before, found, rfl⟩
          · exact ⟨fun row stored => ⟨row, stored, rfl, rfl, rfl⟩⟩
          · refine ⟨fun row stored => ?_⟩
            rw [found] at stored
            cases stored
            exact ⟨_, rfl, rfl, rfl, rfl⟩
      | publish held op => cases changed
      | attach held attached op => cases changed
      | claim held op => cases changed
      | claimStopped held op => cases changed
      | recover held op => cases changed
      | resume held op => cases changed
      | delete held op => cases changed

/-! ## What a call does to the root -/

section Roots

variable {disk after found : StoreDisk} {file : Nat} {pair : PairId} {point next : Point}

/-- Every state of the root that names a marker names one that is sealed and synced. -/
structure Marked (disk : StoreDisk) : Prop where
  allocated : ∀ file, disk.next ≤ file → disk.files file = none
  stored : (disk.folders .root).Always fun names => ∀ file, names pairName = some file →
    ∃ pair, Stored disk file (text pair) 0o400

/-- No state of the root names this file as the marker. -/
def Unmarked (disk : StoreDisk) (file : Nat) : Prop :=
  (disk.folders .root).Always fun names => names pairName ≠ some file

theorem Unmarked.modify (h : Unmarked disk file) (change : File → File) : Unmarked (disk.modify file change) file := by
  unfold Unmarked
  rw [Disk.modify_folders]
  exact h

/-- What an installation knows between two calls. -/
def AtPoint (pair : PairId) (disk : StoreDisk) : Point → Prop
  | .writing file rest => ∃ found, disk.files file = some found ∧ found.data ++ rest = text pair
      ∧ disk.lookup .root pendingName = some file ∧ Unmarked disk file
  | .sealed file => ∃ found, disk.files file = some found ∧ found.data = text pair ∧ found.mode.now = 0o400
      ∧ disk.lookup .root pendingName = some file ∧ Unmarked disk file
  | .synced => ∃ file, disk.lookup .root pendingName = some file ∧ Stored disk file (text pair) 0o400
  | .settled => ∃ names, disk.folders .root = .settled names
  | .durable => ∃ file, Named disk .root pairName file ∧ Stored disk file (text pair) 0o400
  | _ => True

/-- No marker appears, and those that are there stay. -/
structure Kept (disk after : StoreDisk) : Prop where
  allocated : ∀ file, after.next ≤ file → after.files file = none
  names : (after.folders .root).Always fun names => names pairName = none
    ∨ ∃ earlier ∈ (disk.folders .root).values, names pairName = earlier pairName
  stored : ∀ file data, Stored disk file data 0o400 →
    (∃ names ∈ (disk.folders .root).values, names pairName = some file) → Stored after file data 0o400
  named : ∀ file, Named disk .root pairName file → Named after .root pairName file

theorem Kept.marked (kept : Kept disk after) (h : Marked disk) : Marked after := by
  refine ⟨kept.allocated, fun names member file marker => ?_⟩
  rcases kept.names names member with none | ⟨earlier, before, same⟩
  · rw [none] at marker
    cases marker
  · rw [same] at marker
    rcases h.stored earlier before file marker with ⟨pair, stored⟩
    exact ⟨pair, kept.stored file _ stored ⟨earlier, before, marker⟩⟩

/-- A durable marker stays durable. -/
theorem Kept.durable (kept : Kept disk after) (named : Named disk .root pairName file) {data : List UInt8}
    (stored : Stored disk file data 0o400) :
    Named after .root pairName file ∧ Stored after file data 0o400 :=
  ⟨kept.named file named, kept.stored file data stored ⟨_, List.mem_cons_self, named.now⟩⟩

theorem Kept.loss (h : Marked disk) (loss : PowerLoss disk found) : Kept disk found := by
  refine ⟨loss.allocated h.allocated, ?_, fun file data stored _ => stored.loss loss, fun file named => named.loss loss⟩
  rcases loss.folders .root with ⟨names, settled, origin⟩
  rw [settled, Cell.always_settled]
  rcases origin pairName with ⟨earlier, member, same⟩
  exact .inr ⟨earlier, member, same⟩

/-- A new state of the root with another pending name. -/
theorem kept_pending (h : Marked disk) (value : Option Nat) : Kept disk (disk.setName .root pendingName value) := by
  refine ⟨h.allocated, ?_, fun _ _ stored _ => stored, fun file named => named.setName value (by decide)⟩
  unfold Disk.setName
  rw [Disk.write_folders, if_pos rfl, Cell.always_write]
  refine ⟨.inr ⟨_, List.mem_cons_self, Function.update_of_ne (by decide) _ _⟩, fun names member => .inr
    ⟨names, member, rfl⟩⟩

theorem Marked.below (h : Marked disk) (marker : ∃ names ∈ (disk.folders .root).values, names pairName = some file) :
    file < disk.next := by
  rcases marker with ⟨names, member, marker⟩
  rcases h.stored names member file marker with ⟨pair, stored⟩
  exact Disk.below h.allocated stored

theorem kept_create (h : Marked disk) {mode : Nat} (created : disk.create .root pendingName mode = some (file, after)) :
    Kept disk after := by
  rcases Disk.create_eq_some.mp created with ⟨_, _, rfl⟩
  have pending := kept_pending h (some disk.next)
  refine ⟨Disk.create_allocated created h.allocated, pending.names, ?_, pending.named⟩
  intro other data stored marker
  exact stored.kept (Function.update_of_ne (Nat.ne_of_lt (h.below marker)) _ _)

theorem kept_modify (h : Marked disk) (change : File → File) (unmarked : Unmarked disk file) :
    Kept disk (disk.modify file change) := by
  refine ⟨Disk.modify_allocated change h.allocated, ?_, ?_, ?_⟩
  · rw [Disk.modify_folders]
    exact fun names member => .inr ⟨names, member, rfl⟩
  · intro other data stored marker
    rcases marker with ⟨names, member, marker⟩
    refine stored.modify_of_ne change ?_
    rintro rfl
    exact unmarked names member marker
  · intro other named
    unfold Named
    rw [Disk.modify_folders]
    exact named

theorem kept_syncFile (h : Marked disk) (file : Nat) : Kept disk (disk.syncFile file) := by
  refine ⟨Disk.modify_allocated _ h.allocated, ?_, fun _ _ stored _ => stored.syncFile file, ?_⟩
  · unfold Disk.syncFile
    rw [Disk.modify_folders]
    exact fun names member => .inr ⟨names, member, rfl⟩
  · intro other named
    unfold Named Disk.syncFile
    rw [Disk.modify_folders]
    exact named

theorem kept_syncRoot (h : Marked disk) : Kept disk (disk.syncFolder .root) := by
  refine ⟨h.allocated, ?_, fun _ _ stored _ => stored, fun _ named => named.syncFolder .root⟩
  rw [Disk.syncFolder_folders, if_pos rfl]
  exact fun names member => .inr ⟨names, List.mem_cons.mpr (.inl (List.mem_singleton.mp member)), rfl⟩

theorem readMarker_some {name : String} {part : Bool} {bytes : List UInt8}
    (h : readMarker name part disk = .ok (some bytes)) : ∃ file found, disk.lookup .root name = some file
      ∧ disk.files file = some found ∧ found.data = bytes := by
  unfold readMarker at h
  split at h
  · cases h
  · rename_i file named
    simp only [need, check, bind_eq_ok, context_eq_ok] at h
    rcases h with ⟨found, here, _, _, _, _, _, _, _, _, _, _, same⟩
    cases same
    exact ⟨file, found, named, here, rfl⟩

/-- Each call of an installation keeps the markers that are there, and what it writes is sealed and
synced before it becomes one. -/
theorem installStep_marked (h : Marked disk) (at_ : AtPoint pair disk point)
    (step : InstallStep pair point disk next after) : Marked after ∧ AtPoint pair after next
      ∧ ∀ file data, Named disk .root pairName file → Stored disk file data 0o400 →
        Named after .root pairName file ∧ Stored after file data 0o400 := by
  cases step with
  | unlink unlinked =>
      rw [Disk.unlink_eq_some unlinked]
      have kept := kept_pending h none
      exact ⟨kept.marked h, trivial, fun _ _ named stored => kept.durable named stored⟩
  | syncUnlink =>
      have kept := kept_syncRoot h
      exact ⟨kept.marked h, trivial, fun _ _ named stored => kept.durable named stored⟩
  | @create _ _ file created =>
      have kept := kept_create h created
      refine ⟨kept.marked h, ?_, fun _ _ named stored => kept.durable named stored⟩
      rcases Disk.create_eq_some.mp created with ⟨_, rfl, rfl⟩
      refine ⟨_, Function.update_self _ _ _, List.nil_append _, ?_, ?_⟩
      · have named : (disk.setName .root pendingName (some disk.next)).lookup .root pendingName = some disk.next := by
          rw [Disk.lookup_setName, if_pos ⟨rfl, rfl⟩]
        exact named
      · intro names member marker
        rcases kept.names names member with none | ⟨earlier, before, same⟩
        · rw [none] at marker
          cases marker
        · rw [same] at marker
          exact absurd (h.below ⟨earlier, before, marker⟩) (Nat.lt_irrefl _)
  | @write _ file bytes rest =>
      rcases at_ with ⟨found, here, split, named, unmarked⟩
      have kept : Kept disk (disk.append file bytes) := kept_modify h _ unmarked
      refine ⟨kept.marked h, ?_, fun _ _ named stored => kept.durable named stored⟩
      refine ⟨_, Disk.modify_found _ here, ?_, (Disk.lookup_modify _).trans named, unmarked.modify _⟩
      rw [List.append_assoc]
      exact split
  | @chmod _ file =>
      rcases at_ with ⟨found, here, split, named, unmarked⟩
      have kept : Kept disk (disk.chmod file 0o400) := kept_modify h _ unmarked
      refine ⟨kept.marked h, ?_, fun _ _ named stored => kept.durable named stored⟩
      rw [List.append_nil] at split
      exact ⟨_, Disk.modify_found _ here, split, rfl, (Disk.lookup_modify _).trans named, unmarked.modify _⟩
  | @sync _ file =>
      rcases at_ with ⟨found, here, content, mode, named, unmarked⟩
      have kept := kept_syncFile h file
      refine ⟨kept.marked h, ⟨file, ?_, ?_⟩, fun _ _ named stored => kept.durable named stored⟩
      · exact (Disk.lookup_modify _).trans named
      · unfold Stored
        rw [Disk.syncFile, Disk.modify_found _ here, Cell.sync, mode, content]
  | rename renamed =>
      rcases at_ with ⟨file, pending, stored⟩
      rcases Disk.rename_eq_some renamed with ⟨moved, done⟩
      have same : moved = file := Option.some.inj (done.found.symm.trans pending)
      subst same
      have files : ∀ other data, Stored disk other data 0o400 → Stored after other data 0o400 :=
        fun other data stored => stored.kept (by rw [done.files])
      refine ⟨⟨?_, ?_⟩, trivial, fun other data named stored => ⟨named.rename done (by decide), files _ _ stored⟩⟩
      · rw [done.files, done.next]
        exact h.allocated
      · have folders := done.folders
        rw [if_pos rfl] at folders
        rw [folders, Disk.write_folders, if_pos rfl, Cell.always_write, ← folders]
        refine ⟨?_, fun names member other marker => ?_⟩
        · intro other marker
          have same : moved = other := by
            rw [Function.update_self] at marker
            exact Option.some.inj marker
          subst same
          exact ⟨pair, files _ _ stored⟩
        · rcases h.stored names member other marker with ⟨pair', stored'⟩
          exact ⟨pair', files _ _ stored'⟩
  | «open» named checked => exact ⟨h, trivial, fun _ _ named stored => ⟨named, stored⟩⟩
  | @syncFile _ file =>
      have kept := kept_syncFile h file
      exact ⟨kept.marked h, trivial, fun _ _ named stored => kept.durable named stored⟩
  | syncRoot =>
      have kept := kept_syncRoot h
      refine ⟨kept.marked h, ⟨(disk.folders .root).now, ?_⟩, fun _ _ named stored => kept.durable named stored⟩
      rw [Disk.syncFolder_folders, if_pos rfl]
      rfl
  | reread read =>
      rcases at_ with ⟨names, settled⟩
      rcases readMarker_some read with ⟨file, found, named, here, content⟩
      have marker : names pairName = some file := by
        unfold Disk.lookup at named
        rw [settled] at named
        exact named
      have member : names ∈ (disk.folders .root).values := by
        rw [settled]
        exact List.mem_cons_self
      rcases h.stored names member file marker with ⟨pair', stored⟩
      have same : text pair' = text pair := by
        unfold Stored at stored
        rw [here] at stored
        cases stored
        exact content
      rw [same] at stored
      refine ⟨h, ⟨file, ?_, stored⟩, fun _ _ named stored => ⟨named, stored⟩⟩
      unfold Named
      rw [settled, Cell.always_settled]
      exact marker

end Roots

/-! ## What holds between steps -/

section Runs

variable {uses : Nat → ObjectKey → Prop} {loss : StoreDisk → StoreDisk → Prop} {w w' : World}

/-- The row of a database names this directory, with this pair. -/
def Binds (t : BlobTables) (store : ObjectKey) (pair : PairId) : Prop :=
  ∃ row, t.store = some row ∧ row.identity = store.value ∧ row.pairId = pair.key.value

/-- The row of a database is paired with this directory. -/
def Paired (t : BlobTables) (store : ObjectKey) : Prop :=
  ∃ row, t.store = some row ∧ row.identity = store.value ∧ row.pairState = "paired"

/-- The marker of a pair, durable in a directory. -/
def Durable (disk : StoreDisk) (pairId : String) : Prop :=
  ∃ file pair, pair.key.value = pairId ∧ Named disk .root pairName file ∧ Stored disk file (text pair) 0o400

/-- What a process knows of its database and its directory. -/
def Stage.Sound (t : BlobTables) (d : Directory) : Stage → Prop
  | .starting => True
  | .observed o => o.store = d.identity
  | .prepared record => record.store = d.identity ∧ Binds t d.identity record.pair
  | .installing record point => Binds t d.identity record.pair ∧ AtPoint record.pair d.disk point
  | .ready => Paired t d.identity

/-- A paired row has its marker, and no other row has its pair. -/
structure Sound (w : World) : Prop where
  identity : ∀ i, (w.directories i).identity = i
  marked : ∀ i, Marked (w.directories i).disk
  pairs : ∀ a b row row', (w.databases a).store = some row → (w.databases b).store = some row' →
    row.pairId = row'.pairId → a = b
  durable : ∀ a i row, (w.databases a).store = some row → row.identity = (w.directories i).identity.value →
    row.pairState = "paired" → Durable (w.directories i).disk row.pairId
  processes : ∀ i p, w.processes i = some p → p.stage.Sound (w.databases p.database) (w.directories i)
  served : ∀ pair ∈ w.served, Paired (w.databases pair.1) (w.directories pair.2).identity

theorem Bare.marked {disk : StoreDisk} (h : Bare disk) : Marked disk := by
  refine ⟨h.allocated, fun names member file marker => ?_⟩
  rw [(h.names names member).1] at marker
  cases marker

theorem World.Initial.sound (h : w.Initial) : Sound w := by
  refine ⟨h.identity, fun i => (h.bare i).marked, ?_, ?_, ?_, ?_⟩
  · intro a b row row' stored
    rw [h.unpaired a] at stored
    cases stored
  · intro a i row stored
    rw [h.unpaired a] at stored
    cases stored
  · intro i p running
    rw [h.idle i] at running
    cases running
  · intro pair member
    rw [h.served] at member
    cases member

/-- What a database keeps: its row, its pair, and that it is paired. -/
def Forward (t t' : BlobTables) : Prop :=
  ∀ row, t.store = some row → ∃ row', t'.store = some row' ∧ row'.identity = row.identity
    ∧ row'.pairId = row.pairId ∧ (row.pairState = "paired" → row'.pairState = "paired")

theorem Forward.refl (t : BlobTables) : Forward t t := fun row stored => ⟨row, stored, rfl, rfl, id⟩

theorem Forward.binds {t t' : BlobTables} {store : ObjectKey} {pair : PairId} (h : Forward t t')
    (binds : Binds t store pair) : Binds t' store pair := by
  rcases binds with ⟨row, stored, identity, pairId⟩
  rcases h row stored with ⟨row', stored', identity', pairId', _⟩
  exact ⟨row', stored', identity'.trans identity, pairId'.trans pairId⟩

theorem Forward.paired {t t' : BlobTables} {store : ObjectKey} (h : Forward t t') (paired : Paired t store) :
    Paired t' store := by
  rcases paired with ⟨row, stored, identity, state⟩
  rcases h row stored with ⟨row', stored', identity', _, state'⟩
  exact ⟨row', stored', identity'.trans identity, state' state⟩

/-- Another process keeps what it knows while its directory is left alone. -/
theorem Stage.Sound.forward {t t' : BlobTables} {d d' : Directory} {stage : Stage} (h : stage.Sound t d)
    (forward : Forward t t') (identity : d'.identity = d.identity) (disk : d'.disk = d.disk) :
    stage.Sound t' d' := by
  cases stage with
  | starting => trivial
  | observed o => exact Eq.trans h identity.symm
  | prepared record => exact ⟨h.1.trans identity.symm, identity ▸ forward.binds h.2⟩
  | installing record point => exact ⟨identity ▸ forward.binds h.1, disk ▸ h.2⟩
  | ready =>
      unfold Stage.Sound
      rw [identity]
      exact forward.paired h

/-- A change of the world at one database and one directory. -/
structure Changes (w : World) (a : Nat) (i : ObjectKey) (w' : World) : Prop where
  databases : ∀ b, b ≠ a → w'.databases b = w.databases b
  directories : ∀ j, j ≠ i → w'.directories j = w.directories j
  processes : ∀ j, j ≠ i → w'.processes j = w.processes j
  identity : (w'.directories i).identity = (w.directories i).identity
  forward : Forward (w.databases a) (w'.databases a)

theorem Changes.identities {a : Nat} {i : ObjectKey} (h : Changes w a i w') (j : ObjectKey) :
    (w'.directories j).identity = (w.directories j).identity := by
  by_cases same : j = i
  · rw [same, h.identity]
  · rw [h.directories j same]

theorem Changes.forwards {a : Nat} {i : ObjectKey} (h : Changes w a i w') (b : Nat) :
    Forward (w.databases b) (w'.databases b) := by
  by_cases same : b = a
  · rw [same]
    exact h.forward
  · rw [h.databases b same]
    exact Forward.refl _

/-- A step is sound when it is at its own database, directory and process. -/
theorem Sound.change {a : Nat} {i : ObjectKey} (h : Sound w) (changes : Changes w a i w')
    (marked : Marked (w'.directories i).disk)
    (kept : ∀ file data, Named (w.directories i).disk .root pairName file →
      Stored (w.directories i).disk file data 0o400 →
        Named (w'.directories i).disk .root pairName file ∧ Stored (w'.directories i).disk file data 0o400)
    (pairs : ∀ row, (w'.databases a).store = some row → ∀ b, b ≠ a → ∀ row',
      (w.databases b).store = some row' → row.pairId ≠ row'.pairId)
    (paired : ∀ row, (w'.databases a).store = some row → row.pairState = "paired" →
      (∃ row', (w.databases a).store = some row' ∧ row'.identity = row.identity ∧ row'.pairId = row.pairId
        ∧ row'.pairState = "paired")
      ∨ row.identity = (w.directories i).identity.value ∧ Durable (w'.directories i).disk row.pairId)
    (process : ∀ p, w'.processes i = some p → p.stage.Sound (w'.databases p.database) (w'.directories i))
    (served : ∀ pair ∈ w'.served, pair ∈ w.served ∨ Paired (w'.databases pair.1) (w'.directories pair.2).identity) :
    Sound w' := by
  have durable : ∀ j pairId, Durable (w.directories j).disk pairId → Durable (w'.directories j).disk pairId := by
    rintro j pairId ⟨file, pair, same, named, stored⟩
    by_cases here : j = i
    · subst here
      rcases kept file _ named stored with ⟨named', stored'⟩
      exact ⟨file, pair, same, named', stored'⟩
    · rw [changes.directories j here]
      exact ⟨file, pair, same, named, stored⟩
  refine ⟨?_, ?_, ?_, ?_, ?_, ?_⟩
  · intro j
    rw [changes.identities j]
    exact h.identity j
  · intro j
    by_cases here : j = i
    · rw [here]
      exact marked
    · rw [changes.directories j here]
      exact h.marked j
  · intro b c row row' stored stored' same
    by_cases one : b = a
    · by_cases other : c = a
      · rw [one, other]
      · rw [one] at stored
        rw [changes.databases c other] at stored'
        exact absurd same (pairs row stored c other row' stored')
    · rw [changes.databases b one] at stored
      by_cases other : c = a
      · rw [other] at stored'
        exact absurd same.symm (pairs row' stored' b one row stored)
      · rw [changes.databases c other] at stored'
        exact h.pairs b c row row' stored stored' same
  · intro b j row stored identity state
    rw [changes.identities j] at identity
    by_cases one : b = a
    · subst one
      rcases paired row stored state with ⟨row', stored', identity', pairId, state'⟩ | ⟨identity', durable'⟩
      · rw [← pairId]
        exact durable j _ (h.durable b j row' stored' (identity'.trans identity) state')
      · rw [h.identity] at identity identity'
        have here : j = i := Files.ObjectKey.value_injective (identity.symm.trans identity')
        rw [here]
        exact durable'
    · rw [changes.databases b one] at stored
      exact durable j _ (h.durable b j row stored identity state)
  · intro j p running
    by_cases here : j = i
    · rw [here] at running ⊢
      exact process p running
    · rw [changes.processes j here] at running
      rw [changes.directories j here]
      exact (h.processes j p running).forward (changes.forwards p.database) rfl rfl
  · intro pair member
    rcases served pair member with before | now
    · rw [changes.identities]
      exact (changes.forwards pair.1).paired (h.served pair before)
    · exact now

/-! ## Steps -/

/-- A change of the process of a directory, and of nothing else. -/
theorem Sound.process {i : ObjectKey} {process : Option Process} (h : Sound w)
    (known : ∀ p, process = some p → p.stage.Sound (w.databases p.database) (w.directories i)) :
    Sound { w with processes := Function.update w.processes i process } := by
  refine ⟨h.identity, h.marked, h.pairs, h.durable, fun j p running => ?_, h.served⟩
  by_cases here : j = i
  · subst here
    simp only [Function.update_self] at running
    exact known p running
  · exact h.processes j p ((Function.update_of_ne here _ _).symm.trans running)

theorem Sound.setStage {i : ObjectKey} {a : Nat} {stage : Stage} (h : Sound w)
    (known : stage.Sound (w.databases a) (w.directories i)) : Sound (w.setStage i a stage) :=
  h.process fun _ same => by
    cases same
    exact known

theorem Sound.stop (h : Sound w) (i : ObjectKey) : Sound (w.stop i) :=
  h.process fun _ absurd => by cases absurd

/-- A transaction of the database of a process. -/
theorem Sound.transaction {a : Nat} {i : ObjectKey} {t : BlobTables} {process : Option Process} (h : Sound w)
    (forward : Forward (w.databases a) t)
    (pairs : ∀ row, t.store = some row → (∃ row', (w.databases a).store = some row' ∧ row'.pairId = row.pairId)
      ∨ ∀ b row', (w.databases b).store = some row' → row'.pairId ≠ row.pairId)
    (paired : ∀ row, t.store = some row → row.pairState = "paired" →
      (∃ row', (w.databases a).store = some row' ∧ row'.identity = row.identity ∧ row'.pairId = row.pairId
        ∧ row'.pairState = "paired")
      ∨ row.identity = (w.directories i).identity.value ∧ Durable (w.directories i).disk row.pairId)
    (known : ∀ p, process = some p → p.database = a ∧ p.stage.Sound t (w.directories i)) :
    Sound { (w.setDatabase a t) with processes := Function.update w.processes i process } := by
  have changed : (w.setDatabase a t).databases a = t := Function.update_self _ _ _
  refine h.change (a := a) (i := i) ⟨?_, fun _ _ => rfl, ?_, rfl, ?_⟩ (h.marked i) (fun _ _ named stored =>
    ⟨named, stored⟩)
    ?_ ?_ ?_ fun pair member => .inl member
  · intro b other
    exact Function.update_of_ne other _ _
  · intro j other
    exact Function.update_of_ne other _ _
  · rw [show ({ (w.setDatabase a t) with processes := Function.update w.processes i process } : World).databases a
      = t from changed]
    exact forward
  · intro row stored b other row' stored' same
    rcases pairs row (changed ▸ stored) with ⟨before, stored'', same'⟩ | fresh
    · exact other (h.pairs b a row' before stored' stored'' (same.symm.trans same'.symm))
    · exact fresh b row' stored' same.symm
  · intro row stored state
    exact paired row (changed ▸ stored) state
  · intro p running
    simp only [Function.update_self] at running
    rcases known p running with ⟨same, sound⟩
    rw [same, show ({ (w.setDatabase a t) with processes := Function.update w.processes i process } : World).databases a
      = t from changed]
    exact sound

/-- What the first transaction of a start keeps, and what it lets its process know. -/
theorem Sound.prepares {a : Nat} {i : ObjectKey} {o : PairObservation} {fresh : PairId} {prepared : PairPreparation}
    {t : BlobTables}
    {process : Option Process} (h : Sound w) (running : w.processes i = some ⟨a, .observed o⟩) (new : w.Fresh fresh)
    (prepares : Prepares o fresh (w.databases a) prepared t)
    (next : ∀ p, process = some p → p = ⟨a, PairPreparation.stage prepared⟩) :
    Sound { (w.setDatabase a t) with processes := Function.update w.processes i process } := by
  have here : o.store = (w.directories i).identity := h.processes i _ running
  cases prepares with
  | @found record step read decided =>
      rcases decide_some decided with ⟨store, decision⟩
      rcases pairRecord_some read with ⟨row, stored, identity, paired, state⟩
      refine h.transaction (Forward.refl _) (fun row stored => .inl ⟨row, stored, rfl⟩)
        (fun row stored state => .inl ⟨row, stored, rfl, rfl, state⟩) fun p same => ?_
      rw [next p same]
      refine ⟨rfl, ?_⟩
      rw [store, here] at identity
      cases decision with
      | ready phase _ _ => exact ⟨row, stored, identity, state.mp phase⟩
      | acknowledge _ _ _ _ => exact ⟨store.trans here, row, stored, identity, paired⟩
      | install _ _ _ _ => exact ⟨store.trans here, row, stored, identity, paired⟩
  | inserted none _ _ _ _ =>
      refine h.transaction ?_ ?_ ?_ fun p same => ?_
      · intro row stored
        rw [none] at stored
        cases stored
      · intro row stored
        cases stored
        exact .inr fun b row' stored' => new b row' stored'
      · intro row stored state
        cases stored
        exact absurd state (by decide : ("pending" : String) ≠ "paired")
      · rw [next p same]
        exact ⟨rfl, here, _, rfl, congrArg ObjectKey.value here, rfl⟩

/-- What the acknowledgement keeps: the marker of the pair is durable. -/
theorem Sound.acknowledges {a : Nat} {i : ObjectKey} {record : PairRecord} {t : BlobTables}
    {process : Option Process} (h : Sound w)
    (running : w.processes i = some ⟨a, .installing record .durable⟩)
    (acknowledged : acknowledgePair (w.directories i).identity record.pair (w.databases a) = .ok t)
    (next : ∀ p, process = some p → p = ⟨a, .ready⟩) :
    Sound { (w.setDatabase a t) with processes := Function.update w.processes i process } := by
  rcases h.processes i _ running with ⟨_, file, named, stored⟩
  rcases acknowledgePair_ok acknowledged with ⟨row, stored', identity, paired, rfl | ⟨rfl, state⟩⟩
  · refine h.transaction ?_ ?_ ?_ fun p same => ?_
    · intro before found
      rw [stored'] at found
      cases found
      exact ⟨pairedRow row, rfl, rfl, rfl, fun _ => rfl⟩
    · intro after found
      cases found
      exact .inl ⟨row, stored', rfl⟩
    · intro after found _
      cases found
      exact .inr ⟨identity, file, record.pair, paired.symm, named, stored⟩
    · rw [next p same]
      exact ⟨rfl, pairedRow row, rfl, identity, rfl⟩
  · refine h.transaction (Forward.refl _) (fun row stored => .inl ⟨row, stored, rfl⟩)
      (fun row stored state => .inl ⟨row, stored, rfl, rfl, state⟩) fun p same => ?_
    rw [next p same]
    exact ⟨rfl, row, stored', identity, state⟩

theorem observePair_store {d : Directory} {o : PairObservation} (h : observePair d = .ok o) : o.store = d.identity := by
  simp only [observePair, check, bind_eq_ok] at h
  rcases h with ⟨_, _, _, _, _, _, _, _, _, _, same⟩
  cases same
  rfl

theorem atPoint_first {pending : Option (List UInt8)} {step : PairStep} {point : Point}
    (h : firstPoint pending step = some point) (pair : PairId) (disk : StoreDisk) : AtPoint pair disk point := by
  unfold firstPoint at h
  split at h
  · cases h
    split <;> trivial
  · cases h
    trivial
  · cases h
  · cases h

/-- What every step keeps. -/
theorem sound_step (powerLoss : ∀ disk found, loss disk found → PowerLoss disk found) (h : Sound w)
    (step : Step uses loss w w') : Sound w' := by
  cases step with
  | start idle used => exact h.setStage trivial
  | observe running observed => exact h.setStage (observePair_store observed)
  | prepare running new prepared =>
      exact h.prepares running new (preparePair_ok prepared) fun p same => (Option.some.inj same).symm
  | prepareUnknown running new prepared =>
      exact h.prepares running new (preparePair_ok prepared) fun p absurd => by cases absurd
  | begin running observed decided first =>
      exact h.setStage ⟨(h.processes _ _ running).2, atPoint_first first _ _⟩
  | @install i a record point next disk running called =>
      rcases h.processes _ _ running with ⟨binds, at_⟩
      rcases installStep_marked (h.marked i) at_ called with ⟨marked, at_', kept⟩
      refine h.change (a := a) (i := i) ⟨fun _ _ => rfl, ?_, ?_, ?_, Forward.refl _⟩ ?_ ?_ ?_ ?_ ?_
        fun pair member => .inl member
      all_goals simp only [World.setStage, World.setDirectory, Function.update_self]
      · exact fun j other => Function.update_of_ne other _ _
      · exact fun j other => Function.update_of_ne other _ _
      · exact marked
      · exact kept
      · exact fun row stored b other row' stored' same => other (h.pairs b a row' row stored' stored same.symm)
      · exact fun row stored state => .inl ⟨row, stored, rfl, rfl, state⟩
      · intro p same
        cases same
        exact ⟨binds, at_'⟩
  | acknowledge running acknowledged =>
      exact h.acknowledges running acknowledged fun p same => (Option.some.inj same).symm
  | acknowledgeUnknown running acknowledged =>
      exact h.acknowledges running acknowledged fun p absurd => by cases absurd
  | @serve i a t partials objects running kept _ _ =>
      have ready : Paired (w.databases a) (w.directories i).identity := h.processes _ _ running
      have forward : Forward (w.databases a) t := by
        intro row stored
        rcases kept.kept row stored with ⟨row', stored', identity, pairId, state⟩
        exact ⟨row', stored', identity, pairId, fun paired => state.trans paired⟩
      have back : ∀ row, t.store = some row → ∃ row', (w.databases a).store = some row'
          ∧ row'.identity = row.identity ∧ row'.pairId = row.pairId ∧ row'.pairState = row.pairState := by
        intro row stored
        rcases ready with ⟨before, stored', _, _⟩
        rcases kept.kept before stored' with ⟨row', same, identity, pairId, state⟩
        rw [stored] at same
        cases same
        exact ⟨before, stored', identity.symm, pairId.symm, state.symm⟩
      refine h.change (a := a) (i := i) ⟨?_, ?_, fun _ _ => rfl, ?_, ?_⟩ ?_ ?_ ?_ ?_ ?_ ?_
      all_goals simp only [World.setDatabase, World.setDirectory, Function.update_self]
      · exact fun j other => Function.update_of_ne other _ _
      · exact fun j other => Function.update_of_ne other _ _
      · exact forward
      · exact h.marked i
      · exact fun _ _ named stored => ⟨named, stored⟩
      · intro row stored b other row' stored' same
        rcases back row stored with ⟨before, stored'', _, pairId, _⟩
        exact other (h.pairs b a row' before stored' stored'' (same.symm.trans pairId.symm))
      · intro row stored state
        rcases back row stored with ⟨before, stored', identity, pairId, state'⟩
        exact .inl ⟨before, stored', identity, pairId, state'.trans state⟩
      · intro p same
        rw [running] at same
        cases same
        rw [Function.update_self]
        exact forward.paired ready
      · intro pair member
        rcases List.mem_cons.mp member with rfl | before
        · refine .inr ?_
          rw [Function.update_self, Function.update_self]
          exact forward.paired ready
        · exact .inl before
  | stop => exact h.stop _
  | @powerLoss i found partials objects lost _ _ =>
      have kept := Kept.loss (h.marked i) (powerLoss _ _ lost)
      refine h.change (a := 0) (i := i) ⟨fun _ _ => rfl, ?_, ?_, ?_, Forward.refl _⟩ ?_ ?_ ?_ ?_ ?_
        fun pair member => .inl member
      all_goals simp only [World.stop, World.setDirectory, Function.update_self]
      · exact fun j other => Function.update_of_ne other _ _
      · exact fun j other => Function.update_of_ne other _ _
      · exact kept.marked (h.marked i)
      · exact fun file data named stored => kept.durable named stored
      · exact fun row stored b other row' stored' same => other (h.pairs b 0 row' row stored' stored same.symm)
      · exact fun row stored state => .inl ⟨row, stored, rfl, rfl, state⟩
      · intro p absurd
        cases absurd

theorem sound_invariant (powerLoss : ∀ disk found, loss disk found → PowerLoss disk found) :
    (pairSystem uses loss).Invariant Sound where
  initial _ h := h.sound
  step _ _ _ sound step := sound_step powerLoss sound step

end Runs

/-! ## One database for each directory -/

section Exclusive

variable {uses : Nat → ObjectKey → Prop} {w w' : World} {a b : Nat} {i j : ObjectKey}

/-- Two databases that are paired with one directory are one. -/
theorem Sound.exclusive (h : Sound w) (one : Paired (w.databases a) (w.directories i).identity)
    (other : Paired (w.databases b) (w.directories i).identity) : a = b := by
  rcases one with ⟨row, stored, identity, state⟩
  rcases other with ⟨row', stored', identity', state'⟩
  rcases h.durable a i row stored identity state with ⟨file, pair, paired, named, content⟩
  rcases h.durable b i row' stored' identity' state' with ⟨file', pair', paired', named', content'⟩
  have files : file = file' := Option.some.inj (named.lookup.symm.trans named'.lookup)
  subst files
  unfold Stored at content content'
  rw [content] at content'
  have texts : text pair = text pair' := (File.mk.inj (Option.some.inj content')).1
  refine h.pairs a b row row' stored stored' ?_
  rw [← paired, ← paired', text_inj texts]

/-- Two directories that a database is paired with are one. -/
theorem Sound.located (h : Sound w) (here : Paired (w.databases a) (w.directories i).identity)
    (there : Paired (w.databases a) (w.directories j).identity) : i = j := by
  rcases here with ⟨row, stored, identity, _⟩
  rcases there with ⟨row', stored', identity', _⟩
  rw [stored] at stored'
  cases stored'
  rw [h.identity] at identity identity'
  exact Files.ObjectKey.value_injective (identity.symm.trans identity')

theorem step_served {loss : StoreDisk → StoreDisk → Prop} (step : Step uses loss w w') {pair : Nat × ObjectKey}
    (member : pair ∈ w.served) : pair ∈ w'.served := by
  cases step with
  | serve running kept _ _ => exact List.mem_cons_of_mem _ member
  | start | observe | prepare | prepareUnknown | begin | install | acknowledge | acknowledgeUnknown | stop
  | powerLoss => exact member

end Exclusive

end Pairs
end Blobs
end Noxide
