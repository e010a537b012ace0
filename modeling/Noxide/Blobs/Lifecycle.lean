import Noxide.Blobs.Tables
import Noxide.Library.Transition

/-!
# Blob lifecycles

Any number of actors hold copies of rows that were current at some time, and apply
transactions to them in any order.  The generation fence makes every transaction that
changes a row change its current version.

Main results:

- Theorem {lit}`Tracked.step`: the stored columns are those of the rows that the
  operations computed, of consistent shape, and a held copy is current or superseded.
- Theorem {lit}`Step.moves`: what one transaction does to each row.
-/

namespace Noxide
namespace Blobs

open Checked

/-! ## Transitions keep rows consistent -/

section Consistency

variable {sha256 : List UInt8 → Digest}

theorem checkHandle_ok {m : Metadata} : checkHandle sha256 m = .ok () ↔
    (m.state ≠ .deleted → ∀ digest, m.digest = some digest →
      m.expectedHandle sha256 m.bytes digest = .ok m.handle) := by
  unfold checkHandle
  cases state : m.state <;> cases content : m.digest <;>
    simp [check, bind_eq_ok, ensure_eq_ok]

theorem Consistent.signed {row : BlobRow} (h : Consistent sha256 row) :
    row.metadata.state ≠ .deleted → ∀ digest, row.metadata.digest = some digest →
      row.metadata.expectedHandle sha256 row.metadata.bytes digest = .ok row.metadata.handle :=
  checkHandle_ok.mp h.handle

/-- A reservation makes a consistent row. -/
theorem consistent_reserved {request : Reservation} {fresh : FreshIdentity} {expires : Timestamp}
    (pos : 0 < request.limit) (small : request.limit ≤ maxUploadBytes)
    (lifetime : request.now.checkedAdd stageLifetimeMillis = .ok expires) :
    Consistent sha256 (request.row fresh expires) := by
  have added := Timestamp.checkedAdd_ok.mp lifetime
  refine ⟨?_, ?_, small, Nat.zero_le _, ensure_pos ⟨pos, rfl, rfl, rfl⟩, rfl⟩
  · dsimp only [Reservation.row]
    rw [added]
  · intro association owner
    cases owner

theorem consistent_staged {row : BlobRow} {expected : Generation} {object : DurableObject}
    {now : Timestamp} {binding : UploadBinding} {t : Transition} (h : Consistent sha256 row)
    (staged : row.metadata.stage sha256 expected object now binding = .ok t) :
    Consistent sha256 { row with metadata := t.next } := by
  rcases stage_ok staged with ⟨advances, _, sized, _, unowned, fits, _, handle, next⟩
  have bytes : t.next.bytes = object.bytes := by rw [next]
  have digest : t.next.digest = some object.sha256 := by rw [next]
  refine ⟨?_, ?_, ?_, ?_, ?_, ?_⟩
  · rw [advances.expires]
    exact h.lifetime
  · intro association owner
    rw [next] at owner
    rw [unowned] at owner
    cases owner
  · rw [next]
    exact Nat.zero_le _
  · rw [bytes]
    omega
  · rw [next]
    exact ensure_pos ⟨rfl, rfl, unowned⟩
  · rw [checkHandle_ok]
    intro _ other same
    rw [digest] at same
    cases same
    rw [next]
    exact handle

theorem consistent_attached {row : BlobRow} {expected : Generation} {now : Timestamp}
    {binding : UploadBinding} {handle : UploadHandle} {association : Association} {t : Transition}
    (h : Consistent sha256 row)
    (attached : row.metadata.attach expected now binding handle association = .ok t) :
    Consistent sha256 { row with metadata := t.next } := by
  rcases attach_ok attached with ⟨advances, staged, _, valid, hashed, _, next⟩
  have shape := h.shape
  have content := h.signed
  simp only [checkShape, staged, check, ensure_eq_ok] at shape
  refine ⟨?_, ?_, ?_, ?_, ?_, ?_⟩
  · rw [advances.expires]
    exact h.lifetime
  · intro other owner
    rw [next] at owner
    cases owner
    exact valid
  · rw [next]
    exact h.reserved
  · rw [next]
    exact h.bytes
  · rw [next]
    exact ensure_pos ⟨shape.1, hashed, rfl⟩
  · rw [checkHandle_ok, next]
    intro _ digest same
    exact content (by rw [staged]; nofun) digest same

theorem consistent_unreferenced {row : BlobRow} {expected : Generation} {association : Association}
    {t : Transition} (h : Consistent sha256 row)
    (unreferenced : row.metadata.unreference expected association = .ok t) :
    Consistent sha256 { row with metadata := t.next } := by
  rcases unreference_ok unreferenced with ⟨advances, attached, _, _, next⟩
  have shape := h.shape
  have content := h.signed
  simp only [checkShape, attached, check, ensure_eq_ok] at shape
  refine ⟨?_, ?_, ?_, ?_, ?_, ?_⟩
  · rw [advances.expires]
    exact h.lifetime
  · rw [next]
    exact h.owned
  · rw [next]
    exact h.reserved
  · rw [next]
    exact h.bytes
  · rw [next]
    exact ensure_pos shape
  · rw [checkHandle_ok, next]
    intro _ digest same
    exact content (by rw [attached]; nofun) digest same

/-- Any live row has the shape of a claimed one. -/
theorem shape_deleting {m : Metadata} (h : checkShape m = .ok ()) (live : m.state ≠ .deleted) :
    m.Unsized ∨ m.reserved = 0 ∧ m.digest.isSome = true := by
  unfold checkShape at h
  cases state : m.state with
  | uploading =>
      rw [state] at h
      exact Or.inl (ensure_eq_ok.mp h)
  | staged =>
      rw [state] at h
      exact Or.inr ⟨(ensure_eq_ok.mp h).1, (ensure_eq_ok.mp h).2.1⟩
  | attached =>
      rw [state] at h
      exact Or.inr ⟨(ensure_eq_ok.mp h).1, (ensure_eq_ok.mp h).2.1⟩
  | unreferenced =>
      rw [state] at h
      exact Or.inr ⟨(ensure_eq_ok.mp h).1, (ensure_eq_ok.mp h).2.1⟩
  | deleting =>
      rw [state] at h
      exact ensure_eq_ok.mp h
  | deleted => exact absurd state live

theorem consistent_claimed {row : BlobRow} {t : Transition} {claim : GcClaim} {now : Timestamp}
    {process : ObjectKey} (h : Consistent sha256 row) (claims : Claims row.metadata t claim)
    (live : row.metadata.state ≠ .deleted) :
    Consistent sha256 { row with metadata := t.next, claimed := now, process := process } := by
  have content := h.signed
  have shape := shape_deleting h.shape live
  have next := claims.next
  refine ⟨?_, ?_, ?_, ?_, ?_, ?_⟩
  · rw [claims.advances.expires]
    exact h.lifetime
  · rw [next]
    exact h.owned
  · rw [next]
    exact h.reserved
  · rw [next]
    exact h.bytes
  · rw [next]
    exact ensure_pos shape
  · rw [checkHandle_ok, next]
    intro _ digest same
    exact content live digest same

theorem consistent_deleted {row : BlobRow} {claim : GcClaim} {t : Transition} {now : Timestamp}
    (h : Consistent sha256 row) (deleted : row.metadata.deleted claim = .ok t) :
    Consistent sha256 { row with metadata := t.next, claimed := now } := by
  rcases deleted_ok deleted with ⟨advances, _, _, next⟩
  refine ⟨?_, ?_, ?_, ?_, ?_, ?_⟩
  · rw [advances.expires]
    exact h.lifetime
  · rw [next]
    exact h.owned
  · rw [next]
    exact Nat.zero_le _
  · rw [next]
    exact Nat.zero_le _
  · rw [next]
    exact ensure_pos ⟨rfl, rfl⟩
  · rw [checkHandle_ok, next]
    intro live
    exact absurd rfl live

end Consistency

/-! ## Actors -/

def BlobRow.slot (row : BlobRow) : Commitment := row.metadata.binding.slot

/-- The stored tables, the rows that the operations computed for them, and the copies
of rows that any actor holds. -/
structure World where
  tables : BlobTables
  rows : List BlobRow
  held : List BlobRow

/-- An operation left these tables and computed a new version of a row. -/
def World.put (w : World) (next : BlobRow) (t : BlobTables) : World where
  tables := t
  rows := Table.update (fun row => row.slot = next.slot) (fun _ => next) w.rows
  held := next :: w.held

/-- The attachment of a row to this owner. -/
def BlobRow.ownedBy (row : BlobRow) (resource id : I64) (incarnation : String) : Option Association :=
  row.metadata.association.filter fun association =>
    row.metadata.state = .attached ∧ association.resource.val = resource.val
      ∧ association.id.val = id.val ∧ association.incarnation = incarnation

/-- The row after its owner is deleted. -/
def BlobRow.unreferenced (row : BlobRow) (resource id : I64) (incarnation : String) : BlobRow :=
  match row.ownedBy resource id incarnation with
  | none => row
  | some association =>
      match row.metadata.unreference row.metadata.generation association with
      | .ok transition => { row with metadata := transition.next }
      | .error _ => row

/-- A transaction that committed, or a read, with the rows it changed. -/
inductive Event where
  | read (row : BlobRow)
  | reserve (row : BlobRow)
  | publish (row next : BlobRow)
  | attach (row next : BlobRow)
  | detach (resource id : I64) (incarnation : String)
  | claim (row next : BlobRow) (process : ObjectKey)
  | claimStopped (row next : BlobRow) (process : ObjectKey) (stopped : StoppedIo) (now : Timestamp)
  | recover (row next : BlobRow) (process : ObjectKey)
  | resume (row next : BlobRow) (process : ObjectKey) (stopped : Option StoppedIo)
  | delete (row next : BlobRow)
  | quarantine (key : ObjectKey) (bytes paths : Nat)

/-- One committed transaction.  An operation on a row takes any copy an actor holds. -/
inductive Step (sha256 : List UInt8 → Digest) : Event → World → World → Prop where
  | read {w : World} {c : BlobColumns Int} {row : BlobRow} : c ∈ w.tables.blobs →
      (c.select >>= BlobRow.parse sha256) = .ok row →
        Step sha256 (.read row) w { w with held := row :: w.held }
  | reserve {w : World} {request : Reservation} {fresh : FreshIdentity} {row : BlobRow}
      {t : BlobTables} : reserve sha256 request fresh w.tables = .ok (.created row, t) →
        Step sha256 (.reserve row) w ⟨t, w.rows ++ [row], row :: w.held⟩
  | publish {w : World} {row next : BlobRow} {object : DurableObject} {now : Timestamp}
      {store : ObjectKey} {t : BlobTables} : row ∈ w.held →
        publish sha256 row object now store w.tables = .ok (next, t) →
          Step sha256 (.publish row next) w (w.put next t)
  | attach {w : World} {row : BlobRow} {association : Association} {now : Timestamp}
      {transition : Transition} {blob : BlobRef} {t : BlobTables} : row ∈ w.held →
        row.metadata.attach row.metadata.generation now row.metadata.binding row.metadata.handle
          association = .ok transition →
          associate row association now w.tables = .ok (blob, t) →
            Step sha256 (.attach row { row with metadata := transition.next }) w
              (w.put { row with metadata := transition.next } t)
  | detach {w : World} {resource id : I64} {incarnation : String}
      {expected : List (String × BlobRef)} {t : BlobTables} :
        detachResource resource id incarnation expected w.tables = .ok t →
          Step sha256 (.detach resource id incarnation) w
            ⟨t, w.rows.map (·.unreferenced resource id incarnation), w.held⟩
  | claim {w : World} {row next : BlobRow} {process : ObjectKey} {now : Timestamp} {gc : GcClaim}
      {t : BlobTables} : row ∈ w.held →
        claimCollectable row process now w.tables = .ok ((next, gc), t) →
          Step sha256 (.claim row next process) w (w.put next t)
  | claimStopped {w : World} {row next : BlobRow} {process : ObjectKey} {now : Timestamp}
      {stopped : StoppedIo} {gc : GcClaim} {t : BlobTables} : row ∈ w.held →
        claimStoppedUpload row process now stopped w.tables = .ok ((next, gc), t) →
          Step sha256 (.claimStopped row next process stopped now) w (w.put next t)
  | recover {w : World} {row next : BlobRow} {fence : ProcessFence} {now : Timestamp} {gc : GcClaim}
      {t : BlobTables} : row ∈ w.held →
        recoverPriorUpload row fence now w.tables = .ok ((next, gc), t) →
          Step sha256 (.recover row next fence.process) w (w.put next t)
  | resume {w : World} {row next : BlobRow} {fence : ProcessFence} {now : Timestamp}
      {stopped : Option StoppedIo} {gc : GcClaim} {t : BlobTables} : row ∈ w.held →
        resumeDeletion row fence now stopped w.tables = .ok ((next, gc), t) →
          Step sha256 (.resume row next fence.process stopped) w (w.put next t)
  | delete {w : World} {row next : BlobRow} {gc : GcClaim} {store : ObjectKey} {now : Timestamp}
      {t : BlobTables} : row ∈ w.held → deleted row gc store now w.tables = .ok (next, t) →
        Step sha256 (.delete row next) w (w.put next t)
  | quarantine {w : World} {key store process : ObjectKey} {bytes paths : Nat} {now : Timestamp}
      {t : BlobTables} : quarantineUnknown key bytes paths store process now w.tables = .ok t →
        Step sha256 (.quarantine key bytes paths) w { w with tables := t }

/-! ## The generation fence -/

/-- The stored columns are those of the computed rows, of consistent shape, and every held
copy is the current version of its row or an older one. -/
structure Tracked (sha256 : List UInt8 → Digest) (w : World) : Prop where
  columns : w.tables.blobs = w.rows.map BlobRow.columns
  slots : (w.rows.map BlobRow.slot).Nodup
  consistent : ∀ row ∈ w.rows, Consistent sha256 row
  held : ∀ copy ∈ w.held, ∃ row ∈ w.rows, row.slot = copy.slot
    ∧ (copy.metadata.generation.value < row.metadata.generation.value ∨ copy = row)

/-- What an update under a copy's generation replaced. -/
structure Fenced (w : World) (copy next : BlobRow) (t t' : BlobTables) : Prop where
  replaced : Table.Replaced copy next w.rows (w.put next t').rows
  columns : t'.blobs = (w.put next t').rows.map BlobRow.columns
  others : t' = { t with blobs := t'.blobs }

section Fence

variable {sha256 : List UInt8 → Digest} {w : World} {copy next : BlobRow} {t t' : BlobTables}

theorem Commitment.ext {left right : Commitment} (h : left.value = right.value) : left = right := by
  cases left
  cases right
  cases h
  rfl

/-- A row with a copy's slot and generation is that copy. -/
theorem Tracked.current (h : Tracked sha256 w) (held : copy ∈ w.held) {row : BlobRow}
    (member : row ∈ w.rows) (slot : row.slot = copy.slot)
    (generation : row.metadata.generation.value = copy.metadata.generation.value) : row = copy := by
  rcases h.held copy held with ⟨current, here, same, older | equal⟩
  · have found := Table.eq_of_key _ h.slots here member (same.trans slot.symm)
    rw [found, generation] at older
    omega
  · have found := Table.eq_of_key _ h.slots here member (same.trans slot.symm)
    rw [equal, found]

/-- An update under the generation fence replaces the current version of the copy. -/
theorem Tracked.fenced {text : String} {condition : BlobColumns Int → Bool}
    {change : BlobColumns Int → BlobColumns Int} (h : Tracked sha256 w) (held : copy ∈ w.held)
    (same : t.blobs = w.tables.blobs) (updated : updateBlobs text 1 condition change t = .ok t')
    (fence : ∀ c, condition c = true → c.slot = copy.slot.value
      ∧ c.generation = copy.metadata.generation.value)
    (image : change copy.columns = next.columns) (slot : next.slot = copy.slot) :
    Fenced w copy next t t' := by
  rcases updateBlobs_one updated with ⟨c, holds, replaced, others, _⟩
  rw [same, h.columns] at replaced
  have find : ∀ row ∈ w.rows, row.columns = c → row = copy := by
    intro row member found
    rcases fence c holds with ⟨slots, generations⟩
    refine h.current held member (Commitment.ext ?_) ?_
    · rw [← slots, ← found]
      rfl
    · rw [← found] at generations
      exact Int.ofNat_inj.mp generations
  rcases List.mem_map.mp replaced.mem_before with ⟨row, member, found⟩
  have current := find row member found
  rw [← found, current, image] at replaced
  rcases replaced.of_map rfl with ⟨before, rows', columns, moved, blobs⟩
  have before_copy : before = copy := by
    refine find before moved.mem_before ?_
    rw [columns, ← found, current]
  rw [before_copy] at moved
  have put : rows' = (w.put next t').rows := moved.eq_update slot h.slots
  rw [put] at moved blobs
  exact ⟨moved, blobs, others⟩

/-- A fenced update to a consistent later version keeps the world tracked. -/
theorem Tracked.put (h : Tracked sha256 w) (fenced : Fenced w copy next t t')
    {t'' : BlobTables} (blobs : t''.blobs = t'.blobs) (slot : next.slot = copy.slot)
    (consistent : Consistent sha256 next)
    (later : copy.metadata.generation.value < next.metadata.generation.value) :
    Tracked sha256 (w.put next t'') := by
  have replaced : Table.Replaced copy next w.rows (w.put next t'').rows := fenced.replaced
  refine ⟨?_, ?_, ?_, ?_⟩
  · exact blobs.trans fenced.columns
  · rw [replaced.map_key BlobRow.slot slot]
    exact h.slots
  · intro row member
    rcases replaced.mem member with rfl | old
    · exact consistent
    · exact h.consistent row old
  · intro other member
    rcases List.mem_cons.mp member with rfl | member
    · exact ⟨other, replaced.mem_after, rfl, Or.inr rfl⟩
    · rcases h.held other member with ⟨row, here, same, order⟩
      rcases replaced.mem_old here with rfl | kept
      · refine ⟨next, replaced.mem_after, slot.trans same, Or.inl ?_⟩
        rcases order with older | rfl
        · omega
        · exact later
      · exact ⟨row, kept, same, order⟩

end Fence

/-! ## What each operation does -/

/-- The subject rows after a charge to one subject; an empty row may go. -/
structure SubjectsMoved (subject : Commitment) (delta : QuotaDelta)
    (subjects subjects' : List SubjectRow) : Prop where
  each : ∀ s' ∈ subjects', ∃ s ∈ subjects, s'.subject = s.subject ∧ s'.anonymous = s.anonymous
    ∧ (s.subject = subject.value → s'.reservedBytes = s.reservedBytes + delta.reserved
      ∧ s'.usedBytes = s.usedBytes + delta.used ∧ s'.objects = s.objects + delta.objects)
    ∧ (s.subject ≠ subject.value → s' = s)
  kept : ∀ s ∈ subjects, (∃ s' ∈ subjects', s'.subject = s.subject)
    ∨ s.subject = subject.value ∧ s.objects + delta.objects = 0
  distinct : (subjects.map (·.subject)).Nodup → (subjects'.map (·.subject)).Nodup

/-- The charge of a row moves by {lit}`delta` in every counter. -/
structure Charged (row : BlobRow) (delta : QuotaDelta) (t t' : BlobTables) : Prop where
  store : ∀ s, t.store = some s → ∃ s', t'.store = some s' ∧ s'.identity = s.identity
    ∧ s'.pairState = s.pairState ∧ s'.pairId = s.pairId
    ∧ s'.reservedBytes = s.reservedBytes + delta.reserved
    ∧ s'.usedBytes = s.usedBytes + delta.used ∧ s'.objects = s.objects + delta.objects
    ∧ s'.anonymousReservedBytes
      = s.anonymousReservedBytes + delta.reserved * anonymousColumn row.anonymous
    ∧ s'.anonymousUsedBytes = s.anonymousUsedBytes + delta.used * anonymousColumn row.anonymous
    ∧ s.serial ≤ s'.serial
  subjects : SubjectsMoved row.metadata.binding.subject delta t.subjects t'.subjects
  orphans : t'.orphans = t.orphans

theorem subjectsMoved_zero {subject : Commitment} {subjects : List SubjectRow} :
    SubjectsMoved subject .zero subjects subjects := by
  refine ⟨?_, fun s member => Or.inl ⟨s, member, rfl⟩, id⟩
  intro s member
  refine ⟨s, member, rfl, rfl, ?_, fun _ => rfl⟩
  intro _
  simp only [QuotaDelta.zero, Int.add_zero, and_self]

/-- Where only blob rows change nothing is charged. -/
theorem charged_zero {row : BlobRow} {t t' : BlobTables} (h : t' = { t with blobs := t'.blobs }) :
    Charged row .zero t t' := by
  have store : t'.store = t.store := by rw [h]
  have subjects : t'.subjects = t.subjects := by rw [h]
  have orphans : t'.orphans = t.orphans := by rw [h]
  refine ⟨?_, ?_, orphans⟩
  · intro s found
    refine ⟨s, store.trans found, ?_⟩
    simp [QuotaDelta.zero]
  · rw [subjects]
    exact subjectsMoved_zero

/-- A charge to the one row of a subject. -/
theorem subjectsMoved_charge {subject : Commitment} {subjects subjects' : List SubjectRow}
    {s : SubjectRow} {delta : QuotaDelta} (own : s.subject = subject.value)
    (distinct : (subjects.map (·.subject)).Nodup)
    (h : Table.Replaced s (s.charge delta.reserved delta.used delta.objects) subjects subjects') :
    SubjectsMoved subject delta subjects subjects' := by
  refine ⟨?_, ?_, ?_⟩
  · intro s' member
    rcases h.mem_other (·.subject) rfl distinct member with rfl | ⟨old, other⟩
    · exact ⟨s, h.mem_before, rfl, rfl, fun _ => ⟨rfl, rfl, rfl⟩, fun other => absurd own other⟩
    · refine ⟨s', old, rfl, rfl, ?_, fun _ => rfl⟩
      intro same
      exact absurd (same.trans own.symm) other
  · intro old member
    rcases h.mem_old member with rfl | kept
    · exact Or.inl ⟨_, h.mem_after, rfl⟩
    · exact Or.inl ⟨old, kept, rfl⟩
  · intro _
    rw [h.map_key (·.subject) rfl]
    exact distinct

/-- The row of a subject without objects may go. -/
theorem SubjectsMoved.deleteEmpty {subject : Commitment} {delta : QuotaDelta}
    {subjects : List SubjectRow} {t : BlobTables}
    (h : SubjectsMoved subject delta subjects t.subjects)
    (distinct : (subjects.map (·.subject)).Nodup) :
    SubjectsMoved subject delta subjects (deleteEmptySubject subject t).subjects := by
  refine ⟨?_, ?_, ?_⟩
  · intro s' member
    exact h.each s' (List.mem_of_mem_filter member)
  · intro s member
    rcases h.kept s member with ⟨s', kept, same⟩ | gone
    · by_cases empty : s'.subject = subject.value ∧ s'.reservedBytes = 0 ∧ s'.usedBytes = 0
          ∧ s'.objects = 0
      · rcases h.each s' kept with ⟨old, here, sames, _, charged, _⟩
        have equal : old = s :=
          Table.eq_of_key _ distinct here member (sames.symm.trans same)
        rw [equal] at charged sames
        have own : s.subject = subject.value := sames.symm.trans empty.1
        rcases charged own with ⟨_, _, objects⟩
        exact Or.inr ⟨own, objects.symm.trans empty.2.2.2⟩
      · refine Or.inl ⟨s', ?_, same⟩
        simp only [deleteEmptySubject, List.mem_filter, decide_eq_true_eq]
        exact ⟨kept, empty⟩
    · exact Or.inr gone
  · intro distinct
    exact (h.distinct distinct).sublist (List.filter_sublist.map _)

/-- What a new version of a row keeps. -/
structure Keeps (row next : BlobRow) : Prop where
  generation : next.metadata.generation.value = row.metadata.generation.value + 1
  blob : next.metadata.blob = row.metadata.blob
  key : next.metadata.key = row.metadata.key
  binding : next.metadata.binding = row.metadata.binding
  expires : next.metadata.expires = row.metadata.expires
  anonymous : next.anonymous = row.anonymous
  filename : next.filename = row.filename
  created : next.created = row.created

theorem Advances.keeps {row next : BlobRow} {transition : Transition}
    (h : Advances row.metadata transition) (metadata : next.metadata = transition.next)
    (anonymous : next.anonymous = row.anonymous) (filename : next.filename = row.filename)
    (created : next.created = row.created) : Keeps row next := by
  refine ⟨?_, ?_, ?_, ?_, ?_, anonymous, filename, created⟩
  · rw [metadata, h.generation]
  · rw [metadata, h.blob]
  · rw [metadata, h.key]
  · rw [metadata, h.binding]
  · rw [metadata, h.expires]

/-- A copy was current and is replaced by its next version, with its charge. -/
structure Moves (sha256 : List UInt8 → Digest) (w : World) (row next : BlobRow) (t : BlobTables)
    (delta : QuotaDelta) : Prop where
  replaced : Table.Replaced row next w.rows (w.put next t).rows
  tracked : Tracked sha256 (w.put next t)
  keeps : Keeps row next
  charged : (w.tables.subjects.map (·.subject)).Nodup → Charged row delta w.tables t

section Operations

variable {sha256 : List UInt8 → Digest} {w : World} {row next : BlobRow} {t : BlobTables}

theorem columns_staged {transition : Transition} {digest : Digest}
    (content : transition.next.digest = some digest)
    (h : transition.next = { row.metadata with
      generation := transition.next.generation, state := .staged, reserved := 0,
      bytes := transition.next.bytes, digest := transition.next.digest,
      handle := transition.next.handle }) :
    { row.columns with
      state := "staged", generation := (transition.next.generation.value : Int),
      reservedBytes := (0 : Int), actualBytes := (transition.next.bytes : Int),
      sha256 := hex digest, uploadHandle := transition.next.handle.value }
      = ({ row with metadata := transition.next } : BlobRow).columns := by
  have text : digestText transition.next.digest = hex digest := by rw [content]; rfl
  rw [← text]
  simp only [BlobRow.columns]
  rw [h]
  rfl

/-- Charges to the store and to the subject move the charge of a row. -/
theorem charged_both {delta : QuotaDelta} {t1 t2 : BlobTables} {textStore textSubject : String}
    {storeCondition : StoreRow → Bool} {subjectCondition : SubjectRow → Bool}
    (store : updateStore textStore storeCondition
      (fun s => s.charge delta.reserved delta.used delta.objects (anonymousColumn row.anonymous))
      w.tables = .ok t1)
    (subject : updateSubject textSubject subjectCondition
      (fun s => s.charge delta.reserved delta.used delta.objects) t1 = .ok t2)
    (own : ∀ s, subjectCondition s = true → s.subject = row.metadata.binding.subject.value)
    (distinct : (w.tables.subjects.map (·.subject)).Nodup) :
    Charged row delta w.tables t2 := by
  rcases updateStore_ok.mp store with ⟨s, found, _, rfl⟩
  rcases updateSubject_ok subject with ⟨charged, holds, replaced, others⟩
  refine ⟨?_, subjectsMoved_charge (own charged holds) distinct replaced, by rw [others]⟩
  intro old here
  rw [found] at here
  cases here
  refine ⟨s.charge delta.reserved delta.used delta.objects (anonymousColumn row.anonymous),
    by rw [others], rfl, rfl, rfl, rfl, rfl, rfl, rfl, rfl, ?_⟩
  simp only [StoreRow.charge]
  omega

/-- Publishing replaces the current version of an upload by the staged one. -/
theorem publish_moves {object : DurableObject} {now : Timestamp} {store : ObjectKey}
    (h : Tracked sha256 w) (held : row ∈ w.held)
    (op : publish sha256 row object now store w.tables = .ok (next, t)) :
    ∃ transition, row.metadata.stage sha256 row.metadata.generation object now
        row.metadata.binding = .ok transition
      ∧ next = { row with metadata := transition.next }
      ∧ Moves sha256 w row next t transition.quota := by
  simp only [publish, check, need, bind_eq_ok, ensure_eq_ok, context_eq_ok] at op
  rcases op with ⟨transition, staged, _, quota, t1, store, t2, subject, digest, content, t3, update,
    result⟩
  cases result
  rcases stage_ok staged with ⟨advances, _, _, _, _, _, _, _, form⟩
  have keeps : Keeps row { row with metadata := transition.next } :=
    advances.keeps rfl rfl rfl rfl
  have bytes : transition.next = { row.metadata with
      generation := transition.next.generation, state := .staged, reserved := 0,
      bytes := transition.next.bytes, digest := transition.next.digest,
      handle := transition.next.handle } := by
    rw [form]
  have blobs : t2.blobs = w.tables.blobs := by
    rcases updateStore_ok.mp store with ⟨_, _, _, rfl⟩
    rcases updateSubject_ok subject with ⟨_, _, _, others⟩
    rw [others]
  have slot : transition.next.binding.slot = row.metadata.binding.slot := by rw [advances.binding]
  have fenced : Fenced w row { row with metadata := transition.next } t2 t := by
    refine h.fenced held blobs update ?_ (columns_staged content bytes) slot
    intro c holds
    simp only [decide_eq_true_eq] at holds
    rw [slot, advances.expected] at holds
    exact ⟨holds.1, holds.2.2.1⟩
  have later : row.metadata.generation.value < transition.next.generation.value := by
    rw [advances.generation]
    omega
  have consistent := consistent_staged (h.consistent row fenced.replaced.mem_before) staged
  refine ⟨transition, staged, rfl, fenced.replaced, h.put fenced rfl slot consistent later, keeps, ?_⟩
  intro distinct
  rw [quota]
  have charged : Charged row ⟨-row.metadata.reserved, transition.next.bytes, 0⟩ w.tables t2 := by
    refine charged_both store subject ?_ distinct
    intro s holds
    simp only [decide_eq_true_eq] at holds
    exact holds.1
  rw [fenced.others]
  exact ⟨charged.store, charged.subjects, charged.orphans⟩

/-- Attaching replaces the current version of a stage by the attached one. -/
theorem associate_moves {association : Association} {now : Timestamp} {transition : Transition}
    {blob : BlobRef} (h : Tracked sha256 w) (held : row ∈ w.held)
    (attached : row.metadata.attach row.metadata.generation now row.metadata.binding
      row.metadata.handle association = .ok transition)
    (op : associate row association now w.tables = .ok (blob, t)) :
    Moves sha256 w row { row with metadata := transition.next } t transition.quota := by
  simp only [associate, attached, bind_ok, bind_eq_ok] at op
  rcases op with ⟨t1, update, result⟩
  cases result
  rcases attach_ok attached with ⟨advances, _, _, _, _, quota, form⟩
  have keeps : Keeps row { row with metadata := transition.next } :=
    advances.keeps rfl rfl rfl rfl
  have slot : transition.next.binding.slot = row.metadata.binding.slot := by rw [advances.binding]
  have fenced : Fenced w row { row with metadata := transition.next } w.tables t := by
    refine h.fenced held rfl update ?_ ?_ slot
    · intro c holds
      simp only [decide_eq_true_eq] at holds
      rw [advances.expected] at holds
      exact ⟨holds.1, holds.2.2.1⟩
    · simp only [BlobRow.columns]
      rw [form]
      rfl
  have later : row.metadata.generation.value < transition.next.generation.value := by
    rw [advances.generation]
    omega
  have consistent := consistent_attached (h.consistent row fenced.replaced.mem_before) attached
  refine ⟨fenced.replaced, h.put fenced rfl slot consistent later, keeps, ?_⟩
  intro _
  rw [quota]
  exact charged_zero fenced.others

/-- A persisted claim replaces the current version of a row by the claimed one. -/
theorem persistClaim_moves {transition : Transition} {gc : GcClaim} {process : ObjectKey}
    {now : Timestamp} (h : Tracked sha256 w) (held : row ∈ w.held)
    (claims : Claims row.metadata transition gc) (live : row.metadata.state ≠ .deleted)
    (op : persistClaim row transition process now w.tables = .ok (next, t)) :
    next = { row with metadata := transition.next, claimed := now, process := process }
      ∧ Moves sha256 w row next t transition.quota := by
  simp only [persistClaim, check, bind_eq_ok, ensure_eq_ok] at op
  rcases op with ⟨_, _, _, _, t1, update, result⟩
  cases result
  have advances := claims.advances
  have keeps : Keeps row { row with metadata := transition.next, claimed := now, process := process } :=
    advances.keeps rfl rfl rfl rfl
  have slot : transition.next.binding.slot = row.metadata.binding.slot := by rw [advances.binding]
  have fenced : Fenced w row
      { row with metadata := transition.next, claimed := now, process := process } w.tables t := by
    refine h.fenced held rfl update ?_ ?_ slot
    · intro c holds
      simp only [decide_eq_true_eq] at holds
      rw [advances.expected] at holds
      exact ⟨holds.1, holds.2.2.1⟩
    · simp only [BlobRow.columns]
      rw [claims.next]
      rfl
  have later : row.metadata.generation.value < transition.next.generation.value := by
    rw [advances.generation]
    omega
  have consistent : Consistent sha256
      { row with metadata := transition.next, claimed := now, process := process } :=
    consistent_claimed (h.consistent row fenced.replaced.mem_before) claims live
  refine ⟨rfl, fenced.replaced, h.put fenced rfl slot consistent later, keeps, ?_⟩
  intro _
  rw [claims.quota]
  exact charged_zero fenced.others

/-- A completed deletion replaces the current version of a row and releases its charge. -/
theorem deleted_moves {gc : GcClaim} {store : ObjectKey} {now : Timestamp} (h : Tracked sha256 w)
    (held : row ∈ w.held) (op : deleted row gc store now w.tables = .ok (next, t)) :
    ∃ transition, row.metadata.deleted gc = .ok transition
      ∧ next = { row with metadata := transition.next, claimed := now }
      ∧ Moves sha256 w row next t transition.quota := by
  simp only [deleted, check, bind_eq_ok, ensure_eq_ok] at op
  rcases op with ⟨transition, moved, _, quota, t1, store, t2, subject, t3, update, result⟩
  cases result
  rcases deleted_ok moved with ⟨advances, _, _, form⟩
  have keeps : Keeps row { row with metadata := transition.next, claimed := now } :=
    advances.keeps rfl rfl rfl rfl
  have blobs : t2.blobs = w.tables.blobs := by
    rcases updateStore_ok.mp store with ⟨_, _, _, rfl⟩
    rcases updateSubject_ok subject with ⟨_, _, _, others⟩
    rw [others]
  have slot : transition.next.binding.slot = row.metadata.binding.slot := by rw [advances.binding]
  have fenced : Fenced w row { row with metadata := transition.next, claimed := now } t2 t3 := by
    refine h.fenced held blobs update ?_ ?_ slot
    · intro c holds
      simp only [decide_eq_true_eq] at holds
      rw [advances.expected] at holds
      exact ⟨holds.1, holds.2.2.1⟩
    · simp only [BlobRow.columns]
      rw [form]
      rfl
  have later : row.metadata.generation.value < transition.next.generation.value := by
    rw [advances.generation]
    omega
  have consistent : Consistent sha256 { row with metadata := transition.next, claimed := now } :=
    consistent_deleted (h.consistent row fenced.replaced.mem_before) moved
  refine ⟨transition, moved, rfl, fenced.replaced, h.put fenced rfl slot consistent later, keeps, ?_⟩
  intro distinct
  rw [quota]
  have charged : Charged row ⟨-row.metadata.reserved, -row.metadata.bytes, -1⟩ w.tables t2 := by
    refine charged_both store subject ?_ distinct
    intro s holds
    simp only [decide_eq_true_eq] at holds
    exact holds.1
  have subjects : t3.subjects = t2.subjects := by rw [fenced.others]
  have others : t3.store = t2.store ∧ t3.orphans = t2.orphans := by
    rw [fenced.others]
    exact ⟨rfl, rfl⟩
  refine ⟨?_, ?_, ?_⟩
  · intro s found
    rw [show (deleteEmptySubject row.metadata.binding.subject t3).store = t2.store from others.1]
    exact charged.store s found
  · refine SubjectsMoved.deleteEmpty ?_ distinct
    rw [subjects]
    exact charged.subjects
  · exact others.2.trans charged.orphans

/-! ## Detaching -/

theorem State.text_injective {left right : State} (h : left.text = right.text) : left = right := by
  have parsed := State.parse_text left
  rw [h, State.parse_text right] at parsed
  exact (Except.ok.inj parsed).symm

/-- An owned row either stays, or its attachment is released. -/
theorem unreferenced_cases (row : BlobRow) (resource id : I64) (incarnation : String) :
    row.unreferenced resource id incarnation = row
      ∨ ∃ association transition, row.ownedBy resource id incarnation = some association
        ∧ row.metadata.unreference row.metadata.generation association = .ok transition
        ∧ row.unreferenced resource id incarnation = { row with metadata := transition.next } := by
  unfold BlobRow.unreferenced
  split
  · exact Or.inl rfl
  · rename_i association owned
    split
    · rename_i transition moved
      exact Or.inr ⟨association, transition, owned, moved, rfl⟩
    · exact Or.inl rfl

/-- The query's condition finds the rows of the owner. -/
theorem isOwned_columns {resource id : I64} {incarnation : String} (pos : 0 < resource.val) :
    isOwned resource id incarnation row.columns = true
      ↔ ∃ association, row.ownedBy resource id incarnation = some association := by
  unfold isOwned BlobRow.ownedBy
  rw [decide_eq_true_eq]
  simp only [Option.filter_eq_some_iff, decide_eq_true_eq]
  simp only [BlobRow.columns]
  constructor
  · rintro ⟨state, owner, key, name⟩
    have attached : row.metadata.state = .attached := State.text_injective state
    cases shape : row.metadata.association with
    | none =>
        rw [shape] at owner
        simp only [Option.map_none, Option.getD_none] at owner
        omega
    | some association =>
        rw [shape] at owner key name
        exact ⟨association, rfl, attached, owner, key, name⟩
  · rintro ⟨association, shape, attached, owner, key, name⟩
    rw [attached, shape]
    exact ⟨rfl, owner, key, name⟩

/-- A row of the owner before the last generation is released in its columns. -/
theorem columns_unreferenced {resource id : I64} {incarnation : String} {association : Association}
    (owned : row.ownedBy resource id incarnation = some association)
    (room : row.metadata.generation.value + 1 < 2 ^ 63) :
    { row.columns with state := "unreferenced", generation := row.columns.generation + 1 }
      = (row.unreferenced resource id incarnation).columns := by
  have found := owned
  simp only [BlobRow.ownedBy, Option.filter_eq_some_iff, decide_eq_true_eq] at found
  rcases found with ⟨shape, attached, _⟩
  rcases (candidate_exists .unreferenced .zero).mpr room with ⟨t, candidate⟩
  have moved : row.metadata.unreference row.metadata.generation association = .ok t := by
    unfold Metadata.unreference
    rw [check, ensure_pos ⟨attached, shape⟩, bind_ok]
    exact candidate
  have result : row.unreferenced resource id incarnation = { row with metadata := t.next } := by
    unfold BlobRow.unreferenced
    simp only [owned, moved]
  rcases candidate_ok candidate with ⟨_, _, _, advanced, form⟩
  have generation : (t.next.generation.value : Int) = row.metadata.generation.value + 1 := by
    rw [advanced]
    rfl
  rw [result]
  simp only [BlobRow.columns]
  rw [← generation, form]
  rfl

/-- Every selected row is before the last generation. -/
theorem selectDetached_ok {expected : List (String × BlobRef)} {seen : List String}
    {rows : List (String × String × String × String)} {selected : List (String × Nat)}
    (h : selectDetached expected seen rows = .ok selected) :
    List.Forall₂ (fun texts choice => choice.1 = texts.1 ∧ ∃ generation,
      readGeneration texts.2.2.2 = .ok generation ∧ choice.2 = generation.value
        ∧ generation.value < 2 ^ 63 - 1) rows selected := by
  induction rows generalizing seen selected with
  | nil =>
      cases h
      exact List.Forall₂.nil
  | cons texts rest ih =>
      rcases texts with ⟨slot, field, reference, generation⟩
      simp only [selectDetached, check, bind_eq_ok, ensure_eq_ok] at h
      rcases h with ⟨commitment, parsed, _, _, number, read, _, ⟨room, _, _⟩, others, step, h⟩
      cases h
      refine List.Forall₂.cons ⟨?_, number, read, rfl, room⟩ (ih step)
      unfold Commitment.parse at parsed
      split at parsed
      · cases parsed
        rfl
      · cases parsed

/-- Detaching releases every attached row of the owner, and no other row. -/
theorem detach_rows {resource id : I64} {incarnation : String} {expected : List (String × BlobRef)}
    (h : Tracked sha256 w) (op : detachResource resource id incarnation expected w.tables = .ok t) :
    t.blobs = (w.rows.map (·.unreferenced resource id incarnation)).map BlobRow.columns
      ∧ t = { w.tables with blobs := t.blobs } := by
  simp only [detachResource, check, bind_eq_ok, ensure_eq_ok] at op
  rcases op with ⟨_, ⟨pos, _⟩, texts, mapped, _, count, selected, chosen, op⟩
  have picked := mapM_eq_ok.mp mapped
  have choices := selectDetached_ok chosen
  -- The query stops one row after the expected ones, so nothing of the owner is left out.
  have all : (w.tables.blobs.filter (isOwned resource id incarnation)).take (expected.length + 1)
      = w.tables.blobs.filter (isOwned resource id incarnation) := by
    have length := picked.length_eq
    rw [List.length_take, count] at length
    exact List.take_of_length_le (by omega)
  rw [all] at picked
  have room : ∀ row ∈ w.rows, isOwned resource id incarnation row.columns = true →
      (row.columns.slot, row.metadata.generation.value) ∈ selected
        ∧ row.metadata.generation.value + 1 < 2 ^ 63 := by
    intro row member owned
    have stored : row.columns ∈ w.tables.blobs.filter (isOwned resource id incarnation) := by
      rw [h.columns]
      exact List.mem_filter.mpr ⟨List.mem_map_of_mem member, owned⟩
    rcases forall₂_mem_left picked stored with ⟨text, here, selects⟩
    rcases forall₂_mem_left choices here with ⟨choice, there, slot, generation, read, number, last⟩
    simp only [selectAttached, check, bind_eq_ok, ensure_eq_ok] at selects
    rcases selects with ⟨_, _, selects⟩
    cases selects
    have print := readGeneration_print row.metadata.generation
    have same : row.metadata.generation = generation := Except.ok.inj (print.symm.trans read)
    rw [← same] at number last
    have pair : choice = (row.columns.slot, row.metadata.generation.value) :=
      Prod.ext slot number
    rw [← pair]
    exact ⟨there, by omega⟩
  split at op
  · rename_i empty
    cases op
    have stays : ∀ row ∈ w.rows, row.unreferenced resource id incarnation = row := by
      intro row member
      rcases unreferenced_cases row resource id incarnation with same | ⟨association, _, owned, _, _⟩
      · exact same
      · have found := (room row member ((isOwned_columns pos).mpr ⟨association, owned⟩)).1
        rw [empty] at found
        cases found
    rw [List.map_congr_left stays, List.map_id']
    exact ⟨h.columns, rfl⟩
  · rcases updateBlobs_ok op with ⟨_, result, _⟩
    refine ⟨?_, by rw [result]⟩
    rw [result]
    dsimp only
    unfold Table.update
    rw [h.columns, List.map_map, List.map_map]
    refine List.map_congr_left fun row member => ?_
    simp only [Function.comp_apply]
    by_cases owned : isOwned resource id incarnation row.columns = true
    · rcases room row member owned with ⟨found, last⟩
      rcases (isOwned_columns pos).mp owned with ⟨association, attachment⟩
      rw [if_pos, ← columns_unreferenced attachment last]
      rw [decide_eq_true_eq]
      refine ⟨owned, List.any_eq_true.mpr ⟨_, found, ?_⟩⟩
      exact decide_eq_true ⟨rfl, rfl⟩
    · rw [if_neg]
      · rcases unreferenced_cases row resource id incarnation with same | ⟨association, _, other, _, _⟩
        · rw [same]
        · exact absurd ((isOwned_columns pos).mpr ⟨association, other⟩) owned
      · rw [decide_eq_true_eq]
        exact fun both => owned both.1

/-! ## Reserving -/

/-- What a reservation of a new slot checked and wrote. -/
structure Reserved (request : Reservation) (row : BlobRow) (t t' : BlobTables) : Prop where
  policy : request.policy.validateLimits = .ok ()
  pos : 0 < request.limit
  limit : request.limit ≤ request.policy.limits.fileBytes
  written : ∃ fresh quota expires t1 t2, request.quota = .ok quota
    ∧ request.now.checkedAdd stageLifetimeMillis = .ok expires
    ∧ row = request.row fresh expires ∧ reserveStore request quota t = .ok t1
    ∧ reserveSubject request quota t1 = .ok t2 ∧ insertBlob row t2 = .ok t'

theorem reserve_reserved {request : Reservation} {fresh : FreshIdentity} {t t' : BlobTables}
    (op : reserve sha256 request fresh t = .ok (.created row, t')) : Reserved request row t t' := by
  simp only [reserve, check, bind_eq_ok, ensure_eq_ok] at op
  rcases op with ⟨_, policy, _, ⟨pos, limit⟩, found, _, op⟩
  cases found with
  | some other =>
      simp only [bind_eq_ok, ensure_eq_ok] at op
      rcases op with ⟨_, _, op⟩
      cases op
  | none =>
      simp only [reserveNew, bind_eq_ok] at op
      rcases op with ⟨quota, limits, t1, store, t2, subject, expires, lifetime, t3, inserted, op⟩
      cases op
      exact ⟨policy, pos, limit, fresh, quota, expires, t1, t2, limits, lifetime, rfl, store,
        subject, inserted⟩

theorem validateLimits_fileBytes {policy : BlobPolicy} (h : policy.validateLimits = .ok ()) :
    policy.limits.fileBytes ≤ maxUploadBytes ∧ policy.limits.appBytes ≤ maxAppBlobBytes
      ∧ policy.limits.objects ≤ maxAppBlobObjects := by
  simp only [BlobPolicy.validateLimits, BlobLimits.validate, check, bind_eq_ok, ensure_eq_ok] at h
  rcases h with ⟨_, ⟨_, file, _, app, _, _, objects, _⟩, _⟩
  exact ⟨file, app, objects⟩

theorem insertBlob_ok {t t' : BlobTables} (h : insertBlob row t = .ok t') :
    t' = { t with blobs := t.blobs ++ [row.columns] } ∧ Indexed t'.blobs := by
  simp only [insertBlob, check, bind_eq_ok, ensure_eq_ok] at h
  rcases h with ⟨_, _, _, indexed, h⟩
  cases h
  exact ⟨rfl, indexed⟩

/-- A subject's row is charged or inserted. -/
theorem reserveSubject_ok {request : Reservation} {quota : ReservationQuota} {t t' : BlobTables}
    (h : reserveSubject request quota t = .ok t') : t' = { t with subjects := t'.subjects }
      ∧ ((∃ s, s.subject = request.binding.subject.value
          ∧ s.anonymous = anonymousColumn request.capability.isSome
          ∧ Table.Replaced s (s.charge request.limit 0 1) t.subjects t'.subjects)
        ∨ (∀ s ∈ t.subjects, s.subject ≠ request.binding.subject.value)
          ∧ t'.subjects = t.subjects ++ [⟨request.binding.subject.value,
            anonymousColumn request.capability.isSome, request.limit, 0, 1⟩]) := by
  unfold reserveSubject at h
  dsimp only at h
  split at h
  · rcases updateSubject_ok h with ⟨s, holds, replaced, others⟩
    simp only [decide_eq_true_eq] at holds
    exact ⟨others, Or.inl ⟨s, holds.1, holds.2.1, replaced⟩⟩
  · rename_i absent
    cases h
    refine ⟨rfl, Or.inr ⟨?_, rfl⟩⟩
    intro s member same
    exact absent (List.any_eq_true.mpr ⟨s, member, decide_eq_true same⟩)

/-- Charging the store and the subject writes no blob row. -/
theorem Reserved.blobs {request : Reservation} {t t' : BlobTables} (h : Reserved request row t t') :
    t'.blobs = t.blobs ++ [row.columns] ∧ Indexed t'.blobs ∧ t'.orphans = t.orphans := by
  rcases h.written with ⟨_, _, _, t1, t2, _, _, _, store, subject, inserted⟩
  rcases insertBlob_ok inserted with ⟨result, indexed⟩
  rcases updateStore_ok.mp store with ⟨_, _, _, rfl⟩
  have others : t2.blobs = t.blobs ∧ t2.orphans = t.orphans := by
    rw [(reserveSubject_ok subject).1]
    exact ⟨rfl, rfl⟩
  refine ⟨?_, indexed, ?_⟩
  · rw [result, ← others.1]
  · rw [result, ← others.2]

theorem Reserved.consistent {request : Reservation} {t t' : BlobTables}
    (h : Reserved request row t t') : Consistent sha256 row := by
  rcases h.written with ⟨_, _, _, _, _, _, lifetime, rfl, _⟩
  exact consistent_reserved h.pos (h.limit.trans (validateLimits_fileBytes h.policy).1) lifetime

theorem Tracked.reserve {request : Reservation} {t' : BlobTables} (h : Tracked sha256 w)
    (reserved : Reserved request row w.tables t') :
    Tracked sha256 ⟨t', w.rows ++ [row], row :: w.held⟩ := by
  rcases reserved.blobs with ⟨blobs, indexed, _⟩
  have columns : t'.blobs = (w.rows ++ [row]).map BlobRow.columns := by
    rw [blobs, h.columns, List.map_append, List.map_singleton]
  refine ⟨columns, ?_, ?_, ?_⟩
  · have distinct := indexed.slot
    rw [columns, List.map_map] at distinct
    have values : (((w.rows ++ [row]).map BlobRow.slot).map Commitment.value).Nodup := by
      rw [List.map_map]
      exact distinct
    exact List.Nodup.of_map _ values
  · intro other member
    rcases List.mem_append.mp member with old | new
    · exact h.consistent other old
    · rw [List.mem_singleton.mp new]
      exact reserved.consistent
  · intro copy member
    rcases List.mem_cons.mp member with rfl | old
    · exact ⟨copy, List.mem_append_right _ (List.mem_singleton.mpr rfl), rfl, Or.inr rfl⟩
    · rcases h.held copy old with ⟨current, here, same, order⟩
      exact ⟨current, List.mem_append_left _ here, same, order⟩

/-- Detaching keeps the world tracked. -/
theorem Tracked.detach {resource id : I64} {incarnation : String}
    {expected : List (String × BlobRef)} (h : Tracked sha256 w)
    (op : detachResource resource id incarnation expected w.tables = .ok t) :
    Tracked sha256 ⟨t, w.rows.map (·.unreferenced resource id incarnation), w.held⟩ := by
  have released : ∀ row : BlobRow, (row.unreferenced resource id incarnation).slot = row.slot
      ∧ (row.unreferenced resource id incarnation = row
        ∨ row.metadata.generation.value
          < (row.unreferenced resource id incarnation).metadata.generation.value)
      ∧ (Consistent sha256 row → Consistent sha256 (row.unreferenced resource id incarnation)) := by
    intro row
    rcases unreferenced_cases row resource id incarnation with same | ⟨_, transition, _, moved, result⟩
    · rw [same]
      exact ⟨rfl, Or.inl rfl, fun consistent => consistent⟩
    · have advances := (unreference_ok moved).1
      rw [result]
      refine ⟨?_, Or.inr ?_, fun consistent => consistent_unreferenced consistent moved⟩
      · simp only [BlobRow.slot, advances.binding]
      · rw [advances.generation]
        omega
  refine ⟨(detach_rows h op).1, ?_, ?_, ?_⟩
  · have slots : (w.rows.map (·.unreferenced resource id incarnation)).map BlobRow.slot
        = w.rows.map BlobRow.slot := by
      rw [List.map_map]
      exact List.map_congr_left fun row _ => (released row).1
    rw [slots]
    exact h.slots
  · intro row member
    rcases List.mem_map.mp member with ⟨old, here, rfl⟩
    exact (released old).2.2 (h.consistent old here)
  · intro copy member
    rcases h.held copy member with ⟨row, here, same, order⟩
    refine ⟨_, List.mem_map_of_mem here, (released row).1.trans same, ?_⟩
    rcases (released row).2.1 with stays | later
    · rw [stays]
      exact order
    · rcases order with older | rfl
      · exact Or.inl (by omega)
      · exact Or.inl later

theorem quarantine_blobs {key store process : ObjectKey} {bytes paths : Nat} {now : Timestamp}
    {t t' : BlobTables} (op : quarantineUnknown key bytes paths store process now t = .ok t') :
    t'.blobs = t.blobs ∧ t'.subjects = t.subjects := by
  simp only [quarantineUnknown, check, bind_eq_ok, ensure_eq_ok] at op
  rcases op with ⟨_, _, _, _, op⟩
  split at op
  · cases op
    exact ⟨rfl, rfl⟩
  · rcases updateStore_ok.mp op with ⟨_, _, _, rfl⟩
    exact ⟨rfl, rfl⟩

end Operations

/-! ## Steps -/

/-- The copy that an operation took and the version it computed. -/
def Event.change : Event → Option (BlobRow × BlobRow)
  | .publish row next | .attach row next | .claim row next _ | .claimStopped row next _ _ _
  | .recover row next _ | .resume row next _ _ | .delete row next => some (row, next)
  | .read _ | .reserve _ | .detach _ _ _ | .quarantine _ _ _ => none

/-- The transition of the state machine behind a change, with its charge. -/
inductive Legal (sha256 : List UInt8 → Digest) : Event → QuotaDelta → Prop where
  | publish {row : BlobRow} {object : DurableObject} {now : Timestamp} {t : Transition} :
      row.metadata.stage sha256 row.metadata.generation object now row.metadata.binding = .ok t →
        Legal sha256 (.publish row { row with metadata := t.next }) t.quota
  | attach {row : BlobRow} {association : Association} {now : Timestamp} {t : Transition} :
      row.metadata.attach row.metadata.generation now row.metadata.binding row.metadata.handle
        association = .ok t → Legal sha256 (.attach row { row with metadata := t.next }) t.quota
  | claim {row : BlobRow} {process : ObjectKey} {now : Timestamp} {t : Transition} {gc : GcClaim} :
      row.metadata.claim row.metadata.generation now = .ok (t, gc) →
        Legal sha256 (.claim row { row with metadata := t.next, claimed := now, process := process }
          process) t.quota
  | claimStopped {row : BlobRow} {process : ObjectKey} {now : Timestamp} {stopped : StoppedIo}
      {t : Transition} {gc : GcClaim} : row.process = process →
        row.metadata.claimStoppedUpload row.metadata.generation now stopped = .ok (t, gc) →
          Legal sha256 (.claimStopped row
            { row with metadata := t.next, claimed := now, process := process } process stopped now)
              t.quota
  | recover {row : BlobRow} {process : ObjectKey} {now : Timestamp} {t : Transition}
      {gc : GcClaim} : row.process ≠ process → row.metadata.recoverPriorUpload = .ok (t, gc) →
        Legal sha256 (.recover row
          { row with metadata := t.next, claimed := now, process := process } process) t.quota
  | resume {row : BlobRow} {process : ObjectKey} {now : Timestamp} {stopped : Option StoppedIo}
      {t : Transition} {gc : GcClaim} : (row.process ≠ process ∨ ∃ proof ∈ stopped,
        proof.key = row.metadata.key ∧ proof.generation = row.metadata.generation) →
        row.metadata.resumeDeletion = .ok (t, gc) →
          Legal sha256 (.resume row
            { row with metadata := t.next, claimed := now, process := process } process stopped)
              t.quota
  | delete {row : BlobRow} {now : Timestamp} {t : Transition} {gc : GcClaim} :
      row.metadata.deleted gc = .ok t →
        Legal sha256 (.delete row { row with metadata := t.next, claimed := now }) t.quota

section Steps

variable {sha256 : List UInt8 → Digest} {w w' : World} {e : Event} {row next : BlobRow}

/-- An operation on a copy changes the current version, by a legal transition. -/
theorem Step.moves (h : Tracked sha256 w) (step : Step sha256 e w w')
    (change : e.change = some (row, next)) : ∃ delta, Legal sha256 e delta
      ∧ w' = w.put next w'.tables ∧ Moves sha256 w row next w'.tables delta := by
  cases step with
  | read member parsed => cases change
  | reserve op => cases change
  | detach op => cases change
  | quarantine op => cases change
  | publish held op =>
      cases change
      rcases publish_moves h held op with ⟨transition, staged, rfl, moves⟩
      exact ⟨_, Legal.publish staged, rfl, moves⟩
  | attach held attached op =>
      cases change
      exact ⟨_, Legal.attach attached, rfl, associate_moves h held attached op⟩
  | claim held op =>
      cases change
      simp only [claimCollectable, bind_eq_ok] at op
      rcases op with ⟨⟨transition, gc⟩, claimed, ⟨result, t⟩, persisted, op⟩
      cases op
      rcases claim_ok claimed with ⟨claims, collectable⟩
      have live : row.metadata.state ≠ .deleted := by
        rcases collectable with state | ⟨state, _⟩ <;> rw [state] <;> nofun
      rcases persistClaim_moves h held claims live persisted with ⟨rfl, moves⟩
      exact ⟨_, Legal.claim claimed, rfl, moves⟩
  | claimStopped held op =>
      cases change
      simp only [claimStoppedUpload, check, bind_eq_ok, ensure_eq_ok] at op
      rcases op with ⟨_, own, ⟨transition, gc⟩, claimed, ⟨result, t⟩, persisted, op⟩
      cases op
      rcases claimStoppedUpload_ok claimed with ⟨claims, state, _⟩
      have live : row.metadata.state ≠ .deleted := by rw [state]; nofun
      rcases persistClaim_moves h held claims live persisted with ⟨rfl, moves⟩
      exact ⟨_, Legal.claimStopped own claimed, rfl, moves⟩
  | recover held op =>
      cases change
      simp only [recoverPriorUpload, check, bind_eq_ok, ensure_eq_ok] at op
      rcases op with ⟨_, _, _, foreign, ⟨transition, gc⟩, claimed, ⟨result, t⟩, persisted, op⟩
      cases op
      rcases recoverPriorUpload_ok claimed with ⟨claims, state⟩
      have live : row.metadata.state ≠ .deleted := by rw [state]; nofun
      rcases persistClaim_moves h held claims live persisted with ⟨rfl, moves⟩
      exact ⟨_, Legal.recover foreign claimed, rfl, moves⟩
  | resume held op =>
      cases change
      simp only [resumeDeletion, check, bind_eq_ok, ensure_eq_ok] at op
      rcases op with ⟨_, _, _, guard, ⟨transition, gc⟩, claimed, ⟨result, t⟩, persisted, op⟩
      cases op
      rcases resumeDeletion_ok claimed with ⟨claims, state⟩
      have live : row.metadata.state ≠ .deleted := by rw [state]; nofun
      rcases persistClaim_moves h held claims live persisted with ⟨rfl, moves⟩
      exact ⟨_, Legal.resume guard claimed, rfl, moves⟩
  | delete held op =>
      cases change
      rcases deleted_moves h held op with ⟨transition, moved, rfl, moves⟩
      exact ⟨_, Legal.delete moved, rfl, moves⟩

/-- Every step keeps the world tracked. -/
theorem Tracked.step (h : Tracked sha256 w) (step : Step sha256 e w w') : Tracked sha256 w' := by
  cases changed : e.change with
  | some change =>
      rcases step.moves h changed with ⟨_, _, result, moves⟩
      rw [result]
      exact moves.tracked
  | none =>
      cases step with
      | read member parsed =>
          refine ⟨h.columns, h.slots, h.consistent, ?_⟩
          intro copy held
          rcases List.mem_cons.mp held with rfl | old
          · rw [h.columns] at member
            rcases List.mem_map.mp member with ⟨row, here, rfl⟩
            have same := (BlobRow.parse_unique (h.consistent row here) parsed).2
            exact ⟨row, here, by rw [same], Or.inr same⟩
          · exact h.held copy old
      | reserve op => exact h.reserve (reserve_reserved op)
      | detach op => exact h.detach op
      | quarantine op =>
          exact ⟨(quarantine_blobs op).1.trans h.columns, h.slots, h.consistent, h.held⟩
      | publish held op => cases changed
      | attach held attached op => cases changed
      | claim held op => cases changed
      | claimStopped held op => cases changed
      | recover held op => cases changed
      | resume held op => cases changed
      | delete held op => cases changed

end Steps

end Blobs
end Noxide
