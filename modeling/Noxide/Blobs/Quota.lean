import Noxide.Blobs.Lifecycle

/-!
# Blob quota conservation

Runs of the blob store from an empty paired one, and the three levels of counters that
they keep: those of the store, the anonymous ones, and those of each subject.

Main results:

- Theorem {lit}`Balanced.step`: a transaction moves every counter by what it moves in the
  charges of the rows and orphans.
- Theorem {lit}`quota_conserved`: in every reachable state the counters are the sums over
  the live rows and the orphans, and no stage or release finds one too small.
-/

namespace Noxide
namespace Blobs

open Checked

/-! ## Runs -/

/-- A paired store without rows. -/
structure EmptyStore (w : World) : Prop where
  store : ∃ s, w.tables.store = some s ∧ s.pairState = "paired" ∧ 0 < s.serial
    ∧ s.reservedBytes = 0 ∧ s.usedBytes = 0 ∧ s.objects = 0
    ∧ s.anonymousReservedBytes = 0 ∧ s.anonymousUsedBytes = 0
  subjects : w.tables.subjects = []
  blobs : w.tables.blobs = []
  orphans : w.tables.orphans = []
  rows : w.rows = []
  held : w.held = []

/-- The store with the log of its transactions, each of which meets a condition. -/
def blobSystem (sha256 : List UInt8 → Digest) (allowed : Event → World → Prop) :
    System (World × List Event) where
  initial state := EmptyStore state.1 ∧ state.2 = []
  step state next := ∃ e, Step sha256 e state.1 next.1 ∧ allowed e state.1
    ∧ next.2 = state.2 ++ [e]

/-- No condition on the transactions. -/
def anyEvent (_ : Event) (_ : World) : Prop := True

section Runs

variable {sha256 : List UInt8 → Digest} {allowed : Event → World → Prop} {w : World}

theorem EmptyStore.tracked (h : EmptyStore w) : Tracked sha256 w := by
  refine ⟨by rw [h.blobs, h.rows, List.map_nil], ?_, ?_, ?_⟩
  · rw [h.rows]
    exact List.nodup_nil
  · intro row member
    rw [h.rows] at member
    cases member
  · intro copy member
    rw [h.held] at member
    cases member

theorem tracked_invariant :
    (blobSystem sha256 allowed).Invariant fun state => Tracked sha256 state.1 where
  initial _ h := h.1.tracked
  step state next _ h step := by
    rcases step with ⟨e, step, _⟩
    exact h.step step

end Runs

/-! ## Charges -/

/-- What a row is charged: nothing once it is deleted. -/
def BlobRow.charge (row : BlobRow) : QuotaDelta :=
  if row.metadata.state = .deleted then .zero else ⟨row.metadata.reserved, row.metadata.bytes, 1⟩

/-- The sum of one part of the charges of some rows. -/
def charged (counter : QuotaDelta → Int) (chosen : BlobRow → Bool) (rows : List BlobRow) : Int :=
  (rows.map fun row => if chosen row then counter row.charge else 0).sum

/-- The rows of a subject. -/
def ofSubject (subject : String) (row : BlobRow) : Bool :=
  row.metadata.binding.subject.value = subject

section Charges

variable {sha256 : List UInt8 → Digest} {e : Event} {row next : BlobRow} {rows rows' : List BlobRow}
  {delta : QuotaDelta} {counter : QuotaDelta → Int} {chosen : BlobRow → Bool}

theorem charge_live (live : row.metadata.state ≠ .deleted) :
    row.charge = ⟨row.metadata.reserved, row.metadata.bytes, 1⟩ :=
  if_neg live

theorem charge_deleted (gone : row.metadata.state = .deleted) : row.charge = .zero :=
  if_pos gone

theorem charge_nonneg (row : BlobRow) : 0 ≤ row.charge.reserved ∧ 0 ≤ row.charge.used
    ∧ 0 ≤ row.charge.objects := by
  by_cases gone : row.metadata.state = .deleted
  · rw [charge_deleted gone]
    exact ⟨Int.le_refl 0, Int.le_refl 0, Int.le_refl 0⟩
  · rw [charge_live gone]
    exact ⟨Int.natCast_nonneg _, Int.natCast_nonneg _, Int.one_nonneg⟩

/-- A transition's quota change is the change of the row's charge. -/
structure MovesCharge (row next : BlobRow) (delta : QuotaDelta) : Prop where
  reserved : delta.reserved = next.charge.reserved - row.charge.reserved
  used : delta.used = next.charge.used - row.charge.used
  objects : delta.objects = next.charge.objects - row.charge.objects
  live : row.metadata.state ≠ .deleted

/-- A transition between live states that keeps the sizes moves no charge. -/
theorem movesCharge_zero (live : row.metadata.state ≠ .deleted) (next_live : next.metadata.state ≠ .deleted)
    (reserved : next.metadata.reserved = row.metadata.reserved)
    (bytes : next.metadata.bytes = row.metadata.bytes) : MovesCharge row next .zero := by
  refine ⟨?_, ?_, ?_, live⟩
  · rw [charge_live live, charge_live next_live, reserved]
    exact (Int.sub_self _).symm
  · rw [charge_live live, charge_live next_live, bytes]
    exact (Int.sub_self _).symm
  · rw [charge_live live, charge_live next_live]
    rfl

theorem Claims.movesCharge {t : Transition} {gc : GcClaim} {now : Timestamp} {process : ObjectKey}
    (h : Claims row.metadata t gc) (live : row.metadata.state ≠ .deleted) :
    MovesCharge row { row with metadata := t.next, claimed := now, process := process } t.quota := by
  rw [h.quota]
  refine movesCharge_zero live ?_ ?_ ?_
  · rw [h.next]
    nofun
  · rw [h.next]
  · rw [h.next]

/-- Every legal transition reports the change of the row's charge. -/
theorem Legal.movesCharge (legal : Legal sha256 e delta) (change : e.change = some (row, next)) :
    MovesCharge row next delta := by
  cases legal with
  | @publish _ object now t staged =>
      cases change
      rcases stage_ok staged with ⟨_, state, _, empty, _, _, quota, _, form⟩
      have live : row.metadata.state ≠ .deleted := by rw [state]; nofun
      have next_live : ({ row with metadata := t.next } : BlobRow).metadata.state ≠ .deleted := by
        rw [form]
        nofun
      have reserved : t.next.reserved = 0 := by rw [form]
      have bytes : t.quota.used = t.next.bytes := by rw [quota, form]
      refine ⟨?_, ?_, ?_, live⟩
      · rw [charge_live live, charge_live next_live, quota]
        dsimp only
        omega
      · rw [charge_live live, charge_live next_live, bytes]
        dsimp only
        omega
      · rw [charge_live live, charge_live next_live, quota]
        rfl
  | attach attached =>
      cases change
      rcases attach_ok attached with ⟨_, state, _, _, _, quota, form⟩
      have live : row.metadata.state ≠ .deleted := by rw [state]; nofun
      rw [quota]
      refine movesCharge_zero live ?_ ?_ ?_
      · rw [form]
        nofun
      · rw [form]
      · rw [form]
  | claim claimed =>
      cases change
      rcases claim_ok claimed with ⟨claims, collectable⟩
      refine claims.movesCharge ?_
      rcases collectable with state | ⟨state, _⟩ <;> rw [state] <;> nofun
  | claimStopped own claimed =>
      cases change
      rcases claimStoppedUpload_ok claimed with ⟨claims, state, _⟩
      exact claims.movesCharge (by rw [state]; nofun)
  | recover foreign claimed =>
      cases change
      rcases recoverPriorUpload_ok claimed with ⟨claims, state⟩
      exact claims.movesCharge (by rw [state]; nofun)
  | resume guard claimed =>
      cases change
      rcases resumeDeletion_ok claimed with ⟨claims, state⟩
      exact claims.movesCharge (by rw [state]; nofun)
  | @delete _ now t gc moved =>
      cases change
      rcases deleted_ok moved with ⟨_, state, quota, form⟩
      have live : row.metadata.state ≠ .deleted := by rw [state]; nofun
      have gone : ({ row with metadata := t.next, claimed := now } : BlobRow).metadata.state
          = .deleted := by
        rw [form]
      refine ⟨?_, ?_, ?_, live⟩
      · rw [charge_live live, charge_deleted gone, quota]
        simp only [QuotaDelta.zero, Int.zero_sub]
      · rw [charge_live live, charge_deleted gone, quota]
        simp only [QuotaDelta.zero, Int.zero_sub]
      · rw [charge_live live, charge_deleted gone, quota]
        rfl

/-! ## Sums of charges -/

theorem charged_append : charged counter chosen (rows ++ [row])
    = charged counter chosen rows + if chosen row then counter row.charge else 0 := by
  simp only [charged, List.map_append, List.sum_append, List.map_singleton, List.sum_singleton]

/-- Replacing a row changes a sum over rows that the replacement does not move between. -/
theorem charged_replaced (h : Table.Replaced row next rows rows') (same : chosen next = chosen row) :
    charged counter chosen rows' = charged counter chosen rows
      + if chosen row then counter next.charge - counter row.charge else 0 := by
  unfold charged
  rw [h.sum, same]
  split <;> omega

theorem charged_map {change : BlobRow → BlobRow} (same : ∀ row ∈ rows, chosen (change row) = chosen row)
    (charge : ∀ row ∈ rows, (change row).charge = row.charge) :
    charged counter chosen (rows.map change) = charged counter chosen rows := by
  unfold charged
  rw [List.map_map]
  congr 1
  refine List.map_congr_left fun row member => ?_
  simp only [Function.comp_apply, same row member, charge row member]

/-- A row's charge is part of the sum. -/
theorem charge_le_charged (counter : QuotaDelta → Int) (chosen : BlobRow → Bool)
    (nonneg : ∀ row : BlobRow, 0 ≤ counter row.charge) (member : row ∈ rows)
    (selected : chosen row = true) : counter row.charge ≤ charged counter chosen rows := by
  have term : (if chosen row then counter row.charge else 0) = counter row.charge := if_pos selected
  rw [← term]
  unfold charged
  refine List.single_le_sum ?_ _ (List.mem_map_of_mem member)
  intro weight found
  rcases List.mem_map.mp found with ⟨other, _, rfl⟩
  split
  · exact nonneg other
  · exact Int.le_refl 0

/-- Rows without charge sum to nothing. -/
theorem charged_zero_of (zero : ∀ row ∈ rows, chosen row = true → row.charge = .zero)
    (none : counter .zero = 0) : charged counter chosen rows = 0 := by
  unfold charged
  refine List.sum_eq_zero ?_
  intro weight found
  rcases List.mem_map.mp found with ⟨row, member, rfl⟩
  split
  · rename_i selected
    rw [zero row member selected, none]
  · rfl

end Charges

/-! ## Balance -/

/-- Every row. -/
def anyRow (_ : BlobRow) : Bool := true

/-- The counters of the store are the charges of its rows and orphans. -/
structure StoreBalanced (rows : List BlobRow) (orphans : List OrphanRow) (s : StoreRow) : Prop where
  reserved : s.reservedBytes = charged (·.reserved) anyRow rows
  used : s.usedBytes = charged (·.used) anyRow rows
    + (orphans.map (·.chargedBytes)).sum
  objects : s.objects = charged (·.objects) anyRow rows
    + (orphans.map (·.chargedObjects)).sum
  anonymousReserved : s.anonymousReservedBytes = charged (·.reserved) (·.anonymous) rows
  anonymousUsed : s.anonymousUsedBytes = charged (·.used) (·.anonymous) rows

/-- The counters of a subject are the charges of its rows. -/
structure SubjectBalanced (rows : List BlobRow) (s : SubjectRow) : Prop where
  reserved : s.reservedBytes = charged (·.reserved) (ofSubject s.subject) rows
  used : s.usedBytes = charged (·.used) (ofSubject s.subject) rows
  objects : s.objects = charged (·.objects) (ofSubject s.subject) rows

/-- All counters agree with the rows, and every live row has a subject row. -/
structure Balanced (w : World) : Prop where
  store : ∃ s, w.tables.store = some s ∧ s.pairState = "paired" ∧ 0 < s.serial ∧
    StoreBalanced w.rows w.tables.orphans s
  distinct : (w.tables.subjects.map (·.subject)).Nodup
  subjects : ∀ s ∈ w.tables.subjects, SubjectBalanced w.rows s
  owners : ∀ row ∈ w.rows, row.metadata.state ≠ .deleted → ∃ s ∈ w.tables.subjects,
    s.subject = row.metadata.binding.subject.value ∧ s.anonymous = anonymousColumn row.anonymous
  orphans : ∀ orphan ∈ w.tables.orphans, 0 ≤ orphan.chargedBytes ∧ 1 ≤ orphan.chargedObjects

section Balance

variable {sha256 : List UInt8 → Digest} {w w' : World} {e : Event} {row next : BlobRow}
  {t : BlobTables} {delta : QuotaDelta}

theorem EmptyStore.balanced (h : EmptyStore w) : Balanced w := by
  rcases h.store with ⟨s, found, paired, serial, reserved, used, objects, anonymous, published⟩
  refine ⟨⟨s, found, paired, serial, ?_⟩, ?_, ?_, ?_, ?_⟩
  · refine ⟨?_, ?_, ?_, ?_, ?_⟩
    · rw [reserved, h.rows]
      rfl
    · rw [used, h.rows, h.orphans]
      rfl
    · rw [objects, h.rows, h.orphans]
      rfl
    · rw [anonymous, h.rows]
      rfl
    · rw [published, h.rows]
      rfl
  · rw [h.subjects]
    exact List.nodup_nil
  · intro subject member
    rw [h.subjects] at member
    cases member
  · intro row member
    rw [h.rows] at member
    cases member
  · intro orphan member
    rw [h.orphans] at member
    cases member

theorem ofSubject_iff {subject : String} :
    ofSubject subject row = true ↔ row.metadata.binding.subject.value = subject :=
  decide_eq_true_iff

/-- A live row of a subject makes the subject's number of objects positive. -/
theorem objects_pos {rows : List BlobRow} {subject : String} (member : row ∈ rows)
    (live : row.metadata.state ≠ .deleted) (own : row.metadata.binding.subject.value = subject) :
    0 < charged (·.objects) (ofSubject subject) rows := by
  have one : row.charge.objects = 1 := by rw [charge_live live]
  have part : row.charge.objects ≤ charged (·.objects) (ofSubject subject) rows :=
    charge_le_charged (·.objects) (ofSubject subject) (fun row => (charge_nonneg row).2.2) member (ofSubject_iff.mpr own)
  omega

/-- The subject rows stay balanced when a row is replaced and its subject is charged. -/
theorem subjectBalanced_moves {rows rows' : List BlobRow} {s s' : SubjectRow}
    (h : SubjectBalanced rows s) (replaced : Table.Replaced row next rows rows')
    (keeps : Keeps row next) (charge : MovesCharge row next delta) (same : s'.subject = s.subject)
    (own : s.subject = row.metadata.binding.subject.value →
      s'.reservedBytes = s.reservedBytes + delta.reserved
        ∧ s'.usedBytes = s.usedBytes + delta.used ∧ s'.objects = s.objects + delta.objects)
    (other : s.subject ≠ row.metadata.binding.subject.value → s' = s) : SubjectBalanced rows' s' := by
  have kept : ofSubject s.subject next = ofSubject s.subject row := by
    simp only [ofSubject, keeps.binding]
  by_cases mine : s.subject = row.metadata.binding.subject.value
  · rcases own mine with ⟨reserved, used, objects⟩
    have selected : ofSubject s.subject row = true := ofSubject_iff.mpr mine.symm
    refine ⟨?_, ?_, ?_⟩
    · rw [same, charged_replaced replaced kept, if_pos selected, reserved, h.reserved,
        charge.reserved]
    · rw [same, charged_replaced replaced kept, if_pos selected, used, h.used, charge.used]
    · rw [same, charged_replaced replaced kept, if_pos selected, objects, h.objects,
        charge.objects]
  · have skipped : ¬ ofSubject s.subject row = true :=
      fun selected => mine (ofSubject_iff.mp selected).symm
    rw [other mine]
    refine ⟨?_, ?_, ?_⟩
    · rw [charged_replaced replaced kept, if_neg skipped, h.reserved, Int.add_zero]
    · rw [charged_replaced replaced kept, if_neg skipped, h.used, Int.add_zero]
    · rw [charged_replaced replaced kept, if_neg skipped, h.objects, Int.add_zero]

/-- A new version of a row keeps the balance when its charge moves with it. -/
theorem Balanced.moves (h : Balanced w) (moves : Moves sha256 w row next t delta)
    (charge : MovesCharge row next delta) : Balanced (w.put next t) := by
  have replaced := moves.replaced
  have keeps := moves.keeps
  rcases moves.charged h.distinct with ⟨store, subjects, orphans⟩
  have balanced : ∀ s' ∈ t.subjects, SubjectBalanced (w.put next t).rows s' := by
    intro s' member
    rcases subjects.each s' member with ⟨s, here, same, _, own, other⟩
    exact subjectBalanced_moves (h.subjects s here) replaced keeps charge same own other
  have rest : ∀ orphan ∈ t.orphans, 0 ≤ orphan.chargedBytes ∧ 1 ≤ orphan.chargedObjects := by
    rw [orphans]
    exact h.orphans
  refine ⟨?_, subjects.distinct h.distinct, balanced, ?_, rest⟩
  · rcases h.store with ⟨s, found, paired, serial, counters⟩
    rcases store s found with ⟨s', found', _, state, _, reserved, used, objects, anonymousReserved,
      anonymousUsed, later⟩
    have every : anyRow row = true := rfl
    refine ⟨s', found', state.trans paired, by omega, ?_, ?_, ?_, ?_, ?_⟩
    · rw [charged_replaced replaced rfl, if_pos every, reserved, counters.reserved, charge.reserved]
    · rw [charged_replaced replaced rfl, if_pos every, used, counters.used, charge.used,
        show (w.put next t).tables.orphans = w.tables.orphans from orphans]
      omega
    · rw [charged_replaced replaced rfl, if_pos every, objects, counters.objects, charge.objects,
        show (w.put next t).tables.orphans = w.tables.orphans from orphans]
      omega
    · rw [charged_replaced replaced keeps.anonymous, anonymousReserved, counters.anonymousReserved,
        charge.reserved]
      cases row.anonymous <;> simp [anonymousColumn]
    · rw [charged_replaced replaced keeps.anonymous, anonymousUsed, counters.anonymousUsed,
        charge.used]
      cases row.anonymous <;> simp [anonymousColumn]
  · intro row' member live
    have owner : ∃ s ∈ w.tables.subjects, s.subject = row'.metadata.binding.subject.value
        ∧ s.anonymous = anonymousColumn row'.anonymous := by
      rcases replaced.mem member with rfl | old
      · rw [keeps.binding, keeps.anonymous]
        exact h.owners row replaced.mem_before charge.live
      · exact h.owners row' old live
    rcases owner with ⟨s, here, own, anonymous⟩
    rcases subjects.kept s here with ⟨s', there, same⟩ | ⟨mine, empty⟩
    · rcases subjects.each s' there with ⟨old, old_here, old_same, old_anonymous, _⟩
      have equal : old = s := Table.eq_of_key _ h.distinct old_here here (old_same.symm.trans same)
      rw [equal] at old_anonymous
      exact ⟨s', there, same.trans own, old_anonymous.trans anonymous⟩
    · -- The subject's row is gone, so its rows have no objects, but this one does.
      have kept : ofSubject s.subject next = ofSubject s.subject row := by
        simp only [ofSubject, keeps.binding]
      have total : charged (·.objects) (ofSubject s.subject) (w.put next t).rows = 0 := by
        rw [charged_replaced replaced kept, if_pos (ofSubject_iff.mpr mine.symm),
          ← charge.objects, ← (h.subjects s here).objects]
        exact empty
      have pos := objects_pos member live own.symm
      omega

/-- A reserved row is charged its limit and one object. -/
theorem charge_reserved {request : Reservation} {fresh : FreshIdentity} {expires : Timestamp} :
    (request.row fresh expires).charge = ⟨request.limit, 0, 1⟩ := by
  have live : (request.row fresh expires).metadata.state ≠ .deleted := by
    have uploading : (request.row fresh expires).metadata.state = .uploading := rfl
    rw [uploading]
    decide
  rw [charge_live live]
  rfl

/-- Without a subject row nothing of the subject is live. -/
theorem Balanced.unowned (h : Balanced w) {subject : String} {counter : QuotaDelta → Int}
    (absent : ∀ s ∈ w.tables.subjects, s.subject ≠ subject) (none : counter .zero = 0) :
    charged counter (ofSubject subject) w.rows = 0 := by
  refine charged_zero_of ?_ none
  intro row member own
  by_contra live
  have present : row.metadata.state ≠ .deleted := fun gone => live (charge_deleted gone)
  rcases h.owners row member present with ⟨s, here, same, _⟩
  exact absent s here (same.trans (ofSubject_iff.mp own))

/-- A new row charges its own subject and no other. -/
theorem subjectBalanced_append {rows : List BlobRow} {s : SubjectRow} {limit : Nat}
    (h : SubjectBalanced rows s) (charge : row.charge = ⟨limit, 0, 1⟩) :
    (s.subject = row.metadata.binding.subject.value →
      SubjectBalanced (rows ++ [row]) (s.charge limit 0 1))
    ∧ (s.subject ≠ row.metadata.binding.subject.value → SubjectBalanced (rows ++ [row]) s) := by
  constructor
  · intro own
    have selected : ofSubject s.subject row = true := ofSubject_iff.mpr own.symm
    have same : (s.charge limit 0 1).subject = s.subject := rfl
    refine ⟨?_, ?_, ?_⟩
    · rw [same, charged_append, if_pos selected, charge, ← h.reserved]
      rfl
    · rw [same, charged_append, if_pos selected, charge, ← h.used]
      rfl
    · rw [same, charged_append, if_pos selected, charge, ← h.objects]
      rfl
  · intro other
    have skipped : ¬ ofSubject s.subject row = true :=
      fun selected => other (ofSubject_iff.mp selected).symm
    refine ⟨?_, ?_, ?_⟩
    · rw [charged_append, if_neg skipped, h.reserved, Int.add_zero]
    · rw [charged_append, if_neg skipped, h.used, Int.add_zero]
    · rw [charged_append, if_neg skipped, h.objects, Int.add_zero]

/-- The row of a new subject. -/
theorem Balanced.newSubject (h : Balanced w) {limit : Nat} {anonymous : Int}
    (absent : ∀ s ∈ w.tables.subjects, s.subject ≠ row.metadata.binding.subject.value)
    (charge : row.charge = ⟨limit, 0, 1⟩) : SubjectBalanced (w.rows ++ [row])
      ⟨row.metadata.binding.subject.value, anonymous, limit, 0, 1⟩ := by
  have selected : ofSubject row.metadata.binding.subject.value row = true := ofSubject_iff.mpr rfl
  refine ⟨?_, ?_, ?_⟩
  · rw [charged_append, if_pos selected, charge, h.unowned absent rfl, Int.zero_add]
  · rw [charged_append, if_pos selected, charge, h.unowned absent rfl, Int.zero_add]
  · rw [charged_append, if_pos selected, charge, h.unowned absent rfl, Int.zero_add]

/-- A reservation charges the store and the subject what the new row is charged. -/
theorem Balanced.reserve {request : Reservation} {t' : BlobTables} (h : Balanced w)
    (reserved : Reserved request row w.tables t') :
    Balanced ⟨t', w.rows ++ [row], row :: w.held⟩ := by
  have orphans := reserved.blobs.2.2
  rcases reserved.written with ⟨fresh, quota, expires, t1, t2, _, _, rfl, store, subject, inserted⟩
  rcases updateStore_ok.mp store with ⟨s, found, _, rfl⟩
  rcases reserveSubject_ok subject with ⟨others, moved⟩
  have kept := (insertBlob_ok inserted).1
  have store' : t'.store = some (s.charge request.limit 0 1
      (anonymousColumn request.capability.isSome)) := by
    rw [kept, others]
  have subjects' : t'.subjects = t2.subjects := by rw [kept]
  have name : (request.row fresh expires).metadata.binding.subject = request.binding.subject := rfl
  have flag : (request.row fresh expires).anonymous = request.capability.isSome := rfl
  have rest : ∀ orphan ∈ t'.orphans, 0 ≤ orphan.chargedBytes ∧ 1 ≤ orphan.chargedObjects := by
    rw [orphans]
    exact h.orphans
  refine ⟨?_, ?_, ?_, ?_, rest⟩
  · rcases h.store with ⟨old, here, paired, serial, counters⟩
    rw [found] at here
    cases here
    have every : anyRow (request.row fresh expires) = true := rfl
    refine ⟨_, store', paired, ?_, ?_, ?_, ?_, ?_, ?_⟩
    · dsimp only [StoreRow.charge]
      omega
    · rw [charged_append, charge_reserved, if_pos every, ← counters.reserved]
      rfl
    · rw [charged_append, charge_reserved, if_pos every, orphans, Int.add_zero, ← counters.used]
      exact Int.add_zero _
    · rw [charged_append, charge_reserved, if_pos every, orphans]
      dsimp only [StoreRow.charge]
      rw [counters.objects]
      omega
    · rw [charged_append, charge_reserved, flag]
      dsimp only [StoreRow.charge]
      rw [counters.anonymousReserved]
      cases request.capability.isSome <;> simp [anonymousColumn]
    · rw [charged_append, charge_reserved, flag]
      dsimp only [StoreRow.charge]
      rw [counters.anonymousUsed]
      cases request.capability.isSome <;> simp [anonymousColumn]
  · dsimp only
    rw [subjects']
    rcases moved with ⟨old, _, _, replaced⟩ | ⟨absent, result⟩
    · rw [replaced.map_key (·.subject) rfl]
      exact h.distinct
    · rw [result, List.map_append, List.map_singleton]
      refine List.nodup_append.mpr ⟨h.distinct, List.nodup_singleton _, ?_⟩
      intro subject member other single
      rcases List.mem_map.mp member with ⟨old, here, rfl⟩
      rw [List.mem_singleton.mp single]
      exact absent old here
  · intro s' member
    rw [show (World.mk t' (w.rows ++ [request.row fresh expires])
      (request.row fresh expires :: w.held)).tables.subjects = t2.subjects from subjects'] at member
    rcases moved with ⟨old, own, _, replaced⟩ | ⟨absent, result⟩
    · rcases replaced.mem_other (·.subject) rfl h.distinct member with rfl | ⟨here, other⟩
      · exact (subjectBalanced_append (h.subjects old replaced.mem_before) charge_reserved).1 own
      · refine (subjectBalanced_append (h.subjects s' here) charge_reserved).2 ?_
        intro same
        exact other (same.trans own.symm)
    · rw [result] at member
      rcases List.mem_append.mp member with here | new
      · exact (subjectBalanced_append (h.subjects s' here) charge_reserved).2 (absent s' here)
      · rw [List.mem_singleton.mp new]
        exact h.newSubject absent charge_reserved
  · intro row' member live
    rw [show (World.mk t' (w.rows ++ [request.row fresh expires])
      (request.row fresh expires :: w.held)).tables.subjects = t2.subjects from subjects']
    have kept : ∀ s ∈ w.tables.subjects, ∃ s' ∈ t2.subjects, s'.subject = s.subject
        ∧ s'.anonymous = s.anonymous := by
      intro s here
      rcases moved with ⟨old, _, _, replaced⟩ | ⟨_, result⟩
      · rcases replaced.mem_old here with rfl | stays
        · exact ⟨_, replaced.mem_after, rfl, rfl⟩
        · exact ⟨s, stays, rfl, rfl⟩
      · rw [result]
        exact ⟨s, List.mem_append_left _ here, rfl, rfl⟩
    rcases List.mem_append.mp member with old | new
    · rcases h.owners row' old live with ⟨s, here, own, anonymous⟩
      rcases kept s here with ⟨s', there, same, flags⟩
      exact ⟨s', there, same.trans own, flags.trans anonymous⟩
    · rw [List.mem_singleton.mp new]
      rcases moved with ⟨old, own, anonymous, replaced⟩ | ⟨_, result⟩
      · exact ⟨_, replaced.mem_after, own, anonymous⟩
      · rw [result]
        exact ⟨_, List.mem_append_right _ (List.mem_singleton.mpr rfl), rfl, rfl⟩

/-- A released attachment stays charged. -/
theorem charge_unreferenced (row : BlobRow) (resource id : I64) (incarnation : String) :
    (row.unreferenced resource id incarnation).charge = row.charge
      ∧ (row.unreferenced resource id incarnation).metadata.binding = row.metadata.binding
      ∧ (row.unreferenced resource id incarnation).anonymous = row.anonymous
      ∧ ((row.unreferenced resource id incarnation).metadata.state ≠ .deleted →
        row.metadata.state ≠ .deleted) := by
  rcases unreferenced_cases row resource id incarnation with same | ⟨_, t, _, moved, result⟩
  · rw [same]
    exact ⟨rfl, rfl, rfl, fun live => live⟩
  · rcases unreference_ok moved with ⟨_, state, _, _, form⟩
    have live : row.metadata.state ≠ .deleted := by rw [state]; nofun
    have next_live : ({ row with metadata := t.next } : BlobRow).metadata.state ≠ .deleted := by
      rw [form]
      nofun
    rw [result]
    refine ⟨?_, ?_, rfl, fun _ => live⟩
    · rw [charge_live live, charge_live next_live, form]
    · rw [form]

/-- Detaching changes no charge. -/
theorem Balanced.detach {resource id : I64} {incarnation : String} (h : Balanced w)
    (others : t = { w.tables with blobs := t.blobs }) :
    Balanced ⟨t, w.rows.map (·.unreferenced resource id incarnation), w.held⟩ := by
  have subjects : t.subjects = w.tables.subjects := by rw [others]
  have store : t.store = w.tables.store := by rw [others]
  have orphans : t.orphans = w.tables.orphans := by rw [others]
  have sums : ∀ (counter : QuotaDelta → Int) (chosen : BlobRow → Bool),
      (∀ row : BlobRow, chosen (row.unreferenced resource id incarnation) = chosen row) →
        charged counter chosen (w.rows.map (·.unreferenced resource id incarnation))
          = charged counter chosen w.rows :=
    fun _ _ same => charged_map (fun row _ => same row)
      fun row _ => (charge_unreferenced row resource id incarnation).1
  have flags : ∀ row : BlobRow,
      (row.unreferenced resource id incarnation).anonymous = row.anonymous :=
    fun row => (charge_unreferenced row resource id incarnation).2.2.1
  have owned : ∀ (subject : String) (row : BlobRow),
      ofSubject subject (row.unreferenced resource id incarnation) = ofSubject subject row := by
    intro subject row
    simp only [ofSubject, (charge_unreferenced row resource id incarnation).2.1]
  have rest : ∀ orphan ∈ t.orphans, 0 ≤ orphan.chargedBytes ∧ 1 ≤ orphan.chargedObjects := by
    rw [orphans]
    exact h.orphans
  refine ⟨?_, ?_, ?_, ?_, rest⟩
  · rcases h.store with ⟨s, found, paired, serial, counters⟩
    refine ⟨s, store.trans found, paired, serial, ?_, ?_, ?_, ?_, ?_⟩
    · rw [sums _ _ fun _ => rfl, counters.reserved]
    · rw [sums _ _ fun _ => rfl, orphans, counters.used]
    · rw [sums _ _ fun _ => rfl, orphans, counters.objects]
    · rw [sums _ _ flags, counters.anonymousReserved]
    · rw [sums _ _ flags, counters.anonymousUsed]
  · dsimp only
    rw [subjects]
    exact h.distinct
  · intro s member
    dsimp only at member
    rw [subjects] at member
    have balanced := h.subjects s member
    refine ⟨?_, ?_, ?_⟩
    · rw [sums _ _ (owned _), balanced.reserved]
    · rw [sums _ _ (owned _), balanced.used]
    · rw [sums _ _ (owned _), balanced.objects]
  · intro row' member live
    rcases List.mem_map.mp member with ⟨row, here, rfl⟩
    rcases charge_unreferenced row resource id incarnation with ⟨_, binding, flag, alive⟩
    dsimp only
    rw [subjects, binding, flag]
    exact h.owners row here (alive live)

/-- What a quarantine does: nothing, or one orphan and its charge. -/
theorem quarantine_ok {key store process : ObjectKey} {bytes paths : Nat} {now : Timestamp}
    {t t' : BlobTables} (op : quarantineUnknown key bytes paths store process now t = .ok t') :
    1 ≤ paths ∧ (t' = t ∨ ∃ s, t.store = some s ∧ t' = { t with
      store := some (s.charge 0 bytes paths 0)
      orphans := t.orphans ++ [⟨key.value, now.millis, bytes, paths, process.value⟩] }) := by
  simp only [quarantineUnknown, check, bind_eq_ok, ensure_eq_ok] at op
  rcases op with ⟨_, ⟨one, _⟩, _, _, op⟩
  refine ⟨one, ?_⟩
  split at op
  · cases op
    exact Or.inl rfl
  · rcases updateStore_ok.mp op with ⟨s, found, _, rfl⟩
    exact Or.inr ⟨s, found, rfl⟩

/-- A quarantine charges the store what the new orphan is charged. -/
theorem Balanced.quarantine {key store process : ObjectKey} {bytes paths : Nat} {now : Timestamp}
    (h : Balanced w) (op : quarantineUnknown key bytes paths store process now w.tables = .ok t) :
    Balanced { w with tables := t } := by
  rcases (quarantine_ok op).2 with rfl | ⟨s, found, rfl⟩
  · exact h
  · rcases h.store with ⟨old, here, paired, serial, counters⟩
    rw [found] at here
    cases here
    refine ⟨⟨_, rfl, paired, ?_, ?_, ?_, ?_, ?_, ?_⟩, h.distinct, h.subjects, h.owners, ?_⟩
    · dsimp only [StoreRow.charge]
      omega
    · dsimp only [StoreRow.charge]
      rw [counters.reserved, Int.add_zero]
    · dsimp only [StoreRow.charge]
      rw [counters.used, List.map_append, List.sum_append, List.map_singleton, List.sum_singleton,
        Int.add_assoc]
    · dsimp only [StoreRow.charge]
      rw [counters.objects, List.map_append, List.sum_append, List.map_singleton,
        List.sum_singleton, Int.add_assoc]
    · dsimp only [StoreRow.charge]
      rw [counters.anonymousReserved, Int.mul_zero, Int.add_zero]
    · dsimp only [StoreRow.charge]
      rw [counters.anonymousUsed, Int.mul_zero, Int.add_zero]
    · intro orphan member
      rcases List.mem_append.mp member with before | new
      · exact h.orphans orphan before
      · rw [List.mem_singleton.mp new]
        have one := (quarantine_ok op).1
        exact ⟨Int.natCast_nonneg _, by dsimp only; omega⟩

/-- Every step keeps the balance. -/
theorem Balanced.step (h : Balanced w) (tracked : Tracked sha256 w) (step : Step sha256 e w w') :
    Balanced w' := by
  cases changed : e.change with
  | some change =>
      rcases step.moves tracked changed with ⟨_, legal, result, moves⟩
      rw [result]
      exact h.moves moves (legal.movesCharge changed)
  | none =>
      cases step with
      | read stored parsed => exact ⟨h.store, h.distinct, h.subjects, h.owners, h.orphans⟩
      | reserve op => exact h.reserve (reserve_reserved op)
      | detach op => exact h.detach (detach_rows tracked op).2
      | quarantine op => exact h.quarantine op
      | publish held op => cases changed
      | attach held attached op => cases changed
      | claim held op => cases changed
      | claimStopped held op => cases changed
      | recover held op => cases changed
      | resume held op => cases changed
      | delete held op => cases changed

theorem balanced_invariant {allowed : Event → World → Prop} :
    (blobSystem sha256 allowed).Invariant fun state => Balanced state.1 where
  initial _ h := h.1.balanced
  step state next reachable h step := by
    rcases step with ⟨e, step, _⟩
    exact h.step (tracked_invariant.holds reachable) step

/-! ## Sufficient counters -/

/-- A sum over some rows is part of the sum over all of them. -/
theorem charged_le_all {counter : QuotaDelta → Int} {chosen : BlobRow → Bool} {rows : List BlobRow}
    (nonneg : ∀ row : BlobRow, 0 ≤ counter row.charge) :
    charged counter chosen rows ≤ charged counter anyRow rows := by
  unfold charged
  induction rows with
  | nil => exact Int.le_refl 0
  | cons row rest ih =>
      have part : (if chosen row then counter row.charge else 0)
          ≤ if anyRow row then counter row.charge else 0 := by
        rw [if_pos (show anyRow row = true from rfl)]
        split
        · exact Int.le_refl _
        · exact nonneg row
      simp only [List.map_cons, List.sum_cons]
      omega

/-- A sum of charges is not negative. -/
theorem charged_nonneg {counter : QuotaDelta → Int} {chosen : BlobRow → Bool} {rows : List BlobRow}
    (nonneg : ∀ row : BlobRow, 0 ≤ counter row.charge) : 0 ≤ charged counter chosen rows := by
  refine List.sum_nonneg ?_
  intro weight found
  rcases List.mem_map.mp found with ⟨row, _, rfl⟩
  split
  · exact nonneg row
  · exact Int.le_refl 0

theorem Balanced.orphans_nonneg (h : Balanced w) :
    0 ≤ (w.tables.orphans.map (·.chargedBytes)).sum
      ∧ 0 ≤ (w.tables.orphans.map (·.chargedObjects)).sum := by
  refine ⟨List.sum_nonneg ?_, List.sum_nonneg ?_⟩
  · intro weight found
    rcases List.mem_map.mp found with ⟨orphan, member, rfl⟩
    exact (h.orphans orphan member).1
  · intro weight found
    rcases List.mem_map.mp found with ⟨orphan, member, rfl⟩
    have one := (h.orphans orphan member).2
    omega

/-- The counters of the store cover the charge of a live row. -/
theorem Balanced.covers (h : Balanced w) {s : StoreRow} (found : w.tables.store = some s)
    (member : row ∈ w.rows) (live : row.metadata.state ≠ .deleted) :
    (row.metadata.reserved : Int) ≤ s.reservedBytes ∧ (row.metadata.bytes : Int) ≤ s.usedBytes
      ∧ 0 < s.objects
      ∧ row.metadata.reserved * anonymousColumn row.anonymous ≤ s.anonymousReservedBytes
      ∧ row.metadata.bytes * anonymousColumn row.anonymous ≤ s.anonymousUsedBytes := by
  rcases h.store with ⟨old, here, _, _, counters⟩
  rw [found] at here
  cases here
  rcases h.orphans_nonneg with ⟨bytes, objects⟩
  have reserved := fun (row : BlobRow) => (charge_nonneg row).1
  have used := fun (row : BlobRow) => (charge_nonneg row).2.1
  have one := fun (row : BlobRow) => (charge_nonneg row).2.2
  have all_reserved := charge_le_charged (·.reserved) anyRow reserved member rfl
  have all_used := charge_le_charged (·.used) anyRow used member rfl
  have all_objects := charge_le_charged (·.objects) anyRow one member rfl
  rw [charge_live live] at all_reserved all_used all_objects
  dsimp only at all_objects
  refine ⟨?_, ?_, ?_, ?_, ?_⟩
  · rw [counters.reserved]
    exact all_reserved
  · rw [counters.used]
    exact Int.le_add_of_nonneg_right bytes |>.trans' all_used
  · rw [counters.objects]
    omega
  · rw [counters.anonymousReserved]
    cases flag : row.anonymous with
    | false => simpa [anonymousColumn] using charged_nonneg reserved
    | true =>
        have part := charge_le_charged (·.reserved) (·.anonymous) reserved member flag
        rw [charge_live live] at part
        simpa [anonymousColumn] using part
  · rw [counters.anonymousUsed]
    cases flag : row.anonymous with
    | false => simpa [anonymousColumn] using charged_nonneg used
    | true =>
        have part := charge_le_charged (·.used) (·.anonymous) used member flag
        rw [charge_live live] at part
        simpa [anonymousColumn] using part

/-- The one subject row of a live row covers its charge. -/
theorem Balanced.covers_subject (h : Balanced w) (member : row ∈ w.rows)
    (live : row.metadata.state ≠ .deleted) : ∃ s ∈ w.tables.subjects,
      s.subject = row.metadata.binding.subject.value ∧ s.anonymous = anonymousColumn row.anonymous
        ∧ (row.metadata.reserved : Int) ≤ s.reservedBytes
        ∧ (row.metadata.bytes : Int) ≤ s.usedBytes ∧ 0 < s.objects := by
  rcases h.owners row member live with ⟨s, here, own, anonymous⟩
  have balanced := h.subjects s here
  have selected : ofSubject s.subject row = true := ofSubject_iff.mpr own.symm
  have reserved := charge_le_charged (·.reserved) (ofSubject s.subject)
    (fun row => (charge_nonneg row).1) member selected
  have used := charge_le_charged (·.used) (ofSubject s.subject)
    (fun row => (charge_nonneg row).2.1) member selected
  rw [charge_live live] at reserved used
  refine ⟨s, here, own, anonymous, ?_, ?_, ?_⟩
  · rw [balanced.reserved]
    exact reserved
  · rw [balanced.used]
    exact used
  · rw [balanced.objects]
    exact objects_pos member live own.symm

/-- A statement on the one row of a subject runs where its condition holds there. -/
theorem Balanced.subject_runs (h : Balanced w) {text : String} {condition : SubjectRow → Bool}
    {change : SubjectRow → SubjectRow} {s : SubjectRow} (same : t.subjects = w.tables.subjects)
    (member : s ∈ w.tables.subjects) (holds : condition s = true)
    (own : ∀ other, condition other = true → other.subject = s.subject) :
    ∃ t', updateSubject text condition change t = .ok t' := by
  have one : t.subjects.countP condition = 1 := by
    rw [same]
    have distinct := h.distinct
    clear same
    generalize w.tables.subjects = subjects at member distinct
    have only : ∀ other ∈ subjects, condition other = true → other = s :=
      fun other here chosen => Table.eq_of_key _ distinct here member (own other chosen)
    have count : subjects.countP condition = subjects.countP (· == s) := by
      refine List.countP_congr ?_
      intro other here
      rw [beq_iff_eq]
      exact ⟨only other here, fun equal => equal ▸ holds⟩
    rw [count]
    exact List.count_eq_one_of_mem distinct.of_map member
  refine ⟨{ t with subjects := Table.update condition change t.subjects }, ?_⟩
  unfold updateSubject
  rw [check, ensure_pos one, bind_ok]
  rfl

/-! ## The stored counters -/

/-- The stored rows that are not deleted. -/
def BlobTables.live (t : BlobTables) : List (BlobColumns Int) :=
  t.blobs.filter fun c => c.state ≠ "deleted"

/-- The stored counters are the sums over the stored live rows and orphans. -/
structure Conserved (t : BlobTables) : Prop where
  store : ∃ s, t.store = some s
    ∧ s.reservedBytes = (t.live.map (·.reservedBytes)).sum
    ∧ s.usedBytes = (t.live.map (·.actualBytes)).sum + (t.orphans.map (·.chargedBytes)).sum
    ∧ s.objects = t.live.length + (t.orphans.map (·.chargedObjects)).sum
    ∧ s.anonymousReservedBytes
      = ((t.live.filter fun c => c.anonymous = 1).map (·.reservedBytes)).sum
    ∧ s.anonymousUsedBytes = ((t.live.filter fun c => c.anonymous = 1).map (·.actualBytes)).sum
  subjects : ∀ s ∈ t.subjects,
    s.reservedBytes = ((t.live.filter fun c => c.subject = s.subject).map (·.reservedBytes)).sum
    ∧ s.usedBytes = ((t.live.filter fun c => c.subject = s.subject).map (·.actualBytes)).sum
    ∧ s.objects = (t.live.filter fun c => c.subject = s.subject).length
  distinct : (t.subjects.map (·.subject)).Nodup
  owners : ∀ c ∈ t.live, ∃ s ∈ t.subjects, s.subject = c.subject ∧ s.anonymous = c.anonymous

theorem deleted_text : row.columns.state ≠ "deleted" ↔ row.metadata.state ≠ .deleted := by
  have text : row.columns.state = row.metadata.state.text := rfl
  have name : "deleted" = State.deleted.text := rfl
  rw [text, name]
  exact not_congr ⟨State.text_injective, fun same => by rw [same]⟩

/-- A sum of charges is the sum of a column over the stored live rows. -/
theorem charged_columns {rows : List BlobRow} {counter : QuotaDelta → Int}
    {chosen : BlobRow → Bool} {pick : BlobColumns Int → Bool} {value : BlobColumns Int → Int}
    (same : ∀ row : BlobRow, pick row.columns = chosen row)
    (live : ∀ row : BlobRow, row.metadata.state ≠ .deleted →
      value row.columns = counter row.charge) (none : counter .zero = 0) :
    ((((rows.map BlobRow.columns).filter fun c => c.state ≠ "deleted").filter pick).map value).sum
      = charged counter chosen rows := by
  unfold charged
  induction rows with
  | nil => rfl
  | cons row rest ih =>
      rw [List.map_cons, List.map_cons, List.sum_cons, ← ih]
      by_cases gone : row.metadata.state = .deleted
      · have skipped : ¬ row.columns.state ≠ "deleted" := fun state => deleted_text.mp state gone
        rw [List.filter_cons_of_neg (by simpa using skipped), charge_deleted gone, none]
        split <;> omega
      · have kept : row.columns.state ≠ "deleted" := deleted_text.mpr gone
        rw [List.filter_cons_of_pos (by simpa using kept)]
        by_cases selected : chosen row = true
        · rw [if_pos selected, List.filter_cons_of_pos ((same row).trans selected), List.map_cons,
            List.sum_cons, live row gone]
        · rw [if_neg selected, List.filter_cons_of_neg (by rwa [same row]), Int.zero_add]

/-- A sum over the live rows of a tracked world is a sum of charges. -/
theorem Tracked.sum_live (h : Tracked sha256 w) {counter : QuotaDelta → Int}
    {chosen : BlobRow → Bool} {pick : BlobColumns Int → Bool} {value : BlobColumns Int → Int}
    (same : ∀ row : BlobRow, pick row.columns = chosen row)
    (live : ∀ row : BlobRow, row.metadata.state ≠ .deleted →
      value row.columns = counter row.charge) (none : counter .zero = 0) :
    ((w.tables.live.filter pick).map value).sum = charged counter chosen w.rows := by
  unfold BlobTables.live
  rw [h.columns]
  exact charged_columns same live none

theorem length_eq_sum {α : Type} (l : List α) : (l.length : Int) = (l.map fun _ => (1 : Int)).sum := by
  induction l with
  | nil => rfl
  | cons a l ih =>
      rw [List.length_cons, List.map_cons, List.sum_cons, ← ih]
      omega

/-- A balanced world has its counters conserved in the tables. -/
theorem Balanced.conserved (h : Balanced w) (tracked : Tracked sha256 w) : Conserved w.tables := by
  have reserved : ∀ row : BlobRow, row.metadata.state ≠ .deleted →
      row.columns.reservedBytes = row.charge.reserved := fun row live => by
    rw [charge_live live]
    rfl
  have used : ∀ row : BlobRow, row.metadata.state ≠ .deleted →
      row.columns.actualBytes = row.charge.used := fun row live => by
    rw [charge_live live]
    rfl
  have one : ∀ row : BlobRow, row.metadata.state ≠ .deleted → 1 = row.charge.objects :=
    fun row live => by rw [charge_live live]
  have every : ∀ value : BlobColumns Int → Int, (w.tables.live.map value).sum
      = ((w.tables.live.filter fun _ => true).map value).sum := fun value => by
    rw [List.filter_true]
  have all : ∀ row : BlobRow, (fun _ : BlobColumns Int => true) row.columns = anyRow row :=
    fun _ => rfl
  have flag : ∀ row : BlobRow,
      (fun c : BlobColumns Int => decide (c.anonymous = 1)) row.columns = row.anonymous := by
    intro row
    cases anonymous : row.anonymous <;> simp [BlobRow.columns, anonymous]
  have owned : ∀ (subject : String) (row : BlobRow),
      (fun c : BlobColumns Int => decide (c.subject = subject)) row.columns
        = ofSubject subject row := fun _ _ => rfl
  refine ⟨?_, ?_, h.distinct, ?_⟩
  · rcases h.store with ⟨s, found, _, _, counters⟩
    refine ⟨s, found, ?_, ?_, ?_, ?_, ?_⟩
    · rw [every, tracked.sum_live all reserved rfl, counters.reserved]
    · rw [every, tracked.sum_live all used rfl, counters.used]
    · rw [length_eq_sum, every, tracked.sum_live all one rfl, counters.objects]
    · rw [tracked.sum_live flag reserved rfl, counters.anonymousReserved]
    · rw [tracked.sum_live flag used rfl, counters.anonymousUsed]
  · intro s member
    have balanced := h.subjects s member
    refine ⟨?_, ?_, ?_⟩
    · rw [tracked.sum_live (owned s.subject) reserved rfl, balanced.reserved]
    · rw [tracked.sum_live (owned s.subject) used rfl, balanced.used]
    · rw [length_eq_sum, tracked.sum_live (owned s.subject) one rfl, balanced.objects]
  · intro c member
    unfold BlobTables.live at member
    rw [tracked.columns, List.mem_filter, decide_eq_true_eq] at member
    rcases member with ⟨stored, live⟩
    rcases List.mem_map.mp stored with ⟨row, here, rfl⟩
    rcases h.owners row here (deleted_text.mp live) with ⟨s, there, own, anonymous⟩
    exact ⟨s, there, own, anonymous⟩

/-! ## Stages and releases -/

/-- The store is this one, is paired, and has a serial left. -/
def Serves (store : ObjectKey) (t : BlobTables) : Prop :=
  ∃ s, t.store = some s ∧ s.isPaired store.value = true ∧ s.hasSerial = true

/-- The published bytes of the store bound those of its parts. -/
theorem Balanced.parts_used (h : Balanced w) {s : StoreRow} (found : w.tables.store = some s) :
    s.anonymousUsedBytes ≤ s.usedBytes ∧ s.anonymousReservedBytes ≤ s.reservedBytes
      ∧ ∀ subject ∈ w.tables.subjects, subject.usedBytes ≤ s.usedBytes := by
  rcases h.store with ⟨old, here, _, _, counters⟩
  rw [found] at here
  cases here
  have bytes := h.orphans_nonneg.1
  have part : ∀ chosen, charged (·.used) chosen w.rows ≤ charged (·.used) anyRow w.rows :=
    fun _ => charged_le_all fun row => (charge_nonneg row).2.1
  refine ⟨?_, ?_, ?_⟩
  · have anonymous := part (·.anonymous)
    rw [counters.anonymousUsed, counters.used]
    omega
  · rw [counters.anonymousReserved, counters.reserved]
    exact charged_le_all fun row => (charge_nonneg row).1
  · intro subject member
    have owned := part (ofSubject subject.subject)
    rw [(h.subjects subject member).used, counters.used]
    omega

/-- Publishing a live row finds its reservation in both counters. -/
theorem Balanced.stage_runs (h : Balanced w) (member : row ∈ w.rows)
    (live : row.metadata.state ≠ .deleted) {store : ObjectKey} (serves : Serves store w.tables)
    {bytes : Nat} (room : ∀ s, w.tables.store = some s → s.usedBytes ≤ 9223372036854775807 - bytes) :
    ∃ t1 t2, stageStore store row bytes w.tables = .ok t1 ∧ stageSubject row bytes t1 = .ok t2 := by
  rcases serves with ⟨s, found, paired, serial⟩
  rcases h.covers found member live with ⟨reserved, _, objects, anonymous, _⟩
  rcases h.parts_used found with ⟨used_part, _, subject_part⟩
  have used := room s found
  have flag : (bytes : Int) * anonymousColumn row.anonymous ≤ bytes := by
    cases row.anonymous <;> simp [anonymousColumn]
  have staged : ∃ t1, stageStore store row bytes w.tables = .ok t1
      ∧ t1.subjects = w.tables.subjects := by
    unfold stageStore
    refine ⟨_, updateStore_ok.mpr ⟨s, found, ?_, rfl⟩, rfl⟩
    rw [decide_eq_true_eq]
    exact ⟨paired, reserved, anonymous, objects, serial, used, by omega⟩
  rcases staged with ⟨t1, staged, same⟩
  rcases h.covers_subject member live with ⟨subject, here, own, flags, enough, _, some⟩
  have part := subject_part subject here
  have charged : ∃ t2, stageSubject row bytes t1 = .ok t2 := by
    unfold stageSubject
    refine h.subject_runs same here ?_ ?_
    · rw [decide_eq_true_eq]
      exact ⟨own, flags, enough, some, by omega⟩
    · intro other holds
      rw [decide_eq_true_eq] at holds
      exact holds.1.trans own.symm
  rcases charged with ⟨t2, charged⟩
  exact ⟨t1, t2, staged, charged⟩

/-- Deleting a live row finds its charge in both counters. -/
theorem Balanced.release_runs (h : Balanced w) (member : row ∈ w.rows)
    (live : row.metadata.state ≠ .deleted) {store : ObjectKey} (serves : Serves store w.tables) :
    ∃ t1 t2, releaseStore store row w.tables = .ok t1 ∧ releaseSubject row t1 = .ok t2 := by
  rcases serves with ⟨s, found, paired, serial⟩
  rcases h.covers found member live with ⟨reserved, used, objects, anonymous, published⟩
  have released : ∃ t1, releaseStore store row w.tables = .ok t1
      ∧ t1.subjects = w.tables.subjects := by
    unfold releaseStore
    refine ⟨_, updateStore_ok.mpr ⟨s, found, ?_, rfl⟩, rfl⟩
    rw [decide_eq_true_eq]
    exact ⟨paired, reserved, used, objects, anonymous, published, serial⟩
  rcases released with ⟨t1, released, same⟩
  rcases h.covers_subject member live with ⟨subject, here, own, flags, enough, bytes, some⟩
  have charged : ∃ t2, releaseSubject row t1 = .ok t2 := by
    unfold releaseSubject
    refine h.subject_runs same here ?_ ?_
    · rw [decide_eq_true_eq]
      exact ⟨own, flags, enough, bytes, some⟩
    · intro other holds
      rw [decide_eq_true_eq] at holds
      exact holds.1.trans own.symm
  rcases charged with ⟨t2, charged⟩
  exact ⟨t1, t2, released, charged⟩

end Balance

/-! ## A run -/

/-- A hash for runs on fixed inputs. -/
def sampleHash (_ : List UInt8) : Digest := ⟨List.replicate 32 0, rfl⟩

def emptyTables : BlobTables where
  store := some ⟨sampleToken, sampleToken, "paired", 1, 0, 0, 0, 0, 0⟩
  subjects := []
  blobs := []
  orphans := []

def sampleReservation : Reservation where
  binding := sampleUpload.metadata.binding
  filename := sampleName
  limit := 10
  now := .unixEpoch
  policy := ⟨⟨10, 100, 4, 1, 1, 1⟩, none, []⟩
  capability := none
  store := sampleKey
  process := sampleKey

def sampleFresh : FreshIdentity :=
  ⟨sampleKey, sampleUpload.metadata.blob, sampleUpload.metadata.handle⟩

/-- The tables after one reservation. -/
def reservedTables : BlobTables where
  store := some ⟨sampleToken, sampleToken, "paired", 2, 10, 0, 1, 0, 0⟩
  subjects := [⟨sampleToken, 0, 10, 0, 1⟩]
  blobs := [sampleUpload.columns]
  orphans := []

theorem reserve_sample : reserve sampleHash sampleReservation sampleFresh emptyTables
    = .ok (.created sampleUpload, reservedTables) := by
  have policy : sampleReservation.policy.validateLimits = .ok () := by decide
  have limit : 0 < sampleReservation.limit
      ∧ sampleReservation.limit ≤ sampleReservation.policy.limits.fileBytes := by decide
  have loaded : load sampleHash (·.slot) sampleReservation.binding.slot.value emptyTables
      = .ok none := rfl
  have quota : sampleReservation.quota = .ok ⟨1, 1, 1, 2 ^ 64 - 1⟩ := rfl
  have store : reserveStore sampleReservation ⟨1, 1, 1, 2 ^ 64 - 1⟩ emptyTables
      = .ok { emptyTables with store := reservedTables.store } := by decide
  have subject : reserveSubject sampleReservation ⟨1, 1, 1, 2 ^ 64 - 1⟩
      { emptyTables with store := reservedTables.store }
        = .ok { reservedTables with blobs := [] } := by decide
  have lifetime : sampleReservation.now.checkedAdd stageLifetimeMillis
      = .ok sampleUpload.metadata.expires := by decide
  have row : sampleReservation.row sampleFresh sampleUpload.metadata.expires = sampleUpload := rfl
  have inserted : insertBlob sampleUpload { reservedTables with blobs := [] }
      = .ok reservedTables := by decide
  rw [reserve, policy, bind_ok, check, ensure_pos limit, bind_ok, loaded, bind_ok]
  dsimp only
  rw [reserveNew, quota, bind_ok, store, bind_ok, subject, bind_ok, lifetime, bind_ok]
  dsimp only
  rw [row, inserted, bind_ok]
  rfl

def emptyWorld : World := ⟨emptyTables, [], []⟩

theorem emptyWorld_empty : EmptyStore emptyWorld :=
  ⟨⟨_, rfl, rfl, by decide, rfl, rfl, rfl, rfl, rfl⟩, rfl, rfl, rfl, rfl, rfl⟩

/-- The world after one reservation. -/
def reservedWorld : World := ⟨reservedTables, [sampleUpload], [sampleUpload]⟩

theorem reservedWorld_reachable {allowed : Event → World → Prop}
    (allows : allowed (.reserve sampleUpload) emptyWorld) :
    (blobSystem sampleHash allowed).Reachable (reservedWorld, [.reserve sampleUpload]) := by
  have start : (blobSystem sampleHash allowed).Reachable (emptyWorld, []) :=
    System.Reachable.start ⟨emptyWorld_empty, rfl⟩
  have reserved : Step sampleHash (.reserve sampleUpload) emptyWorld reservedWorld :=
    Step.reserve reserve_sample
  exact start.next ⟨_, reserved, allows, rfl⟩

section Conservation

variable {sha256 : List UInt8 → Digest}

/-- In every reachable state the stored counters are the sums over the stored live rows
and orphans.  So a legal publication or deletion of a current row never finds a counter
too small: its statements succeed on any paired store with a serial left, and without an
overflow of the published bytes. -/
theorem quota_conserved {state : World × List Event}
    (reachable : (blobSystem sha256 anyEvent).Reachable state) :
    Conserved state.1.tables ∧ state.1.tables.blobs = state.1.rows.map BlobRow.columns
      ∧ ∀ row ∈ state.1.rows, ∀ store, Serves store state.1.tables →
        (∀ object now transition,
          row.metadata.stage sha256 row.metadata.generation object now row.metadata.binding
            = .ok transition →
          (∀ s, state.1.tables.store = some s →
            s.usedBytes ≤ 9223372036854775807 - transition.next.bytes) →
          ∃ t1 t2, stageStore store row transition.next.bytes state.1.tables = .ok t1
            ∧ stageSubject row transition.next.bytes t1 = .ok t2)
        ∧ (∀ claim transition, row.metadata.deleted claim = .ok transition →
          ∃ t1 t2, releaseStore store row state.1.tables = .ok t1
            ∧ releaseSubject row t1 = .ok t2) := by
  have balanced : Balanced state.1 := balanced_invariant.holds reachable
  have tracked : Tracked sha256 state.1 := tracked_invariant.holds reachable
  refine ⟨balanced.conserved tracked, tracked.columns, ?_⟩
  intro row member store serves
  constructor
  · intro object now transition staged room
    have uploading := (stage_ok staged).2.1
    exact balanced.stage_runs member (by rw [uploading]; nofun) serves room
  · intro claim transition moved
    have deleting := (deleted_ok moved).2.1
    exact balanced.release_runs member (by rw [deleting]; nofun) serves

end Conservation

/-- After one reservation of ten bytes. -/
theorem quota_conserved_sample : Conserved reservedTables :=
  (quota_conserved (reservedWorld_reachable trivial)).1

end Blobs
end Noxide
