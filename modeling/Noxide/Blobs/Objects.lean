import Noxide.Blobs.Files
import Noxide.Blobs.Rows

/-!
# Durable objects

What the evidence of an upload is worth, what a download reads, and that an upload which nothing
disturbs ends in evidence of all its chunks.

Main results:

- Theorem {lit}`durable_objects_survive`: what evidence was given for can be opened, whole, until
  it is removed.
- Theorem {lit}`downloads_exact`: a download reads what its object held when it was opened.
- Theorem {lit}`finalize_ok`, {lit}`finalize_completes`: a whole upload, and when it succeeds.
-/

namespace Noxide
namespace Blobs
namespace Files

open Checked
open Disks

/-! ## Whole uploads -/

section Whole

variable (sha256 : List UInt8 → Digest)

def Store.begin (s : Store) (key : ObjectKey) (limit : Nat) : Result Store := do
  let (object, disk) ← beginObject key limit s.disk
  return { s with disk := disk, uploads := s.uploads ++ [⟨object, .writing⟩] }

/-- A chunk of the upload at an index; what the system will answer is given in advance. -/
def Store.writeChunk (index : Nat) (bytes : List UInt8) (state : Store × List (List WriteAnswer)) :
    Result (Store × List (List WriteAnswer)) :=
  match state.1.uploads[index]? with
  | none => .error (.message "index out of bounds")
  | some upload =>
      match upload.object.writeChunk (state.2.headD []) bytes state.1.disk with
      | (_, .error e) => .error e
      | ((object, disk), .ok _) =>
          .ok ({ state.1 with disk := disk, uploads := state.1.uploads.set index { upload with object := object } },
            state.2.tail)

/-- The next call of {lit}`finalize` for the upload at an index. -/
def Store.finalizeOnce (s : Store) (index : Nat) : Result Store := do
  let upload ← need "index out of bounds" s.uploads[index]?
  let (next, disk, object) ← finalizeNext sha256 upload s.disk
  return { s with
    disk := disk
    uploads := s.uploads.set index next
    durable := s.durable ++ object.toList.map fun object => ⟨object, upload.object.digested⟩ }

/-- {lit}`finalize`: seal, sync, rename, sync both folders, and give the evidence. -/
def Store.finalize (s : Store) (index : Nat) : Result Store := do
  let s ← s.finalizeOnce sha256 index
  let s ← s.finalizeOnce sha256 index
  let s ← s.finalizeOnce sha256 index
  let s ← s.finalizeOnce sha256 index
  let s ← s.finalizeOnce sha256 index
  s.finalizeOnce sha256 index

/-- The upload at an index is being written, and its file holds what was written. -/
structure Writing (s : Store) (index : Nat) (object : PendingObject) : Prop where
  here : s.uploads[index]? = some ⟨object, .writing⟩
  counted : object.digested.length = object.written
  whole : ∃ found, s.disk.files object.file = some found ∧ found.data.length = object.written

/-- Steps that give no evidence and remove nothing. -/
structure Quiet (s after : Store) : Prop where
  run : (storeSystem sha256).Run s after
  durable : after.durable = s.durable
  removed : after.removed = s.removed

variable {sha256} {s after : Store} {index : Nat} {object : PendingObject}

theorem begin_writing {key : ObjectKey} {limit : Nat} (h : s.begin key limit = .ok after) :
    Quiet sha256 s after ∧ ∃ object, Writing after s.uploads.length object ∧ object.key = key ∧ object.limit = limit
      ∧ object.digested = [] := by
  unfold Store.begin at h
  rcases bind_eq_ok.mp h with ⟨⟨object, disk⟩, begun, h⟩
  cases h
  refine ⟨⟨System.Run.tail (System.Run.refl s) (Step.begin begun), rfl, rfl⟩, object, ?_⟩
  unfold beginObject at begun
  rcases bind_eq_ok.mp begun with ⟨_, _, begun⟩
  rcases bind_eq_ok.mp begun with ⟨⟨file, disk⟩, _, begun⟩
  rcases bind_eq_ok.mp begun with ⟨_, checked, begun⟩
  cases begun
  rcases regular_eq_ok checked with ⟨found, inside, _, length⟩
  refine ⟨⟨?_, rfl, found, inside, length 0 rfl⟩, rfl, rfl, rfl⟩
  simp only
  rw [List.getElem?_append_right le_rfl, Nat.sub_self]
  rfl

theorem begin_completes {key : ObjectKey} {limit : Nat} (within : 1 ≤ limit ∧ limit ≤ maxUploadBytes)
    (free : s.disk.lookup .partials key.value = none) : ∃ after, s.begin key limit = .ok after
      ∧ ∀ name, after.disk.lookup .objects name = s.disk.lookup .objects name := by
  have created : s.disk.create .partials key.value 0o600 = some (s.disk.next,
      { (s.disk.setName .partials key.value (some s.disk.next)).setFile s.disk.next ⟨[], false, .settled 0o600⟩ with
        next := s.disk.next + 1 }) := Disk.create_eq_some.mpr ⟨free, rfl, rfl⟩
  unfold Store.begin beginObject
  rw [check, ensure_pos within, bind_ok]
  simp only [created]
  have checked : regular { (s.disk.setName .partials key.value (some s.disk.next)).setFile s.disk.next
      ⟨[], false, .settled 0o600⟩ with next := s.disk.next + 1 } s.disk.next 0o600 (some 0) = .ok () := by
    unfold regular
    have found : (Disk.setFile (s.disk.setName .partials key.value (some s.disk.next)) s.disk.next
        ⟨[], false, .settled 0o600⟩).files s.disk.next = some ⟨[], false, .settled 0o600⟩ :=
      Function.update_self _ _ _
    simp only [found, need, context, bind_ok, check]
    refine ensure_pos ⟨rfl, fun n here => ?_⟩
    cases here
    rfl
  simp only [need, context, bind_ok, checked]
  refine ⟨_, rfl, fun name => ?_⟩
  have kept : (s.disk.setName .partials key.value (some s.disk.next)).lookup .objects name
      = s.disk.lookup .objects name := by
    rw [Disk.lookup_setName, if_neg (fun same => by cases same.1)]
  exact kept

/-- Answers that go on to write. -/
def Benign (answers : List WriteAnswer) : Prop :=
  ∀ answer ∈ answers, answer ≠ .failed ∧ answer ≠ .wrote 0

theorem writeLoop_completes (file : Nat) (answers : List WriteAnswer) (bytes : List UInt8) (disk : StoreDisk)
    (benign : Benign answers) : (writeLoop file answers bytes disk).2 = .ok () := by
  induction answers, bytes, disk using writeLoop.induct file with
  | case1 answers disk => rw [writeLoop.eq_1]
  | case2 remaining disk nonempty => rw [writeLoop.eq_2 _ _ _ nonempty]
  | case3 answers remaining disk nonempty ih =>
      rw [writeLoop.eq_3 _ _ _ _ nonempty]
      exact ih fun answer inside => benign answer (List.mem_cons_of_mem _ inside)
  | case4 answers remaining disk nonempty => exact absurd rfl (benign _ List.mem_cons_self).1
  | case5 answers remaining disk nonempty => exact absurd rfl (benign _ List.mem_cons_self).2
  | case6 count answers remaining disk nonempty ih =>
      rw [writeLoop.eq_6 _ _ _ _ _ nonempty]
      exact ih fun answer inside => benign answer (List.mem_cons_of_mem _ inside)

theorem writeChunk_completes (bytes : List UInt8) (answers : List (List WriteAnswer)) (writing : Writing s index object)
    (benign : Benign (answers.headD [])) (sized : bytes.length ≤ transferBufferBytes)
    (within : object.written + bytes.length ≤ object.limit) (bits : object.limit < 2 ^ 64) :
    ∃ after, Store.writeChunk index bytes (s, answers) = .ok (after, answers.tail) := by
  have written := writeLoop_completes object.file (answers.headD []) bytes s.disk benign
  unfold Store.writeChunk PendingObject.writeChunk
  simp only [writing.here, check]
  rw [ensure_pos sized, bind_ok, ensure_pos (by omega), bind_ok, ensure_pos within]
  simp only
  generalize writeLoop object.file (answers.headD []) bytes s.disk = result at written ⊢
  rcases result with ⟨disk, answer⟩
  simp only at written
  subst written
  exact ⟨_, rfl⟩

/-- A chunk that was written. -/
theorem writeChunk_writing {bytes : List UInt8} {answers rest : List (List WriteAnswer)}
    (h : Store.writeChunk index bytes (s, answers) = .ok (after, rest)) (writing : Writing s index object) :
    Quiet sha256 s after ∧ after.disk.folders = s.disk.folders ∧ Writing after index
      { object with written := object.written + bytes.length, digested := object.digested ++ bytes } := by
  unfold Store.writeChunk at h
  simp only [writing.here] at h
  have step : Step sha256 s _ := Step.write (answers.headD []) bytes writing.here rfl
  rcases writing.whole with ⟨found, inside, length⟩
  split at h
  · cases h
  · rename_i object' disk _ written
    cases h
    simp only [written] at step
    unfold PendingObject.writeChunk at written
    simp only at written
    split at written
    · cases written
    · rcases writeLoop_appends object.file (answers.headD []) bytes s.disk with ⟨sent, appended, whole⟩
      split at written
      · cases written
      · rename_i loop
        rw [loop] at appended whole
        cases written
        have same := whole rfl
        subst same
        rcases appended.data found inside with ⟨grown, inside', data, _⟩
        refine ⟨⟨System.Run.tail (System.Run.refl s) step, rfl, rfl⟩, appended.folders, ⟨?_, ?_, grown, inside', ?_⟩⟩
        · rw [List.getElem?_set_self (List.getElem?_eq_some_iff.mp writing.here).1]
        · rw [List.length_append, writing.counted]
        · rw [data, List.length_append, length]

theorem finalizeOnce_ok {upload : Upload} (here : s.uploads[index]? = some upload)
    (h : s.finalizeOnce sha256 index = .ok after) : ∃ next disk object,
      finalizeNext sha256 upload s.disk = .ok (next, disk, object) ∧ Step sha256 s after
        ∧ after.uploads[index]? = some next ∧ after.removed = s.removed
        ∧ after.durable = s.durable ++ object.toList.map fun object => ⟨object, upload.object.digested⟩ := by
  unfold Store.finalizeOnce at h
  rw [here] at h
  simp only [need, context, bind_ok] at h
  rcases bind_eq_ok.mp h with ⟨⟨next, disk, object⟩, called, h⟩
  cases h
  refine ⟨next, disk, object, called, Step.finalize here called, ?_, rfl, rfl⟩
  rw [List.getElem?_set_self (List.getElem?_eq_some_iff.mp here).1]

/-- The stage after a call of {lit}`finalize`. -/
def Stage.next : Stage → Stage
  | .writing => .sealed
  | .sealed => .reached .dataSynced
  | .reached .dataSynced => .reached .renamed
  | .reached .renamed => .reached .destinationSynced
  | .reached .destinationSynced => .reached .sourceSynced
  | .reached .sourceSynced => .closed
  | .closed => .closed

/-- Only the last call gives evidence. -/
theorem finalizeNext_ok {u next : Upload} {disk found : StoreDisk} {given : Option DurableObject}
    (h : finalizeNext sha256 u disk = .ok (next, found, given)) : next = { u with stage := u.stage.next }
      ∧ given = if u.stage = .reached .sourceSynced
        then some ⟨u.object.key, u.object.written, sha256 u.object.digested⟩ else none := by
  unfold finalizeNext at h
  cases stage : u.stage with
  | writing =>
      simp only [stage] at h
      rcases bind_eq_ok.mp h with ⟨_, _, h⟩
      cases h
      exact ⟨rfl, rfl⟩
  | sealed =>
      simp only [stage] at h
      cases h
      exact ⟨rfl, rfl⟩
  | reached point =>
      cases point with
      | dataSynced =>
          simp only [stage] at h
          rcases bind_eq_ok.mp h with ⟨_, _, h⟩
          cases h
          exact ⟨rfl, rfl⟩
      | renamed | destinationSynced | sourceSynced =>
          simp only [stage] at h
          cases h
          exact ⟨rfl, rfl⟩
  | closed =>
      simp only [stage] at h
      cases h

theorem finalizeOnce_stage {stage : Stage} (here : s.uploads[index]? = some ⟨object, stage⟩)
    (h : s.finalizeOnce sha256 index = .ok after) : after.uploads[index]? = some ⟨object, stage.next⟩
      ∧ Step sha256 s after ∧ after.removed = s.removed ∧ after.durable = s.durable
        ++ if stage = .reached .sourceSynced then [⟨⟨object.key, object.written, sha256 object.digested⟩, object.digested⟩]
          else [] := by
  rcases finalizeOnce_ok here h with ⟨next, disk, given, called, step, found, removed, durable⟩
  rcases finalizeNext_ok called with ⟨rfl, rfl⟩
  refine ⟨found, step, removed, durable.trans ?_⟩
  split
  · rfl
  · rfl

/-- A finalized upload has left evidence of all its chunks. -/
theorem finalize_ok (here : s.uploads[index]? = some ⟨object, .writing⟩) (h : s.finalize sha256 index = .ok after) :
    (storeSystem sha256).Run s after ∧ after.removed = s.removed ∧ after.durable
      = s.durable ++ [⟨⟨object.key, object.written, sha256 object.digested⟩, object.digested⟩] := by
  unfold Store.finalize at h
  rcases bind_eq_ok.mp h with ⟨s₁, first, h⟩
  rcases finalizeOnce_stage here first with ⟨here₁, step₁, removed₁, durable₁⟩
  rcases bind_eq_ok.mp h with ⟨s₂, second, h⟩
  rcases finalizeOnce_stage here₁ second with ⟨here₂, step₂, removed₂, durable₂⟩
  rcases bind_eq_ok.mp h with ⟨s₃, third, h⟩
  rcases finalizeOnce_stage here₂ third with ⟨here₃, step₃, removed₃, durable₃⟩
  rcases bind_eq_ok.mp h with ⟨s₄, fourth, h⟩
  rcases finalizeOnce_stage here₃ fourth with ⟨here₄, step₄, removed₄, durable₄⟩
  rcases bind_eq_ok.mp h with ⟨s₅, fifth, h⟩
  rcases finalizeOnce_stage here₄ fifth with ⟨here₅, step₅, removed₅, durable₅⟩
  rcases finalizeOnce_stage here₅ h with ⟨_, step₆, removed₆, durable₆⟩
  refine ⟨?_, ?_, ?_⟩
  · exact (((((System.Run.refl s).tail step₁).tail step₂).tail step₃).tail step₄ |>.tail step₅).tail step₆
  · rw [removed₆, removed₅, removed₄, removed₃, removed₂, removed₁]
  · rw [durable₆, durable₅, durable₄, durable₃, durable₂, durable₁]
    simp only [Stage.next, reduceCtorEq, Stage.reached.injEq, if_false, if_true, List.append_nil]

/-- An answered call of {lit}`finalize`. -/
theorem finalizeOnce_completes {stage : Stage} {disk : StoreDisk} {given : Option DurableObject}
    (here : s.uploads[index]? = some ⟨object, stage⟩)
    (called : finalizeNext sha256 ⟨object, stage⟩ s.disk = .ok (⟨object, stage.next⟩, disk, given)) :
    ∃ after, s.finalizeOnce sha256 index = .ok after ∧ after.disk = disk := by
  unfold Store.finalizeOnce
  rw [here]
  simp only [need, context, bind_ok]
  rw [called]
  exact ⟨_, rfl, rfl⟩

/-- Where nothing has its key among the objects, an upload that was written without a failure can be
finalized. -/
theorem finalize_completes (sound : Sound sha256 s) (writing : Writing s index object)
    (kept : object.key ∉ s.removed) (free : s.disk.lookup .objects object.key.value = none) :
    ∃ after, s.finalize sha256 index = .ok after := by
  have member := List.mem_of_getElem? writing.here
  rcases sound.owned _ member (fun absurd => by cases absurd) with ⟨_, _, content, place⟩
  have named : s.disk.lookup .partials object.key.value = some object.file := place kept
  rcases content with ⟨found, inside, mode, _, _⟩
  rcases writing.whole with ⟨found', inside', length⟩
  have same : found = found' := Option.some.inj (inside.symm.trans inside')
  subst same
  have checked : regular s.disk object.file 0o600 (some object.written) = .ok () := by
    unfold regular
    rw [inside]
    simp only [need, context, bind_ok, check]
    refine ensure_pos ⟨mode, fun n here => ?_⟩
    cases here
    exact length
  have sealing : finalizeNext sha256 ⟨object, .writing⟩ s.disk
      = .ok (⟨object, .sealed⟩, s.disk.chmod object.file 0o400, none) := by
    simp only [finalizeNext, checked]
    rfl
  rcases finalizeOnce_completes writing.here sealing with ⟨s₁, first, disk₁⟩
  rcases finalizeOnce_stage writing.here first with ⟨here₁, _⟩
  have syncing : finalizeNext sha256 ⟨object, .sealed⟩ s₁.disk
      = .ok (⟨object, .reached .dataSynced⟩, s₁.disk.syncFile object.file, none) := rfl
  rcases finalizeOnce_completes here₁ syncing with ⟨s₂, second, disk₂⟩
  rcases finalizeOnce_stage here₁ second with ⟨here₂, _⟩
  have names : ∀ folder name, s₂.disk.lookup folder name = s.disk.lookup folder name := by
    intro folder name
    rw [disk₂, Disk.syncFile, Disk.lookup_modify, disk₁, Disk.chmod, Disk.lookup_modify]
  have moved : ∃ disk, s₂.disk.rename (.partials, object.key.value) (.objects, object.key.value) = some disk := by
    unfold Disk.rename
    simp only [names, named, free]
    exact ⟨_, rfl⟩
  rcases moved with ⟨disk, moved⟩
  have moving : finalizeNext sha256 ⟨object, .reached .dataSynced⟩ s₂.disk
      = .ok (⟨object, .reached .renamed⟩, disk, none) := by
    simp only [finalizeNext, moved]
    rfl
  rcases finalizeOnce_completes here₂ moving with ⟨s₃, third, _⟩
  rcases finalizeOnce_stage here₂ third with ⟨here₃, _⟩
  have settling : finalizeNext sha256 ⟨object, .reached .renamed⟩ s₃.disk
      = .ok (⟨object, .reached .destinationSynced⟩, s₃.disk.syncFolder .objects, none) := rfl
  rcases finalizeOnce_completes here₃ settling with ⟨s₄, fourth, _⟩
  rcases finalizeOnce_stage here₃ fourth with ⟨here₄, _⟩
  have leaving : finalizeNext sha256 ⟨object, .reached .destinationSynced⟩ s₄.disk
      = .ok (⟨object, .reached .sourceSynced⟩, s₄.disk.syncFolder .partials, none) := rfl
  rcases finalizeOnce_completes here₄ leaving with ⟨s₅, fifth, _⟩
  rcases finalizeOnce_stage here₄ fifth with ⟨here₅, _⟩
  have giving : finalizeNext sha256 ⟨object, .reached .sourceSynced⟩ s₅.disk
      = .ok (⟨object, .closed⟩, s₅.disk, some ⟨object.key, object.written, sha256 object.digested⟩) := rfl
  rcases finalizeOnce_completes here₅ giving with ⟨s₆, sixth, _⟩
  refine ⟨s₆, ?_⟩
  unfold Store.finalize
  rw [first, bind_ok, second, bind_ok, third, bind_ok, fourth, bind_ok, fifth, bind_ok, sixth]

end Whole

/-- An empty store. -/
def sampleStore : Store where
  disk := ⟨fun _ => none, 0, fun _ => .settled fun _ => none⟩
  uploads := []
  readers := []
  durable := []
  removed := []

def sampleKey : ObjectKey := ⟨String.ofList (List.replicate 64 'a'), by decide⟩

def sampleEvidence : Evidence := ⟨⟨sampleKey, 3, noDigest [1, 2, 3]⟩, [1, 2, 3]⟩

/-- An upload of three bytes, the first write of which is short and the second interrupted. -/
theorem sample_upload : ∃ s, (storeSystem noDigest).Reachable s ∧ s.durable = [sampleEvidence] ∧ s.removed = [] := by
  have fresh : (storeSystem noDigest).Reachable sampleStore :=
    System.Reachable.start ⟨fun _ _ => rfl, rfl, rfl, rfl⟩
  have limits : 1 ≤ 10 ∧ 10 ≤ maxUploadBytes := by decide
  rcases begin_completes limits (show sampleStore.disk.lookup .partials sampleKey.value = none from rfl)
    with ⟨s₁, begun, free⟩
  rcases begin_writing begun with ⟨quiet, ⟨_, file, _, _, _⟩, writing, rfl, rfl, rfl⟩
  have benign : Benign ([[.wrote 1, .interrupted]].headD []) := by
    unfold Benign
    decide
  have counted := writing.counted
  simp only at counted
  subst counted
  have room : 0 + [1, 2, 3].length ≤ 10 := by decide
  rcases writeChunk_completes [1, 2, 3] [[.wrote 1, .interrupted]] writing benign (by decide) room
    (show 10 < 2 ^ 64 from by decide) with ⟨s₂, written⟩
  rcases writeChunk_writing written writing with ⟨quiet', folders, writing'⟩
  have reachable := (fresh.run quiet.run).run quiet'.run
  have free' : s₂.disk.lookup .objects sampleKey.value = none := by
    have same := free sampleKey.value
    unfold Disk.lookup at same ⊢
    rw [folders]
    exact same
  have kept : sampleKey ∉ s₂.removed := by
    rw [quiet'.removed, quiet.removed]
    exact List.not_mem_nil
  rcases finalize_completes (sound_invariant.holds reachable) writing' kept free' with ⟨s₃, finalized⟩
  rcases finalize_ok writing'.here finalized with ⟨run, removed, durable⟩
  refine ⟨s₃, reachable.run run, ?_, ?_⟩
  · rw [durable, quiet'.durable, quiet.durable]
    rfl
  · rw [removed, quiet'.removed, quiet.removed]
    rfl

/-- The object that evidence was given for can be opened. -/
theorem Held.opens {sha256 : List UInt8 → Digest} {disk : StoreDisk} {uploads : List Upload} {e : Evidence}
    {file : Nat} (held : Held sha256 disk uploads e file) :
    openObject e.object.key e.object.bytes disk = .ok ⟨file, 0, e.object.bytes⟩ := by
  have opened : regular disk file 0o400 (some e.object.bytes) = .ok () := by
    unfold regular
    rw [held.stored]
    simp only [need, context, bind_ok, check]
    refine ensure_pos ⟨rfl, fun n here => ?_⟩
    cases here
    exact held.bytes.symm
  unfold openObject
  rw [check, ensure_pos held.small, bind_ok, held.named.lookup]
  simp only [context, bind_ok]
  rw [opened]
  rfl

/-! ## Verification -/

section Verification

variable (sha256 : List UInt8 → Digest)

/-- Read to the end.  Beyond the given answers every read fills its buffer. -/
def digestLoop (disk : StoreDisk) : Nat → List Nat → OpenedObject → List UInt8 → Result (List UInt8 × OpenedObject)
  | fuel, counts, o, digested =>
      if o.remaining = 0 then .ok (digested, o)
      else
        match fuel with
        | 0 => .error (.message "internal error: entered unreachable code")
        | fuel + 1 => do
            let (bytes, o) ← o.readChunk transferBufferBytes (counts.headD transferBufferBytes) disk
            check "truncated immutable object" (0 < bytes.length)
            digestLoop disk fuel counts.tail o (digested ++ bytes)

/-- Compare the digest of a whole object, and go back to its start. -/
def OpenedObject.verifyDigest (o : OpenedObject) (expected : Digest) (counts : List Nat) (disk : StoreDisk) :
    Result OpenedObject := do
  let (digested, read) ← digestLoop disk o.remaining counts o []
  (ensure physicalMismatch (sha256 digested = expected))
  return { read with position := 0, remaining := o.remaining }

variable {sha256} {disk : StoreDisk}

/-- A read that the system answers at all goes on. -/
theorem readChunk_progress {r : Reader} (sound : r.Sound disk) {buffer count : Nat} (space : 0 < buffer)
    (sized : buffer ≤ transferBufferBytes) (answered : 0 < count) (unfinished : 0 < r.object.remaining) :
    ∃ bytes object, bytes ≠ [] ∧ r.object.readChunk buffer count disk = .ok (bytes, object)
      ∧ object.remaining < r.object.remaining ∧ object.file = r.object.file := by
  rcases sound with ⟨⟨found, here, mode, data⟩, total, got⟩
  have available : 0 < (found.data.drop r.object.position).length := by
    rw [List.length_drop, data]
    omega
  have some : (found.data.drop r.object.position).take (min count (min buffer r.object.remaining)) ≠ [] := by
    rw [← List.length_pos_iff, List.length_take]
    omega
  refine ⟨_, { r.object with
    position := r.object.position
      + ((found.data.drop r.object.position).take (min count (min buffer r.object.remaining))).length
    remaining := r.object.remaining
      - ((found.data.drop r.object.position).take (min count
        (min buffer r.object.remaining))).length }, some, ?_, ?_, rfl⟩
  · unfold OpenedObject.readChunk
    rw [check, ensure_pos ⟨space, sized⟩, bind_ok, if_neg (by omega), here]
    simp only [need, context, bind_ok, check]
    rw [ensure_pos some]
    rfl
  · have length := List.length_pos_iff.mpr some
    simp only
    omega

/-- The digest is that of the whole content, whatever the reads answer. -/
theorem digestLoop_reads (fuel : Nat) {counts : List Nat} {r : Reader} (sound : r.Sound disk)
    (enough : r.object.remaining ≤ fuel) (answered : ∀ count ∈ counts, 0 < count) :
    ∃ read, digestLoop disk fuel counts r.object r.got = .ok (r.content, read) ∧ read.file = r.object.file := by
  induction fuel generalizing counts r with
  | zero =>
      unfold digestLoop
      rw [if_pos (Nat.le_zero.mp enough)]
      have whole : r.got = r.content := by
        rw [sound.got, List.take_of_length_le]
        have total := sound.total
        omega
      exact ⟨r.object, by rw [whole], rfl⟩
  | succ fuel ih =>
      unfold digestLoop
      by_cases finished : r.object.remaining = 0
      · rw [if_pos finished]
        have whole : r.got = r.content := by
          rw [sound.got, List.take_of_length_le]
          have total := sound.total
          omega
        exact ⟨r.object, by rw [whole], rfl⟩
      · rw [if_neg finished]
        have positive : 0 < counts.headD transferBufferBytes := by
          cases counts with
          | nil => exact transferBufferBytes_pos
          | cons count rest => exact answered count List.mem_cons_self
        rcases readChunk_progress sound transferBufferBytes_pos le_rfl positive (by omega)
          with ⟨bytes, object, some, read, less, file⟩
        have later : Reader.Sound disk { r with object := object, got := r.got ++ bytes } := readChunk_sound sound read
        have rest : ∀ count ∈ counts.tail, 0 < count := fun count inside => answered count (List.mem_of_mem_tail inside)
        rcases ih later (by simp only; omega) rest with ⟨read', whole, file'⟩
        refine ⟨read', ?_, file'.trans file⟩
        simp only
        rw [read, bind_ok, check, ensure_pos (List.length_pos_iff.mpr some), bind_ok]
        exact whole

theorem verifyDigest_eq {r : Reader} (sound : r.Sound disk) (start : r.object.position = 0) (expected : Digest)
    {counts : List Nat} (answered : ∀ count ∈ counts, 0 < count) :
    r.object.verifyDigest sha256 expected counts disk
      = if sha256 r.content = expected then .ok r.object else .error physicalMismatch := by
  have got : r.got = [] := by
    rw [sound.got, start, List.take_zero]
  rcases digestLoop_reads r.object.remaining sound le_rfl answered with ⟨read, whole, file⟩
  rw [got] at whole
  unfold OpenedObject.verifyDigest
  rw [whole, bind_ok]
  simp only
  by_cases same : sha256 r.content = expected
  · rw [ensure_pos same, if_pos same]
    have object : ({ read with position := 0, remaining := r.object.remaining } : OpenedObject) = r.object := by
      rw [← start, file]
    exact congrArg Except.ok object
  · rw [ensure_neg same, if_neg same]
    rfl

end Verification

/-! ## Durability -/

section Durability

variable (sha256 : List UInt8 → Digest)

/-- In whatever order the calls of uploads, downloads and removals come, and wherever the process
stops or the power fails: while its key is not removed, the object that evidence was given for is
named and stored, holds exactly the chunks of its upload and is safe from the next loss of power;
it can be opened, and no other upload of the key ends in evidence of anything else. -/
theorem durable_objects_survive {s : Store} (reachable : (storeSystem sha256).Reachable s) {e : Evidence}
    (given : e ∈ s.durable) (kept : e.object.key ∉ s.removed) :
    e.object.bytes = e.content.length ∧ e.object.sha256 = sha256 e.content
      ∧ ∃ file, Named s.disk .objects e.object.key.value file ∧ Stored s.disk file e.content 0o400
        ∧ (∀ found, PowerLoss s.disk found →
          Named found .objects e.object.key.value file ∧ Stored found file e.content 0o400)
        ∧ openObject e.object.key e.object.bytes s.disk = .ok ⟨file, 0, e.object.bytes⟩
        ∧ ∀ other ∈ s.durable, other.object.key = e.object.key → other.content = e.content := by
  rcases (sound_invariant.holds reachable).durable e given kept with ⟨file, held⟩
  refine ⟨held.bytes, held.digest, file, held.named, held.stored,
    fun found loss => ⟨held.named.loss loss, held.stored.loss loss⟩, ?_, ?_⟩
  rotate_left
  · intro other given' same
    rcases (sound_invariant.holds reachable).durable other given' (same ▸ kept) with ⟨file', held'⟩
    have named := held'.named.lookup
    rw [same, held.named.lookup] at named
    cases named
    have stored : s.disk.files file = some ⟨other.content, true, .settled 0o400⟩ := held'.stored
    rw [held.stored] at stored
    exact (File.mk.inj (Option.some.inj stored)).1.symm
  exact held.opens

/-- Three bytes, written with a short write and an interruption. -/
theorem durable_objects_survive_sample : ∃ (s : Store) (file : Nat), Stored s.disk file [1, 2, 3] 0o400
    ∧ openObject sampleKey 3 s.disk = .ok ⟨file, 0, 3⟩ := by
  rcases sample_upload with ⟨s, reachable, durable, removed⟩
  have given : sampleEvidence ∈ s.durable := by
    rw [durable]
    exact List.mem_cons_self
  have kept : sampleKey ∉ s.removed := by
    rw [removed]
    exact List.not_mem_nil
  rcases durable_objects_survive noDigest reachable given kept with ⟨_, _, file, _, stored, _, opened, _⟩
  exact ⟨s, file, stored, opened⟩

/-- A download has read a first part of what its object held when it was opened, whatever happened
to the key since, and all of it once nothing remains; until then a read that the system answers at
all goes on. -/
theorem downloads_exact {s : Store} (reachable : (storeSystem sha256).Reachable s) {r : Reader}
    (member : r ∈ s.readers) :
    r.got = r.content.take r.object.position ∧ (r.object.remaining = 0 → r.got = r.content)
      ∧ ∀ buffer count, 0 < buffer → buffer ≤ transferBufferBytes → 0 < count → 0 < r.object.remaining →
        ∃ bytes object, bytes ≠ [] ∧ r.object.readChunk buffer count s.disk = .ok (bytes, object)
          ∧ object.remaining < r.object.remaining := by
  rcases (sound_invariant.holds reachable).readers r member with ⟨⟨found, here, mode, data⟩, total, got⟩
  refine ⟨got, fun finished => ?_, fun buffer count space sized answered unfinished => ?_⟩
  · rw [got, List.take_of_length_le (by omega)]
  · rcases readChunk_progress ⟨⟨found, here, mode, data⟩, total, got⟩ space sized answered unfinished
      with ⟨bytes, object, some, read, less, _⟩
    exact ⟨bytes, object, some, read, less⟩

/-- A download of three bytes that asks for two and is answered with one. -/
theorem downloads_exact_sample : ∃ (s : Store) (r : Reader), r ∈ s.readers ∧ r.content = [1, 2, 3]
    ∧ ∃ bytes object, bytes ≠ [] ∧ r.object.readChunk 2 1 s.disk = .ok (bytes, object) := by
  rcases sample_upload with ⟨s, reachable, durable, removed⟩
  have given : sampleEvidence ∈ s.durable := by
    rw [durable]
    exact List.mem_cons_self
  have kept : sampleEvidence.object.key ∉ s.removed := by
    rw [removed]
    exact List.not_mem_nil
  rcases (sound_invariant.holds reachable).durable _ given kept with ⟨file, held⟩
  have opened : Step noDigest s _ := Step.open held.opens held.stored
  have member : (⟨⟨file, 0, 3⟩, [1, 2, 3], []⟩ : Reader) ∈ s.readers ++ [⟨⟨file, 0, 3⟩, [1, 2, 3], []⟩] :=
    List.mem_append_right _ List.mem_cons_self
  rcases (downloads_exact noDigest (reachable.next opened) member).2.2 2 1 (by decide) (by decide) (by decide)
    (show 0 < 3 from by decide) with ⟨bytes, object, some, read, _⟩
  exact ⟨_, _, member, rfl, bytes, object, some, read⟩

/-- A store never takes its own objects for damaged: what evidence was given for passes the check of
its digest before a download, however the reads are answered; and what passes a check is content of
that digest. -/
theorem durable_objects_verify {s : Store} (reachable : (storeSystem sha256).Reachable s) :
    (∀ e ∈ s.durable, e.object.key ∉ s.removed → ∀ counts : List Nat, (∀ count ∈ counts, 0 < count) →
      ∃ file, (do
        let opened ← openObject e.object.key e.object.bytes s.disk
        opened.verifyDigest sha256 e.object.sha256 counts s.disk) = .ok ⟨file, 0, e.object.bytes⟩)
    ∧ ∀ r ∈ s.readers, r.object.position = 0 → ∀ expected counts verified, (∀ count ∈ counts, 0 < count) →
      r.object.verifyDigest sha256 expected counts s.disk = .ok verified → sha256 r.content = expected := by
  refine ⟨fun e given kept counts answered => ?_, fun r member start expected counts verified answered passed => ?_⟩
  · rcases (sound_invariant.holds reachable).durable e given kept with ⟨file, held⟩
    have opened := held.opens
    have sound : Reader.Sound s.disk ⟨⟨file, 0, e.object.bytes⟩, e.content, []⟩ :=
      ⟨⟨_, held.stored, rfl, rfl⟩, (Nat.zero_add _).trans held.bytes, List.take_zero.symm⟩
    refine ⟨file, ?_⟩
    rw [opened, bind_ok, verifyDigest_eq sound rfl e.object.sha256 answered, if_pos held.digest.symm]
  · have sound := (sound_invariant.holds reachable).readers r member
    rw [verifyDigest_eq sound start expected answered] at passed
    split at passed
    · assumption
    · cases passed

/-- The check of three bytes that are read in two parts. -/
theorem durable_objects_verify_sample : ∃ (s : Store) (file : Nat), (do
    let opened ← openObject sampleKey 3 s.disk
    opened.verifyDigest noDigest (noDigest [1, 2, 3]) [2, 5] s.disk) = .ok ⟨file, 0, 3⟩ := by
  rcases sample_upload with ⟨s, reachable, durable, removed⟩
  have given : sampleEvidence ∈ s.durable := by
    rw [durable]
    exact List.mem_cons_self
  have kept : sampleEvidence.object.key ∉ s.removed := by
    rw [removed]
    exact List.not_mem_nil
  have answered : ∀ count ∈ [2, 5], 0 < count := by decide
  rcases (durable_objects_verify noDigest reachable).1 _ given kept [2, 5] answered with ⟨file, verified⟩
  exact ⟨s, file, verified⟩

end Durability

end Files
end Blobs
end Noxide
