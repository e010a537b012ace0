import Noxide.Blobs.Multipart
import Noxide.Blobs.State
import Noxide.Library.Disk
import Noxide.Library.Transition

/-!
# The files of the blob store

An upload writes a private file, seals and syncs it, moves it from the folder of partial files to
that of objects without replacing anything, and syncs both folders.  Only then there is evidence of
a durable object.  Uploads, downloads and removals interleave; the process may stop and the power
may fail between any two calls.

Main results:

- Theorem {lit}`writeLoop_appends`: short and interrupted writes append the bytes in order.
- Theorem {lit}`sound_step`: what every call keeps of uploads, objects and downloads.
-/

namespace Noxide
namespace Blobs
namespace Files

open Checked
open Disks

/-- The folders of a store. -/
inductive Folder where
  | root
  | partials
  | objects
  deriving DecidableEq, Repr

abbrev StoreDisk := Disk Folder String

/-- A regular file of this mode and, where it matters, of this length. -/
def regular (disk : StoreDisk) (file mode : Nat) (bytes : Option Nat) : Result Unit := do
  let found ← need "invalid immutable object metadata" (disk.files file)
  check "invalid immutable object metadata" (found.mode.now = mode ∧ ∀ n ∈ bytes, found.data.length = n)

/-! ## Uploads -/

/-- A file that is being written; {lit}`digested` is what its digest was given. -/
structure PendingObject where
  key : ObjectKey
  file : Nat
  limit : Nat
  written : Nat
  digested : List UInt8
  deriving DecidableEq

def beginObject (key : ObjectKey) (limit : Nat) (disk : StoreDisk) : Result (PendingObject × StoreDisk) := do
  check "invalid upload byte limit" (1 ≤ limit ∧ limit ≤ maxUploadBytes)
  let (file, disk) ← need "create private upload" (disk.create .partials key.value 0o600)
  regular disk file 0o600 (some 0)
  return (⟨key, file, limit, 0, []⟩, disk)

/-- What a write call may answer; an expired guard fails as well. -/
inductive WriteAnswer where
  | wrote (bytes : Nat)
  | interrupted
  | failed
  deriving DecidableEq, Repr

/-- Write until nothing remains.  Beyond the given answers every call writes all it is given. -/
def writeLoop (file : Nat) : List WriteAnswer → List UInt8 → StoreDisk → StoreDisk × Result Unit
  | _, [], disk => (disk, .ok ())
  | [], remaining, disk => (disk.append file remaining, .ok ())
  | .interrupted :: answers, remaining, disk => writeLoop file answers remaining disk
  | .failed :: _, _, disk => (disk, .error (.message "write private upload"))
  | .wrote 0 :: _, _, disk => (disk, .error (.message "incomplete upload write"))
  | .wrote (count + 1) :: answers, remaining, disk =>
      writeLoop file answers (remaining.drop (count + 1)) (disk.append file (remaining.take (count + 1)))

/-- A chunk counts once it was written to its end. -/
def PendingObject.writeChunk (p : PendingObject) (answers : List WriteAnswer) (bytes : List UInt8)
    (disk : StoreDisk) : (PendingObject × StoreDisk) × Result Unit :=
  let fits : Result Unit := do
    check "upload buffer limit" (bytes.length ≤ transferBufferBytes)
    check "upload size overflow" (p.written + bytes.length < 2 ^ 64)
    check "upload byte limit" (p.written + bytes.length ≤ p.limit)
  match fits with
  | .error e => ((p, disk), .error e)
  | .ok _ =>
      match writeLoop p.file answers bytes disk with
      | (disk, .error e) => ((p, disk), .error e)
      | (disk, .ok _) =>
          (({ p with written := p.written + bytes.length, digested := p.digested ++ bytes }, disk), .ok ())

inductive FinalizePoint where
  | dataSynced
  | renamed
  | destinationSynced
  | sourceSynced
  deriving DecidableEq, Repr

/-- Where an upload stands: chunks are written, the file is sealed, a point was reached, or the
upload is over. -/
inductive Stage where
  | writing
  | sealed
  | reached (point : FinalizePoint)
  | closed
  deriving DecidableEq, Repr

structure Upload where
  object : PendingObject
  stage : Stage
  deriving DecidableEq

section Finalize

variable (sha256 : List UInt8 → Digest)

/-- The next call of {lit}`finalize`.  An error ends the upload. -/
def finalizeNext (u : Upload) (disk : StoreDisk) : Result (Upload × StoreDisk × Option DurableObject) :=
  match u.stage with
  | .writing => do
      regular disk u.object.file 0o600 (some u.object.written)
      return ({ u with stage := .sealed }, disk.chmod u.object.file 0o400, none)
  | .sealed => .ok ({ u with stage := .reached .dataSynced }, disk.syncFile u.object.file, none)
  | .reached .dataSynced => do
      let disk ← need "finalize uploaded object"
        (disk.rename (.partials, u.object.key.value) (.objects, u.object.key.value))
      return ({ u with stage := .reached .renamed }, disk, none)
  | .reached .renamed => .ok ({ u with stage := .reached .destinationSynced }, disk.syncFolder .objects, none)
  | .reached .destinationSynced => .ok ({ u with stage := .reached .sourceSynced }, disk.syncFolder .partials, none)
  | .reached .sourceSynced =>
      .ok ({ u with stage := .closed }, disk, some ⟨u.object.key, u.object.written, sha256 u.object.digested⟩)
  | .closed => .error (.message "internal error: entered unreachable code")

end Finalize

/-! ## Downloads -/

structure OpenedObject where
  file : Nat
  position : Nat
  remaining : Nat
  deriving DecidableEq, Repr

def physicalMismatch : Failure := .message "blob store needs operator reconciliation"

def openObject (key : ObjectKey) (expected : Nat) (disk : StoreDisk) : Result OpenedObject := do
  check "invalid object byte count" (expected ≤ maxUploadBytes)
  let file ← context physicalMismatch (disk.lookup .objects key.value)
  (regular disk file 0o400 (some expected)).mapError fun _ => physicalMismatch
  return ⟨file, 0, expected⟩

/-- A read that the system answers with up to {lit}`count` bytes. -/
def OpenedObject.readChunk (o : OpenedObject) (buffer count : Nat) (disk : StoreDisk) :
    Result (List UInt8 × OpenedObject) := do
  check "download buffer limit" (0 < buffer ∧ buffer ≤ transferBufferBytes)
  if o.remaining = 0 then return ([], o)
  else do
    let found ← need "read immutable object" (disk.files o.file)
    let bytes := (found.data.drop o.position).take (min count (min buffer o.remaining))
    check "blob object truncated" (bytes ≠ [])
    return (bytes, { o with position := o.position + bytes.length, remaining := o.remaining - bytes.length })

/-- A download with its history: what its object held when it was opened, and what was read. -/
structure Reader where
  object : OpenedObject
  content : List UInt8
  got : List UInt8

/-! ## The store -/

/-- Evidence with its history: the chunks that its upload was given. -/
structure Evidence where
  object : DurableObject
  content : List UInt8

/-- A store with the uploads and downloads of its process, and the history of its evidence and
of its removals. -/
structure Store where
  disk : StoreDisk
  uploads : List Upload
  readers : List Reader
  durable : List Evidence
  removed : List ObjectKey

/-- The process ends, and its descriptors with it. -/
def Store.stopped (s : Store) (disk : StoreDisk) : Store :=
  { s with disk := disk, uploads := [], readers := [] }

/-- One call of the process, its end, or a loss of power. -/
inductive Step (sha256 : List UInt8 → Digest) (s : Store) : Store → Prop where
  | begin {key : ObjectKey} {limit : Nat} {object : PendingObject} {disk : StoreDisk} :
      beginObject key limit s.disk = .ok (object, disk) →
        Step sha256 s { s with disk := disk, uploads := s.uploads ++ [⟨object, .writing⟩] }
  | write {index : Nat} {upload : Upload} (answers : List WriteAnswer) (bytes : List UInt8) :
      s.uploads[index]? = some upload → upload.stage = .writing →
        Step sha256 s { s with
          disk := (upload.object.writeChunk answers bytes s.disk).1.2
          uploads := s.uploads.set index
            { upload with object := (upload.object.writeChunk answers bytes s.disk).1.1 } }
  | finalize {index : Nat} {upload next : Upload} {disk : StoreDisk} {object : Option DurableObject} :
      s.uploads[index]? = some upload → finalizeNext sha256 upload s.disk = .ok (next, disk, object) →
        Step sha256 s { s with
          disk := disk
          uploads := s.uploads.set index next
          durable := s.durable ++ object.toList.map fun object => ⟨object, upload.object.digested⟩ }
  | abandon {index : Nat} {upload : Upload} : s.uploads[index]? = some upload →
      Step sha256 s { s with uploads := s.uploads.set index { upload with stage := .closed } }
  | «open» {key : ObjectKey} {expected : Nat} {object : OpenedObject} {file : File} :
      openObject key expected s.disk = .ok object → s.disk.files object.file = some file →
        Step sha256 s { s with readers := s.readers ++ [⟨object, file.data, []⟩] }
  | read {index buffer count : Nat} {reader : Reader} {object : OpenedObject} {bytes : List UInt8} :
      s.readers[index]? = some reader → reader.object.readChunk buffer count s.disk = .ok (bytes, object) →
        Step sha256 s { s with
          readers := s.readers.set index { reader with object := object, got := reader.got ++ bytes } }
  | unlink {folder : Folder} {key : ObjectKey} {disk : StoreDisk} :
      s.disk.unlink folder key.value = some disk →
        Step sha256 s { s with disk := disk, removed := key :: s.removed }
  | sync (folder : Folder) : Step sha256 s { s with disk := s.disk.syncFolder folder }
  | stop : Step sha256 s (s.stopped s.disk)
  | powerLoss {found : StoreDisk} : PowerLoss s.disk found → Step sha256 s (s.stopped found)

/-- A process that has just opened a store. -/
structure Store.Fresh (s : Store) : Prop where
  allocated : ∀ file, s.disk.next ≤ file → s.disk.files file = none
  uploads : s.uploads = []
  readers : s.readers = []
  durable : s.durable = []

def storeSystem (sha256 : List UInt8 → Digest) : System Store where
  initial := Store.Fresh
  step := Step sha256

/-! ## What a write does -/

/-- Some bytes were appended to a file, and nothing else happened. -/
structure Appended (disk : StoreDisk) (file : Nat) (sent : List UInt8) (after : StoreDisk) : Prop where
  folders : after.folders = disk.folders
  next : after.next = disk.next
  others : ∀ other, other ≠ file → after.files other = disk.files other
  data : ∀ found, disk.files file = some found →
    ∃ grown, after.files file = some grown ∧ grown.data = found.data ++ sent ∧ grown.mode = found.mode

theorem appended_nothing (disk : StoreDisk) (file : Nat) : Appended disk file [] disk :=
  ⟨rfl, rfl, fun _ _ => rfl, fun found here => ⟨found, here, (List.append_nil _).symm, rfl⟩⟩

theorem appended_append (disk : StoreDisk) (file : Nat) (bytes : List UInt8) :
    Appended disk file bytes (disk.append file bytes) := by
  refine ⟨Disk.modify_folders _, Disk.modify_next _, ?_, ?_⟩
  · intro other distinct
    rw [Disk.append, Disk.modify_files, if_neg distinct]
  · intro found here
    exact ⟨_, Disk.modify_found _ here, rfl, rfl⟩

theorem Appended.trans {disk middle after : StoreDisk} {file : Nat} {sent more : List UInt8}
    (first : Appended disk file sent middle) (second : Appended middle file more after) :
    Appended disk file (sent ++ more) after := by
  refine ⟨second.folders.trans first.folders, second.next.trans first.next, ?_, ?_⟩
  · intro other distinct
    exact (second.others other distinct).trans (first.others other distinct)
  · intro found here
    rcases first.data found here with ⟨grown, here', data, mode⟩
    rcases second.data grown here' with ⟨grown', here'', data', mode'⟩
    exact ⟨grown', here'', by rw [data', data, List.append_assoc], mode'.trans mode⟩

/-- Whatever the calls answer, a first part of the bytes is appended, and all of them on success. -/
theorem writeLoop_appends (file : Nat) (answers : List WriteAnswer) (bytes : List UInt8) (disk : StoreDisk) :
    ∃ sent, Appended disk file sent (writeLoop file answers bytes disk).1
      ∧ ((writeLoop file answers bytes disk).2 = .ok () → sent = bytes) := by
  induction answers, bytes, disk using writeLoop.induct file with
  | case1 answers disk => exact ⟨[], by rw [writeLoop.eq_1]; exact appended_nothing disk file, fun _ => rfl⟩
  | case2 remaining disk nonempty =>
      refine ⟨remaining, ?_, fun _ => rfl⟩
      rw [writeLoop.eq_2 _ _ _ nonempty]
      exact appended_append disk file remaining
  | case3 answers remaining disk nonempty ih =>
      rw [writeLoop.eq_3 _ _ _ _ nonempty]
      exact ih
  | case4 answers remaining disk nonempty =>
      rw [writeLoop.eq_4 _ _ _ _ nonempty]
      exact ⟨[], appended_nothing disk file, (fun absurd => by cases absurd)⟩
  | case5 answers remaining disk nonempty =>
      rw [writeLoop.eq_5 _ _ _ _ nonempty]
      exact ⟨[], appended_nothing disk file, (fun absurd => by cases absurd)⟩
  | case6 count answers remaining disk nonempty ih =>
      rw [writeLoop.eq_6 _ _ _ _ _ nonempty]
      rcases ih with ⟨sent, appended, whole⟩
      refine ⟨remaining.take (count + 1) ++ sent, (appended_append disk file _).trans appended, fun done => ?_⟩
      rw [whole done, List.take_append_drop]

/-- What a chunk did: its bytes count if all of them were written. -/
structure Chunk (p : PendingObject) (disk : StoreDisk) (result : (PendingObject × StoreDisk) × Result Unit)
    (bytes sent : List UInt8) : Prop where
  appended : Appended disk p.file sent result.1.2
  counted : sent = bytes ∧ p.written + bytes.length ≤ p.limit
      ∧ result.1.1 = { p with written := p.written + bytes.length, digested := p.digested ++ bytes }
    ∨ result.1.1 = p

theorem writeChunk_chunk (p : PendingObject) (answers : List WriteAnswer) (bytes : List UInt8) (disk : StoreDisk) :
    ∃ sent, Chunk p disk (p.writeChunk answers bytes disk) bytes sent := by
  unfold PendingObject.writeChunk
  simp only
  split
  · exact ⟨[], appended_nothing disk p.file, .inr rfl⟩
  · rename_i fits
    rcases bind_eq_ok.mp fits with ⟨_, _, fits⟩
    rcases bind_eq_ok.mp fits with ⟨_, _, fits⟩
    have room := ensure_eq_ok.mp fits
    rcases writeLoop_appends p.file answers bytes disk with ⟨sent, appended, whole⟩
    split
    · rename_i written _ loop
      rw [loop] at appended
      exact ⟨sent, appended, .inr rfl⟩
    · rename_i written _ loop
      rw [loop] at appended whole
      exact ⟨sent, appended, .inl ⟨whole rfl, room, rfl⟩⟩

/-! ## What holds between calls -/

theorem ObjectKey.value_injective {key other : ObjectKey} (same : key.value = other.value) : key = other := by
  cases key
  cases other
  cases same
  rfl

/-- What the file of an upload holds. -/
def Content (disk : StoreDisk) (u : Upload) : Prop :=
  match u.stage with
  | .writing => ∃ found, disk.files u.object.file = some found ∧ found.mode.now = 0o600
      ∧ u.object.written ≤ found.data.length ∧ (found.data.length = u.object.written → found.data = u.object.digested)
  | .sealed => ∃ found, disk.files u.object.file = some found ∧ found.mode.now = 0o400
      ∧ found.data = u.object.digested
  | .reached _ => Stored disk u.object.file u.object.digested 0o400
  | .closed => True

/-- Where the file of an upload is named. -/
def Place (disk : StoreDisk) (u : Upload) : Prop :=
  match u.stage with
  | .writing | .sealed | .reached .dataSynced => disk.lookup .partials u.object.key.value = some u.object.file
  | .reached .renamed => disk.lookup .objects u.object.key.value = some u.object.file
  | .reached .destinationSynced | .reached .sourceSynced => Named disk .objects u.object.key.value u.object.file
  | .closed => True

/-- An upload that is not over owns its file, which holds what was digested if it is as long. -/
structure Owned (disk : StoreDisk) (removed : List ObjectKey) (u : Upload) : Prop where
  counted : u.object.digested.length = u.object.written
  within : u.object.written ≤ u.object.limit ∧ u.object.limit ≤ maxUploadBytes
  content : Content disk u
  place : u.object.key ∉ removed → Place disk u

/-- The object that evidence was given for, which no upload owns any more. -/
structure Held (sha256 : List UInt8 → Digest) (disk : StoreDisk) (uploads : List Upload) (e : Evidence)
    (file : Nat) : Prop where
  named : Named disk .objects e.object.key.value file
  stored : Stored disk file e.content 0o400
  bytes : e.object.bytes = e.content.length
  small : e.object.bytes ≤ maxUploadBytes
  digest : e.object.sha256 = sha256 e.content
  unowned : ∀ u ∈ uploads, u.stage ≠ .closed → u.object.file ≠ file

/-- A download has read a first part of what its sealed file holds. -/
structure Reader.Sound (disk : StoreDisk) (r : Reader) : Prop where
  found : ∃ file, disk.files r.object.file = some file ∧ file.mode.now = 0o400 ∧ file.data = r.content
  total : r.object.position + r.object.remaining = r.content.length
  got : r.got = r.content.take r.object.position

/-- Uploads that are not over own different files. -/
def Distinct (uploads : List Upload) : Prop :=
  ∀ (i j : Nat) (u v : Upload), uploads[i]? = some u → uploads[j]? = some v → u.stage ≠ .closed →
    v.stage ≠ .closed → u.object.file = v.object.file → i = j

structure Sound (sha256 : List UInt8 → Digest) (s : Store) : Prop where
  allocated : ∀ file, s.disk.next ≤ file → s.disk.files file = none
  owned : ∀ u ∈ s.uploads, u.stage ≠ .closed → Owned s.disk s.removed u
  distinct : Distinct s.uploads
  durable : ∀ e ∈ s.durable, e.object.key ∉ s.removed → ∃ file, Held sha256 s.disk s.uploads e file
  readers : ∀ r ∈ s.readers, r.Sound s.disk

/-! ### Frames -/

/-- A file keeps its names. -/
structure NameKept (disk after : StoreDisk) (name : String) (file : Nat) : Prop where
  partials : disk.lookup .partials name = some file → after.lookup .partials name = some file
  objects : disk.lookup .objects name = some file → after.lookup .objects name = some file
  named : Named disk .objects name file → Named after .objects name file

/-- Only one file was touched, and not in what it holds if it was sealed. -/
structure Frame (disk after : StoreDisk) (removed : List ObjectKey) (file : Nat) : Prop where
  files : ∀ other, other ≠ file → after.files other = disk.files other
  sealed : ∀ found, disk.files file = some found → found.mode.now = 0o400 →
    ∃ found', after.files file = some found' ∧ found'.mode.now = 0o400 ∧ found'.data = found.data
  names : ∀ key other, key ∉ removed → other ≠ file → NameKept disk after key.value other

section Frames

variable {sha256 : List UInt8 → Digest} {s : Store} {disk after : StoreDisk} {removed removed' : List ObjectKey}
  {file : Nat} {u : Upload}

theorem nameKept_folders {name : String} (same : after.folders = disk.folders) : NameKept disk after name file := by
  refine ⟨?_, ?_, ?_⟩
  · unfold Disk.lookup
    rw [same]
    exact id
  · unfold Disk.lookup
    rw [same]
    exact id
  · unfold Named
    rw [same]
    exact id

theorem nameKept_syncFolder {name : String} (folder : Folder) : NameKept disk (disk.syncFolder folder) name file := by
  refine ⟨?_, ?_, fun named => named.syncFolder folder⟩
  · rw [Disk.lookup_syncFolder]
    exact id
  · rw [Disk.lookup_syncFolder]
    exact id

theorem Place.kept (h : Place disk u) (kept : NameKept disk after u.object.key.value u.object.file) :
    Place after u := by
  unfold Place at h ⊢
  split
  · rename_i stage
    rw [stage] at h
    exact kept.partials h
  · rename_i stage
    rw [stage] at h
    exact kept.partials h
  · rename_i stage
    rw [stage] at h
    exact kept.partials h
  · rename_i stage
    rw [stage] at h
    exact kept.objects h
  · rename_i stage
    rw [stage] at h
    exact kept.named h
  · rename_i stage
    rw [stage] at h
    exact kept.named h
  · trivial

theorem Content.kept (h : Content disk u) (same : after.files u.object.file = disk.files u.object.file) :
    Content after u := by
  unfold Content Stored at h ⊢
  rw [same]
  exact h

theorem Owned.kept (h : Owned disk removed u) (frame : Frame disk after removed' file)
    (more : ∀ key ∈ removed, key ∈ removed') (other : u.object.file ≠ file) : Owned after removed' u := by
  refine ⟨h.counted, h.within, h.content.kept (frame.files _ other), fun kept => ?_⟩
  exact (h.place fun gone => kept (more _ gone)).kept (frame.names _ _ kept other)

theorem Held.kept {uploads uploads' : List Upload} {e : Evidence} {inode : Nat}
    (h : Held sha256 disk uploads e inode) (frame : Frame disk after removed' file) (kept : e.object.key ∉ removed')
    (other : inode ≠ file) (unowned : ∀ u ∈ uploads', u.stage ≠ .closed → u.object.file ≠ inode) :
    Held sha256 after uploads' e inode := by
  refine ⟨(frame.names _ _ kept other).named h.named, ?_, h.bytes, h.small, h.digest, unowned⟩
  unfold Stored
  rw [frame.files _ other]
  exact h.stored

theorem Reader.Sound.kept {r : Reader} (h : r.Sound disk) (frame : Frame disk after removed' file) :
    r.Sound after := by
  rcases h.found with ⟨found, here, mode, data⟩
  refine ⟨?_, h.total, h.got⟩
  by_cases same : r.object.file = file
  · rcases frame.sealed found (same ▸ here) mode with ⟨found', here', mode', data'⟩
    exact ⟨found', same ▸ here', mode', data'.trans data⟩
  · exact ⟨found, (frame.files _ same).trans here, mode, data⟩

/-- The file of an upload that is not over is there. -/
theorem Content.found (h : Content disk u) (live : u.stage ≠ .closed) :
    ∃ found, disk.files u.object.file = some found := by
  unfold Content at h
  split at h
  · exact h.imp fun _ known => known.1
  · exact h.imp fun _ known => known.1
  · exact ⟨_, h⟩
  · rename_i closed
    exact absurd closed live

theorem Sound.fresh (h : Sound sha256 s) (member : u ∈ s.uploads) (live : u.stage ≠ .closed) :
    u.object.file < s.disk.next := by
  rcases (h.owned u member live).content.found live with ⟨found, here⟩
  exact Disk.below h.allocated here

/-- Changing the upload at an index keeps the others apart. -/
theorem Distinct.set {uploads : List Upload} {index : Nat} {next : Upload} (h : Distinct uploads)
    (here : uploads[index]? = some u)
    (same : next.stage ≠ .closed → u.stage ≠ .closed ∧ next.object.file = u.object.file) :
    Distinct (uploads.set index next) := by
  have before : ∀ (i : Nat) (v : Upload), (uploads.set index next)[i]? = some v → v.stage ≠ .closed →
      ∃ w, uploads[i]? = some w ∧ w.stage ≠ .closed ∧ w.object.file = v.object.file := by
    intro i v found alive
    rw [List.getElem?_set] at found
    split at found
    · rename_i equal
      subst equal
      split at found
      · cases found
        exact ⟨u, here, (same alive).1, (same alive).2.symm⟩
      · cases found
    · exact ⟨v, found, alive, rfl⟩
  intro i j v w first second aliveFirst aliveSecond files
  rcases before i v first aliveFirst with ⟨v', first', alive', file'⟩
  rcases before j w second aliveSecond with ⟨w', second', alive'', file''⟩
  exact h i j v' w' first' second' alive' alive'' (file'.trans (files.trans file''.symm))

/-- A call for one upload. -/
theorem Sound.replace {index : Nat} {next : Upload} {fresh : List Evidence} (h : Sound sha256 s)
    (here : s.uploads[index]? = some u) (live : u.stage ≠ .closed) (same : next.object.file = u.object.file)
    (frame : Frame s.disk after s.removed u.object.file) (count : after.next = s.disk.next)
    (owned : next.stage ≠ .closed → Owned after s.removed next)
    (evidence : ∀ e ∈ fresh, e.object.key ∉ s.removed → next.stage = .closed
      ∧ Named after .objects e.object.key.value u.object.file ∧ Stored after u.object.file e.content 0o400
      ∧ e.object.bytes = e.content.length ∧ e.object.bytes ≤ maxUploadBytes ∧ e.object.sha256 = sha256 e.content) :
    Sound sha256 { s with
      disk := after, uploads := s.uploads.set index next, durable := s.durable ++ fresh } := by
  have member := List.mem_of_getElem? here
  have low := h.fresh member live
  -- the other uploads that are not over keep their files
  have others : ∀ v ∈ s.uploads.set index next, v.stage ≠ .closed → v = next
      ∨ v ∈ s.uploads ∧ v.object.file ≠ u.object.file := by
    intro v inside alive
    rcases List.getElem?_of_mem inside with ⟨i, found⟩
    rw [List.getElem?_set] at found
    split at found
    · split at found
      · exact .inl (Option.some.inj found).symm
      · cases found
    · rename_i distinct
      refine .inr ⟨List.mem_of_getElem? found, fun files => distinct ?_⟩
      exact h.distinct index i u v here found live alive files.symm
  refine ⟨?_, ?_, h.distinct.set here (fun _ => ⟨live, same⟩), ?_, fun r inside => (h.readers r inside).kept frame⟩
  · intro file beyond
    simp only [count] at beyond
    exact (frame.files file (by omega)).trans (h.allocated file beyond)
  · intro v inside alive
    rcases others v inside alive with rfl | ⟨inside, other⟩
    · exact owned alive
    · exact (h.owned v inside alive).kept frame (fun _ gone => gone) other
  · intro e inside kept
    rcases List.mem_append.mp inside with old | new
    · rcases h.durable e old kept with ⟨file, held⟩
      refine ⟨file, held.kept frame kept (held.unowned u member live).symm ?_⟩
      intro v inside alive
      rcases others v inside alive with rfl | ⟨inside, _⟩
      · rw [same]
        exact held.unowned u member live
      · exact held.unowned v inside alive
    · rcases evidence e new kept with ⟨ended, named, stored, bytes, small, digest⟩
      refine ⟨u.object.file, named, stored, bytes, small, digest, ?_⟩
      intro v inside alive
      rcases others v inside alive with rfl | ⟨_, other⟩
      · exact absurd ended alive
      · exact other

end Frames

/-! ### Calls -/

section Calls

variable {sha256 : List UInt8 → Digest} {s : Store} {disk after : StoreDisk} {u : Upload} {index : Nat}

theorem regular_eq_ok {file mode : Nat} {bytes : Option Nat} {v : Unit} (h : regular disk file mode bytes = .ok v) :
    ∃ found, disk.files file = some found ∧ found.mode.now = mode ∧ ∀ n ∈ bytes, found.data.length = n := by
  unfold regular at h
  rcases bind_eq_ok.mp h with ⟨found, here, checked⟩
  rcases ensure_eq_ok.mp checked with ⟨mode, length⟩
  exact ⟨found, context_eq_ok.mp here, mode, length⟩

/-- A new upload is named where nothing was. -/
theorem sound_begin {key : ObjectKey} {limit : Nat} {object : PendingObject} (h : Sound sha256 s)
    (begun : beginObject key limit s.disk = .ok (object, after)) :
    Sound sha256 { s with disk := after, uploads := s.uploads ++ [⟨object, .writing⟩] } := by
  unfold beginObject at begun
  rcases bind_eq_ok.mp begun with ⟨_, limits, begun⟩
  have within := ensure_eq_ok.mp limits
  rcases bind_eq_ok.mp begun with ⟨⟨file, disk⟩, created, begun⟩
  rcases bind_eq_ok.mp begun with ⟨_, _, begun⟩
  cases begun
  rcases Disk.create_eq_some.mp (context_eq_ok.mp created) with ⟨free, rfl, rfl⟩
  have frame : Frame s.disk
      { (s.disk.setName .partials key.value (some s.disk.next)).setFile s.disk.next ⟨[], false, .settled 0o600⟩ with
        next := s.disk.next + 1 } s.removed s.disk.next := by
    refine ⟨fun other distinct => Function.update_of_ne distinct _ _, ?_, ?_⟩
    · intro found here
      rw [h.allocated _ le_rfl] at here
      cases here
    · intro other file _ _
      have folders : NameKept s.disk (s.disk.setName .partials key.value (some s.disk.next)) other.value file := by
        refine ⟨?_, ?_, fun named => named.setName _ (fun same => by cases same)⟩
        · intro named
          rw [Disk.lookup_setName, if_neg]
          · exact named
          · rintro ⟨_, same⟩
            rw [same, free] at named
            cases named
        · intro named
          rw [Disk.lookup_setName, if_neg (fun same => by cases same.1)]
          exact named
      exact ⟨folders.partials, folders.objects, folders.named⟩
  have member : ∀ v ∈ s.uploads ++ [⟨⟨key, s.disk.next, limit, 0, []⟩, .writing⟩], v.stage ≠ .closed →
      v ∈ s.uploads ∧ v.object.file < s.disk.next ∨ v = ⟨⟨key, s.disk.next, limit, 0, []⟩, .writing⟩ := by
    intro v inside alive
    rcases List.mem_append.mp inside with inside | inside
    · exact .inl ⟨inside, h.fresh inside alive⟩
    · exact .inr (List.mem_singleton.mp inside)
  refine ⟨?_, ?_, ?_, ?_, fun r inside => (h.readers r inside).kept frame⟩
  · intro file beyond
    have beyond' : s.disk.next + 1 ≤ file := beyond
    exact (frame.files file (by omega)).trans (h.allocated file (by omega))
  · intro v inside alive
    rcases member v inside alive with ⟨inside, low⟩ | rfl
    · exact (h.owned v inside alive).kept frame (fun _ gone => gone) low.ne
    · refine ⟨rfl, ⟨Nat.zero_le _, within.2⟩,
        ⟨⟨[], false, .settled 0o600⟩, Function.update_self _ _ _, rfl, le_rfl, fun _ => rfl⟩, fun _ => ?_⟩
      have named : (s.disk.setName .partials key.value (some s.disk.next)).lookup .partials key.value
          = some s.disk.next := by
        rw [Disk.lookup_setName, if_pos ⟨rfl, rfl⟩]
      exact named
  · intro i j v w first second aliveFirst aliveSecond files
    have low : ∀ (i : Nat) (v : Upload), s.uploads[i]? = some v → v.stage ≠ .closed → v.object.file < s.disk.next :=
      fun i v found alive => h.fresh (List.mem_of_getElem? found) alive
    have last : ∀ (k : Nat) (x v : Upload), [x][k]? = some v → k = 0 ∧ v = x := by
      intro k x v found
      rcases List.getElem?_eq_some_iff.mp found with ⟨inside, rfl⟩
      have zero : k = 0 := Nat.lt_one_iff.mp inside
      subst zero
      exact ⟨rfl, rfl⟩
    rw [List.getElem?_append] at first second
    split at first
    · split at second
      · exact h.distinct i j v w first second aliveFirst aliveSecond files
      · rcases last _ _ _ second with ⟨_, rfl⟩
        exact absurd files (low i v first aliveFirst).ne
    · rcases last _ _ _ first with ⟨position, rfl⟩
      split at second
      · exact absurd files (low j w second aliveSecond).ne'
      · rcases last _ _ _ second with ⟨position', rfl⟩
        omega
  · intro e inside kept
    rcases h.durable e inside kept with ⟨file, held⟩
    have low : file < s.disk.next := Disk.below h.allocated held.stored
    refine ⟨file, held.kept frame kept low.ne ?_⟩
    intro v inside alive
    rcases member v inside alive with ⟨inside, _⟩ | rfl
    · exact held.unowned v inside alive
    · exact low.ne'

/-- A chunk touches only the file of its upload, which was not sealed. -/
theorem sound_write (answers : List WriteAnswer) (bytes : List UInt8) (h : Sound sha256 s)
    (here : s.uploads[index]? = some u) (writing : u.stage = .writing) :
    Sound sha256 { s with
      disk := (u.object.writeChunk answers bytes s.disk).1.2
      uploads := s.uploads.set index { u with object := (u.object.writeChunk answers bytes s.disk).1.1 } } := by
  have live : u.stage ≠ .closed := by
    rw [writing]
    decide
  have owned := h.owned u (List.mem_of_getElem? here) live
  have content := owned.content
  unfold Content at content
  rw [writing] at content
  rcases content with ⟨found, inside, mode, long, same⟩
  rcases writeChunk_chunk u.object answers bytes s.disk with ⟨sent, chunk⟩
  generalize u.object.writeChunk answers bytes s.disk = result at chunk ⊢
  rcases result with ⟨⟨object, after⟩, answer⟩
  rcases chunk with ⟨appended, counted⟩
  simp only at appended counted ⊢
  rcases appended.data found inside with ⟨grown, inside', data, mode'⟩
  have named : ∀ name file, NameKept s.disk after name file := fun _ _ => nameKept_folders appended.folders
  have frame : Frame s.disk after s.removed u.object.file := by
    refine ⟨appended.others, ?_, fun key other _ _ => named _ _⟩
    intro found' here' sealed
    rw [inside] at here'
    cases here'
    rw [mode] at sealed
    cases sealed
  have file : object.file = u.object.file ∧ object.key = u.object.key := by
    rcases counted with ⟨_, _, rfl⟩ | rfl
    · exact ⟨rfl, rfl⟩
    · exact ⟨rfl, rfl⟩
  have updated : Owned after s.removed { u with object := object } → Sound sha256 { s with
      disk := after, uploads := s.uploads.set index { u with object := object } } := by
    intro next
    have replaced := h.replace here live file.1 frame appended.next (fun _ => next)
      fun (e : Evidence) (absurd : e ∈ []) => (List.not_mem_nil absurd).elim
    rw [List.append_nil] at replaced
    exact replaced
  refine updated ?_
  have length : grown.data.length = found.data.length + sent.length := by rw [data, List.length_append]
  have place : u.object.key ∉ s.removed → after.lookup .partials object.key.value = some object.file := by
    intro kept
    have before := owned.place kept
    unfold Place at before
    rw [writing] at before
    rw [file.1, file.2]
    exact (named _ _).partials before
  rcases counted with ⟨rfl, room, rfl⟩ | rfl
  · refine ⟨?_, ⟨room, owned.within.2⟩, ?_, ?_⟩
    · simp only [List.length_append, owned.counted]
    · unfold Content
      simp only [writing]
      refine ⟨grown, inside', by rw [mode', mode], by omega, fun whole => ?_⟩
      rw [data, same (by omega)]
    · intro kept
      unfold Place
      simp only [writing]
      exact place kept
  · refine ⟨owned.counted, owned.within, ?_, ?_⟩
    · unfold Content
      simp only [writing]
      refine ⟨grown, inside', by rw [mode', mode], by omega, fun whole => ?_⟩
      have nothing : sent = [] := List.length_eq_zero_iff.mp (by omega)
      rw [data, nothing, List.append_nil, same (by omega)]
    · intro kept
      unfold Place
      simp only [writing]
      exact place kept

theorem frame_modify {removed : List ObjectKey} {file : Nat} (change : File → File)
    (sealed : ∀ found : File, found.mode.now = 0o400 →
      (change found).mode.now = 0o400 ∧ (change found).data = found.data) :
    Frame disk (disk.modify file change) removed file := by
  refine ⟨?_, ?_, fun _ _ _ _ => nameKept_folders (Disk.modify_folders change)⟩
  · intro other distinct
    rw [Disk.modify_files, if_neg distinct]
  · intro found here mode
    exact ⟨_, Disk.modify_found change here, sealed found mode⟩

theorem frame_sync {removed : List ObjectKey} (folder : Folder) (file : Nat) :
    Frame disk (disk.syncFolder folder) removed file :=
  ⟨fun _ _ => rfl, fun found here mode => ⟨found, here, mode, rfl⟩, fun _ _ _ _ => nameKept_syncFolder folder⟩

/-- A rename moves the file of the upload, unless its key was removed. -/
theorem frame_rename {removed : List ObjectKey} {key : ObjectKey} {file moved : Nat}
    (renamed : disk.Renamed (Folder.partials, key.value) (Folder.objects, key.value) moved after)
    (place : key ∉ removed → disk.lookup .partials key.value = some file) : Frame disk after removed file := by
  refine ⟨fun other _ => by rw [renamed.files], ?_, ?_⟩
  · intro found here mode
    exact ⟨found, by rw [renamed.files]; exact here, mode, rfl⟩
  · intro other inode kept distinct
    refine ⟨?_, ?_, fun named => named.rename renamed (fun same => by cases same)⟩
    · intro named
      rw [renamed.lookup, if_neg (fun same => by cases same), if_neg]
      · exact named
      · intro same
        have equal : other = key := ObjectKey.value_injective (congrArg Prod.snd same)
        subst equal
        rw [place kept] at named
        exact distinct (Option.some.inj named).symm
    · intro named
      rw [renamed.lookup, if_neg, if_neg (fun same => by cases same)]
      · exact named
      · intro same
        have equal : other.value = key.value := congrArg Prod.snd same
        have free : disk.lookup .objects key.value = none := renamed.free
        rw [equal, free] at named
        cases named

/-- Each call of {lit}`finalize` keeps the order of its points. -/
theorem sound_finalize {next : Upload} {object : Option DurableObject} (h : Sound sha256 s)
    (here : s.uploads[index]? = some u) (called : finalizeNext sha256 u s.disk = .ok (next, after, object)) :
    Sound sha256 { s with
      disk := after
      uploads := s.uploads.set index next
      durable := s.durable ++ object.toList.map fun object => ⟨object, u.object.digested⟩ } := by
  have none : ∀ e ∈ ([] : List Evidence), e.object.key ∉ s.removed → next.stage = .closed
      ∧ Named after .objects e.object.key.value u.object.file ∧ Stored after u.object.file e.content 0o400
      ∧ e.object.bytes = e.content.length ∧ e.object.bytes ≤ maxUploadBytes ∧ e.object.sha256 = sha256 e.content :=
    fun e absurd => (List.not_mem_nil absurd).elim
  unfold finalizeNext at called
  have owned := h.owned u (List.mem_of_getElem? here)
  cases stage : u.stage with
  | writing =>
      simp only [stage] at called
      have live : u.stage ≠ .closed := by
        rw [stage]
        decide
      rcases owned live with ⟨counted, within, content, place⟩
      unfold Content at content
      simp only [stage] at content
      rcases content with ⟨found, inside, mode, _, same⟩
      rcases bind_eq_ok.mp called with ⟨_, checked, called⟩
      cases called
      rcases regular_eq_ok checked with ⟨found', inside', _, length⟩
      rw [inside] at inside'
      cases inside'
      refine h.replace here live rfl (frame_modify _ fun found mode => ⟨rfl, rfl⟩) (Disk.modify_next _)
        (fun _ => ⟨counted, within, ?_, fun kept => ?_⟩) none
      · exact ⟨_, Disk.modify_found _ inside, rfl, same (length _ rfl)⟩
      · have before := place kept
        unfold Place at before ⊢
        simp only [stage] at before
        simp only [Disk.chmod, Disk.lookup_modify]
        exact before
  | sealed =>
      simp only [stage] at called
      have live : u.stage ≠ .closed := by
        rw [stage]
        decide
      rcases owned live with ⟨counted, within, content, place⟩
      unfold Content at content
      simp only [stage] at content
      rcases content with ⟨found, inside, mode, same⟩
      cases called
      refine h.replace here live rfl (frame_modify _ fun found mode => ⟨mode, rfl⟩) (Disk.modify_next _)
        (fun _ => ⟨counted, within, ?_, fun kept => ?_⟩) none
      · unfold Content Stored Disk.syncFile
        simp only [Disk.modify_files, if_true, inside, Option.map_some]
        rw [← same, Cell.sync, mode]
      · have before := place kept
        unfold Place at before ⊢
        simp only [stage] at before
        simp only [Disk.syncFile, Disk.lookup_modify]
        exact before
  | reached point =>
      have live : u.stage ≠ .closed := by
        rw [stage]
        exact fun absurd => by cases absurd
      rcases owned live with ⟨counted, within, content, place⟩
      unfold Content at content
      simp only [stage] at content
      cases point with
      | dataSynced =>
          simp only [stage] at called
          rcases bind_eq_ok.mp called with ⟨disk, moving, called⟩
          cases called
          rcases Disk.rename_eq_some (context_eq_ok.mp moving) with ⟨moved, renamed⟩
          have before : u.object.key ∉ s.removed → s.disk.lookup .partials u.object.key.value = some u.object.file := by
            intro kept
            have named := place kept
            unfold Place at named
            simp only [stage] at named
            exact named
          refine h.replace here live rfl (frame_rename renamed before) renamed.next
            (fun _ => ⟨counted, within, ?_, fun kept => ?_⟩) none
          · unfold Content Stored
            simp only
            rw [renamed.files]
            exact content
          · unfold Place
            simp only
            have source : s.disk.lookup .partials u.object.key.value = some moved := renamed.found
            rw [before kept] at source
            rw [renamed.lookup, if_pos rfl, source]
      | renamed =>
          simp only [stage] at called
          cases called
          refine h.replace here live rfl (frame_sync _ _) rfl (fun _ => ⟨counted, within, content, fun kept => ?_⟩) none
          have named := place kept
          unfold Place at named ⊢
          simp only [stage] at named ⊢
          exact named_syncFolder named
      | destinationSynced =>
          simp only [stage] at called
          cases called
          refine h.replace here live rfl (frame_sync _ _) rfl (fun _ => ⟨counted, within, content, fun kept => ?_⟩) none
          have named := place kept
          unfold Place at named ⊢
          simp only [stage] at named ⊢
          exact named.syncFolder _
      | sourceSynced =>
          simp only [stage] at called
          cases called
          have frame : Frame s.disk s.disk s.removed u.object.file :=
            ⟨fun _ _ => rfl, fun found here mode => ⟨found, here, mode, rfl⟩, fun _ _ _ _ => nameKept_folders rfl⟩
          refine h.replace here live rfl frame rfl (fun ended => absurd rfl ended) ?_
          intro e member kept
          cases List.mem_singleton.mp member
          have named := place kept
          unfold Place at named
          simp only [stage] at named
          exact ⟨rfl, named, content, counted.symm, within.1.trans within.2, rfl⟩
  | closed =>
      simp only [stage] at called
      cases called

/-- A call that touches no file. -/
theorem Sound.untouched {removed : List ObjectKey} (h : Sound sha256 s) (files : after.files = s.disk.files)
    (count : after.next = s.disk.next) (more : ∀ key ∈ s.removed, key ∈ removed)
    (names : ∀ (key : ObjectKey) (file : Nat), key ∉ removed → NameKept s.disk after key.value file) :
    Sound sha256 { s with disk := after, removed := removed } := by
  have frame : Frame s.disk after removed s.disk.next := by
    refine ⟨fun _ _ => by rw [files], fun found here mode => ?_, fun key file kept _ => names key file kept⟩
    exact ⟨found, by rw [files]; exact here, mode, rfl⟩
  refine ⟨?_, ?_, h.distinct, ?_, fun r inside => (h.readers r inside).kept frame⟩
  · intro file beyond
    simp only [count] at beyond
    simp only [files]
    exact h.allocated file beyond
  · intro v inside alive
    exact (h.owned v inside alive).kept frame more (h.fresh inside alive).ne
  · intro e inside kept
    rcases h.durable e inside (fun gone => kept (more _ gone)) with ⟨file, held⟩
    exact ⟨file, held.kept frame kept (Disk.below h.allocated held.stored).ne held.unowned⟩

theorem sound_unlink {folder : Folder} {key : ObjectKey} (h : Sound sha256 s)
    (unlinked : s.disk.unlink folder key.value = some after) :
    Sound sha256 { s with disk := after, removed := key :: s.removed } := by
  have same := Disk.unlink_eq_some unlinked
  subst same
  refine h.untouched rfl rfl (fun _ gone => List.mem_cons_of_mem _ gone) fun other file kept => ?_
  have distinct : other.value ≠ key.value := fun equal =>
    kept (ObjectKey.value_injective equal ▸ List.mem_cons_self)
  refine ⟨?_, ?_, fun named => named.setName _ fun equal => distinct (congrArg Prod.snd equal).symm⟩
  · intro named
    rw [Disk.lookup_setName, if_neg (fun equal => distinct equal.2)]
    exact named
  · intro named
    rw [Disk.lookup_setName, if_neg (fun equal => distinct equal.2)]
    exact named

/-- When a process ends, what had evidence stays. -/
theorem sound_stopped (h : Sound sha256 s) (allocated : ∀ file, after.next ≤ file → after.files file = none)
    (named : ∀ name file, Named s.disk .objects name file → Named after .objects name file)
    (stored : ∀ file data, Stored s.disk file data 0o400 → Stored after file data 0o400) :
    Sound sha256 (s.stopped after) := by
  refine ⟨allocated, fun u absurd => (List.not_mem_nil absurd).elim, ?_, ?_,
    fun r absurd => (List.not_mem_nil absurd).elim⟩
  · intro i j u v first
    cases first
  · intro e inside kept
    rcases h.durable e inside kept with ⟨file, held⟩
    exact ⟨file, named _ _ held.named, stored _ _ held.stored, held.bytes, held.small, held.digest,
      fun u absurd => (List.not_mem_nil absurd).elim⟩

theorem sound_powerLoss (h : Sound sha256 s) (loss : PowerLoss s.disk after) : Sound sha256 (s.stopped after) :=
  sound_stopped h (loss.allocated h.allocated) (fun _ _ named => named.loss loss) fun _ _ stored => stored.loss loss

theorem openObject_eq_ok {key : ObjectKey} {expected : Nat} {object : OpenedObject}
    (h : openObject key expected disk = .ok object) : ∃ file, object = ⟨file, 0, expected⟩
      ∧ disk.lookup .objects key.value = some file
      ∧ ∃ found, disk.files file = some found ∧ found.mode.now = 0o400 ∧ found.data.length = expected := by
  unfold openObject at h
  rcases bind_eq_ok.mp h with ⟨_, _, h⟩
  rcases bind_eq_ok.mp h with ⟨file, named, h⟩
  rcases bind_eq_ok.mp h with ⟨_, checked, h⟩
  cases h
  rcases regular_eq_ok (mapError_eq_ok.mp checked) with ⟨found, here, mode, length⟩
  exact ⟨file, rfl, context_eq_ok.mp named, found, here, mode, length _ rfl⟩

theorem sound_open {key : ObjectKey} {expected : Nat} {object : OpenedObject} {file : File} (h : Sound sha256 s)
    (opened : openObject key expected s.disk = .ok object) (here : s.disk.files object.file = some file) :
    Sound sha256 { s with readers := s.readers ++ [⟨object, file.data, []⟩] } := by
  refine ⟨h.allocated, h.owned, h.distinct, h.durable, fun r inside => ?_⟩
  rcases List.mem_append.mp inside with inside | inside
  · exact h.readers r inside
  · cases List.mem_singleton.mp inside
    rcases openObject_eq_ok opened with ⟨inode, rfl, _, found, inside, mode, length⟩
    have same : found = file := Option.some.inj (inside.symm.trans here)
    subst same
    exact ⟨⟨found, here, mode, rfl⟩, (Nat.zero_add _).trans length.symm, List.take_zero.symm⟩

theorem readChunk_sound {r : Reader} {buffer count : Nat} {object : OpenedObject} {bytes : List UInt8}
    (h : r.Sound disk) (read : r.object.readChunk buffer count disk = .ok (bytes, object)) :
    Reader.Sound disk { r with object := object, got := r.got ++ bytes } := by
  rcases h with ⟨⟨found, here, mode, data⟩, total, got⟩
  unfold OpenedObject.readChunk at read
  rcases bind_eq_ok.mp read with ⟨_, _, read⟩
  split at read
  · cases read
    exact ⟨⟨found, here, mode, data⟩, total, by simp only [List.append_nil]; exact got⟩
  · rcases bind_eq_ok.mp read with ⟨found', here', read⟩
    rcases bind_eq_ok.mp read with ⟨_, _, read⟩
    have same : found = found' := Option.some.inj (here.symm.trans (context_eq_ok.mp here'))
    subst same
    cases read
    have length : ((found.data.drop r.object.position).take (min count (min buffer r.object.remaining))).length
        ≤ r.object.remaining := by
      rw [List.length_take]
      omega
    refine ⟨⟨found, here, mode, data⟩, ?_, ?_⟩
    · simp only
      omega
    · simp only
      rw [got, data]
      generalize min count (min buffer r.object.remaining) = n
      rw [List.length_take, List.take_add, ← List.take_eq_take_min]

theorem sound_read {buffer count : Nat} {r : Reader} {object : OpenedObject} {bytes : List UInt8} (h : Sound sha256 s)
    (here : s.readers[index]? = some r) (read : r.object.readChunk buffer count s.disk = .ok (bytes, object)) :
    Sound sha256 { s with readers := s.readers.set index { r with object := object, got := r.got ++ bytes } } := by
  refine ⟨h.allocated, h.owned, h.distinct, h.durable, fun other inside => ?_⟩
  rcases List.mem_or_eq_of_mem_set inside with inside | rfl
  · exact h.readers other inside
  · exact readChunk_sound (h.readers r (List.mem_of_getElem? here)) read

/-- What every call keeps of uploads, objects and downloads. -/
theorem sound_step {next : Store} (h : Sound sha256 s) (step : Step sha256 s next) : Sound sha256 next := by
  cases step with
  | begin begun => exact sound_begin h begun
  | write answers bytes here writing => exact sound_write answers bytes h here writing
  | finalize here called => exact sound_finalize h here called
  | abandon here =>
      rename_i index upload
      have others : ∀ u ∈ s.uploads.set index { upload with stage := .closed }, u.stage ≠ .closed → u ∈ s.uploads := by
        intro u inside live
        rcases List.mem_or_eq_of_mem_set inside with inside | rfl
        · exact inside
        · exact absurd rfl live
      refine ⟨h.allocated, fun u inside live => h.owned u (others u inside live) live,
        h.distinct.set here (fun ended => absurd rfl ended), ?_, h.readers⟩
      intro e inside kept
      rcases h.durable e inside kept with ⟨file, held⟩
      exact ⟨file, held.named, held.stored, held.bytes, held.small, held.digest,
        fun u inside live => held.unowned u (others u inside live) live⟩
  | «open» opened here => exact sound_open h opened here
  | read here read => exact sound_read h here read
  | unlink unlinked => exact sound_unlink h unlinked
  | sync folder => exact h.untouched rfl rfl (fun _ gone => gone) fun _ _ _ => nameKept_syncFolder folder
  | stop => exact sound_stopped h h.allocated (fun _ _ named => named) fun _ _ stored => stored
  | powerLoss loss => exact sound_powerLoss h loss

theorem sound_invariant : (storeSystem sha256).Invariant (Sound sha256) where
  initial state h := by
    refine ⟨h.allocated, ?_, ?_, ?_, ?_⟩
    · rw [h.uploads]
      exact fun u absurd => (List.not_mem_nil absurd).elim
    · rw [h.uploads]
      intro i j u v first
      cases first
    · rw [h.durable]
      exact fun o absurd => (List.not_mem_nil absurd).elim
    · rw [h.readers]
      exact fun r absurd => (List.not_mem_nil absurd).elim
  step _ _ _ h step := sound_step h step

end Calls

end Files
end Blobs
end Noxide
