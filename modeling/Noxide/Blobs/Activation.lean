import Noxide.Blobs.Markers
import Noxide.Blobs.Objects

/-!
# Starting over

A start that was cut short leaves its directory between two calls.  While power is lost in the
order of what was written, and a directory is used by its own database only, what is left is a
first part of the same marker, and the next start completes the pair.

Main results:

- Theorem {lit}`pairing_exclusive`: a directory serves one database only, and a database is
  served from one directory only.
- Theorem {lit}`pairing_resumes`: after any number of interrupted starts, one without a failure
  succeeds.
-/

namespace Noxide
namespace Blobs
namespace Pairs

open Checked
open Disks
open Form (utf8Bytes fromUTF8_bytes)
open Multipart (utf8Bytes_chars)
open Files (Folder StoreDisk WriteAnswer writeLoop regular Benign)

/-! ## A root that its own database left -/

section Left

variable {disk after found : StoreDisk} {file : Nat} {pair : PairId} {point next : Point}

/-- What is found under the pending name: a first part of the marker. -/
def Part (disk : StoreDisk) (pair : PairId) (file : Nat) : Prop :=
  ∃ found, disk.files file = some found ∧ found.data <+: text pair
    ∧ ∀ mode ∈ found.mode.values, mode = 0o400 ∨ mode = 0o600

/-- Every state of the root is one of an installation of this pair. -/
structure Resumes (disk : StoreDisk) (pair : PairId) : Prop where
  allocated : ∀ file, disk.next ≤ file → disk.files file = none
  single : (disk.folders .root).Always fun names => names pairName = none ∨ names pendingName = none
  part : (disk.folders .root).Always fun names => ∀ file, names pendingName = some file → Part disk pair file
  marker : (disk.folders .root).Always fun names => ∀ file, names pairName = some file →
    Stored disk file (text pair) 0o400

/-- Which names there are between two calls of an installation. -/
def OnWay (pair : PairId) (disk : StoreDisk) : Point → Prop
  | .stale => disk.lookup .root pairName = none
  | .unlinked | .absent => disk.lookup .root pairName = none ∧ disk.lookup .root pendingName = none
  | .writing file rest => disk.lookup .root pairName = none ∧ disk.lookup .root pendingName = some file
      ∧ Unmarked disk file ∧ ∃ found, disk.files file = some found ∧ found.data ++ rest = text pair
        ∧ ∀ mode ∈ found.mode.values, mode = 0o400 ∨ mode = 0o600
  | .sealed file => disk.lookup .root pairName = none ∧ disk.lookup .root pendingName = some file
      ∧ Unmarked disk file ∧ ∃ found, disk.files file = some found ∧ found.data = text pair
        ∧ found.mode.now = 0o400
  | .synced => disk.lookup .root pairName = none ∧ ∃ file, disk.lookup .root pendingName = some file
      ∧ Stored disk file (text pair) 0o400
  | .named | .opened _ | .confirmed => disk.lookup .root pendingName = none
      ∧ ∃ file, disk.lookup .root pairName = some file
  | .settled | .durable => ∃ names, disk.folders .root = .settled names ∧ names pendingName = none
      ∧ ∃ file, names pairName = some file

theorem Bare.resumes (h : Bare disk) (pair : PairId) : Resumes disk pair := by
  refine ⟨h.allocated, fun names member => .inl (h.names names member).1, ?_, ?_⟩
  · intro names member file named
    rw [(h.names names member).2] at named
    cases named
  · intro names member file named
    rw [(h.names names member).1] at named
    cases named

theorem Part.below (allocated : ∀ file, disk.next ≤ file → disk.files file = none) (part : Part disk pair file) :
    file < disk.next := by
  rcases part with ⟨found, here, _⟩
  exact Disk.below allocated here

theorem Part.kept (part : Part disk pair file) (same : after.files file = disk.files file) : Part after pair file := by
  rcases part with ⟨found, here, first, modes⟩
  exact ⟨found, same.trans here, first, modes⟩

/-- Another state of the root, with the files as they are. -/
theorem Resumes.write (h : Resumes disk pair) {names : Names String}
    (single : names pairName = none ∨ names pendingName = none)
    (part : ∀ file, names pendingName = some file → Part disk pair file)
    (marker : ∀ file, names pairName = some file → Stored disk file (text pair) 0o400) :
    Resumes (disk.write .root names) pair := by
  refine ⟨h.allocated, ?_, ?_, ?_⟩
  all_goals rw [Disk.write_folders, if_pos rfl, Cell.always_write]
  · exact ⟨single, h.single⟩
  · exact ⟨part, h.part⟩
  · exact ⟨marker, h.marker⟩

/-- A change of one file, which stays a first part of the marker and is no marker. -/
theorem Resumes.modify (h : Resumes disk pair) (change : File → File) (unmarked : Unmarked disk file)
    (part : ∀ found, disk.files file = some found → (change found).data <+: text pair
      ∧ ∀ mode ∈ (change found).mode.values, mode = 0o400 ∨ mode = 0o600) :
    Resumes (disk.modify file change) pair := by
  refine ⟨Disk.modify_allocated change h.allocated, ?_, ?_, ?_⟩
  · rw [Disk.modify_folders]
    exact h.single
  · rw [Disk.modify_folders]
    intro names member other named
    by_cases same : other = file
    · subst same
      rcases h.part names member other named with ⟨found, here, _, _⟩
      rcases part found here with ⟨first, modes⟩
      exact ⟨change found, Disk.modify_found change here, first, modes⟩
    · exact (h.part names member other named).kept (by rw [Disk.modify_files, if_neg same])
  · rw [Disk.modify_folders]
    intro names member other named
    refine (h.marker names member other named).modify_of_ne change ?_
    rintro rfl
    exact unmarked names member named

theorem Resumes.syncFile (h : Resumes disk pair) (file : Nat) : Resumes (disk.syncFile file) pair := by
  unfold Disk.syncFile
  refine ⟨Disk.modify_allocated _ h.allocated, ?_, ?_, ?_⟩
  · rw [Disk.modify_folders]
    exact h.single
  · rw [Disk.modify_folders]
    intro names member other named
    rcases h.part names member other named with ⟨found, here, first, modes⟩
    by_cases same : other = file
    · subst same
      refine ⟨_, Disk.modify_found _ here, first, ?_⟩
      exact fun mode member => modes mode (List.mem_cons.mpr (.inl (List.mem_singleton.mp member)))
    · exact ⟨found, by rw [Disk.modify_files, if_neg same, here], first, modes⟩
  · rw [Disk.modify_folders]
    exact fun names member other named => (h.marker names member other named).syncFile file

theorem Resumes.syncRoot (h : Resumes disk pair) : Resumes (disk.syncFolder .root) pair := by
  refine ⟨h.allocated, ?_, ?_, ?_⟩
  all_goals rw [Disk.syncFolder_folders, if_pos rfl]
  · exact Cell.Always.sync h.single
  · exact Cell.always_settled.mpr (Cell.Always.now h.part)
  · exact Cell.always_settled.mpr (Cell.Always.now h.marker)

/-- A loss of power that keeps the order of what was written leaves an installation of the pair. -/
theorem Resumes.loss (h : Resumes disk pair) (lost : OrderedLoss disk found) : Resumes found pair := by
  rcases lost.folders .root with ⟨names, member, settled⟩
  refine ⟨lost.loss.allocated h.allocated, ?_, ?_, ?_⟩
  all_goals rw [settled, Cell.always_settled]
  · exact h.single names member
  · intro file named
    rcases h.part names member file named with ⟨before, here, first, modes⟩
    have survived := lost.loss.files file
    rw [here] at survived
    generalize there : found.files file = later at survived
    cases survived with
    | @some _ later survives =>
        rcases lost.files file later there with ⟨before', here', part⟩
        rw [here] at here'
        cases here'
        rcases survives.mode with ⟨mode, chosen, same⟩
        refine ⟨later, there, part.trans first, ?_⟩
        rw [same]
        exact fun other member => (List.mem_singleton.mp member) ▸ modes mode chosen
  · exact fun file named => (h.marker names member file named).loss lost.loss

/-- A new part is empty, and no state of the root names it as the marker. -/
theorem Resumes.create (h : Resumes disk pair) (unmarked : disk.lookup .root pairName = none)
    (created : disk.create .root pendingName 0o600 = some (file, after)) :
    Resumes after pair ∧ OnWay pair after (.writing file (text pair)) := by
  rcases Disk.create_eq_some.mp created with ⟨_, rfl, rfl⟩
  have marker : (disk.setName .root pendingName (some disk.next)).lookup .root pairName = none := by
    rw [Disk.lookup_setName, if_neg (by decide)]
    exact unmarked
  have pending : (disk.setName .root pendingName (some disk.next)).lookup .root pendingName = some disk.next := by
    rw [Disk.lookup_setName, if_pos ⟨rfl, rfl⟩]
  have fresh : ∀ names ∈ (disk.folders .root).values, ∀ name file, names name = some file →
      (name = pairName ∨ name = pendingName) → file ≠ disk.next := by
    rintro names member name file named (rfl | rfl)
    · exact Nat.ne_of_lt (Disk.below h.allocated (h.marker names member file named))
    · exact Nat.ne_of_lt ((h.part names member file named).below h.allocated)
  have files : (Function.update disk.files disk.next (some ⟨[], false, .settled 0o600⟩)) disk.next
      = some ⟨[], false, .settled 0o600⟩ := Function.update_self _ _ _
  have modes : ∀ mode ∈ (Cell.settled 0o600).values, mode = 0o400 ∨ mode = 0o600 :=
    fun mode member => .inr (List.mem_singleton.mp member)
  refine ⟨⟨?_, ?_, ?_, ?_⟩, marker, pending, ?_, ⟨_, files, List.nil_append _, modes⟩⟩
  · exact Disk.create_allocated created h.allocated
  · unfold Disk.setFile Disk.setName
    rw [Disk.write_folders, if_pos rfl, Cell.always_write]
    refine ⟨.inl ?_, h.single⟩
    rw [Function.update_of_ne (by decide)]
    exact unmarked
  · unfold Disk.setFile Disk.setName
    rw [Disk.write_folders, if_pos rfl, Cell.always_write]
    refine ⟨?_, ?_⟩
    · intro file named
      rw [Function.update_self] at named
      cases named
      exact ⟨_, files, List.nil_prefix, modes⟩
    · intro names member file named
      refine (h.part names member file named).kept (Function.update_of_ne ?_ _ _)
      exact fresh names member _ file named (.inr rfl)
  · unfold Disk.setFile Disk.setName
    rw [Disk.write_folders, if_pos rfl, Cell.always_write]
    refine ⟨?_, ?_⟩
    · intro file named
      rw [Function.update_of_ne (by decide)] at named
      exact absurd (unmarked.symm.trans named) (by simp)
    · intro names member file named
      refine (h.marker names member file named).kept (Function.update_of_ne ?_ _ _)
      exact fresh names member _ file named (.inl rfl)
  · unfold Unmarked Disk.setFile Disk.setName
    rw [Disk.write_folders, if_pos rfl, Cell.always_write]
    refine ⟨?_, ?_⟩
    · rw [Function.update_of_ne (by decide)]
      exact fun named => absurd (unmarked.symm.trans named) (by simp)
    · exact fun names member named => fresh names member _ _ named (.inl rfl) rfl

/-- Each call of an installation leaves one of the same pair. -/
theorem installStep_resumes (h : Resumes disk pair) (way : OnWay pair disk point)
    (step : InstallStep pair point disk next after) : Resumes after pair ∧ OnWay pair after next := by
  cases step with
  | unlink unlinked =>
      rw [Disk.unlink_eq_some unlinked]
      refine ⟨h.write ?_ ?_ ?_, ?_, ?_⟩
      · exact .inr (Function.update_self _ _ _)
      · intro file named
        rw [Function.update_self] at named
        cases named
      · intro file named
        rw [Function.update_of_ne (by decide)] at named
        exact absurd (way.symm.trans named) (by simp)
      · rw [Disk.lookup_setName, if_neg (by decide)]
        exact way
      · rw [Disk.lookup_setName, if_pos ⟨rfl, rfl⟩]
  | syncUnlink =>
      refine ⟨h.syncRoot, ?_, ?_⟩
      · rw [Disk.lookup_syncFolder]
        exact way.1
      · rw [Disk.lookup_syncFolder]
        exact way.2
  | create created => exact h.create way.1 created
  | @write _ file bytes rest =>
      rcases way with ⟨marker, pending, unmarked, found, here, split, modes⟩
      refine ⟨h.modify _ unmarked ?_, ?_, ?_, ?_, ?_⟩
      · intro found' here'
        rw [here] at here'
        cases here'
        refine ⟨?_, modes⟩
        rw [← split, ← List.append_assoc]
        exact List.prefix_append _ _
      · exact (Disk.lookup_modify _).trans marker
      · exact (Disk.lookup_modify _).trans pending
      · exact unmarked.modify _
      · refine ⟨_, Disk.modify_found _ here, ?_, modes⟩
        rw [List.append_assoc]
        exact split
  | @chmod _ file =>
      rcases way with ⟨marker, pending, unmarked, found, here, split, modes⟩
      rw [List.append_nil] at split
      refine ⟨h.modify _ unmarked ?_, ?_, ?_, ?_, ?_⟩
      · intro found' here'
        rw [here] at here'
        cases here'
        refine ⟨by rw [split], ?_⟩
        exact fun mode member => (List.mem_cons.mp member).elim .inl (modes mode)
      · exact (Disk.lookup_modify _).trans marker
      · exact (Disk.lookup_modify _).trans pending
      · exact unmarked.modify _
      · exact ⟨_, Disk.modify_found _ here, split, rfl⟩
  | @sync _ file =>
      rcases way with ⟨marker, pending, unmarked, found, here, content, mode⟩
      refine ⟨h.syncFile file, ?_, file, ?_, ?_⟩
      · exact (Disk.lookup_modify _).trans marker
      · exact (Disk.lookup_modify _).trans pending
      · unfold Stored
        rw [Disk.syncFile, Disk.modify_found _ here, Cell.sync, mode, content]
  | rename renamed =>
      rcases way with ⟨unmarked, file, pending, stored⟩
      rcases Disk.rename_eq_some renamed with ⟨moved, done⟩
      have same : moved = file := Option.some.inj (done.found.symm.trans pending)
      subst same
      have folders := done.folders
      rw [if_pos rfl] at folders
      refine ⟨?_, ?_, moved, ?_⟩
      · rw [folders]
        refine h.write (.inr ?_) ?_ ?_
        · rw [Function.update_of_ne (by decide), Function.update_self]
        · intro other named
          rw [Function.update_of_ne (by decide), Function.update_self] at named
          cases named
        · intro other named
          rw [Function.update_self] at named
          cases named
          exact stored
      · rw [done.lookup, if_neg (by decide), if_pos rfl]
      · rw [done.lookup, if_pos rfl]
  | «open» named checked => exact ⟨h, way⟩
  | @syncFile _ file =>
      refine ⟨h.syncFile file, ?_⟩
      rcases way with ⟨pending, marker, named⟩
      exact ⟨(Disk.lookup_modify _).trans pending, marker, (Disk.lookup_modify _).trans named⟩
  | syncRoot =>
      rcases way with ⟨pending, marker, named⟩
      refine ⟨h.syncRoot, (disk.folders .root).now, ?_, pending, marker, named⟩
      rw [Disk.syncFolder_folders, if_pos rfl]
      rfl
  | reread read => exact ⟨h, way⟩

end Left

/-! ## Reading markers -/

section Reading

variable {disk : StoreDisk} {file : Nat} {pair : PairId} {d : Directory}

theorem isHex_digit {c : Char} (digit : lowerHex c = true) :
    String.utf8EncodeChar c = [UInt8.ofNat c.toNat] ∧ isHex (UInt8.ofNat c.toNat) = true := by
  have range : 48 ≤ c.toNat ∧ c.toNat ≤ 57 ∨ 97 ≤ c.toNat ∧ c.toNat ≤ 102 := by
    unfold lowerHex at digit
    simpa [Char.isDigit, Char.le_def, UInt32.le_iff_toNat_le] using digit
  have small : c.val.toNat ≤ 0x7f := by
    have same : c.val.toNat = c.toNat := rfl
    omega
  refine ⟨by simp only [String.utf8EncodeChar, if_pos small, Char.toNat], ?_⟩
  have value : (UInt8.ofNat c.toNat).toNat = c.toNat := by
    rw [UInt8.toNat_ofNat']
    exact Nat.mod_eq_of_lt (by omega)
  unfold isHex
  simp only [Bool.or_eq_true, Bool.and_eq_true, decide_eq_true_eq, UInt8.le_iff_toNat_le, value]
  exact range

/-- A marker is 64 hexadecimal digits. -/
theorem text_hex (pair : PairId) : (text pair).length = 64 ∧ (text pair).all isHex = true := by
  have valid := pair.key.valid
  unfold hexToken at valid
  rw [Bool.and_eq_true, beq_iff_eq] at valid
  rcases valid with ⟨size, digits⟩
  rw [text_eq]
  refine ⟨size, ?_⟩
  rw [utf8Bytes_chars, List.all_eq_true]
  intro byte member
  rcases List.mem_flatMap.mp member with ⟨c, inside, encoded⟩
  rcases isHex_digit (List.all_eq_true.mp digits c inside) with ⟨single, hex⟩
  rw [single, List.mem_singleton] at encoded
  rw [encoded]
  exact hex

theorem markerId_text (pair : PairId) : markerId (text pair) = .ok pair := by
  unfold markerId PairId.parse ObjectKey.parse
  rw [text_eq, fromUTF8_bytes.mpr rfl, need, context, bind_ok, dif_pos pair.key.valid]
  rfl

theorem links_one {name other : String} (both : [pairName, pendingName].Perm [name, other])
    (named : disk.lookup .root name = some file) (free : disk.lookup .root other = none) : links disk file = 1 := by
  unfold links
  rw [both.countP_eq, List.countP_cons, List.countP_cons, List.countP_nil, named, free]
  simp

theorem readMarker_none {name : String} {part : Bool} (free : disk.lookup .root name = none) :
    readMarker name part disk = .ok none := by
  unfold readMarker
  rw [free]

theorem regular_ok {found : File} {mode : Nat} {bytes : Option Nat} (here : disk.files file = some found)
    (now : found.mode.now = mode) (sized : ∀ n ∈ bytes, found.data.length = n) :
    regular disk file mode bytes = .ok () := by
  unfold regular
  rw [here, need, context, bind_ok, check, ensure_pos ⟨now, sized⟩]

/-- The durable marker is read back. -/
theorem readMarker_text (named : disk.lookup .root pairName = some file)
    (free : disk.lookup .root pendingName = none) (stored : Stored disk file (text pair) 0o400) :
    readMarker pairName false disk = .ok (some (text pair)) := by
  rcases text_hex pair with ⟨sized, hex⟩
  unfold readMarker regularMarker
  rw [named]
  simp only
  rw [stored, need, context, bind_ok]
  simp only
  rw [check, ensure_pos (by rw [sized]), bind_ok, check, ensure_pos (.inl rfl), bind_ok,
    regular_ok stored rfl (fun n absurd => by cases absurd), bind_ok, check,
    ensure_pos (links_one (List.Perm.refl _) named free), bind_ok, check, ensure_pos (.inr sized), bind_ok, check,
    ensure_pos hex, bind_ok]
  rfl

/-- A part of the marker is read back, whatever its mode. -/
theorem readMarker_part (named : disk.lookup .root pendingName = some file)
    (free : disk.lookup .root pairName = none) (part : Part disk pair file) :
    ∃ bytes, readMarker pendingName true disk = .ok (some bytes) ∧ bytes <+: text pair := by
  rcases text_hex pair with ⟨sized, hex⟩
  rcases part with ⟨found, here, first, modes⟩
  have short : found.data.length ≤ 64 := sized ▸ first.length_le
  have digits : found.data.all isHex = true := by
    rw [List.all_eq_true] at hex ⊢
    exact fun byte member => hex byte (first.subset member)
  have mode : found.mode.now = 0o400 ∨ (True ∧ found.mode.now = 0o600) :=
    (modes _ List.mem_cons_self).imp id fun now => ⟨trivial, now⟩
  refine ⟨found.data, ?_, first⟩
  unfold readMarker regularMarker
  rw [named]
  simp only
  rw [here, need, context, bind_ok, check, ensure_pos short, bind_ok, check, ensure_pos mode, bind_ok,
    regular_ok here rfl (fun n absurd => by cases absurd), bind_ok, check,
    ensure_pos (links_one (List.Perm.swap _ _ _) named free), bind_ok, check, ensure_pos (.inl trivial), bind_ok, check,
    ensure_pos digits, bind_ok]
  rfl

/-- Only the dot entries. -/
def Quiet (entries : List String) : Prop := ∀ name ∈ entries, name = "." ∨ name = ".."

/-- Only the dot entries and keys. -/
def Known (entries : List String) : Prop := ∀ name ∈ entries, name = "." ∨ name = ".." ∨ hexToken name = true

theorem nextBatch_known {entries : List String} (known : Known entries) : ∃ keys, nextBatch entries = .ok keys := by
  have valid : ∀ name ∈ (entries.take scanBatch).filter (fun name => name ≠ "." ∧ name ≠ ".."),
      hexToken name = true := by
    intro name member
    rcases List.mem_filter.mp member with ⟨inside, other⟩
    rw [decide_eq_true_iff] at other
    rcases known name (List.mem_of_mem_take inside) with dot | dots | key
    · exact absurd dot other.1
    · exact absurd dots other.2
    · exact key
  unfold nextBatch
  generalize (entries.take scanBatch).filter (fun name => name ≠ "." ∧ name ≠ "..") = names at valid
  induction names with
  | nil => exact ⟨[], rfl⟩
  | cons name names ih =>
      rcases ih fun other member => valid other (List.mem_cons_of_mem _ member) with ⟨keys, parsed⟩
      have key : ObjectKey.parse name = .ok ⟨name, valid name List.mem_cons_self⟩ := by
        unfold ObjectKey.parse
        rw [dif_pos]
      refine ⟨⟨name, valid name List.mem_cons_self⟩ :: keys, ?_⟩
      rw [List.mapM_cons, key, bind_ok, parsed, bind_ok]
      rfl

theorem nextBatch_quiet {entries : List String} (quiet : Quiet entries) : nextBatch entries = .ok [] := by
  have none : ((entries.take scanBatch).filter fun name => name ≠ "." ∧ name ≠ "..") = [] := by
    rw [List.filter_eq_nil_iff]
    intro name member
    have dot := quiet name (List.mem_of_mem_take member)
    rcases dot with rfl | rfl
    · decide
    · decide
  unfold nextBatch
  rw [none]
  rfl

theorem observeEmpty_quiet (partials : Quiet d.partials) (objects : Quiet d.objects) : d.observeEmpty = .ok true := by
  unfold Directory.observeEmpty
  rw [nextBatch_quiet partials, bind_ok]
  simp only
  rw [nextBatch_quiet objects, bind_ok]
  rfl

theorem observeEmpty_known (partials : Known d.partials) (objects : Known d.objects) :
    ∃ empty, d.observeEmpty = .ok empty := by
  rcases nextBatch_known partials with ⟨first, read⟩
  rcases nextBatch_known objects with ⟨second, read'⟩
  unfold Directory.observeEmpty
  rw [read, bind_ok]
  cases first with
  | nil => exact ⟨second.isEmpty, by simp only; rw [read', bind_ok]; rfl⟩
  | cons key keys => exact ⟨false, rfl⟩

/-- What is seen of a root that an installation left. -/
inductive Sees (disk : StoreDisk) (pair : PairId) (o : PairObservation) : Prop where
  | unmarked : o.marker = none → disk.lookup .root pairName = none →
      (o.pending = none ↔ disk.lookup .root pendingName = none) → (∀ bytes ∈ o.pending, bytes <+: text pair) →
        Sees disk pair o
  | marked {file : Nat} : o.marker = some pair → o.pending = none → disk.lookup .root pairName = some file →
      disk.lookup .root pendingName = none → Sees disk pair o

theorem observePair_resumes {empty : Bool} (h : Resumes d.disk pair) (scanned : d.observeEmpty = .ok empty) :
    ∃ o, observePair d = .ok o ∧ o.store = d.identity ∧ o.empty = empty ∧ Sees d.disk pair o := by
  cases marker : d.disk.lookup .root pairName with
  | none =>
      cases pending : d.disk.lookup .root pendingName with
      | none =>
          refine ⟨⟨d.identity, none, none, empty⟩, ?_, rfl, rfl,
            .unmarked rfl marker (iff_of_true rfl pending) (fun bytes absurd => by cases absurd)⟩
          unfold observePair
          rw [readMarker_none marker, bind_ok, Option.mapM_none]
          simp only [pure_bind]
          rw [readMarker_none pending, bind_ok, check, ensure_pos (.inl trivial), bind_ok, scanned, bind_ok]
          rfl
      | some file =>
          rcases readMarker_part pending marker (h.part.now file pending) with ⟨bytes, read, first⟩
          refine ⟨⟨d.identity, none, some bytes, empty⟩, ?_, rfl, rfl, .unmarked rfl marker
            (iff_of_false (fun absurd => by cases absurd) (by rw [pending]; exact fun absurd => by cases absurd))
            (fun other same => by cases same; exact first)⟩
          unfold observePair
          rw [readMarker_none marker, bind_ok, Option.mapM_none]
          simp only [pure_bind]
          rw [read, bind_ok, check, ensure_pos (.inl trivial), bind_ok, scanned, bind_ok]
          rfl
  | some file =>
      have pending : d.disk.lookup .root pendingName = none := by
        rcases h.single.now with none | none
        · exact absurd (marker.symm.trans none) (by simp)
        · exact none
      refine ⟨⟨d.identity, some pair, none, empty⟩, ?_, rfl, rfl, .marked rfl rfl marker pending⟩
      unfold observePair
      rw [readMarker_text marker pending (h.marker.now file marker), bind_ok, Option.mapM_some, markerId_text]
      simp only [Except.map_ok, bind_ok]
      rw [readMarker_none pending, bind_ok, check, ensure_pos (.inr rfl), bind_ok, scanned, bind_ok]
      rfl

end Reading

/-! ## Whole installations -/

section Installing

variable {disk after : StoreDisk} {file : Nat} {pair : PairId} {answers : List WriteAnswer}

/-- Any number of calls. -/
def Installs (pair : PairId) : Point × StoreDisk → Point × StoreDisk → Prop :=
  Relation.ReflTransGen fun before after => InstallStep pair before.1 before.2 after.1 after.2

theorem InstallStep.installs {point next : Point} (step : InstallStep pair point disk next after) :
    Installs pair (point, disk) (next, after) := .single step

theorem Installs.next {before : Point × StoreDisk} {point next : Point} (installs : Installs pair before (point, disk))
    (step : InstallStep pair point disk next after) : Installs pair before (next, after) := .tail installs step

theorem Installs.resumes {before after : Point × StoreDisk} (installs : Installs pair before after)
    (h : Resumes before.2 pair) (way : OnWay pair before.2 before.1) :
    Resumes after.2 pair ∧ OnWay pair after.2 after.1 := by
  induction installs with
  | refl => exact ⟨h, way⟩
  | tail _ step ih => exact installStep_resumes ih.1 ih.2 step

/-- Writes that the system cuts are calls of the installation. -/
theorem writeLoop_installs (pair : PairId) (file : Nat) (benign : Benign answers) (bytes : List UInt8)
    (disk : StoreDisk) :
    (writeLoop file answers bytes disk).2 = .ok ()
      ∧ Installs pair (.writing file bytes, disk) (.writing file [], (writeLoop file answers bytes disk).1) := by
  refine ⟨Files.writeLoop_completes file answers bytes disk benign, ?_⟩
  induction answers, bytes, disk using Noxide.Blobs.Files.writeLoop.induct file with
  | case1 answers disk =>
      rw [Noxide.Blobs.Files.writeLoop.eq_1]
      exact .refl
  | case2 remaining disk nonempty =>
      rw [Noxide.Blobs.Files.writeLoop.eq_2 _ _ _ nonempty]
      have step : InstallStep pair (.writing file (remaining ++ [])) disk (.writing file [])
          (disk.append file remaining) :=
        InstallStep.write remaining []
      rw [List.append_nil] at step
      exact .single step
  | case3 answers remaining disk nonempty ih =>
      rw [Noxide.Blobs.Files.writeLoop.eq_3 _ _ _ _ nonempty]
      exact ih fun answer member => benign answer (List.mem_cons_of_mem _ member)
  | case4 answers remaining disk nonempty =>
      exact absurd rfl (benign .failed List.mem_cons_self).1
  | case5 answers remaining disk nonempty =>
      exact absurd rfl (benign (.wrote 0) List.mem_cons_self).2
  | case6 count answers remaining disk nonempty ih =>
      rw [Noxide.Blobs.Files.writeLoop.eq_6 _ _ _ _ _ nonempty]
      have step : InstallStep pair (.writing file (remaining.take (count + 1) ++ remaining.drop (count + 1))) disk
          (.writing file (remaining.drop (count + 1))) (disk.append file (remaining.take (count + 1))) :=
        InstallStep.write _ _
      rw [List.take_append_drop] at step
      exact .head step (ih fun answer member => benign answer (List.mem_cons_of_mem _ member))

theorem removePending_installs (h : Resumes disk pair) (free : disk.lookup .root pairName = none)
    {pending : Option (List UInt8)} (shown : pending = none ↔ disk.lookup .root pendingName = none) :
    ∃ after, removePending pending disk = .ok after
      ∧ Installs pair ((if pending = none then .absent else .stale), disk) (.absent, after)
      ∧ Resumes after pair ∧ OnWay pair after .absent := by
  cases pending with
  | none =>
      refine ⟨disk, rfl, ?_, h, free, shown.mp rfl⟩
      rw [if_pos rfl]
      exact .refl
  | some bytes =>
      have named : disk.lookup .root pendingName ≠ none := fun none => by cases shown.mpr none
      rcases Option.ne_none_iff_exists'.mp named with ⟨file, found⟩
      have unlinked : disk.unlink .root pendingName = some (disk.setName .root pendingName none) := by
        unfold Disk.unlink
        rw [found]
      rw [if_neg (fun absurd => by cases absurd)]
      have installs : Installs pair (.stale, disk) (.absent, (disk.setName .root pendingName none).syncFolder .root) :=
        (InstallStep.unlink unlinked).installs.next InstallStep.syncUnlink
      refine ⟨_, ?_, installs, installs.resumes h free⟩
      unfold removePending
      simp only
      rw [unlinked, need, context, bind_ok]
      rfl

theorem writeMarker_installs (h : Resumes disk pair) (way : OnWay pair disk .absent) (benign : Benign answers) :
    ∃ after, writeMarker pair answers disk = .ok after ∧ Installs pair (.absent, disk) (.named, after)
      ∧ Resumes after pair ∧ OnWay pair after .named := by
  have created : ∃ made, disk.create .root pendingName 0o600 = some (disk.next, made) :=
    ⟨_, Disk.create_eq_some.mpr ⟨way.2, rfl, rfl⟩⟩
  rcases created with ⟨made, created⟩
  have begun : Installs pair (.absent, disk) (.writing disk.next (text pair), made) :=
    (InstallStep.create created).installs
  rcases begun.resumes h way with ⟨_, free, named, _, _⟩
  have here : made.files disk.next = some ⟨[], false, .settled 0o600⟩ := by
    rcases Disk.create_eq_some.mp created with ⟨_, _, rfl⟩
    exact Function.update_self _ _ _
  rcases writeLoop_installs pair disk.next benign (text pair) made with ⟨written, writes⟩
  generalize looped : writeLoop disk.next answers (text pair) made = result at written writes
  rcases result with ⟨full, outcome⟩
  cases written
  have synced : Installs pair (.writing disk.next [], full) (.synced,
      (full.chmod disk.next 0o400).syncFile disk.next) :=
    InstallStep.chmod.installs.next InstallStep.sync
  have sealed : Installs pair (.absent, disk) (.synced, (full.chmod disk.next 0o400).syncFile disk.next) :=
    (begun.trans writes).trans synced
  rcases (sealed.resumes h way).2 with ⟨free', file, pending, _⟩
  have renamed : ∃ after, ((full.chmod disk.next 0o400).syncFile disk.next).rename (.root, pendingName)
      (.root, pairName)
      = some after := by
    unfold Disk.rename
    simp only at pending free'
    rw [pending, free']
    exact ⟨_, rfl⟩
  rcases renamed with ⟨after, renamed⟩
  have installs : Installs pair (.absent, disk) (.named, after) := sealed.next (InstallStep.rename renamed)
  refine ⟨after, ?_, installs, installs.resumes h way⟩
  have private_ : (Cell.settled 0o600).now = 0o600 := rfl
  have empty : ∀ n ∈ some 0, ([] : List UInt8).length = n := by
    intro n same
    cases same
    rfl
  unfold writeMarker regularMarker
  rw [created, need, context, bind_ok]
  simp only
  rw [regular_ok here private_ empty, bind_ok, check,
    ensure_pos (links_one (List.Perm.swap _ _ _) named free), bind_ok, looped]
  simp only
  rw [renamed, need, context]

theorem confirmMarker_installs (h : Resumes disk pair) (way : OnWay pair disk .named) :
    ∃ after, confirmMarker pair disk = .ok after ∧ Installs pair (.named, disk) (.durable, after)
      ∧ Resumes after pair ∧ OnWay pair after .durable := by
  rcases way with ⟨free, file, named⟩
  have stored : Stored disk file (text pair) 0o400 := h.marker.now file named
  have checked : regularMarker disk file 0o400 (some 64) = .ok () := by
    have sized : ∀ n ∈ some 64, (text pair).length = n := by
      intro n same
      cases same
      exact (text_hex pair).1
    have sealed : (Cell.settled 0o400).now = 0o400 := rfl
    unfold regularMarker
    rw [regular_ok stored sealed sized, bind_ok, check,
      ensure_pos (links_one (List.Perm.refl _) named free)]
  have named' : ((disk.syncFile file).syncFolder .root).lookup .root pairName = some file := by
    rw [Disk.lookup_syncFolder]
    exact (Disk.lookup_modify _).trans named
  have free' : ((disk.syncFile file).syncFolder .root).lookup .root pendingName = none := by
    rw [Disk.lookup_syncFolder]
    exact (Disk.lookup_modify _).trans free
  have stored' : Stored ((disk.syncFile file).syncFolder .root) file (text pair) 0o400 := stored.syncFile file
  have read := readMarker_text named' free' stored'
  have installs : Installs pair (.named, disk) (.durable, (disk.syncFile file).syncFolder .root) :=
    (((InstallStep.open named checked).installs.next InstallStep.syncFile).next InstallStep.syncRoot).next
      (InstallStep.reread read)
  refine ⟨_, ?_, installs, installs.resumes h ⟨free, file, named⟩⟩
  unfold confirmMarker
  rw [named, need, context, bind_ok]
  simp only
  rw [checked, bind_ok, read, bind_ok, need, context, bind_ok, check, ensure_pos rfl, bind_ok]
  rfl

end Installing

/-! ## The row of a pending pair -/

section Row

variable {store : ObjectKey} {pair : PairId} {t : BlobTables}

/-- The tables of a pending pair, without other rows. -/
def pendingTables (store : ObjectKey) (pair : PairId) : BlobTables := ⟨some (pendingRow store pair), [], [], []⟩

theorem key_parse (key : ObjectKey) : ObjectKey.parse key.value = .ok key := by
  unfold ObjectKey.parse
  rw [dif_pos key.valid]

theorem pairRecord_pending (store : ObjectKey) (pair : PairId) :
    pairRecord (pendingTables store pair) = .ok (some ⟨store, pair, .pending, true⟩) := by
  have size : ∀ key : ObjectKey, key.value.utf8ByteSize ≤ 64 := by
    intro key
    have valid := key.valid
    unfold hexToken at valid
    rw [Bool.and_eq_true, beq_iff_eq] at valid
    exact valid.1.le
  have state : String.utf8ByteSize "pending" ≤ 7 := by decide
  have numbers : ∀ number ∈ ["1", "0", "0", "0", "0", "0"], String.utf8ByteSize number ≤ 20 := by decide
  have bounded : ((pendingRow store pair).texts true).Bounded := ⟨size store, size pair.key, state, numbers⟩
  have serial : integer "1" = .ok ⟨1, by decide⟩ := by decide
  have zero : (⟨0, 0, 0, 0, 0⟩ : Counters).Valid := by decide
  have reads : Reads (pendingRow store pair) ⟨0, 0, 0, 0, 0⟩ := ⟨rfl, rfl, rfl, rfl, rfl⟩
  have counters := reads.counters zero true
  unfold pairRecord StoreRow.select
  show ((check "unexpected null" ((pendingRow store pair).texts true).Bounded >>= fun _ =>
    pure ((pendingRow store pair).texts true)) >>= _) = _
  rw [check, ensure_pos bounded, bind_ok]
  show (((pendingRow store pair).texts true).parse >>= _) = _
  unfold StoreTexts.parse
  rw [show ((pendingRow store pair).texts true).serial = "1" from rfl, serial, bind_ok, check,
    ensure_pos (show (0 : Int) < 1 from by decide), bind_ok, counters, bind_ok, check, ensure_pos zero, bind_ok]
  unfold StoreTexts.record PairId.parse
  rw [show ((pendingRow store pair).texts true).pairState = "pending" from rfl,
    show ((pendingRow store pair).texts true).identity = store.value from rfl,
    show ((pendingRow store pair).texts true).pairId = pair.key.value from rfl, key_parse, key_parse]
  rfl

/-- The acknowledgement of a pending pair. -/
theorem acknowledgePair_pending (store : ObjectKey) (pair : PairId) :
    acknowledgePair store pair (pendingTables store pair)
      = .ok { pendingTables store pair with store := some (pairedRow (pendingRow store pair)) } := by
  have matched : (pendingTables store pair).store.filter (completes store pair (pendingTables store pair))
      = some (pendingRow store pair) := by
    have chosen : completes store pair (pendingTables store pair) (pendingRow store pair) = true := by
      unfold completes
      rw [decide_eq_true_iff]
      exact ⟨rfl, rfl, rfl, (by decide : (1 : Int) < 9223372036854775807), rfl, rfl, rfl, rfl, rfl, rfl⟩
    exact Option.filter_eq_some_iff.mpr ⟨rfl, chosen⟩
  unfold acknowledgePair
  rw [matched]
  rfl

end Row

/-! ## Between the steps of its own database -/

section Phases

variable {uses : Nat → ObjectKey → Prop} {w w' : World} {a : Nat} {i : ObjectKey} {t : BlobTables} {d : Directory}

/-- The state of the root once a pair was acknowledged. -/
def Marks (disk : StoreDisk) : Prop :=
  (disk.folders .root).Always fun names => names pendingName = none ∧ ∃ file, names pairName = some file

/-- How far a database and its directory are, and where the process of the directory stands. -/
inductive Phase (t : BlobTables) (d : Directory) (process : Option Process) : Prop where
  | unpaired : t = ⟨none, [], [], []⟩ → Bare d.disk → Quiet d.partials → Quiet d.objects →
      (∀ p, process = some p → p.stage = .starting ∨ ∃ o, p.stage = .observed o ∧ o.store = d.identity) →
        Phase t d process
  | pending (pair : PairId) : t = pendingTables d.identity pair → Resumes d.disk pair → Quiet d.partials →
      Quiet d.objects → (∀ p, process = some p → p.stage = .starting ∨ (∃ o, p.stage = .observed o)
        ∨ p.stage = .prepared ⟨d.identity, pair, .pending, true⟩
        ∨ ∃ point, p.stage = .installing ⟨d.identity, pair, .pending, true⟩ point ∧ OnWay pair d.disk point) →
        Phase t d process
  | paired (pair : PairId) {row : StoreRow} : t.store = some row → row.identity = d.identity.value →
      row.pairId = pair.key.value → row.pairState = "paired" → Resumes d.disk pair → Marks d.disk →
        Known d.partials → Known d.objects →
          (∀ p, process = some p → p.stage = .starting ∨ (∃ o, p.stage = .observed o) ∨ p.stage = .ready) →
            Phase t d process

theorem Quiet.known {entries : List String} (quiet : Quiet entries) : Known entries :=
  fun name member => (quiet name member).imp id .inl

theorem Phase.idle {process : Option Process} (h : Phase t d process) : Phase t d none := by
  cases h with
  | unpaired tables bare partials objects _ =>
      exact .unpaired tables bare partials objects fun p absurd => by cases absurd
  | pending pair tables resumes partials objects _ =>
      exact .pending pair tables resumes partials objects fun p absurd => by cases absurd
  | paired pair stored identity pairId state resumes marks partials objects _ =>
      exact .paired pair stored identity pairId state resumes marks partials objects fun p absurd => by cases absurd

theorem Phase.starting {process : Option Process} (h : Phase t d process) (b : Nat) :
    Phase t d (some ⟨b, .starting⟩) := by
  cases h with
  | unpaired tables bare partials objects _ =>
      exact .unpaired tables bare partials objects fun p same => by cases same; exact .inl rfl
  | pending pair tables resumes partials objects _ =>
      exact .pending pair tables resumes partials objects fun p same => by cases same; exact .inl rfl
  | paired pair stored identity pairId state resumes marks partials objects _ =>
      exact .paired pair stored identity pairId state resumes marks partials objects
        fun p same => by cases same; exact .inl rfl

theorem Phase.observed {process : Option Process} {o : PairObservation} (h : Phase t d process)
    (store : o.store = d.identity) (b : Nat) : Phase t d (some ⟨b, .observed o⟩) := by
  cases h with
  | unpaired tables bare partials objects _ =>
      exact .unpaired tables bare partials objects fun p same => by cases same; exact .inr ⟨o, rfl, store⟩
  | pending pair tables resumes partials objects _ =>
      exact .pending pair tables resumes partials objects fun p same => by cases same; exact .inr (.inl ⟨o, rfl⟩)
  | paired pair stored identity pairId state resumes marks partials objects _ =>
      exact .paired pair stored identity pairId state resumes marks partials objects
        fun p same => by cases same; exact .inr (.inl ⟨o, rfl⟩)

/-- The first transaction of a start, by the database of the directory. -/
theorem Phase.prepared {o : PairObservation} {fresh : PairId} {prepared : PairPreparation} {t' : BlobTables} {b : Nat}
    (h : Phase t d (some ⟨b, .observed o⟩)) (prepares : Prepares o fresh t prepared t') :
    Phase t' d (some ⟨b, PairPreparation.stage prepared⟩) := by
  cases h with
  | unpaired tables bare partials objects stages =>
      cases prepares with
      | found read decided =>
          rw [tables] at read
          cases read
      | inserted none clean marker pending empty =>
          rcases stages _ rfl with absurd | ⟨o', same, store⟩
          · cases absurd
          · cases same
            rw [tables, store]
            refine .pending fresh rfl (bare.resumes fresh) partials objects fun p same => ?_
            cases same
            exact .inr (.inr (.inl rfl))
  | pending pair tables resumes partials objects _ =>
      cases prepares with
      | @found record step read decided =>
          rw [tables, pairRecord_pending] at read
          cases read
          refine .pending pair tables resumes partials objects fun p same => ?_
          cases same
          cases (decide_some decided).2 with
          | ready phase _ _ => cases phase
          | acknowledge _ _ _ _ => exact .inr (.inr (.inl rfl))
          | install _ _ _ _ => exact .inr (.inr (.inl rfl))
      | inserted none _ _ _ _ =>
          rw [tables] at none
          cases none
  | paired pair stored identity pairId state resumes marks partials objects _ =>
      cases prepares with
      | @found record step read decided =>
          rcases pairRecord_some read with ⟨row', stored', _, _, phase⟩
          rw [stored] at stored'
          cases stored'
          refine .paired pair stored identity pairId state resumes marks partials objects fun p same => ?_
          cases same
          cases (decide_some decided).2 with
          | ready _ _ _ => exact .inr (.inr rfl)
          | acknowledge other _ _ _ => exact absurd ((phase.mpr state).symm.trans other) (by decide)
          | install other _ _ _ => exact absurd ((phase.mpr state).symm.trans other) (by decide)
      | inserted none _ _ _ _ =>
          rw [stored] at none
          cases none

/-- The first point of an installation, by what was seen of the directory. -/
theorem onWay_first {o : PairObservation} {record : PairRecord} {step : PairStep} {point : Point} {pair : PairId}
    {disk : StoreDisk} (sees : Sees disk pair o) (decided : Decided o record step)
    (first : firstPoint o.pending step = some point) : OnWay pair disk point := by
  cases decided with
  | ready _ _ _ => cases first
  | acknowledge _ _ marker _ =>
      cases first
      cases sees with
      | unmarked none _ _ _ =>
          rw [marker] at none
          cases none
      | @marked file _ _ named free => exact ⟨free, file, named⟩
  | install _ _ marker _ =>
      cases sees with
      | marked some _ _ _ =>
          rw [marker] at some
          cases some
      | unmarked _ free shown _ =>
          cases first
          split
          · rename_i none
            exact ⟨free, shown.mp none⟩
          · exact free

theorem Phase.begins {record : PairRecord} {o : PairObservation} {step : PairStep} {point : Point} {b : Nat}
    (h : Phase t d (some ⟨b, .prepared record⟩)) (observed : observePair d = .ok o)
    (decided : o.decide (some record) = .ok step) (first : firstPoint o.pending step = some point) :
    Phase t d (some ⟨b, .installing record point⟩) := by
  cases h with
  | unpaired tables bare partials objects stages =>
      rcases stages _ rfl with absurd | ⟨_, absurd, _⟩
      · cases absurd
      · cases absurd
  | pending pair tables resumes partials objects stages =>
      have known : record = ⟨d.identity, pair, .pending, true⟩ := by
        rcases stages _ rfl with absurd | ⟨_, absurd⟩ | same | ⟨_, absurd, _⟩
        · cases absurd
        · cases absurd
        · cases same
          rfl
        · cases absurd
      rcases observePair_resumes resumes (observeEmpty_quiet partials objects) with ⟨o', observed', _, _, sees⟩
      rw [observed] at observed'
      cases observed'
      refine .pending pair tables resumes partials objects fun p same => ?_
      cases same
      rw [known]
      exact .inr (.inr (.inr ⟨point, rfl, onWay_first sees (decide_some decided).2 first⟩))
  | paired pair stored identity pairId state resumes marks partials objects stages =>
      rcases stages _ rfl with absurd | ⟨_, absurd⟩ | absurd
      · cases absurd
      · cases absurd
      · cases absurd

/-- What an installing process knows: its pair is pending, and where it is. -/
theorem Phase.installing {record : PairRecord} {point : Point} {b : Nat}
    (h : Phase t d (some ⟨b, .installing record point⟩)) : t = pendingTables d.identity record.pair
      ∧ record = ⟨d.identity, record.pair, .pending, true⟩ ∧ Resumes d.disk record.pair ∧ Quiet d.partials
      ∧ Quiet d.objects ∧ OnWay record.pair d.disk point := by
  cases h with
  | unpaired tables bare partials objects stages =>
      rcases stages _ rfl with absurd | ⟨_, absurd, _⟩
      · cases absurd
      · cases absurd
  | pending pair tables resumes partials objects stages =>
      rcases stages _ rfl with absurd | ⟨_, absurd⟩ | absurd | ⟨_, same, way⟩
      · cases absurd
      · cases absurd
      · cases absurd
      · cases same
        exact ⟨tables, rfl, resumes, partials, objects, way⟩
  | paired pair stored identity pairId state resumes marks partials objects stages =>
      rcases stages _ rfl with absurd | ⟨_, absurd⟩ | absurd
      · cases absurd
      · cases absurd
      · cases absurd

theorem Phase.installs {record : PairRecord} {point next : Point} {disk : StoreDisk} {b : Nat}
    (h : Phase t d (some ⟨b, .installing record point⟩)) (step : InstallStep record.pair point d.disk next disk) :
    Phase t { d with disk := disk } (some ⟨b, .installing record next⟩) := by
  rcases h.installing with ⟨tables, known, resumes, partials, objects, way⟩
  rcases installStep_resumes resumes way step with ⟨resumes', way'⟩
  refine .pending record.pair tables resumes' partials objects fun p same => ?_
  cases same
  exact .inr (.inr (.inr ⟨next, congrArg (Stage.installing · next) known, way'⟩))

theorem Phase.acknowledged {record : PairRecord} {t' : BlobTables} {b : Nat}
    (h : Phase t d (some ⟨b, .installing record .durable⟩))
    (acknowledged : acknowledgePair d.identity record.pair t = .ok t') : Phase t' d (some ⟨b, .ready⟩) := by
  rcases h.installing with ⟨tables, known, resumes, partials, objects, names, settled, pending, marker⟩
  rw [tables, acknowledgePair_pending] at acknowledged
  cases acknowledged
  have marks : Marks d.disk := by
    unfold Marks
    rw [settled, Cell.always_settled]
    exact ⟨pending, marker⟩
  refine .paired record.pair rfl rfl rfl rfl resumes marks partials.known objects.known fun p same => ?_
  cases same
  exact .inr (.inr rfl)

theorem Phase.served {t' : BlobTables} {partials objects : List String} {b : Nat}
    (h : Phase t d (some ⟨b, .ready⟩)) (kept : KeepsPair t t')
    (named : ∀ name ∈ partials, name ∈ d.partials ∨ hexToken name = true)
    (named' : ∀ name ∈ objects, name ∈ d.objects ∨ hexToken name = true) :
    Phase t' { d with partials := partials, objects := objects } (some ⟨b, .ready⟩) := by
  cases h with
  | unpaired tables bare partials objects stages =>
      rcases stages _ rfl with absurd | ⟨_, absurd, _⟩
      · cases absurd
      · cases absurd
  | pending pair tables resumes partials objects stages =>
      rcases stages _ rfl with absurd | ⟨_, absurd⟩ | absurd | ⟨_, absurd, _⟩
      · cases absurd
      · cases absurd
      · cases absurd
      · cases absurd
  | paired pair stored identity pairId state resumes marks before before' stages =>
      rcases kept.kept _ stored with ⟨row', stored', identity', pairId', state'⟩
      refine .paired pair stored' (identity'.trans identity) (pairId'.trans pairId) (state'.trans state) resumes marks
        (fun name member => (named name member).elim (before name) fun key => .inr (.inr key))
        (fun name member => (named' name member).elim (before' name) fun key => .inr (.inr key)) fun p same => ?_
      cases same
      exact .inr (.inr rfl)

theorem Bare.loss {disk found : StoreDisk} (h : Bare disk) (lost : OrderedLoss disk found) : Bare found := by
  rcases lost.folders .root with ⟨names, member, settled⟩
  refine ⟨lost.loss.allocated h.allocated, ?_⟩
  rw [settled, Cell.always_settled]
  exact h.names names member

theorem Phase.lost {process : Option Process} {found : StoreDisk} {partials objects : List String}
    (h : Phase t d process) (lost : OrderedLoss d.disk found) (kept : partials ⊆ d.partials)
    (kept' : objects ⊆ d.objects) :
    Phase t { d with disk := found, partials := partials, objects := objects } none := by
  cases h with
  | unpaired tables bare quiet quiet' _ =>
      exact .unpaired tables (bare.loss lost) (fun name member => quiet name (kept member))
        (fun name member => quiet' name (kept' member)) fun p absurd => by cases absurd
  | pending pair tables resumes quiet quiet' _ =>
      exact .pending pair tables (resumes.loss lost) (fun name member => quiet name (kept member))
        (fun name member => quiet' name (kept' member)) fun p absurd => by cases absurd
  | paired pair stored identity pairId state resumes marks known known' _ =>
      refine .paired pair stored identity pairId state (resumes.loss lost) ?_ (fun name member => known name
        (kept member))
        (fun name member => known' name (kept' member)) fun p absurd => by cases absurd
      rcases lost.folders .root with ⟨names, member, settled⟩
      unfold Marks
      simp only
      rw [settled, Cell.always_settled]
      exact marks names member

/-- Every process is one of a database that may use its directory. -/
def Owners (uses : Nat → ObjectKey → Prop) (w : World) : Prop :=
  ∀ j p, w.processes j = some p → uses p.database j

theorem owners_update {j : ObjectKey} {process : Option Process} (h : Owners uses w)
    (used : ∀ p, process = some p → uses p.database j) {k : ObjectKey} {p : Process}
    (running : Function.update w.processes j process k = some p) : uses p.database k := by
  by_cases same : k = j
  · subst same
    rw [Function.update_self] at running
    exact used p running
  · rw [Function.update_of_ne same] at running
    exact h k p running

theorem owners_kept {j : ObjectKey} {b : Nat} {stage stage' : Stage} (h : Owners uses w) (before : w.processes j
    = some ⟨b, stage⟩)
    {k : ObjectKey} {p : Process} (running : Function.update w.processes j (some ⟨b, stage'⟩) k = some p) :
    uses p.database k := by
  have used : uses b j := h j _ before
  exact owners_update h (fun p same => by cases same; exact used) running

theorem owners_step (h : Owners uses w) (step : Step uses OrderedLoss w w') : Owners uses w' := by
  intro k p running
  cases step with
  | start idle used => exact owners_update h (fun p same => by cases same; exact used) running
  | observe before _ => exact owners_kept h before running
  | prepare before _ _ => exact owners_kept h before running
  | begin before _ _ _ => exact owners_kept h before running
  | install before _ => exact owners_kept h before running
  | acknowledge before _ => exact owners_kept h before running
  | prepareUnknown _ _ _ => exact owners_update h (fun p absurd => by cases absurd) running
  | acknowledgeUnknown _ _ => exact owners_update h (fun p absurd => by cases absurd) running
  | stop => exact owners_update h (fun p absurd => by cases absurd) running
  | powerLoss _ _ _ => exact owners_update h (fun p absurd => by cases absurd) running
  | serve _ _ _ _ => exact h k p running

/-- A database and a directory that use each other only. -/
structure Own (uses : Nat → ObjectKey → Prop) (a : Nat) (i : ObjectKey) : Prop where
  used : uses a i
  only : ∀ b, uses b i → b = a
  own : ∀ j, uses a j → j = i

/-- Where the database and the directory stand in a world. -/
def World.PhaseOf (w : World) (a : Nat) (i : ObjectKey) : Prop := Phase (w.databases a) (w.directories i)
    (w.processes i)

/-- Every step leaves a database and its directory in a phase of their pairing. -/
theorem phase_step (own : Own uses a i) (owners : Owners uses w) (h : w.PhaseOf a i)
    (step : Step uses OrderedLoss w w') : w'.PhaseOf a i := by
  have here : ∀ {j : ObjectKey} {b : Nat} {stage : Stage}, w.processes j = some ⟨b, stage⟩ → (j = i ↔ b = a) := by
    intro j b stage running
    have used := owners j _ running
    constructor
    · rintro rfl
      exact own.only b used
    · rintro rfl
      exact own.own j used
  unfold World.PhaseOf at h ⊢
  cases step with
  | @start j b idle used =>
      simp only [World.setStage]
      by_cases same : j = i
      · subst same
        rw [Function.update_self]
        exact h.starting b
      · rw [Function.update_of_ne (Ne.symm same)]
        exact h
  | @observe j b o running observed =>
      simp only [World.setStage]
      by_cases same : j = i
      · subst same
        rw [Function.update_self]
        exact h.observed (observePair_store observed) b
      · rw [Function.update_of_ne (Ne.symm same)]
        exact h
  | @prepare j b o fresh prepared t running new ready =>
      simp only [World.setStage, World.setDatabase]
      by_cases same : j = i
      · have database := (here running).mp same
        subst same
        subst database
        rw [Function.update_self, Function.update_self]
        rw [running] at h
        exact h.prepared (preparePair_ok ready)
      · have database : a ≠ b := fun equal => same ((here running).mpr equal.symm)
        rw [Function.update_of_ne database, Function.update_of_ne (Ne.symm same)]
        exact h
  | @prepareUnknown j b o fresh prepared t running new ready =>
      simp only [World.stop, World.setDatabase]
      by_cases same : j = i
      · have database := (here running).mp same
        subst same
        subst database
        rw [Function.update_self, Function.update_self]
        rw [running] at h
        exact (h.prepared (preparePair_ok ready)).idle
      · have database : a ≠ b := fun equal => same ((here running).mpr equal.symm)
        rw [Function.update_of_ne database, Function.update_of_ne (Ne.symm same)]
        exact h
  | @begin j b record o step point running observed decided first =>
      simp only [World.setStage]
      by_cases same : j = i
      · subst same
        rw [Function.update_self]
        rw [running] at h
        exact h.begins observed decided first
      · rw [Function.update_of_ne (Ne.symm same)]
        exact h
  | @install j b record point next disk running called =>
      simp only [World.setStage, World.setDirectory]
      by_cases same : j = i
      · subst same
        rw [Function.update_self, Function.update_self]
        rw [running] at h
        exact h.installs called
      · rw [Function.update_of_ne (Ne.symm same), Function.update_of_ne (Ne.symm same)]
        exact h
  | @acknowledge j b record t running acknowledged =>
      simp only [World.setStage, World.setDatabase]
      by_cases same : j = i
      · have database := (here running).mp same
        subst same
        subst database
        rw [Function.update_self, Function.update_self]
        rw [running] at h
        exact h.acknowledged acknowledged
      · have database : a ≠ b := fun equal => same ((here running).mpr equal.symm)
        rw [Function.update_of_ne database, Function.update_of_ne (Ne.symm same)]
        exact h
  | @acknowledgeUnknown j b record t running acknowledged =>
      simp only [World.stop, World.setDatabase]
      by_cases same : j = i
      · have database := (here running).mp same
        subst same
        subst database
        rw [Function.update_self, Function.update_self]
        rw [running] at h
        exact (h.acknowledged acknowledged).idle
      · have database : a ≠ b := fun equal => same ((here running).mpr equal.symm)
        rw [Function.update_of_ne database, Function.update_of_ne (Ne.symm same)]
        exact h
  | @serve j b t partials objects running kept named named' =>
      simp only [World.setDatabase, World.setDirectory]
      by_cases same : j = i
      · have database := (here running).mp same
        subst same
        subst database
        rw [Function.update_self, Function.update_self]
        rw [running] at h ⊢
        exact h.served kept named named'
      · have database : a ≠ b := fun equal => same ((here running).mpr equal.symm)
        rw [Function.update_of_ne database, Function.update_of_ne (Ne.symm same)]
        exact h
  | @stop j =>
      simp only [World.stop]
      by_cases same : j = i
      · subst same
        rw [Function.update_self]
        exact h.idle
      · rw [Function.update_of_ne (Ne.symm same)]
        exact h
  | @powerLoss j found partials objects lost kept kept' =>
      simp only [World.stop, World.setDirectory]
      by_cases same : j = i
      · subst same
        rw [Function.update_self, Function.update_self]
        exact h.lost lost kept kept'
      · rw [Function.update_of_ne (Ne.symm same), Function.update_of_ne (Ne.symm same)]
        exact h

/-- A new database and a new directory. -/
structure World.Clean (w : World) (a : Nat) (i : ObjectKey) : Prop where
  tables : w.databases a = ⟨none, [], [], []⟩
  partials : Quiet (w.directories i).partials
  objects : Quiet (w.directories i).objects

theorem run_phase {start : World} (own : Own uses a i) (initial : start.Initial) (clean : start.Clean a i)
    (run : (pairSystem uses OrderedLoss).Run start w) : Owners uses w ∧ w.PhaseOf a i := by
  induction run with
  | refl =>
      refine ⟨?_, ?_⟩
      · intro j p running
        rw [initial.idle j] at running
        cases running
      · unfold World.PhaseOf
        rw [initial.idle i]
        exact .unpaired clean.tables (initial.bare i) clean.partials clean.objects fun p absurd => by cases absurd
  | tail _ step ih => exact ⟨owners_step ih.1 step, phase_step own ih.1 ih.2 step⟩

end Phases

/-! ## A start without a failure -/

section Starts

variable {uses : Nat → ObjectKey → Prop} {loss : StoreDisk → StoreDisk → Prop} {w : World} {a : Nat} {i : ObjectKey}
    {d : Directory}
  {pair fresh : PairId} {answers : List WriteAnswer}

/-- The record of a pending pair. -/
def pendingRecord (store : ObjectKey) (pair : PairId) : PairRecord := ⟨store, pair, .pending, true⟩

/-- The decision on what an installation of the same pair left. -/
theorem decide_sees {o : PairObservation} {disk : StoreDisk} (sees : Sees disk pair o) (empty : o.empty = true) :
    (o.decide (some (pendingRecord o.store pair)) = .ok (.installMarker pair) ∧ o.marker = none)
      ∨ o.decide (some (pendingRecord o.store pair)) = .ok (.acknowledge pair) := by
  unfold PairObservation.decide pendingRecord
  simp only
  rw [check, ensure_pos trivial, bind_ok]
  unfold decidePending
  rw [check, ensure_pos ⟨rfl, empty⟩, bind_ok]
  cases sees with
  | unmarked none _ _ part =>
      have part' : ∀ bytes ∈ o.pending, bytes <+: pair.key.value.toUTF8.toList := part
      rw [none]
      simp only
      rw [check, ensure_pos part', bind_ok]
      exact .inl ⟨rfl, trivial⟩
  | marked marker pending _ _ =>
      rw [marker]
      simp only
      rw [check, ensure_pos ⟨trivial, pending⟩, bind_ok]
      exact .inr rfl

/-- An installation on what one of the same pair left is done, as calls from its first point. -/
theorem installPair_installs (resumes : Resumes d.disk pair) (partials : Quiet d.partials) (objects : Quiet d.objects)
    (benign : Benign answers) : ∃ (o : PairObservation) (step : PairStep) (point : Point) (disk : StoreDisk),
      observePair d = .ok o ∧ o.decide (some (pendingRecord d.identity pair)) = .ok step
        ∧ firstPoint o.pending step = some point ∧ installPair (pendingRecord d.identity pair) answers d = .ok disk
        ∧ Installs pair (point, d.disk) (.durable, disk) := by
  rcases observePair_resumes resumes (observeEmpty_quiet partials objects) with ⟨o, observed, store, empty, sees⟩
  unfold installPair
  rw [observed, bind_ok]
  rcases decide_sees sees empty with ⟨decided, unmarked⟩ | decided
  · rw [store] at decided
    have shown : o.pending = none ↔ d.disk.lookup .root pendingName = none := by
      cases sees with
      | unmarked _ _ shown _ => exact shown
      | marked marker _ _ _ =>
          rw [unmarked] at marker
          cases marker
    have free : d.disk.lookup .root pairName = none := by
      cases sees with
      | unmarked _ free _ _ => exact free
      | marked marker _ _ _ =>
          rw [unmarked] at marker
          cases marker
    rcases removePending_installs resumes free shown with ⟨cleared, removed, first, resumes', way⟩
    rcases writeMarker_installs resumes' way benign with ⟨written, marked, second, resumes'', way'⟩
    rcases confirmMarker_installs resumes'' way' with ⟨disk, confirmed, third, _⟩
    refine ⟨o, _, _, disk, rfl, decided, rfl, ?_, (first.trans second).trans third⟩
    rw [decided, bind_ok]
    simp only
    rw [removed, bind_ok, show (pendingRecord d.identity pair).pair = pair from rfl, marked, bind_ok, confirmed]
  · rw [store] at decided
    have way : OnWay pair d.disk .named := by
      rcases decide_some decided with ⟨_, decision⟩
      exact onWay_first sees decision rfl
    rcases confirmMarker_installs resumes way with ⟨disk, confirmed, installs, _⟩
    refine ⟨o, _, _, disk, rfl, decided, rfl, ?_, installs⟩
    rw [decided, bind_ok]
    exact confirmed

/-- Where a run took the process of a directory. -/
structure Ends (w : World) (a : Nat) (i : ObjectKey) (stage : Stage) (disk : StoreDisk) (t : BlobTables)
    (later : World) : Prop where
  process : later.processes i = some ⟨a, stage⟩
  directory : later.directories i = { w.directories i with disk := disk }
  database : later.databases a = t

theorem installs_run (uses : Nat → ObjectKey → Prop) (loss : StoreDisk → StoreDisk → Prop) {record : PairRecord}
    {point : Point}
    (running : w.processes i = some ⟨a, .installing record point⟩)
    {after : Point × StoreDisk} (installs : Installs record.pair (point, (w.directories i).disk) after) :
    ∃ later, (pairSystem uses loss).Run w later
      ∧ Ends w a i (.installing record after.1) after.2 (w.databases a) later := by
  induction installs with
  | refl => exact ⟨w, System.Run.refl w, running, rfl, rfl⟩
  | @tail middle after _ step ih =>
      rcases ih with ⟨later, run, process, directory, database⟩
      have step' : InstallStep record.pair middle.1 (later.directories i).disk after.1 after.2 := by
        rw [directory]
        exact step
      refine ⟨_, run.tail (Step.install process step'), ?_, ?_, ?_⟩
      · exact Function.update_self _ _ _
      · exact (Function.update_self _ _ _).trans (by rw [directory])
      · exact database

/-- From the first transaction on. -/
theorem prepared_run (uses : Nat → ObjectKey → Prop) (loss : StoreDisk → StoreDisk → Prop)
    (running : w.processes i = some ⟨a, .prepared (pendingRecord (w.directories i).identity pair)⟩)
    (tables : w.databases a = pendingTables (w.directories i).identity pair)
    (resumes : Resumes (w.directories i).disk pair) (partials : Quiet (w.directories i).partials)
    (objects : Quiet (w.directories i).objects) (benign : Benign answers) :
    ∃ (disk : StoreDisk) (t : BlobTables) (later : World),
      installPair (pendingRecord (w.directories i).identity pair) answers (w.directories i) = .ok disk
        ∧ acknowledgePair (w.directories i).identity pair (w.databases a) = .ok t
        ∧ (pairSystem uses loss).Run w later ∧ Ends w a i .ready disk t later := by
  rcases installPair_installs resumes partials objects benign with
    ⟨o, step, point, disk, observed, decided, first, installed, installs⟩
  have completed : ∃ t, acknowledgePair (w.directories i).identity pair (w.databases a) = .ok t :=
    ⟨_, tables ▸ acknowledgePair_pending (w.directories i).identity pair⟩
  rcases completed with ⟨t, acknowledged⟩
  have begun : (pairSystem uses loss).step w _ := Step.begin running observed decided first
  have here : (w.setStage i a (.installing (pendingRecord (w.directories i).identity pair) point)).processes i
      = some ⟨a, .installing (pendingRecord (w.directories i).identity pair) point⟩ := Function.update_self _ _ _
  rcases installs_run uses loss here installs with ⟨middle, run, process, directory, database⟩
  have acknowledged' : acknowledgePair (middle.directories i).identity (pendingRecord
      (w.directories i).identity pair).pair
      (middle.databases a) = .ok t := by
    rw [directory, database]
    exact acknowledged
  have last : (pairSystem uses loss).step middle _ := Step.acknowledge process acknowledged'
  refine ⟨disk, t, _, installed, acknowledged,
    ((System.Run.refl w).tail begun).trans (run.tail last), ?_, directory, ?_⟩
  · exact Function.update_self _ _ _
  · exact Function.update_self _ _ _

theorem setStage_twice (w : World) (i : ObjectKey) (a : Nat) (first second : Stage) :
    (w.setStage i a first).setStage i a second = w.setStage i a second := by
  unfold World.setStage
  simp only [Function.update_idem]

/-- The calls of a start up to its first transaction. -/
theorem first_run (loss : StoreDisk → StoreDisk → Prop) {o : PairObservation} {prepared : PairPreparation}
    {t : BlobTables} (used : uses a i)
    (idle : w.processes i = none) (new : w.Fresh fresh) (observed : observePair (w.directories i) = .ok o)
    (ready : preparePair o fresh (w.databases a) = .ok (prepared, t)) :
    ∃ later, (pairSystem uses loss).Run w later
      ∧ Ends w a i (PairPreparation.stage prepared) (w.directories i).disk t later := by
  have begun : (pairSystem uses loss).step w _ := Step.start idle used
  have started : (w.setStage i a .starting).processes i = some ⟨a, .starting⟩ := Function.update_self _ _ _
  have seen : (pairSystem uses loss).step (w.setStage i a .starting) _ := Step.observe started observed
  rw [setStage_twice] at seen
  have watching : (w.setStage i a (.observed o)).processes i = some ⟨a, .observed o⟩ := Function.update_self _ _ _
  have made : (pairSystem uses loss).step (w.setStage i a (.observed o)) _ := Step.prepare watching new ready
  refine ⟨_, (((System.Run.refl w).tail begun).tail seen).tail made, ?_, rfl, ?_⟩
  · exact Function.update_self _ _ _
  · exact Function.update_self _ _ _

/-- A start whose pair is pending once the first transaction committed. -/
theorem pending_starts {o : PairObservation} {prepared : PairPreparation} (used : uses a i)
    (idle : w.processes i = none) (new : w.Fresh fresh) (resumes : Resumes (w.directories i).disk pair)
    (partials : Quiet (w.directories i).partials) (objects : Quiet (w.directories i).objects) (benign : Benign answers)
    (observed : observePair (w.directories i) = .ok o)
    (ready : preparePair o fresh (w.databases a) = .ok (prepared, pendingTables (w.directories i).identity pair))
    (record : prepared.record = pendingRecord (w.directories i).identity pair)
    (step : prepared.step = .installMarker pair ∨ prepared.pendingInserted = false ∧ prepared.step
      = .acknowledge pair) :
    ∃ (disk : StoreDisk) (t : BlobTables) (later : World),
      activate fresh answers (w.directories i) (w.databases a) = .ok (disk, t)
        ∧ (pairSystem uses loss).Run w later ∧ Ends w a i .ready disk t later := by
  rcases first_run loss used idle new observed ready with ⟨v, fronts, process, directory, database⟩
  have here : v.directories i = w.directories i := directory
  have stage : PairPreparation.stage prepared = .prepared (pendingRecord (w.directories i).identity pair) := by
    unfold PairPreparation.stage
    rcases step with marker | ⟨_, acknowledge⟩
    · rw [marker, record]
    · rw [acknowledge, record]
  have checked : prepared.pendingInserted = true → prepared.step = .installMarker prepared.record.pair := by
    rcases step with marker | ⟨found, _⟩
    · rw [record]
      exact fun _ => marker
    · rw [found]
      exact fun absurd => by cases absurd
  rw [stage] at process
  rw [← here] at process database partials objects resumes
  rcases prepared_run uses loss process database resumes partials objects benign with
    ⟨disk, t, later, installed, acknowledged, run, ends⟩
  rw [here] at installed acknowledged database
  rw [database] at acknowledged
  refine ⟨disk, t, later, ?_, fronts.trans run, ends.process, by rw [ends.directory, here], ends.database⟩
  have called : (do
      let disk ← installPair prepared.record answers (w.directories i)
      let t ← acknowledgePair (w.directories i).identity prepared.record.pair
        (pendingTables (w.directories i).identity pair)
      return (disk, t) : Result (StoreDisk × BlobTables)) = .ok (disk, t) := by
    rw [record, installed, bind_ok, show (pendingRecord (w.directories i).identity pair).pair = pair from rfl,
      acknowledged, bind_ok]
    rfl
  unfold activate
  rw [observed, bind_ok, ready, bind_ok]
  simp only
  rw [check, ensure_pos checked, bind_ok]
  rcases step with marker | ⟨_, acknowledge⟩
  · rw [marker]
    exact called
  · rw [acknowledge]
    exact called

/-- A start from every phase succeeds, and is a run of the system. -/
theorem starts_over (uses : Nat → ObjectKey → Prop) (loss : StoreDisk → StoreDisk → Prop) (used : uses a i)
    (idle : w.processes i = none) (phase : w.PhaseOf a i) (new : w.Fresh fresh)
    (benign : Benign answers) (readable : ∀ row, (w.databases a).store = some row → row.pairState = "paired" →
      ∃ record, pairRecord (w.databases a) = .ok (some record)) :
    ∃ (disk : StoreDisk) (t : BlobTables) (later : World),
      activate fresh answers (w.directories i) (w.databases a) = .ok (disk, t)
        ∧ (pairSystem uses loss).Run w later ∧ Ends w a i .ready disk t later := by
  unfold World.PhaseOf at phase
  rw [idle] at phase
  cases phase with
  | unpaired tables bare partials objects _ =>
      rcases observePair_resumes (bare.resumes fresh) (observeEmpty_quiet partials objects) with
        ⟨o, observed, store, empty, sees⟩
      have unmarked : o.marker = none ∧ o.pending = none := by
        cases sees with
        | unmarked none _ shown _ => exact ⟨none, shown.mpr bare.names.now.2⟩
        | marked _ _ named _ =>
            have free : (w.directories i).disk.lookup .root pairName = none := bare.names.now.1
            rw [named] at free
            cases free
      have inserted : preparePair o fresh (w.databases a)
          = .ok (⟨pendingRecord o.store fresh, .installMarker fresh, true⟩, pendingTables o.store fresh) := by
        have blank : pairRecord ⟨none, [], [], []⟩ = .ok none := rfl
        unfold preparePair
        rw [tables, blank, bind_ok]
        simp only [PairObservation.decide, insertPendingPair, check]
        rw [ensure_pos ⟨unmarked.1, unmarked.2, empty⟩, bind_ok]
        rfl
      rw [store] at inserted
      exact pending_starts used idle new (bare.resumes fresh) partials objects benign observed inserted rfl (.inl rfl)
  | pending pair tables resumes partials objects _ =>
      rcases observePair_resumes resumes (observeEmpty_quiet partials objects) with ⟨o, observed, store, empty, sees⟩
      have found : ∀ step, o.decide (some (pendingRecord o.store pair)) = .ok step →
          preparePair o fresh (w.databases a) = .ok (⟨pendingRecord (w.directories i).identity pair, step, false⟩,
            pendingTables (w.directories i).identity pair) := by
        intro step decided
        rw [store] at decided
        unfold preparePair
        rw [tables, pairRecord_pending, bind_ok]
        simp only
        rw [show (⟨(w.directories i).identity, pair, .pending, true⟩ : PairRecord)
          = pendingRecord (w.directories i).identity pair from rfl, decided, bind_ok]
        rfl
      rcases decide_sees sees empty with ⟨decided, _⟩ | decided
      · exact pending_starts used idle new resumes partials objects benign observed (found _ decided) rfl (.inl rfl)
      · exact pending_starts used idle new resumes partials objects benign observed (found _ decided) rfl
          (.inr ⟨rfl, rfl⟩)
  | paired pair stored identity pairId state resumes marks partials objects _ =>
      rcases observeEmpty_known partials objects with ⟨empty, scanned⟩
      rcases observePair_resumes resumes scanned with ⟨o, observed, store, _, sees⟩
      rcases readable _ stored state with ⟨record, read⟩
      rcases pairRecord_some read with ⟨row', stored', identity', pairId', phase⟩
      rw [stored] at stored'
      cases stored'
      have same : record.pair = pair := by
        have keys := Files.ObjectKey.value_injective (pairId'.symm.trans pairId)
        rcases record with ⟨_, ⟨key⟩, _, _⟩
        cases pair
        cases keys
        rfl
      have place : record.store = o.store :=
        (Files.ObjectKey.value_injective (identity'.symm.trans identity)).trans store.symm
      have marked : o.marker = some record.pair ∧ o.pending = none := by
        cases sees with
        | unmarked _ free _ _ =>
            rcases marks.now with ⟨_, file, named⟩
            have here : (w.directories i).disk.lookup .root pairName = some file := named
            rw [free] at here
            cases here
        | marked marker pending _ _ => exact ⟨same ▸ marker, pending⟩
      have decided : o.decide (some record) = .ok (.ready record.pair) := by
        unfold PairObservation.decide
        simp only
        rw [check, ensure_pos place, bind_ok, phase.mpr state]
        simp only
        unfold decidePaired
        rw [check, ensure_pos ⟨marked.2, marked.1⟩, bind_ok]
        rfl
      have ready : preparePair o fresh (w.databases a) = .ok (⟨record, .ready record.pair, false⟩, w.databases a) := by
        unfold preparePair
        rw [read, bind_ok]
        simp only
        rw [decided, bind_ok]
        rfl
      rcases first_run loss used idle new observed ready with ⟨later, run, ends⟩
      refine ⟨(w.directories i).disk, w.databases a, later, ?_, run, ends⟩
      unfold activate
      rw [observed, bind_ok, ready, bind_ok]
      simp only
      rw [check, ensure_pos (fun absurd => by cases absurd), bind_ok]
      rfl

end Starts

/-! ## Safety and progress -/

section Results

variable {w : World} {a : Nat} {i : ObjectKey}

/-- New databases and new directories. -/
def sampleWorld : World where
  databases := fun _ => ⟨none, [], [], []⟩
  directories := fun key => ⟨key, ⟨fun _ => none, 0, fun _ => .settled fun _ => none⟩, [".", ".."], [".", ".."]⟩
  processes := fun _ => none
  served := []

theorem sampleWorld_initial : sampleWorld.Initial where
  identity _ := rfl
  bare _ := ⟨fun _ _ => rfl, Cell.always_settled.mpr ⟨rfl, rfl⟩⟩
  unpaired _ := rfl
  idle _ := rfl
  served := rfl

theorem sampleWorld_clean : sampleWorld.Clean a i where
  tables := rfl
  partials name member := by
    rcases List.mem_cons.mp member with dot | dots
    · exact .inl dot
    · exact .inr (List.mem_singleton.mp dots)
  objects name member := by
    rcases List.mem_cons.mp member with dot | dots
    · exact .inl dot
    · exact .inr (List.mem_singleton.mp dots)

/-- In whatever order the starts of any databases at any directories come, wherever processes stop,
power fails and commits go unseen: a directory serves one database only, a database is served from
one directory only, and both remain paired, with the marker durable, for good. -/
theorem pairing_exclusive (uses : Nat → ObjectKey → Prop) {w : World} (reachable :
    (pairSystem uses PowerLoss).Reachable w) :
    (∀ a b i, (a, i) ∈ w.served → (b, i) ∈ w.served → a = b)
      ∧ (∀ a i j, (a, i) ∈ w.served → (a, j) ∈ w.served → i = j)
      ∧ ∀ a i, (a, i) ∈ w.served → ∀ later, (pairSystem uses PowerLoss).Run w later →
        ∃ row, (later.databases a).store = some row ∧ row.identity = (later.directories i).identity.value
          ∧ row.pairState = "paired" ∧ Durable (later.directories i).disk row.pairId := by
  have sound : (pairSystem uses PowerLoss).Invariant Sound := sound_invariant fun _ _ lost => lost
  have here := sound.holds reachable
  refine ⟨?_, ?_, ?_⟩
  · intro a b i one other
    exact here.exclusive (here.served _ one) (here.served _ other)
  · intro a i j one other
    exact here.located (here.served _ one) (here.served _ other)
  · intro a i member later run
    have kept : (pairSystem uses PowerLoss).Stable fun w => (a, i) ∈ w.served :=
      fun _ _ _ member step => step_served step member
    have there := sound.holds (reachable.run run)
    rcases there.served _ (kept.along reachable member run) with ⟨row, stored, identity, state⟩
    exact ⟨row, stored, identity, state, there.durable a i row stored identity state⟩

/-- A first database of two is paired with a directory and serves a request. -/
theorem pairing_exclusive_sample : ∃ (w : World) (row : StoreRow), (0, Files.sampleKey) ∈ w.served
    ∧ (w.databases 0).store = some row ∧ Durable (w.directories Files.sampleKey).disk row.pairId := by
  let uses : Nat → ObjectKey → Prop := fun _ _ => True
  have clean : sampleWorld.Clean 0 Files.sampleKey := sampleWorld_clean
  have phase : sampleWorld.PhaseOf 0 Files.sampleKey :=
    .unpaired rfl (sampleWorld_initial.bare _) clean.partials clean.objects fun p absurd => by cases absurd
  have new : sampleWorld.Fresh ⟨Files.sampleKey⟩ := fun _ _ absurd => by cases absurd
  have benign : Benign [] := fun answer absurd => (List.not_mem_nil absurd).elim
  rcases starts_over uses PowerLoss trivial rfl phase new benign
    (fun row absurd => by cases absurd) with ⟨disk, t, later, _, run, ends⟩
  have kept : KeepsPair (later.databases 0) (later.databases 0) := ⟨fun row stored => ⟨row, stored, rfl, rfl, rfl⟩⟩
  have served : (pairSystem uses PowerLoss).step later _ :=
    Step.serve ends.process kept (fun name member => .inl member) (fun name member => .inl member)
  have reachable := ((System.Reachable.start sampleWorld_initial).run run).next served
  rcases (pairing_exclusive uses reachable).2.2 0 Files.sampleKey List.mem_cons_self _ (System.Run.refl _)
    with ⟨row, stored, _, _, durable⟩
  exact ⟨_, row, List.mem_cons_self, stored, durable⟩

/-- After any number of starts of a database at its own directory, each cut short by the end of its
process, an unseen commit or a loss of power that keeps the order of what was written, a start without
a failure succeeds: the pair is acknowledged and its marker durable. -/
theorem pairing_resumes {uses : Nat → ObjectKey → Prop} {start w : World} (own : Own uses a i) (initial : start.Initial)
    (clean : start.Clean a i) (run : (pairSystem uses OrderedLoss).Run start w) (idle : w.processes i = none)
    {fresh : PairId} (new : w.Fresh fresh) {answers : List WriteAnswer} (benign : Benign answers)
    (readable : ∀ row, (w.databases a).store = some row → row.pairState = "paired" →
      ∃ record, pairRecord (w.databases a) = .ok (some record)) :
    ∃ (disk : StoreDisk) (t : BlobTables) (row : StoreRow) (later : World),
      activate fresh answers (w.directories i) (w.databases a) = .ok (disk, t)
        ∧ t.store = some row ∧ row.identity = i.value ∧ row.pairState = "paired" ∧ Durable disk row.pairId
        ∧ (pairSystem uses OrderedLoss).Run w later ∧ later.processes i = some ⟨a, .ready⟩
        ∧ later.databases a = t ∧ (later.directories i).disk = disk := by
  rcases run_phase own initial clean run with ⟨_, phase⟩
  rcases starts_over uses OrderedLoss own.used idle phase new benign readable with
    ⟨disk, t, later, activated, further, process, directory, database⟩
  have reachable : (pairSystem uses OrderedLoss).Reachable later := ⟨start, initial, run.trans further⟩
  have invariant : (pairSystem uses OrderedLoss).Invariant Sound := sound_invariant fun _ _ lost => lost.loss
  have sound := invariant.holds reachable
  rcases sound.processes i _ process with ⟨row, stored, identity, state⟩
  have durable := sound.durable a i row stored identity state
  rw [sound.identity] at identity
  rw [database] at stored
  rw [directory] at durable
  exact ⟨disk, t, row, later, activated, stored, identity, state, durable, further, process, database, by rw [directory]⟩

def samplePair : PairId := ⟨Files.sampleKey⟩

/-- The identity that a second start would give a new pair. -/
def sampleOther : PairId := ⟨String.ofList (List.replicate 64 'b'), by decide⟩

/-- A start whose first commit went unseen, and the next one. -/
theorem pairing_resumes_sample : ∃ (w : World) (disk : StoreDisk) (t : BlobTables) (row : StoreRow),
    w.databases 0 = pendingTables Files.sampleKey samplePair
      ∧ activate sampleOther [.interrupted, .wrote 17] (w.directories Files.sampleKey) (w.databases 0) = .ok (disk, t)
      ∧ t.store = some row ∧ row.pairState = "paired" ∧ Durable disk row.pairId := by
  let uses : Nat → ObjectKey → Prop := fun b j => b = 0 ∧ j = Files.sampleKey
  have own : Own uses 0 Files.sampleKey := ⟨⟨rfl, rfl⟩, fun _ used => used.1, fun _ used => used.2⟩
  have begun : (pairSystem uses OrderedLoss).step sampleWorld _ := Step.start rfl own.used
  have observed : observePair ((sampleWorld.setStage Files.sampleKey 0 .starting).directories Files.sampleKey)
      = .ok ⟨Files.sampleKey, none, none, true⟩ := rfl
  have seen : (pairSystem uses OrderedLoss).step (sampleWorld.setStage Files.sampleKey 0 .starting) _ :=
    Step.observe (World.setStage_processes _ _ _ _) observed
  rw [setStage_twice] at seen
  let watching := sampleWorld.setStage Files.sampleKey 0 (.observed ⟨Files.sampleKey, none, none, true⟩)
  have new : watching.Fresh samplePair := fun _ _ absurd => by cases absurd
  have inserted : preparePair ⟨Files.sampleKey, none, none, true⟩ samplePair (watching.databases 0)
      = .ok (⟨pendingRecord Files.sampleKey samplePair, .installMarker samplePair, true⟩,
        pendingTables Files.sampleKey samplePair) := rfl
  have unseen : (pairSystem uses OrderedLoss).step watching _ :=
    Step.prepareUnknown (World.setStage_processes _ _ _ _) new inserted
  have run := (((System.Run.refl sampleWorld).tail begun).tail seen).tail unseen
  have database : ((watching.setDatabase 0 (pendingTables Files.sampleKey samplePair)).stop Files.sampleKey).databases 0
      = pendingTables Files.sampleKey samplePair :=
    World.setDatabase_databases watching 0 (pendingTables Files.sampleKey samplePair)
  have new' : ((watching.setDatabase 0 (pendingTables Files.sampleKey samplePair)).stop Files.sampleKey).Fresh
      sampleOther := by
    intro b row stored
    by_cases same : b = 0
    · subst same
      rw [database] at stored
      cases stored
      decide
    · have blank : ((watching.setDatabase 0
      (pendingTables Files.sampleKey samplePair)).stop Files.sampleKey).databases b
          = ⟨none, [], [], []⟩ := Function.update_of_ne same _ _
      rw [blank] at stored
      cases stored
  have benign : Benign [.interrupted, .wrote 17] := by
    unfold Benign
    decide
  have readable : ∀ row, (((watching.setDatabase 0 (pendingTables Files.sampleKey samplePair)).stop
      Files.sampleKey).databases 0).store = some row → row.pairState = "paired" → ∃ record, pairRecord
        (((watching.setDatabase 0 (pendingTables Files.sampleKey samplePair)).stop Files.sampleKey).databases 0)
          = .ok (some record) := by
    intro row _ _
    rw [database]
    exact ⟨_, pairRecord_pending _ _⟩
  rcases pairing_resumes own sampleWorld_initial sampleWorld_clean run (World.stop_processes _ _) new' benign readable
    with ⟨disk, t, row, _, activated, stored, _, state, durable, _⟩
  exact ⟨_, disk, t, row, database, activated, stored, state, durable⟩

end Results

end Pairs
end Blobs
end Noxide
