import Mathlib.Logic.Function.Basic

/-!
# Files and folders under a loss of power

A disk of append-only files and of folders that name them.  What was written and not synced may be
lost: a folder falls back, name by name, to any of its states since the last sync, and a file that
was not synced holds anything.  An ordered loss is milder: a folder falls back to one of its states
as a whole, and a file keeps a first part of what was written.

Main results:

- Theorem {lit}`Named.loss`, {lit}`Stored.loss`: what was synced is found after every loss.
- Theorem {lit}`named_write`, {lit}`Named.rename`: what keeps a name in every state of its folder.
-/

namespace Noxide
namespace Disks

/-! ## Cells -/

/-- A value, and the values that a loss of power may bring back in its place. -/
structure Cell (α : Type) where
  now : α
  earlier : List α
  deriving DecidableEq

namespace Cell

variable {α : Type} {cell : Cell α} {value : α} {p : α → Prop}

def settled (value : α) : Cell α := ⟨value, []⟩

def write (cell : Cell α) (value : α) : Cell α := ⟨value, cell.now :: cell.earlier⟩

def sync (cell : Cell α) : Cell α := settled cell.now

/-- The values that may be found. -/
def values (cell : Cell α) : List α := cell.now :: cell.earlier

/-- Whatever is found has this property. -/
def Always (cell : Cell α) (p : α → Prop) : Prop := ∀ value ∈ cell.values, p value

theorem Always.now (h : cell.Always p) : p cell.now := h _ List.mem_cons_self

theorem always_settled : (settled value).Always p ↔ p value := List.forall_mem_singleton

theorem always_write : (cell.write value).Always p ↔ p value ∧ cell.Always p := List.forall_mem_cons

theorem Always.sync (h : cell.Always p) : cell.sync.Always p := always_settled.mpr h.now

end Cell

/-! ## Disks -/

/-- A file that only grows. -/
structure File where
  data : List UInt8
  synced : Bool
  mode : Cell Nat
  deriving DecidableEq

/-- The names of a folder. -/
abbrev Names (ν : Type) := ν → Option Nat

/-- Files by number, and folders by name. -/
structure Disk (δ ν : Type) where
  files : Nat → Option File
  next : Nat
  folders : δ → Cell (Names ν)

namespace Disk

section Files

variable {δ ν : Type}

def lookup (disk : Disk δ ν) (folder : δ) (name : ν) : Option Nat := (disk.folders folder).now name

def setFile (disk : Disk δ ν) (inode : Nat) (file : File) : Disk δ ν :=
  { disk with files := Function.update disk.files inode (some file) }

/-- Change a file, if there is one. -/
def modify (disk : Disk δ ν) (inode : Nat) (change : File → File) : Disk δ ν :=
  match disk.files inode with
  | none => disk
  | some file => disk.setFile inode (change file)

def append (disk : Disk δ ν) (inode : Nat) (bytes : List UInt8) : Disk δ ν :=
  disk.modify inode fun file => { file with data := file.data ++ bytes, synced := false }

def chmod (disk : Disk δ ν) (inode mode : Nat) : Disk δ ν :=
  disk.modify inode fun file => { file with mode := file.mode.write mode, synced := false }

def syncFile (disk : Disk δ ν) (inode : Nat) : Disk δ ν :=
  disk.modify inode fun file => { file with mode := file.mode.sync, synced := true }

end Files

variable {δ ν : Type} [DecidableEq δ]

def write (disk : Disk δ ν) (folder : δ) (names : Names ν) : Disk δ ν :=
  { disk with folders := Function.update disk.folders folder ((disk.folders folder).write names) }

def syncFolder (disk : Disk δ ν) (folder : δ) : Disk δ ν :=
  { disk with folders := Function.update disk.folders folder (disk.folders folder).sync }

variable [DecidableEq ν]

def setName (disk : Disk δ ν) (folder : δ) (name : ν) (inode : Option Nat) : Disk δ ν :=
  disk.write folder (Function.update (disk.folders folder).now name inode)

/-- A new empty file under a name that is not taken. -/
def create (disk : Disk δ ν) (folder : δ) (name : ν) (mode : Nat) : Option (Nat × Disk δ ν) :=
  match disk.lookup folder name with
  | some _ => none
  | none => some (disk.next,
      { (disk.setName folder name (some disk.next)).setFile disk.next ⟨[], false, .settled mode⟩ with
        next := disk.next + 1 })

/-- Move a name to one that is not taken; inside a folder that is one write. -/
def rename (disk : Disk δ ν) (source target : δ × ν) : Option (Disk δ ν) :=
  match disk.lookup source.1 source.2, disk.lookup target.1 target.2 with
  | some inode, none =>
      if source.1 = target.1 then
        some (disk.write source.1 (Function.update (Function.update (disk.folders source.1).now source.2 none)
          target.2 (some inode)))
      else some ((disk.setName source.1 source.2 none).setName target.1 target.2 (some inode))
  | _, _ => none

def unlink (disk : Disk δ ν) (folder : δ) (name : ν) : Option (Disk δ ν) :=
  match disk.lookup folder name with
  | none => none
  | some _ => some (disk.setName folder name none)

end Disk

/-! ## What an operation changes -/

section Files

variable {δ ν : Type} {disk : Disk δ ν} {folder : δ} {name : ν} {inode : Nat}

@[simp]
theorem Disk.modify_folders (change : File → File) : (disk.modify inode change).folders = disk.folders := by
  unfold Disk.modify
  split <;> rfl

@[simp]
theorem Disk.modify_next (change : File → File) : (disk.modify inode change).next = disk.next := by
  unfold Disk.modify
  split <;> rfl

theorem Disk.modify_files (change : File → File) (index : Nat) : (disk.modify inode change).files index
    = if index = inode then (disk.files inode).map change else disk.files index := by
  unfold Disk.modify
  split
  · rename_i missing
    by_cases same : index = inode
    · rw [if_pos same, same, missing, Option.map_none]
    · rw [if_neg same]
  · rename_i file found
    rw [found, Option.map_some]
    exact Function.update_apply _ _ _ _

theorem Disk.modify_found {file : File} (change : File → File) (here : disk.files inode = some file) :
    (disk.modify inode change).files inode = some (change file) := by
  rw [Disk.modify_files, if_pos rfl, here, Option.map_some]

@[simp]
theorem Disk.lookup_modify (change : File → File) :
    (disk.modify inode change).lookup folder name = disk.lookup folder name := by
  rw [Disk.lookup, Disk.modify_folders, Disk.lookup]

/-- A file is numbered below the next one, where none is beyond it. -/
theorem Disk.below {file : File} (allocated : ∀ other, disk.next ≤ other → disk.files other = none)
    (here : disk.files inode = some file) : inode < disk.next := by
  by_contra later
  rw [allocated inode (Nat.le_of_not_lt later)] at here
  cases here

theorem Disk.modify_allocated (change : File → File)
    (allocated : ∀ other, disk.next ≤ other → disk.files other = none) (other : Nat)
    (later : (disk.modify inode change).next ≤ other) : (disk.modify inode change).files other = none := by
  rw [Disk.modify_next] at later
  rw [Disk.modify_files]
  split
  · rename_i same
    rw [← same, allocated other later]
    rfl
  · exact allocated other later

end Files

section Names

variable {δ ν : Type} [DecidableEq δ] {disk after : Disk δ ν} {folder other : δ} {name otherName : ν} {inode mode : Nat}

theorem Disk.write_folders (names : Names ν) : (disk.write folder names).folders other
    = if other = folder then (disk.folders folder).write names else disk.folders other :=
  Function.update_apply _ _ _ _

theorem Disk.syncFolder_folders : (disk.syncFolder folder).folders other
    = if other = folder then (disk.folders folder).sync else disk.folders other :=
  Function.update_apply _ _ _ _

@[simp]
theorem Disk.lookup_syncFolder : (disk.syncFolder other).lookup folder name = disk.lookup folder name := by
  rw [Disk.lookup, Disk.syncFolder_folders, Disk.lookup]
  by_cases same : folder = other
  · rw [if_pos same, same]
    rfl
  · rw [if_neg same]

variable [DecidableEq ν]

@[simp]
theorem Disk.lookup_setName (value : Option Nat) : (disk.setName folder name value).lookup other otherName
    = if other = folder ∧ otherName = name then value else disk.lookup other otherName := by
  rw [Disk.lookup, Disk.setName, Disk.write_folders]
  by_cases same : other = folder
  · subst same
    simp only [if_true, Cell.write, Function.update_apply, true_and, Disk.lookup]
  · simp only [same, false_and, if_false, Disk.lookup]

/-- A new file is numbered apart from every other. -/
theorem Disk.create_eq_some : disk.create folder name mode = some (inode, after)
    ↔ disk.lookup folder name = none ∧ inode = disk.next ∧ after
      = { (disk.setName folder name (some disk.next)).setFile disk.next ⟨[], false, .settled mode⟩ with
          next := disk.next + 1 } := by
  unfold Disk.create
  cases disk.lookup folder name with
  | some _ => simp
  | none =>
      simp only [Option.some.injEq, Prod.mk.injEq, true_and]
      constructor
      · rintro ⟨rfl, rfl⟩
        exact ⟨rfl, rfl⟩
      · rintro ⟨rfl, rfl⟩
        exact ⟨rfl, rfl⟩

theorem Disk.create_allocated (created : disk.create folder name mode = some (inode, after))
    (allocated : ∀ number, disk.next ≤ number → disk.files number = none) (number : Nat)
    (later : after.next ≤ number) : after.files number = none := by
  rcases Disk.create_eq_some.mp created with ⟨_, _, rfl⟩
  have older : disk.next ≤ number := Nat.le_of_succ_le later
  exact (Function.update_of_ne (Nat.ne_of_gt later) _ _).trans (allocated number older)

/-- What a rename did. -/
structure Disk.Renamed (disk : Disk δ ν) (source target : δ × ν) (inode : Nat) (after : Disk δ ν) : Prop where
  found : disk.lookup source.1 source.2 = some inode
  free : disk.lookup target.1 target.2 = none
  files : after.files = disk.files
  next : after.next = disk.next
  folders : after = if source.1 = target.1 then
      disk.write source.1 (Function.update (Function.update (disk.folders source.1).now source.2 none)
        target.2 (some inode))
    else (disk.setName source.1 source.2 none).setName target.1 target.2 (some inode)

theorem Disk.rename_eq_some {source target : δ × ν} (h : disk.rename source target = some after) :
    ∃ inode, disk.Renamed source target inode after := by
  unfold Disk.rename at h
  split at h
  · rename_i inode found free
    split at h
    · rename_i same
      cases h
      exact ⟨inode, found, free, rfl, rfl, (if_pos same).symm⟩
    · rename_i distinct
      cases h
      exact ⟨inode, found, free, rfl, rfl, (if_neg distinct).symm⟩
  · cases h

theorem Disk.Renamed.lookup {source target : δ × ν} (h : disk.Renamed source target inode after) (folder : δ)
    (name : ν) : after.lookup folder name = if (folder, name) = target then some inode
      else if (folder, name) = source then none else disk.lookup folder name := by
  rcases source with ⟨sourceFolder, sourceName⟩
  rcases target with ⟨targetFolder, targetName⟩
  rw [h.folders]
  simp only [Prod.mk.injEq]
  by_cases same : sourceFolder = targetFolder
  · subst same
    rw [if_pos rfl, Disk.lookup, Disk.write_folders]
    by_cases here : folder = sourceFolder
    · subst here
      simp only [if_true, Cell.write, Function.update_apply, true_and, Disk.lookup]
    · simp only [here, false_and, if_false, Disk.lookup]
  · rw [if_neg same, Disk.lookup_setName, Disk.lookup_setName]

theorem Disk.unlink_eq_some (h : disk.unlink folder name = some after) :
    after = disk.setName folder name none := by
  unfold Disk.unlink at h
  split at h
  · cases h
  · exact (Option.some.inj h).symm

end Names

/-! ## Loss of power -/

/-- What may be found of a file: its data where they were synced, and one of its modes. -/
structure File.Survives (file found : File) : Prop where
  data : file.synced = true → found.data = file.data
  synced : found.synced = true
  mode : ∃ mode ∈ file.mode.values, found.mode = .settled mode

/-- A loss of power. -/
structure PowerLoss {δ ν : Type} (disk found : Disk δ ν) : Prop where
  files : ∀ inode, Option.Rel File.Survives (disk.files inode) (found.files inode)
  next : found.next = disk.next
  folders : ∀ folder, ∃ names, found.folders folder = .settled names
    ∧ ∀ name, ∃ earlier ∈ (disk.folders folder).values, names name = earlier name

/-- A loss that keeps the order of what was written. -/
structure OrderedLoss {δ ν : Type} (disk found : Disk δ ν) : Prop where
  loss : PowerLoss disk found
  files : ∀ inode file, found.files inode = some file →
    ∃ before, disk.files inode = some before ∧ file.data <+: before.data
  folders : ∀ folder, ∃ names ∈ (disk.folders folder).values, found.folders folder = .settled names

/-- Every state of the folder has this name. -/
def Named {δ ν : Type} (disk : Disk δ ν) (folder : δ) (name : ν) (inode : Nat) : Prop :=
  (disk.folders folder).Always fun names => names name = some inode

/-- A file whose data and mode are synced. -/
def Stored {δ ν : Type} (disk : Disk δ ν) (inode : Nat) (data : List UInt8) (mode : Nat) : Prop :=
  disk.files inode = some ⟨data, true, .settled mode⟩

section Losses

variable {δ ν : Type} {disk found : Disk δ ν} {folder : δ} {name : ν} {inode mode : Nat} {data : List UInt8}

theorem Named.lookup (h : Named disk folder name inode) : disk.lookup folder name = some inode := h.now

theorem Named.loss (h : Named disk folder name inode) (loss : PowerLoss disk found) :
    Named found folder name inode := by
  rcases loss.folders folder with ⟨names, settled, origin⟩
  rcases origin name with ⟨earlier, member, same⟩
  unfold Named
  rw [settled, Cell.always_settled, same]
  exact h earlier member

theorem Stored.loss (h : Stored disk inode data mode) (loss : PowerLoss disk found) :
    Stored found inode data mode := by
  have survived := loss.files inode
  rw [h] at survived
  generalize here : found.files inode = file at survived
  cases survived with
  | @some _ file survives =>
      rcases survives.mode with ⟨other, member, modes⟩
      have same : other = mode := List.mem_singleton.mp member
      unfold Stored
      rw [here]
      rcases file with ⟨content, synced, cell⟩
      have contents : content = data := survives.data rfl
      have flag : synced = true := survives.synced
      have cells : cell = .settled other := modes
      rw [contents, flag, cells, same]

theorem Stored.kept {after : Disk δ ν} (h : Stored disk inode data mode)
    (same : after.files inode = disk.files inode) : Stored after inode data mode := same.trans h

theorem Stored.modify_of_ne {other : Nat} (h : Stored disk inode data mode) (change : File → File)
    (distinct : inode ≠ other) : Stored (disk.modify other change) inode data mode :=
  h.kept (by rw [Disk.modify_files, if_neg distinct])

theorem Stored.syncFile (h : Stored disk inode data mode) (other : Nat) :
    Stored (disk.syncFile other) inode data mode := by
  unfold Stored Disk.syncFile
  rw [Disk.modify_files]
  by_cases same : inode = other
  · subst same
    rw [if_pos rfl, h]
    rfl
  · rw [if_neg same]
    exact h

/-- Files are not lost, and none appears. -/
theorem PowerLoss.allocated (loss : PowerLoss disk found) (h : ∀ inode, disk.next ≤ inode → disk.files inode = none) :
    ∀ inode, found.next ≤ inode → found.files inode = none := by
  intro inode later
  rw [loss.next] at later
  have survived := loss.files inode
  rw [h inode later] at survived
  generalize found.files inode = file at survived
  cases survived
  rfl

end Losses

section Frames

variable {δ ν : Type} [DecidableEq δ] {disk after : Disk δ ν} {folder other : δ} {name otherName : ν} {inode : Nat}

theorem named_write (names : Names ν) (h : Named disk folder name inode)
    (kept : other = folder → names name = some inode) : Named (disk.write other names) folder name inode := by
  unfold Named
  rw [Disk.write_folders]
  by_cases same : folder = other
  · subst same
    rw [if_pos rfl, Cell.always_write]
    exact ⟨kept rfl, h⟩
  · rw [if_neg same]
    exact h

theorem Named.syncFolder (h : Named disk folder name inode) (other : δ) :
    Named (disk.syncFolder other) folder name inode := by
  unfold Named
  rw [Disk.syncFolder_folders]
  by_cases same : folder = other
  · subst same
    rw [if_pos rfl]
    exact Cell.Always.sync h
  · rw [if_neg same]
    exact h

/-- A synced folder names what it names. -/
theorem named_syncFolder (h : disk.lookup folder name = some inode) :
    Named (disk.syncFolder folder) folder name inode := by
  unfold Named
  rw [Disk.syncFolder_folders, if_pos rfl]
  exact Cell.always_settled.mpr h

variable [DecidableEq ν]

theorem Named.setName (h : Named disk folder name inode) (value : Option Nat)
    (kept : (other, otherName) ≠ (folder, name)) :
    Named (disk.setName other otherName value) folder name inode := by
  refine named_write _ h fun same => ?_
  subst same
  rw [Function.update_of_ne (fun equal => kept (by rw [equal]))]
  exact h.now

/-- A rename takes no name but its own. -/
theorem Named.rename {source target : δ × ν} {moved : Nat} (h : Named disk folder name inode)
    (renamed : disk.Renamed source target moved after) (kept : source ≠ (folder, name)) :
    Named after folder name inode := by
  have free : target ≠ (folder, name) := by
    rintro rfl
    exact absurd (h.lookup.symm.trans renamed.free) (Option.some_ne_none _)
  rw [renamed.folders]
  split
  · rename_i same
    refine named_write _ h fun here => ?_
    have sourceName : name ≠ source.2 := fun equal => kept (Prod.ext here equal.symm)
    have targetName : name ≠ target.2 := fun equal => free (Prod.ext (same.symm.trans here) equal.symm)
    rw [Function.update_of_ne targetName, Function.update_of_ne sourceName, here]
    exact h.now
  · exact (h.setName none kept).setName (some moved) free

end Frames

end Disks
end Noxide
