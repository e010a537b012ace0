import Noxide.Library.Table
import Noxide.Store.Records

/-!
# Record statements

The statements that write {lit}`nx_records`: those of mutations and migrations, and the one that
advances a capability version.

Main results:

- Theorem {lit}`edit_origin`: after any statements but the last, a row has the version of an old
  row under its key, or its key was inserted.
- Theorem {lit}`advance_one`: an advance that counts one row moves that row's version on.
-/

namespace Noxide

/-- The primary key of a record. -/
def StoredRow.key (row : StoredRow) : Nat × Nat := (row.resource, row.id)

inductive RecordStatement where
  | insertUnowned (storage id : Nat) (fields : Fields) (incarnation : String) (createdSeq : Nat)
  | insertOwned (storage id : Nat) (owner tenant : String) (fields : Fields)
      (incarnation : String) (createdSeq : Nat)
  | updateRecord (storage id : Nat) (incarnation : String) (revision : Nat) (fields : Fields)
      (next : Nat)
  | deleteRecord (storage id : Nat) (incarnation : String) (revision : Nat)
  | migrateRecord (storage id : Nat) (fields : Fields)
  | dropResource (storage : Nat)

namespace RecordStatement

/-! ## Statements -/

/-- The keys a statement inserts. -/
def inserts : RecordStatement → List (Nat × Nat)
  | insertUnowned storage id _ _ _ => [(storage, id)]
  | insertOwned storage id _ _ _ _ _ => [(storage, id)]
  | _ => []

/-- An insert under a key that is there violates the primary key. -/
def insertRow (row : StoredRow) (rows : List StoredRow) : Option (List StoredRow) :=
  if row.key ∈ rows.map StoredRow.key then none else some (rows ++ [row])

def run : RecordStatement → List StoredRow → Option (List StoredRow)
  | insertUnowned storage id fields incarnation createdSeq =>
      insertRow ⟨storage, id, none, "", fields, incarnation, 1, some 1, createdSeq⟩
  | insertOwned storage id owner tenant fields incarnation createdSeq =>
      insertRow ⟨storage, id, some owner, tenant, fields, incarnation, 1, none, createdSeq⟩
  | updateRecord storage id incarnation revision fields next => fun rows => some <|
      Table.update (fun row => decide (row.resource = storage ∧ row.id = id
        ∧ row.incarnation = incarnation ∧ row.revision = revision))
        (fun row => { row with fields := fields, revision := next }) rows
  | deleteRecord storage id incarnation revision => fun rows => some <|
      rows.filter fun row => decide ¬(row.resource = storage ∧ row.id = id
        ∧ row.incarnation = incarnation ∧ row.revision = revision)
  | migrateRecord storage id fields => fun rows => some <|
      Table.update (fun row => decide (row.resource = storage ∧ row.id = id))
        (fun row => { row with fields := fields }) rows
  | dropResource storage => fun rows => some (rows.filter fun row => decide (row.resource ≠ storage))

end RecordStatement

/-- The statements of one transaction; the first that fails fails it. -/
def edit (statements : List RecordStatement) (rows : List StoredRow) : Option (List StoredRow) :=
  statements.foldlM (fun rows statement => statement.run rows) rows

def editInserts (statements : List RecordStatement) : List (Nat × Nat) :=
  statements.flatMap RecordStatement.inserts

/-- {lit}`ADVANCE_CAPABILITY_VERSION`, with the number of rows it changes. -/
def advanceCapabilityVersion (next storage id current : Nat) (rows : List StoredRow) :
    Nat × List StoredRow :=
  let named : StoredRow → Bool := fun row =>
    decide (row.resource = storage ∧ row.id = id ∧ row.capVersion = some current)
  (rows.countP named, Table.update named (fun row => { row with capVersion := some next }) rows)

/-! ## Where a row comes from -/

/-- What no statement of a mutation or a migration changes in a row. -/
structure StoredRow.Continues (row old : StoredRow) : Prop where
  key : row.key = old.key
  incarnation : row.incarnation = old.incarnation
  capVersion : row.capVersion = old.capVersion

theorem StoredRow.Continues.refl (row : StoredRow) : row.Continues row :=
  ⟨rfl, rfl, rfl⟩

theorem StoredRow.Continues.trans {row between old : StoredRow} (h : row.Continues between)
    (h' : between.Continues old) : row.Continues old :=
  ⟨h.key.trans h'.key, h.incarnation.trans h'.incarnation, h.capVersion.trans h'.capVersion⟩

/-- A row under an inserted key, with its first version if it is public. -/
structure StoredRow.New (row : StoredRow) (inserted : List (Nat × Nat)) : Prop where
  key : row.key ∈ inserted
  capVersion : row.capVersion = none ∨ row.capVersion = some 1

theorem continues_of_update {condition : StoredRow → Bool} {change : StoredRow → StoredRow}
    {rows : List StoredRow} {row : StoredRow} (member : row ∈ Table.update condition change rows)
    (keeps : ∀ row, (change row).Continues row) : ∃ old ∈ rows, row.Continues old := by
  rcases List.mem_map.mp member with ⟨old, inside, rfl⟩
  refine ⟨old, inside, ?_⟩
  split
  · exact keeps old
  · exact StoredRow.Continues.refl old

theorem insertRow_some {row : StoredRow} {rows rows' : List StoredRow}
    (h : RecordStatement.insertRow row rows = some rows') :
    row.key ∉ rows.map StoredRow.key ∧ rows' = rows ++ [row] := by
  unfold RecordStatement.insertRow at h
  split at h
  · cases h
  · rename_i free
    exact ⟨free, (Option.some.inj h).symm⟩

theorem insertRow_origin {row inserted : StoredRow} {rows rows' : List StoredRow}
    (h : RecordStatement.insertRow inserted rows = some rows') (member : row ∈ rows') :
    (∃ old ∈ rows, row.Continues old) ∨ row = inserted := by
  rw [(insertRow_some h).2] at member
  rcases List.mem_append.mp member with old | new
  · exact Or.inl ⟨row, old, StoredRow.Continues.refl row⟩
  · exact Or.inr (List.mem_singleton.mp new)

/-- A row after a statement continues an old one or is the inserted one. -/
theorem RecordStatement.origin {statement : RecordStatement} {rows rows' : List StoredRow}
    {row : StoredRow} (h : statement.run rows = some rows') (member : row ∈ rows') :
    (∃ old ∈ rows, row.Continues old) ∨ row.New statement.inserts := by
  cases statement with
  | insertUnowned storage id fields incarnation createdSeq =>
      rcases insertRow_origin h member with old | rfl
      · exact Or.inl old
      · exact Or.inr ⟨List.mem_singleton.mpr rfl, Or.inr rfl⟩
  | insertOwned storage id owner tenant fields incarnation createdSeq =>
      rcases insertRow_origin h member with old | rfl
      · exact Or.inl old
      · exact Or.inr ⟨List.mem_singleton.mpr rfl, Or.inl rfl⟩
  | updateRecord storage id incarnation revision fields next =>
      cases h
      exact Or.inl (continues_of_update member fun _ => ⟨rfl, rfl, rfl⟩)
  | deleteRecord storage id incarnation revision =>
      cases h
      exact Or.inl ⟨row, (List.mem_filter.mp member).1, StoredRow.Continues.refl row⟩
  | migrateRecord storage id fields =>
      cases h
      exact Or.inl (continues_of_update member fun _ => ⟨rfl, rfl, rfl⟩)
  | dropResource storage =>
      cases h
      exact Or.inl ⟨row, (List.mem_filter.mp member).1, StoredRow.Continues.refl row⟩

theorem update_distinct {condition : StoredRow → Bool} {change : StoredRow → StoredRow}
    {rows : List StoredRow} (distinct : (rows.map StoredRow.key).Nodup)
    (keeps : ∀ row, (change row).key = row.key) :
    ((Table.update condition change rows).map StoredRow.key).Nodup := by
  have same : (Table.update condition change rows).map StoredRow.key = rows.map StoredRow.key := by
    unfold Table.update
    rw [List.map_map]
    refine List.map_congr_left fun row _ => ?_
    simp only [Function.comp_apply]
    split
    · exact keeps row
    · rfl
  rw [same]
  exact distinct

theorem insertRow_distinct {inserted : StoredRow} {rows rows' : List StoredRow}
    (h : RecordStatement.insertRow inserted rows = some rows')
    (distinct : (rows.map StoredRow.key).Nodup) : (rows'.map StoredRow.key).Nodup := by
  rcases insertRow_some h with ⟨free, rfl⟩
  rw [List.map_append, List.nodup_append]
  refine ⟨distinct, List.nodup_singleton _, fun key old key' new same => ?_⟩
  rw [List.map_singleton, List.mem_singleton] at new
  rw [same, new] at old
  exact free old

/-- Every statement keeps the primary key. -/
theorem RecordStatement.distinct {statement : RecordStatement} {rows rows' : List StoredRow}
    (h : statement.run rows = some rows') (distinct : (rows.map StoredRow.key).Nodup) :
    (rows'.map StoredRow.key).Nodup := by
  cases statement with
  | insertUnowned storage id fields incarnation createdSeq => exact insertRow_distinct h distinct
  | insertOwned storage id owner tenant fields incarnation createdSeq =>
      exact insertRow_distinct h distinct
  | updateRecord storage id incarnation revision fields next =>
      cases h
      exact update_distinct distinct fun _ => rfl
  | deleteRecord storage id incarnation revision =>
      cases h
      exact (List.filter_sublist.map StoredRow.key).nodup distinct
  | migrateRecord storage id fields =>
      cases h
      exact update_distinct distinct fun _ => rfl
  | dropResource storage =>
      cases h
      exact (List.filter_sublist.map StoredRow.key).nodup distinct

/-! ## Transactions -/

theorem edit_cons {statement : RecordStatement} {rest : List RecordStatement}
    {rows rows' : List StoredRow} (h : edit (statement :: rest) rows = some rows') :
    ∃ between, statement.run rows = some between ∧ edit rest between = some rows' := by
  unfold edit at h
  rw [List.foldlM_cons] at h
  exact Option.bind_eq_some_iff.mp h

/-- After any statements of mutations and migrations a row continues an old one, or its key was
inserted. -/
theorem edit_origin {statements : List RecordStatement} {rows rows' : List StoredRow}
    {row : StoredRow} (h : edit statements rows = some rows') (member : row ∈ rows') :
    (∃ old ∈ rows, row.Continues old) ∨ row.New (editInserts statements) := by
  induction statements generalizing rows with
  | nil =>
      cases h
      exact Or.inl ⟨row, member, StoredRow.Continues.refl row⟩
  | cons statement rest ih =>
      rcases edit_cons h with ⟨between, first, later⟩
      unfold editInserts
      rw [List.flatMap_cons]
      rcases ih later with ⟨middle, inside, continues⟩ | new
      · rcases RecordStatement.origin first inside with ⟨old, before, continued⟩ | new
        · exact Or.inl ⟨old, before, continues.trans continued⟩
        · refine Or.inr ⟨List.mem_append_left _ ?_, ?_⟩
          · rw [continues.key]
            exact new.key
          · rw [continues.capVersion]
            exact new.capVersion
      · exact Or.inr ⟨List.mem_append_right _ new.key, new.capVersion⟩

theorem edit_distinct {statements : List RecordStatement} {rows rows' : List StoredRow}
    (h : edit statements rows = some rows') (distinct : (rows.map StoredRow.key).Nodup) :
    (rows'.map StoredRow.key).Nodup := by
  induction statements generalizing rows with
  | nil =>
      cases h
      exact distinct
  | cons statement rest ih =>
      rcases edit_cons h with ⟨between, first, later⟩
      exact ih later (RecordStatement.distinct first distinct)

/-! ## Advances -/

/-- An advance that counts one row moves that row's version on and no other. -/
theorem advance_one {next storage id current : Nat} {rows rows' : List StoredRow}
    (h : advanceCapabilityVersion next storage id current rows = (1, rows')) :
    ∃ row : StoredRow, row.key = (storage, id) ∧ row.capVersion = some current
      ∧ Table.Replaced row { row with capVersion := some next } rows rows' := by
  unfold advanceCapabilityVersion at h
  rw [Prod.mk.injEq] at h
  rcases Table.update_one h.1 with ⟨row, named, replaced⟩
  rw [decide_eq_true_eq] at named
  rw [h.2] at replaced
  exact ⟨row, Prod.ext named.1 named.2.1, named.2.2, replaced⟩

end Noxide
