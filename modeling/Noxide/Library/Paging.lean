import Noxide.Library.Checked
import Mathlib.Data.List.Basic
import Mathlib.Tactic.Linarith

/-!
# Pages of a table

A table with ascending keys is read page by page: each page holds the first rows behind a cursor,
and the cursor moves to the last key of the page.  Reading ends with the first empty page.

Main results:

- Theorem {lit}`scan_eq`: a scan by pages checks every row once, in order.
- Theorem {lit}`update_eq`: an update by pages replaces every row once, in order.
-/

namespace Paging

variable {α ε : Type}

/-! ## Pages -/

/-- How many of the rows behind a cursor one page holds: the first ones, and not none while there
are any. -/
structure Cut (α : Type) where
  page : List α → List α
  first : ∀ rows, page rows <+: rows
  some_row : ∀ rows, rows ≠ [] → page rows ≠ []

/-- Pages of a fixed number of rows. -/
def Cut.limit (α : Type) (n : Nat) : Cut α where
  page := List.take (n + 1)
  first := List.take_prefix (n + 1)
  some_row := by
    intro rows some_row none
    rcases List.take_eq_nil_iff.mp none with zero | empty
    · cases zero
    · exact some_row empty

/-- The rows behind a cursor. -/
def behind (key : α → Int) (cursor : Int) (rows : List α) : List α :=
  rows.filter fun row => cursor < key row

/-- The cursor behind a page. -/
def advance (key : α → Int) (cursor : Int) (page : List α) : Int :=
  (page.getLast?.map key).getD cursor

/-- Ascending keys. -/
def Ascending (key : α → Int) (rows : List α) : Prop :=
  rows.Pairwise fun row later => key row < key later

section Cursor

variable {key : α → Int} {cursor : Int} {done page rest : List α}

theorem behind_eq (before : ∀ row ∈ done, key row ≤ cursor) (after : ∀ row ∈ rest, cursor < key row) :
    behind key cursor (done ++ rest) = rest := by
  have none : done.filter (fun row => decide (cursor < key row)) = [] := by
    rw [List.filter_eq_nil_iff]
    intro row member
    simpa using before row member
  have all : rest.filter (fun row => decide (cursor < key row)) = rest := by
    rw [List.filter_eq_self]
    intro row member
    simpa using after row member
  rw [behind, List.filter_append, none, all, List.nil_append]

/-- A page moves the cursor behind its rows and before the others. -/
theorem advance_between (some_row : page ≠ []) (ascending : Ascending key (page ++ rest)) :
    (∀ row ∈ page, key row ≤ advance key cursor page) ∧
      ∀ row ∈ rest, advance key cursor page < key row := by
  have last : advance key cursor page = key (page.getLast some_row) := by
    rw [advance, List.getLast?_eq_some_getLast some_row]
    rfl
  rw [last]
  rcases List.pairwise_append.mp ascending with ⟨inside, _, across⟩
  refine ⟨fun row member => ?_, fun row member => ?_⟩
  · rw [← List.dropLast_append_getLast some_row] at member inside
    rcases List.mem_append.mp member with earlier | same
    · exact le_of_lt ((List.pairwise_append.mp inside).2.2 row earlier _ (by simp))
    · exact le_of_eq (congrArg key (List.mem_singleton.mp same))
  · exact across _ (List.getLast_mem some_row) row member

theorem Ascending.behind (ascending : Ascending key (page ++ rest)) : Ascending key rest :=
  (List.pairwise_append.mp ascending).2.1

end Cursor

/-! ## Scans -/

section Scan

variable (key : α → Int) (cut : Cut α) (visit : α → Except ε Unit)

/-- Check the rows behind a cursor, page by page. -/
def scanFrom : Nat → Int → List α → Except ε Unit
  | 0, _, _ => .ok ()
  | fuel + 1, cursor, rows =>
      if cut.page (behind key cursor rows) = [] then .ok ()
      else do
        (cut.page (behind key cursor rows)).forM visit
        scanFrom fuel (advance key cursor (cut.page (behind key cursor rows))) rows

/-- One page more than there are rows is empty. -/
def scan (cursor : Int) (rows : List α) : Except ε Unit :=
  scanFrom key cut visit (rows.length + 1) cursor rows

end Scan

variable {key : α → Int} {cut : Cut α}

theorem Cut.split (cut : Cut α) {rows : List α} (some_row : rows ≠ []) :
    ∃ rest, rows = cut.page rows ++ rest ∧ cut.page rows ≠ [] ∧ rest.length < rows.length := by
  rcases cut.first rows with ⟨rest, whole⟩
  refine ⟨rest, whole.symm, cut.some_row rows some_row, ?_⟩
  have occupied := List.length_pos_iff.mpr (cut.some_row rows some_row)
  have lengths := congrArg List.length whole
  rw [List.length_append] at lengths
  omega

theorem scanFrom_eq {visit : α → Except ε Unit} {fuel : Nat} {cursor : Int} {done rest : List α}
    (enough : rest.length < fuel) (before : ∀ row ∈ done, key row ≤ cursor)
    (after : ∀ row ∈ rest, cursor < key row) (ascending : Ascending key rest) :
    scanFrom key cut visit fuel cursor (done ++ rest) = rest.forM visit := by
  induction fuel generalizing cursor done rest with
  | zero => cases enough
  | succ fuel ih =>
      rw [scanFrom, behind_eq before after]
      by_cases none : rest = []
      · subst none
        have empty : cut.page [] = [] := List.prefix_nil.mp (cut.first [])
        rw [if_pos empty]
        rfl
      · rcases cut.split none with ⟨others, whole, some_row, fewer⟩
        rw [if_neg some_row]
        have ordered := ascending
        rw [whole] at ordered
        rcases @advance_between _ key cursor _ _ some_row ordered with ⟨inside, outside⟩
        have back : ∀ row ∈ done ++ cut.page rest, key row ≤ advance key cursor (cut.page rest) := by
          intro row member
          rcases List.mem_append.mp member with earlier | here
          · have first : cut.page rest ≠ [] := some_row
            rcases List.exists_mem_of_ne_nil _ first with ⟨head, there⟩
            have behind := after head ((cut.first rest).subset there)
            have later := inside head there
            have sooner := before row earlier
            omega
          · exact inside row here
        have tail : scanFrom key cut visit fuel (advance key cursor (cut.page rest))
            (done ++ cut.page rest ++ others) = others.forM visit :=
          ih (by omega) back outside (Ascending.behind ordered)
        rw [List.append_assoc, ← whole] at tail
        rw [tail]
        conv_rhs => rw [whole]
        exact List.forM_append.symm

/-- A scan from before the first row checks every row, in order. -/
theorem scan_eq {visit : α → Except ε Unit} {cursor : Int} {rows : List α}
    (after : ∀ row ∈ rows, cursor < key row) (ascending : Ascending key rows) :
    scan key cut visit cursor rows = rows.forM visit := by
  have none : ∀ row ∈ ([] : List α), key row ≤ cursor := by simp
  exact scanFrom_eq (Nat.lt_succ_self _) none after ascending

/-! ## Updates -/

section Update

variable (key : α → Int) (cut : Cut α) (missing : ε) (visit : α → Except ε α)

/-- Replace the rows of the given keys, one after the other. -/
def updateKeys : List Int → List α → Except ε (List α)
  | [], rows => .ok rows
  | k :: ks, rows => do
      let row ← Checked.context missing (rows.find? fun row => key row = k)
      let row ← visit row
      updateKeys ks (rows.map fun other => if key other = k then row else other)

/-- Replace the rows behind a cursor, page by page. -/
def updateFrom : Nat → Int → List α → Except ε (List α)
  | 0, _, rows => .ok rows
  | fuel + 1, cursor, rows =>
      if cut.page (behind key cursor rows) = [] then .ok rows
      else do
        let next ← updateKeys key missing visit ((cut.page (behind key cursor rows)).map key) rows
        updateFrom fuel (advance key cursor (cut.page (behind key cursor rows))) next

def update (cursor : Int) (rows : List α) : Except ε (List α) :=
  updateFrom key cut missing visit (rows.length + 1) cursor rows

end Update

theorem ascending_iff {rows : List α} : Ascending key rows ↔ (rows.map key).Pairwise (· < ·) :=
  List.pairwise_map.symm

section Replace

variable {missing : ε} {visit : α → Except ε α}

/-- Rows that keep their keys keep their order. -/
theorem mapM_keys (keeps : ∀ row next, visit row = .ok next → key next = key row)
    {rows next : List α} (visited : rows.mapM visit = .ok next) : next.map key = rows.map key := by
  induction rows generalizing next with
  | nil =>
      cases visited
      rfl
  | cons row rows ih =>
      rw [List.mapM_cons] at visited
      rcases Checked.bind_eq_ok.mp visited with ⟨first, here, tail⟩
      rcases Checked.bind_eq_ok.mp tail with ⟨others, there, same⟩
      cases same
      rw [List.map_cons, List.map_cons, ih there, keeps row first here]

/-- Rows of other keys are not replaced. -/
theorem map_other {k : Int} {next : α} {rows : List α} (other : ∀ row ∈ rows, key row ≠ k) :
    rows.map (fun row => if key row = k then next else row) = rows := by
  conv_rhs => rw [← List.map_id rows]
  exact List.map_congr_left fun row member => if_neg (other row member)

theorem updateKeys_eq (keeps : ∀ row next, visit row = .ok next → key next = key row)
    {done page rest : List α} (ascending : Ascending key (done ++ (page ++ rest))) :
    updateKeys key missing visit (page.map key) (done ++ (page ++ rest)) =
      (page.mapM visit).map fun next => done ++ (next ++ rest) := by
  induction page generalizing done with
  | nil => rfl
  | cons row page ih =>
      rcases List.pairwise_append.mp ascending with ⟨_, inside, across⟩
      have other : ∀ earlier ∈ done, key earlier ≠ key row := by
        intro earlier member same
        have less := across earlier member row List.mem_cons_self
        omega
      have later : ∀ behind ∈ page ++ rest, key behind ≠ key row := by
        intro behind member same
        have less := (List.pairwise_cons.mp inside).1 behind member
        omega
      have found : (done ++ (row :: page ++ rest)).find? (fun other => decide (key other = key row)) =
          some row := by
        rw [List.find?_append, List.find?_eq_none.mpr]
        · simp
        · intro earlier member
          simpa using other earlier member
      rw [List.map_cons, updateKeys, found, List.mapM_cons]
      cases visited : visit row with
      | error e =>
          simp only [Checked.context, Checked.bind_ok, visited]
          rfl
      | ok next =>
          have replaced : (done ++ (row :: page ++ rest)).map
              (fun other => if key other = key row then next else other) =
                done ++ [next] ++ (page ++ rest) := by
            rw [List.map_append, List.cons_append, List.map_cons, if_pos rfl, List.append_assoc,
              List.singleton_append]
            congr 1
            · exact map_other other
            · congr 1
              exact map_other later
          have ordered : Ascending key (done ++ [next] ++ (page ++ rest)) := by
            rw [ascending_iff] at ascending ⊢
            simpa [keeps row next visited] using ascending
          simp only [Checked.context, Checked.bind_ok, visited, replaced]
          rw [ih ordered]
          cases page.mapM visit with
          | error e => rfl
          | ok others =>
              simp only [Except.map, Checked.bind_ok, List.append_assoc, List.cons_append]
              rfl

theorem updateFrom_eq (keeps : ∀ row next, visit row = .ok next → key next = key row) {fuel : Nat}
    {cursor : Int} {done rest : List α} (enough : rest.length < fuel)
    (before : ∀ row ∈ done, key row ≤ cursor) (after : ∀ row ∈ rest, cursor < key row)
    (ascending : Ascending key (done ++ rest)) :
    updateFrom key cut missing visit fuel cursor (done ++ rest) =
      (rest.mapM visit).map fun next => done ++ next := by
  induction fuel generalizing cursor done rest with
  | zero => cases enough
  | succ fuel ih =>
      rw [updateFrom, behind_eq before after]
      by_cases none : rest = []
      · subst none
        have empty : cut.page [] = [] := List.prefix_nil.mp (cut.first [])
        rw [if_pos empty]
        rfl
      · rcases cut.split none with ⟨others, whole, some_row, fewer⟩
        rw [if_neg some_row]
        generalize page_eq : cut.page rest = page at whole some_row ⊢
        subst whole
        have ordered : Ascending key (page ++ others) := (List.pairwise_append.mp ascending).2.1
        rcases @advance_between _ key cursor _ _ some_row ordered with ⟨inside, outside⟩
        rw [updateKeys_eq keeps ascending, List.mapM_append]
        cases visited : page.mapM visit with
        | error e => rfl
        | ok next =>
            have keys := mapM_keys keeps visited
            have back : ∀ row ∈ done ++ next, key row ≤ advance key cursor page := by
              intro row member
              rcases List.mem_append.mp member with earlier | here
              · rcases List.exists_mem_of_ne_nil _ some_row with ⟨head, there⟩
                have behind := after head (List.mem_append_left others there)
                have later := inside head there
                have sooner := before row earlier
                omega
              · have same : key row ∈ page.map key := by
                  rw [← keys]
                  exact List.mem_map_of_mem here
                rcases List.mem_map.mp same with ⟨old, there, equal⟩
                rw [← equal]
                exact inside old there
            have ordered' : Ascending key (done ++ next ++ others) := by
              rw [ascending_iff] at ascending ⊢
              rw [List.append_assoc, List.map_append, List.map_append, keys, ← List.map_append,
                ← List.map_append]
              exact ascending
            have tail := ih (by omega) back outside ordered'
            simp only [Except.map, Checked.bind_ok]
            rw [← List.append_assoc, tail]
            cases others.mapM visit with
            | error e => rfl
            | ok last =>
                simp only [Except.map, Checked.bind_ok, List.append_assoc]
                rfl

/-- An update from before the first row replaces every row, in order, or fails at the first row
that cannot be replaced. -/
theorem update_eq (keeps : ∀ row next, visit row = .ok next → key next = key row) {cursor : Int}
    {rows : List α} (after : ∀ row ∈ rows, cursor < key row) (ascending : Ascending key rows) :
    update key cut missing visit cursor rows = rows.mapM visit := by
  have none : ∀ row ∈ ([] : List α), key row ≤ cursor := by simp
  have whole : updateFrom key cut missing visit (rows.length + 1) cursor ([] ++ rows) =
      (rows.mapM visit).map fun next => [] ++ next :=
    updateFrom_eq keeps (Nat.lt_succ_self _) none after ascending
  rw [List.nil_append] at whole
  rw [update, whole]
  cases rows.mapM visit <;> rfl

end Replace

end Paging
