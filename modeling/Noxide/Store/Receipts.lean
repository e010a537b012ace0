import Mathlib.Data.List.Sort
import Noxide.Protocol.Scalar

/-!
# Submission receipts

The table {lit}`nx_receipts`.  A claim inserts the receipt of a submission with
an empty outcome, once for each nonce; the outcome is set before the action
transaction commits; maintenance deletes receipts whose expiry has passed.

Main results:

- Theorem {lit}`Receipts.claim_find`: after a claim the nonce has a receipt,
  the old one where there was one.
- Theorem {lit}`Receipts.sweep_find`: maintenance keeps every receipt or
  deletes one whose expiry lies before the cutoff.
-/

namespace Noxide

structure Receipt where
  nonce : String
  subject : String
  contract : String
  action : Nat
  input : String
  outcome : String
  expires : Int
  deriving DecidableEq, Repr

/-- The table; {lit}`nonce` is its primary key. -/
structure Receipts where
  rows : List Receipt
  primaryKey : (rows.map Receipt.nonce).Nodup

namespace Receipts

def empty : Receipts := ⟨[], by simp⟩

/-- The row of a nonce. -/
def find? (table : Receipts) (nonce : String) : Option Receipt :=
  table.rows.find? fun row => row.nonce = nonce

/-! ## Statements -/

/-- {lit}`CLAIM_ACTION_RECEIPT`: insert unless the nonce has a row already.
Returns the number of rows inserted. -/
def claim (table : Receipts) (receipt : Receipt) : Nat × Receipts :=
  if h : receipt.nonce ∈ table.rows.map Receipt.nonce then (0, table)
  else (1, ⟨table.rows ++ [receipt], by
    rw [List.map_append, List.nodup_append]
    refine ⟨table.primaryKey, by simp, ?_⟩
    rintro nonce hold _ hnew rfl
    simp only [List.map_cons, List.map_nil, List.mem_singleton] at hnew
    exact h (hnew ▸ hold)⟩)

/-- {lit}`SET_RECEIPT_OUTCOME`. -/
def setOutcome (table : Receipts) (outcome nonce : String) : Receipts :=
  ⟨table.rows.map fun row => if row.nonce = nonce then { row with outcome := outcome } else row, by
    have same : (table.rows.map fun row =>
        if row.nonce = nonce then { row with outcome := outcome } else row).map Receipt.nonce
          = table.rows.map Receipt.nonce := by
      rw [List.map_map]
      refine List.map_congr_left fun row _ => ?_
      simp only [Function.comp_apply]
      split <;> rfl
    rw [same]
    exact table.primaryKey⟩

/-- The nonces one maintenance pass deletes: of the receipts whose expiry lies
before the cutoff, the 256 that expire first (equal expiries in row order). -/
def swept (table : Receipts) (cutoff : Int) : List String :=
  (((table.rows.filter fun row => row.expires < cutoff).mergeSort
    fun a b => a.expires ≤ b.expires).take 256).map Receipt.nonce

def sweep (table : Receipts) (cutoff : Int) : Receipts :=
  ⟨table.rows.filter fun row => row.nonce ∉ table.swept cutoff,
    (List.filter_sublist.map Receipt.nonce).nodup table.primaryKey⟩

/-! ## Rows by nonce -/

theorem find?_eq_some {table : Receipts} {nonce : String} {row : Receipt} :
    table.find? nonce = some row ↔ row ∈ table.rows ∧ row.nonce = nonce := by
  constructor
  · intro h
    exact ⟨List.mem_of_find?_eq_some h, by simpa using List.find?_some h⟩
  · rintro ⟨hmem, rfl⟩
    have hsome : (table.find? row.nonce).isSome := by
      rw [find?, List.find?_isSome]
      exact ⟨row, hmem, by simp⟩
    rcases Option.isSome_iff_exists.mp hsome with ⟨found, hfound⟩
    have hkey : found.nonce = row.nonce := by simpa using List.find?_some hfound
    have hsame : found = row :=
      List.inj_on_of_nodup_map table.primaryKey (List.mem_of_find?_eq_some hfound) hmem hkey
    rw [hfound, hsame]

theorem find?_eq_none {table : Receipts} {nonce : String} :
    table.find? nonce = none ↔ nonce ∉ table.rows.map Receipt.nonce := by
  simp [find?]

/-- A claim of a free nonce inserts its receipt and touches no other nonce. -/
theorem claim_free {table : Receipts} {receipt : Receipt}
    (h : table.find? receipt.nonce = none) :
    (table.claim receipt).1 = 1 ∧
      (table.claim receipt).2.find? receipt.nonce = some receipt := by
  have hfree := find?_eq_none.mp h
  unfold claim
  rw [dif_neg hfree]
  exact ⟨rfl, find?_eq_some.mpr ⟨by simp, rfl⟩⟩

/-- A claim of a taken nonce changes nothing. -/
theorem claim_taken {table : Receipts} {receipt : Receipt}
    (h : table.find? receipt.nonce ≠ none) : table.claim receipt = (0, table) := by
  have htaken : receipt.nonce ∈ table.rows.map Receipt.nonce := by
    by_contra hfree
    exact h (find?_eq_none.mpr hfree)
  unfold claim
  rw [dif_pos htaken]

theorem claim_find_ne {table : Receipts} {receipt : Receipt} {nonce : String}
    (h : receipt.nonce ≠ nonce) : (table.claim receipt).2.find? nonce = table.find? nonce := by
  unfold claim
  split
  · rfl
  · simp [find?, List.find?_append, h]

/-- After a claim the nonce has a receipt: the old one, else the new one. -/
theorem claim_find (table : Receipts) (receipt : Receipt) :
    (table.claim receipt).2.find? receipt.nonce =
      some ((table.find? receipt.nonce).getD receipt) := by
  cases hold : table.find? receipt.nonce with
  | none => exact (claim_free hold).2
  | some row =>
      have htaken : table.find? receipt.nonce ≠ none := by simp [hold]
      rw [claim_taken htaken, hold]
      rfl

/-- Setting an outcome changes that column of that row only. -/
theorem setOutcome_find (table : Receipts) (outcome nonce other : String) :
    (table.setOutcome outcome nonce).find? other =
      (table.find? other).map fun row =>
        if row.nonce = nonce then { row with outcome := outcome } else row := by
  have key : ∀ row : Receipt,
      (if row.nonce = nonce then { row with outcome := outcome } else row).nonce = row.nonce := by
    intro row
    split <;> rfl
  simp only [find?, setOutcome, List.find?_map, Function.comp_def, key]

/-! ## Maintenance -/

theorem swept_expired {table : Receipts} {cutoff : Int} {nonce : String}
    (h : nonce ∈ table.swept cutoff) :
    ∃ row ∈ table.rows, row.nonce = nonce ∧ row.expires < cutoff := by
  rcases List.mem_map.mp h with ⟨row, hrow, rfl⟩
  have hsorted := List.mem_of_mem_take hrow
  rw [List.mem_mergeSort, List.mem_filter] at hsorted
  exact ⟨row, hsorted.1, rfl, by simpa using hsorted.2⟩

/-- Maintenance keeps every receipt or deletes one that expired before the
cutoff. -/
theorem sweep_find (table : Receipts) (cutoff : Int) (nonce : String) :
    (table.sweep cutoff).find? nonce = table.find? nonce ∨
      ∃ row, table.find? nonce = some row ∧ row.expires < cutoff ∧
        (table.sweep cutoff).find? nonce = none := by
  by_cases hswept : nonce ∈ table.swept cutoff
  · right
    rcases swept_expired hswept with ⟨row, hrow, hnonce, hexpired⟩
    refine ⟨row, find?_eq_some.mpr ⟨hrow, hnonce⟩, hexpired, ?_⟩
    rw [find?_eq_none]
    intro hmem
    rcases List.mem_map.mp hmem with ⟨kept, hkept, rfl⟩
    have := (List.mem_filter.mp hkept).2
    simp [hswept] at this
  · left
    refine Option.ext fun row => ?_
    rw [find?_eq_some, find?_eq_some]
    constructor
    · rintro ⟨hrow, hnonce⟩
      exact ⟨List.mem_of_mem_filter hrow, hnonce⟩
    · rintro ⟨hrow, rfl⟩
      exact ⟨List.mem_filter.mpr ⟨hrow, by simpa using hswept⟩, rfl⟩

end Receipts

end Noxide
