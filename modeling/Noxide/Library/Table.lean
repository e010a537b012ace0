import Mathlib.Algebra.BigOperators.Group.List.Basic
import Mathlib.Algebra.Order.Ring.Int
import Mathlib.Data.List.Nodup

/-!
# Tables

Tables as lists of rows, with conditional updates.  An update that changes exactly one
row replaces it in place, so every sum over the table changes by the new row's weight
less the old row's.

Main results:

- Theorem {lit}`update_one`: an update that counts one row replaces one row.
- Theorem {lit}`Replaced.sum`: how a replacement changes a sum.
- Theorem {lit}`Replaced.of_map`: a replacement of an image is the image of one.
- Theorem {lit}`mergeSort_least`: the first row of an ordered selection has the least rank.
-/

namespace Table

variable {α β κ : Type}

/-- Change the rows that satisfy a condition. -/
def update (condition : α → Bool) (change : α → α) (rows : List α) : List α :=
  rows.map fun row => if condition row then change row else row

/-- One row is replaced in place. -/
inductive Replaced (before after : α) : List α → List α → Prop where
  | here (front back : List α) : Replaced before after (front ++ before :: back) (front ++ after :: back)

/-! ## Updates -/

/-- Where no row satisfies the condition nothing changes. -/
theorem update_none {condition : α → Bool} {change : α → α} {rows : List α}
    (h : rows.countP condition = 0) : update condition change rows = rows := by
  rw [List.countP_eq_zero] at h
  unfold update
  conv_rhs => rw [← List.map_id rows]
  refine List.map_congr_left fun row member => ?_
  rw [if_neg (h row member), id]

/-- An update that counts one row replaces one row. -/
theorem update_one {condition : α → Bool} {change : α → α} {rows : List α}
    (h : rows.countP condition = 1) : ∃ row, condition row = true
      ∧ Replaced row (change row) rows (update condition change rows) := by
  induction rows with
  | nil =>
      rw [List.countP_nil] at h
      omega
  | cons row rest ih =>
      by_cases chosen : condition row = true
      · rw [List.countP_cons_of_pos chosen] at h
        have same : update condition change rest = rest := update_none (by omega)
        refine ⟨row, chosen, ?_⟩
        have head : update condition change (row :: rest) = change row :: rest := by
          rw [← same]
          simp only [update, List.map_cons, if_pos chosen, List.map_map]
          congr 1
          have idem := same
          unfold update at idem
          rw [← List.map_map, idem, idem]
        rw [head]
        exact Replaced.here [] rest
      · rw [List.countP_cons_of_neg chosen] at h
        rcases ih h with ⟨other, found, replaced⟩
        refine ⟨other, found, ?_⟩
        have head : update condition change (row :: rest) = row :: update condition change rest := by
          simp only [update, List.map_cons, if_neg chosen]
        rw [head]
        generalize update condition change rest = rest' at replaced ⊢
        cases replaced with
        | here front back => exact Replaced.here (row :: front) back

/-- An update that keeps a weight keeps every sum. -/
theorem sum_update {condition : α → Bool} {change : α → α} {rows : List α} {weight : α → Int}
    (same : ∀ row ∈ rows, condition row = true → weight (change row) = weight row) :
    ((update condition change rows).map weight).sum = (rows.map weight).sum := by
  unfold update
  rw [List.map_map]
  congr 1
  refine List.map_congr_left fun row member => ?_
  simp only [Function.comp_apply]
  split
  · rename_i chosen
    exact same row member chosen
  · rfl

/-! ## Replacements -/

section Replaced

variable {before after : α} {rows rows' : List α}

theorem Replaced.mem_before (h : Replaced before after rows rows') : before ∈ rows := by
  cases h with
  | here front back => exact List.mem_append_right _ List.mem_cons_self

theorem Replaced.mem_after (h : Replaced before after rows rows') : after ∈ rows' := by
  cases h with
  | here front back => exact List.mem_append_right _ List.mem_cons_self

/-- A new row is the replacement or was there. -/
theorem Replaced.mem (h : Replaced before after rows rows') {row : α} (member : row ∈ rows') :
    row = after ∨ row ∈ rows := by
  cases h with
  | here front back =>
      simp only [List.mem_append, List.mem_cons] at member ⊢
      rcases member with member | rfl | member
      · exact Or.inr (Or.inl member)
      · exact Or.inl rfl
      · exact Or.inr (Or.inr (Or.inr member))

/-- An old row is the replaced one or is still there. -/
theorem Replaced.mem_old (h : Replaced before after rows rows') {row : α} (member : row ∈ rows) :
    row = before ∨ row ∈ rows' := by
  cases h with
  | here front back =>
      simp only [List.mem_append, List.mem_cons] at member ⊢
      rcases member with member | rfl | member
      · exact Or.inr (Or.inl member)
      · exact Or.inl rfl
      · exact Or.inr (Or.inr (Or.inr member))

/-- Every sum changes by the new weight less the old one. -/
theorem Replaced.sum (weight : α → Int) (h : Replaced before after rows rows') :
    (rows'.map weight).sum = (rows.map weight).sum + weight after - weight before := by
  cases h with
  | here front back =>
      simp only [List.map_append, List.map_cons, List.sum_append, List.sum_cons]
      omega

theorem Replaced.map_key (key : α → κ) (h : Replaced before after rows rows')
    (same : key after = key before) : rows'.map key = rows.map key := by
  cases h with
  | here front back => simp only [List.map_append, List.map_cons, same]

/-- Distinct keys tell the other rows from the replaced one. -/
theorem Replaced.mem_other (key : α → κ) (h : Replaced before after rows rows')
    (same : key after = key before) (distinct : (rows.map key).Nodup) {row : α} (member : row ∈ rows') :
    row = after ∨ row ∈ rows ∧ key row ≠ key before := by
  cases h with
  | here front back =>
      rw [List.map_append, List.map_cons, List.nodup_append, List.nodup_cons] at distinct
      rcases distinct with ⟨_, ⟨fresh, _⟩, apart⟩
      simp only [List.mem_append, List.mem_cons] at member ⊢
      rcases member with member | rfl | member
      · exact Or.inr ⟨Or.inl member,
          fun equal => apart _ (List.mem_map_of_mem member) _ List.mem_cons_self equal⟩
      · exact Or.inl rfl
      · refine Or.inr ⟨Or.inr (Or.inr member), ?_⟩
        intro equal
        rw [← equal] at fresh
        exact fresh (List.mem_map_of_mem member)

/-- Every other row is related to the replaced one, if all rows are pairwise. -/
theorem Replaced.mem_apart {apart : α → α → Prop} (symm : ∀ row other, apart row other → apart other row)
    (h : Replaced before after rows rows') (distinct : rows.Pairwise apart) {row : α} (member : row ∈ rows') :
    row = after ∨ row ∈ rows ∧ apart row before := by
  cases h with
  | here front back =>
      rw [List.pairwise_append, List.pairwise_cons] at distinct
      rcases distinct with ⟨_, ⟨later, _⟩, earlier⟩
      rcases List.mem_append.mp member with inside | inside
      · exact Or.inr ⟨List.mem_append_left _ inside, earlier row inside before List.mem_cons_self⟩
      · rcases List.mem_cons.mp inside with rfl | inside
        · exact Or.inl rfl
        · exact Or.inr ⟨List.mem_append_right _ (List.mem_cons_of_mem before inside),
            symm before row (later row inside)⟩

/-- A pairwise relation survives a replacement that the other rows do not notice. -/
theorem Replaced.pairwise {apart : α → α → Prop} (symm : ∀ row other, apart row other → apart other row)
    (h : Replaced before after rows rows') (distinct : rows.Pairwise apart)
    (kept : ∀ row, apart row before → apart row after) : rows'.Pairwise apart := by
  cases h with
  | here front back =>
      rw [List.pairwise_append, List.pairwise_cons] at distinct ⊢
      rcases distinct with ⟨first, ⟨later, rest⟩, earlier⟩
      refine ⟨first, ⟨fun row member => ?_, rest⟩, fun row member other member' => ?_⟩
      · exact symm row after (kept row (symm before row (later row member)))
      · rcases List.mem_cons.mp member' with rfl | inside
        · exact kept row (earlier row member before List.mem_cons_self)
        · exact earlier row member other (List.mem_cons_of_mem before inside)

/-- With distinct keys, a replacement is an update by key. -/
theorem Replaced.eq_update [DecidableEq κ] {key : α → κ} (h : Replaced before after rows rows')
    (same : key after = key before) (distinct : (rows.map key).Nodup) :
    rows' = update (fun row => decide (key row = key after)) (fun _ => after) rows := by
  cases h with
  | here front back =>
      rw [List.map_append, List.map_cons, List.nodup_append, List.nodup_cons] at distinct
      rcases distinct with ⟨_, ⟨fresh, _⟩, apart⟩
      have kept : ∀ part : List α, (∀ row ∈ part, key row ≠ key after) →
          part.map (fun row => if decide (key row = key after) = true then after else row) = part := by
        intro part others
        conv_rhs => rw [← List.map_id part]
        refine List.map_congr_left fun row member => ?_
        rw [if_neg (by simpa using others row member), id]
      have front_kept := kept front fun row member equal =>
        apart _ (List.mem_map_of_mem member) _ List.mem_cons_self (equal.trans same)
      have back_kept := kept back fun row member equal =>
        fresh (by rw [← same, ← equal]; exact List.mem_map_of_mem member)
      unfold update
      rw [List.map_append, List.map_cons, front_kept, back_kept, if_pos (by simpa using same.symm)]

/-- A replacement of an image is the image of a replacement. -/
theorem Replaced.of_map {image : α → β} {old new : β} {images : List β}
    (h : Replaced old new (rows.map image) images) {after : α} (same : image after = new) :
    ∃ before rows', image before = old ∧ Replaced before after rows rows'
      ∧ images = rows'.map image := by
  generalize split : rows.map image = before at h
  cases h with
  | here front back =>
      rcases List.map_eq_append_iff.mp split with ⟨front', rest', rfl, rfl, mapped⟩
      rcases List.map_eq_cons_iff.mp mapped with ⟨row, back', rfl, image_row, rfl⟩
      refine ⟨row, front' ++ after :: back', image_row, Replaced.here front' back', ?_⟩
      rw [List.map_append, List.map_cons, same]

end Replaced

/-- Rows with distinct keys are told apart by them. -/
theorem eq_of_key (key : α → κ) {rows : List α} (distinct : (rows.map key).Nodup) {row other : α}
    (member : row ∈ rows) (member' : other ∈ rows) (same : key row = key other) : row = other :=
  List.inj_on_of_nodup_map distinct member member' same

/-! ## Ordered selections -/

/-- The first row of an ordered selection has the least rank of the selected rows. -/
theorem mergeSort_least {ρ : Type} [LinearOrder ρ] {order : α → α → Bool} (rank : α → ρ) {rows : List α}
    {first : α} (ranks : ∀ a ∈ rows, ∀ b ∈ rows, order a b = decide (rank a ≤ rank b))
    (h : (rows.mergeSort order).head? = some first) : ∀ row ∈ rows, rank first ≤ rank row := by
  have same : rows.mergeSort order = rows.mergeSort fun a b => decide (rank a ≤ rank b) := by
    have carried : (rows.mergeSort order).map id
        = (rows.map id).mergeSort fun a b => decide (rank a ≤ rank b) := List.map_mergeSort ranks
    rw [List.map_id, List.map_id] at carried
    exact carried
  have sorted : (rows.mergeSort order).Pairwise fun a b => decide (rank a ≤ rank b) = true := by
    rw [same]
    refine List.pairwise_mergeSort (fun a b c first second => ?_) (fun a b => ?_) _
    · rw [decide_eq_true_eq] at first second ⊢
      exact first.trans second
    · rw [Bool.or_eq_true, decide_eq_true_eq, decide_eq_true_eq]
      exact le_total _ _
  intro row member
  have listed : row ∈ rows.mergeSort order := List.mem_mergeSort.mpr member
  rcases List.head?_eq_some_iff.mp h with ⟨rest, split⟩
  rw [split, List.pairwise_cons] at sorted
  rw [split, List.mem_cons] at listed
  rcases listed with rfl | later
  · exact le_refl _
  · exact of_decide_eq_true (sorted.1 row later)

end Table
