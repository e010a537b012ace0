import Mathlib.Data.List.Induction
import Mathlib.Data.List.Nodup
import Mathlib.Data.List.Pairwise

/-!
# Recency lists

The keys of a bounded cache, the least recently used first.  A use moves its key to the young
end; a new key first pushes the oldest one out of a full list.

Main results:

- Theorem {lit}`after_nodup`, {lit}`after_length`: a key occurs once, and no more keys than the
  capacity.
- Theorem {lit}`after_order`: of two keys in the list the later one was used after the last use
  of the earlier one.
-/

namespace Recency

/-! ## Uses -/

section Since

variable {K : Type}

/-- Since the last use of the older key the younger one was used. -/
def UsedSince (history : List K) (older younger : K) : Prop :=
  ∃ before rest, history = before ++ rest ∧ older ∉ rest ∧ younger ∈ rest

theorem UsedSince.append {history : List K} {older younger key : K}
    (h : UsedSince history older younger) (other : older ≠ key) :
    UsedSince (history ++ [key]) older younger := by
  rcases h with ⟨before, rest, rfl, unused, used⟩
  refine ⟨before, rest ++ [key], List.append_assoc before rest [key], ?_,
    List.mem_append_left [key] used⟩
  rw [List.mem_append, List.mem_singleton]
  rintro (member | same)
  · exact unused member
  · exact other same

end Since

variable {K : Type} [DecidableEq K] (capacity : Nat) {keys : List K}

/-- The keys that stay when one is used: a new key evicts the oldest of a full list. -/
def kept (keys : List K) (key : K) : List K :=
  if key ∉ keys ∧ keys.length = capacity then keys.tail else keys

/-- One use of a key. -/
def use (keys : List K) (key : K) : List K :=
  (kept capacity keys key).erase key ++ [key]

/-- The list after a history of uses. -/
def after (history : List K) : List K :=
  history.foldl (use capacity) []

/-! ## Members -/

theorem kept_sublist (keys : List K) (key : K) : (kept capacity keys key).Sublist keys := by
  unfold kept
  split
  · exact List.tail_sublist keys
  · exact List.Sublist.refl keys

theorem use_nodup (h : keys.Nodup) (key : K) : (use capacity keys key).Nodup := by
  have rest := h.sublist (kept_sublist capacity _ key)
  refine List.nodup_append.mpr ⟨rest.erase key, List.nodup_singleton key, ?_⟩
  intro a member b same
  rw [List.mem_singleton] at same
  subst same
  rintro rfl
  exact rest.not_mem_erase member

theorem use_length (positive : 0 < capacity) (h : keys.length ≤ capacity) (key : K) :
    (use capacity keys key).length ≤ capacity := by
  rw [use, List.length_append, List.length_singleton]
  unfold kept
  split
  · next full =>
    have shorter := (List.erase_sublist (l := keys.tail) (a := key)).length_le
    rw [List.length_tail] at shorter
    omega
  · next room =>
    by_cases member : key ∈ keys
    · have shorter := List.length_erase_of_mem member
      have occupied := List.length_pos_of_mem member
      omega
    · rw [List.erase_of_not_mem member]
      have other : keys.length ≠ capacity := fun same => room ⟨member, same⟩
      omega

theorem after_append (history : List K) (key : K) :
    after capacity (history ++ [key]) = use capacity (after capacity history) key := by
  rw [after, List.foldl_append, List.foldl_cons, List.foldl_nil, after]

/-- A key occurs once. -/
theorem after_nodup (history : List K) : (after capacity history).Nodup := by
  induction history using List.reverseRecOn with
  | nil => exact List.nodup_nil
  | append_singleton history key ih =>
      rw [after_append]
      exact use_nodup capacity ih key

/-- There are no more keys than the capacity. -/
theorem after_length (positive : 0 < capacity) (history : List K) :
    (after capacity history).length ≤ capacity := by
  induction history using List.reverseRecOn with
  | nil => exact Nat.zero_le capacity
  | append_singleton history key ih =>
      rw [after_append]
      exact use_length capacity positive ih key

/-! ## Order -/

/-- The list is in the order of the last uses, the oldest first. -/
theorem after_order (history : List K) :
    (after capacity history).Pairwise (UsedSince history) := by
  induction history using List.reverseRecOn with
  | nil => exact List.Pairwise.nil
  | append_singleton history key ih =>
      rw [after_append, use, List.pairwise_append]
      have distinct := (after_nodup capacity history).sublist
        (kept_sublist capacity _ key)
      have others : ∀ older ∈ (kept capacity (after capacity history) key).erase key,
          older ≠ key := by
        rintro older member rfl
        exact distinct.not_mem_erase member
      refine ⟨?_, List.pairwise_singleton _ key, ?_⟩
      · have order : ((kept capacity (after capacity history) key).erase key).Pairwise
            (UsedSince history) :=
          (ih.sublist (kept_sublist capacity _ key)).sublist List.erase_sublist
        exact order.imp_of_mem fun member _ since => since.append (others _ member)
      · intro older member younger same
        rw [List.mem_singleton] at same
        subst same
        exact ⟨history, [younger], rfl, by simpa using others older member, List.mem_singleton_self _⟩

end Recency
