import Mathlib.Data.List.Induction
import Mathlib.Data.List.Nodup
import Mathlib.Data.List.Perm.Basic

/-!
# Admission under a quota

Members enter a collection while there is room for them and leave it at any time.  In the order
of their latest entries, each member found room beside those before it; so the latest of them
bounds how many there are.

Main results:

- Theorem {lit}`Quota.Admitted.sublist`: leaving keeps the order.
- Theorem {lit}`Quota.Admitted.last`: the latest member found room beside all the others.
- Theorems {lit}`Quota.Kept.remain` and {lit}`Quota.Kept.enter`: the order of a collection after
  members left, and after one entered.
-/

namespace Quota

variable {α : Type} {room room' : α → List α → Prop} {order rest : List α}

/-- Each member was admitted beside those before it. -/
def Admitted (room : α → List α → Prop) (order : List α) : Prop :=
  ∀ before a after, order = before ++ a :: after → room a before

theorem Admitted.nil : Admitted room [] := by
  intro before a after h
  cases before <;> cases h

/-- A member that finds room beside all others enters. -/
theorem Admitted.push {a : α} (h : Admitted room order) (fits : room a order) :
    Admitted room (order ++ [a]) := by
  intro before b after split
  rcases List.eq_nil_or_concat after with rfl | ⟨front, last, rfl⟩
  · rcases List.append_inj' split rfl with ⟨rfl, same⟩
    cases same
    exact fits
  · rw [List.concat_eq_append, ← List.cons_append, ← List.append_assoc] at split
    rcases List.append_inj' split rfl with ⟨same, _⟩
    exact h before b front same

/-- Members that leave make room for the others. -/
theorem Admitted.sublist (roomier : ∀ a rows rows', rows'.Sublist rows → room a rows → room a rows')
    (h : Admitted room order) (sub : rest.Sublist order) : Admitted room rest := by
  induction order using List.reverseRecOn generalizing rest with
  | nil =>
      rw [List.sublist_nil.mp sub]
      exact Admitted.nil
  | append_singleton front last ih =>
      have earlier : Admitted room front := by
        intro before a after split
        refine h before a (after ++ [last]) ?_
        rw [split, List.append_assoc]
        rfl
      rcases List.sublist_append_iff.mp sub with ⟨left, right, rfl, leftSub, rightSub⟩
      rcases List.sublist_singleton.mp rightSub with rfl | rfl
      · rw [List.append_nil]
        exact ih earlier leftSub
      · exact (ih earlier leftSub).push (roomier last front left leftSub (h front last [] rfl))

theorem Admitted.mono (h : Admitted room order)
    (more : ∀ a ∈ order, ∀ before, room a before → room' a before) : Admitted room' order := by
  intro before a after split
  refine more a ?_ before (h before a after split)
  rw [split]
  exact List.mem_append_right _ List.mem_cons_self

/-- The latest member found room beside all the others. -/
theorem Admitted.last (h : Admitted room order) (some_member : order ≠ []) :
    ∃ a before, order = before ++ [a] ∧ room a before := by
  rcases List.eq_nil_or_concat order with rfl | ⟨before, a, rfl⟩
  · exact absurd rfl some_member
  · rw [List.concat_eq_append] at h ⊢
    exact ⟨a, before, rfl, h before a [] rfl⟩

/-! ## Collections -/

/-- Some order of latest entries of the members. -/
def Kept (room : α → List α → Prop) (members : List α) : Prop :=
  ∃ order : List α, order.Perm members ∧ Admitted room order

section Collections

variable {members members' : List α}

theorem Kept.mono (h : Kept room members) (more : ∀ a ∈ members, ∀ before, room a before → room' a before) :
    Kept room' members := by
  rcases h with ⟨order, perm, admitted⟩
  exact ⟨order, perm, admitted.mono fun a member => more a (perm.mem_iff.mp member)⟩

/-- Members may leave. -/
theorem Kept.remain [DecidableEq α]
    (roomier : ∀ a rows rows', rows'.Sublist rows → room a rows → room a rows') (h : Kept room members) (distinct : members.Nodup) (distinct' : members'.Nodup)
    (remain : ∀ a ∈ members', a ∈ members) : Kept room members' := by
  rcases h with ⟨order, perm, admitted⟩
  refine ⟨order.filter fun a => a ∈ members', ?_, admitted.sublist roomier List.filter_sublist⟩
  rw [List.perm_ext_iff_of_nodup ((perm.nodup_iff.mpr distinct).filter _) distinct']
  intro a
  rw [List.mem_filter, decide_eq_true_eq, perm.mem_iff]
  exact ⟨fun both => both.2, fun member => ⟨remain a member, member⟩⟩

/-- A member may enter, or enter again, where it finds room beside the others. -/
theorem Kept.enter {a : α} (h : Kept room members) (distinct : members.Nodup) (distinct' : members'.Nodup)
    (entered : ∀ b, b ∈ members' ↔ b = a ∨ b ∈ members) (fresh : a ∉ members)
    (fits : ∀ order : List α, order.Perm members → room a order) : Kept room members' := by
  rcases h with ⟨order, perm, admitted⟩
  refine ⟨order ++ [a], ?_, admitted.push (fits order perm)⟩
  have apart : (order ++ [a]).Nodup := by
    rw [List.nodup_append]
    refine ⟨perm.nodup_iff.mpr distinct, List.nodup_singleton a, fun b member c single => ?_⟩
    rw [List.mem_singleton] at single
    rintro rfl
    exact fresh (single ▸ perm.mem_iff.mp member)
  rw [List.perm_ext_iff_of_nodup apart distinct']
  intro b
  rw [List.mem_append, List.mem_singleton, entered b, perm.mem_iff]
  exact or_comm

end Collections

end Quota
