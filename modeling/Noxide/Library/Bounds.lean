import Mathlib.Algebra.Order.Ring.Int

/-!
# Intervals

Closed intervals of an ordered ring with their arithmetic: every operation
contains the results of the operation on the members.

Main results:

- Theorem {lit}`mul_mem`: the extreme products bound every product.
- Theorem {lit}`clamp_mem`: a member within the limits stays a member when both
  ends are clamped to the limits.
-/

/-- A closed interval, possibly empty. -/
structure Bounds (α : Type) where
  lo : α
  hi : α
  deriving DecidableEq, Repr

namespace Bounds

variable {α : Type}

section Order

variable [LinearOrder α]

def Mem (x : α) (i : Bounds α) : Prop := i.lo ≤ x ∧ x ≤ i.hi

instance : Membership α (Bounds α) := ⟨fun i x => Mem x i⟩

theorem mem_iff {x : α} {i : Bounds α} : x ∈ i ↔ i.lo ≤ x ∧ x ≤ i.hi := Iff.rfl

/-- Cut both ends to the limits. -/
def clamp (limits i : Bounds α) : Bounds α :=
  ⟨max limits.lo (min limits.hi i.lo), max limits.lo (min limits.hi i.hi)⟩

/-- A member within the limits stays a member. -/
theorem clamp_mem {limits i : Bounds α} {x : α} (within : x ∈ limits) (h : x ∈ i) :
    x ∈ clamp limits i := by
  constructor
  · exact max_le within.1 ((min_le_right _ _).trans h.1)
  · exact le_max_of_le_right (le_min within.2 h.2)

/-- The clamped interval lies within nonempty limits. -/
theorem clamp_within {limits i : Bounds α} (nonempty : limits.lo ≤ limits.hi) :
    limits.lo ≤ (clamp limits i).lo ∧ (clamp limits i).hi ≤ limits.hi :=
  ⟨le_max_left _ _, max_le nonempty (min_le_left _ _)⟩

end Order

section Ring

variable [CommRing α] [LinearOrder α] [IsStrictOrderedRing α] {i j : Bounds α} {x y : α}

protected def add (i j : Bounds α) : Bounds α := ⟨i.lo + j.lo, i.hi + j.hi⟩

protected def sub (i j : Bounds α) : Bounds α := ⟨i.lo - j.hi, i.hi - j.lo⟩

/-- The extreme products of the ends. -/
protected def mul (i j : Bounds α) : Bounds α :=
  ⟨min (min (i.lo * j.lo) (i.lo * j.hi)) (min (i.hi * j.lo) (i.hi * j.hi)),
    max (max (i.lo * j.lo) (i.lo * j.hi)) (max (i.hi * j.lo) (i.hi * j.hi))⟩

theorem add_mem (hx : x ∈ i) (hy : y ∈ j) : x + y ∈ i.add j :=
  ⟨add_le_add hx.1 hy.1, add_le_add hx.2 hy.2⟩

theorem sub_mem (hx : x ∈ i) (hy : y ∈ j) : x - y ∈ i.sub j :=
  ⟨sub_le_sub hx.1 hy.2, sub_le_sub hx.2 hy.1⟩

/-- A product lies between the products with the ends of an interval. -/
theorem mul_between (c : α) (hx : x ∈ i) :
    min (i.lo * c) (i.hi * c) ≤ x * c ∧ x * c ≤ max (i.lo * c) (i.hi * c) := by
  rcases le_total 0 c with sign | sign
  · constructor
    · exact (min_le_left _ _).trans (mul_le_mul_of_nonneg_right hx.1 sign)
    · exact le_max_of_le_right (mul_le_mul_of_nonneg_right hx.2 sign)
  · constructor
    · exact (min_le_right _ _).trans (mul_le_mul_of_nonpos_right hx.2 sign)
    · exact le_max_of_le_left (mul_le_mul_of_nonpos_right hx.1 sign)

/-- The extreme products bound every product. -/
theorem mul_mem (hx : x ∈ i) (hy : y ∈ j) : x * y ∈ i.mul j := by
  have outer := mul_between y hx
  have low := mul_between i.lo hy
  have high := mul_between i.hi hy
  rw [mul_comm j.lo, mul_comm j.hi, mul_comm y] at low high
  constructor
  · exact (min_le_min low.1 high.1).trans outer.1
  · exact outer.2.trans (max_le_max low.2 high.2)

end Ring

end Bounds
