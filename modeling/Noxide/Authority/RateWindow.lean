import Mathlib.Data.List.Pairwise
import Mathlib.Tactic.Linarith

/-!
# The rate window

A window earns a fixed number of tokens a minute, in nanosecond fractions, and grants a call for
each whole one.  Every call brings its own reading of the monotonic clock, and readings taken
before the lock may arrive out of order.  The window earns the time by which the readings move
forward, so it is exact as long as they cover no time twice.

Main results:

- Theorem {lit}`grants_forward`: what any calls are granted, whatever their order.
- Theorem {lit}`rate_window_bound`: the bound for calls that cover no time twice.
- Theorem {lit}`late_call_earns_twice`: a late call makes the window earn time again.
-/

namespace Noxide.Limiter

/-! ## The window -/

def u128Max : Nat := 2 ^ 128 - 1

def saturatingAdd (a b : Nat) : Nat :=
  min (a + b) u128Max

def saturatingMul (a b : Nat) : Nat :=
  min (a * b) u128Max

/-- The source's {lit}`RateWindow::TOKEN`: the nanoseconds of a minute. -/
def token : Nat := 60000000000

/-- The source's {lit}`ARGON2_PER_MINUTE`. -/
def argon2PerMinute : Nat := 60

/-- The source's {lit}`ANONYMOUS_WRITES_PER_MINUTE`. -/
def anonymousWritesPerMinute : Nat := 30

structure RateState where
  credit : Nat
  last : Nat
  deriving DecidableEq, Repr

/-- A new window is full. -/
def RateState.new (perMinute now : Nat) : RateState where
  credit := perMinute * token
  last := now

/-- The credit of a window at a reading, {lit}`saturating_duration_since` included. -/
def RateState.refilled (perMinute : Nat) (s : RateState) (now : Nat) : Nat :=
  min (saturatingAdd s.credit (saturatingMul (now - s.last) perMinute)) (perMinute * token)

/-- The source's {lit}`RateWindow::at`: whether the call is granted, and the state it leaves. -/
def RateState.at (perMinute : Nat) (s : RateState) (now : Nat) : Bool × RateState :=
  let credit := s.refilled perMinute now
  if credit < token then (false, { credit := credit, last := now })
  else (true, { credit := credit - token, last := now })

/-- The state after a sequence of calls, in the order in which they got the lock. -/
def RateState.after (perMinute : Nat) (s : RateState) (calls : List Nat) : RateState :=
  calls.foldl (fun s now => (s.at perMinute now).2) s

/-- How many calls of a sequence are granted. -/
def grants (perMinute : Nat) : RateState → List Nat → Nat
  | _, [] => 0
  | s, now :: calls => (s.at perMinute now).1.toNat + grants perMinute (s.at perMinute now).2 calls

/-! ## Time covered -/

/-- The time by which consecutive readings move forward, added up. -/
def forward : List Nat → Nat
  | first :: second :: rest => (second - first) + forward (second :: rest)
  | _ => 0

/-- The time between the earliest and the latest reading. -/
def span (calls : List Nat) : Nat :=
  calls.max?.getD 0 - calls.min?.getD 0

/-- Readings in order cover no time twice. -/
theorem forward_sorted {first : Nat} {rest : List Nat}
    (h : (first :: rest).Pairwise (· ≤ ·)) : first + forward (first :: rest) =
      (first :: rest).getLast (List.cons_ne_nil first rest) := by
  induction rest generalizing first with
  | nil => rfl
  | cons second rest ih =>
      rw [List.pairwise_cons] at h
      have later := h.1 second List.mem_cons_self
      have tail := ih h.2
      rw [List.getLast_cons_cons, ← tail, forward]
      omega

/-! ## What is granted -/

section Grants

variable (perMinute : Nat) (s : RateState)

/-- A refill stays at or below a full window and earns at most the time since the last call. -/
theorem refilled_le (now : Nat) : s.refilled perMinute now ≤ perMinute * token ∧
    s.refilled perMinute now ≤ s.credit + perMinute * (now - s.last) := by
  refine ⟨min_le_right _ _, ?_⟩
  calc
    s.refilled perMinute now ≤ saturatingAdd s.credit (saturatingMul (now - s.last) perMinute) :=
      min_le_left _ _
    _ ≤ s.credit + saturatingMul (now - s.last) perMinute := min_le_left _ _
    _ ≤ s.credit + (now - s.last) * perMinute := Nat.add_le_add_left (min_le_left _ _) _
    _ = s.credit + perMinute * (now - s.last) := by rw [Nat.mul_comm]

/-- A call is paid from the refilled credit. -/
theorem at_credit (now : Nat) :
    (s.at perMinute now).1.toNat * token + (s.at perMinute now).2.credit =
      s.refilled perMinute now ∧ (s.at perMinute now).2.last = now := by
  simp only [RateState.at]
  split
  · simp
  · next full =>
    simp only [Bool.toNat_true, Nat.one_mul]
    exact ⟨by omega, trivial⟩

/-- Whatever the order of the readings, calls are paid by the credit and the time by which the
readings move forward. -/
theorem grants_forward (calls : List Nat) :
    grants perMinute s calls * token ≤ s.credit + perMinute * forward (s.last :: calls) := by
  induction calls generalizing s with
  | nil => simp [grants]
  | cons now calls ih =>
      rcases at_credit perMinute s now with ⟨paid, last⟩
      have rest := ih (s.at perMinute now).2
      have earned := (refilled_le perMinute s now).2
      rw [last] at rest
      rw [grants, forward, Nat.add_mul, Nat.mul_add]
      omega

/-- Calls after the first are paid by a full window and the time they cover themselves. -/
theorem grants_segment (calls : List Nat) :
    grants perMinute s calls * token ≤ perMinute * token + perMinute * forward calls := by
  cases calls with
  | nil => simp [grants]
  | cons now calls =>
      rcases at_credit perMinute s now with ⟨paid, last⟩
      have rest := grants_forward perMinute (s.at perMinute now).2 calls
      have full := (refilled_le perMinute s now).1
      rw [last] at rest
      rw [grants, Nat.add_mul]
      omega

end Grants

/-- Between any two points of the call order, calls that cover no time twice are granted at most
a full window and the tokens earned between the earliest and the latest reading. -/
theorem rate_window_bound (perMinute started : Nat) (before segment : List Nat)
    (once : forward segment ≤ span segment) :
    grants perMinute ((RateState.new perMinute started).after perMinute before) segment ≤
      perMinute + perMinute * span segment / token := by
  have paid := grants_segment perMinute ((RateState.new perMinute started).after perMinute before)
    segment
  have covered := Nat.mul_le_mul_left perMinute once
  rw [← Nat.sub_le_iff_le_add', Nat.le_div_iff_mul_le (by decide), Nat.sub_mul]
  omega

/-- Calls a second apart, the last of them late. -/
theorem rate_window_bound_sample :
    grants argon2PerMinute ((RateState.new argon2PerMinute 0).after argon2PerMinute [])
      [1000000000, 2000000000, 1500000000] ≤ 61 :=
  rate_window_bound argon2PerMinute 0 [] [1000000000, 2000000000, 1500000000] (by decide)

/-- Readings in order cover exactly the time between the earliest and the latest. -/
theorem forward_eq_span {calls : List Nat} (h : calls.Pairwise (· ≤ ·)) :
    forward calls = span calls := by
  cases calls with
  | nil => rfl
  | cons first rest =>
      have latest : (first :: rest).max? =
          some ((first :: rest).getLast (List.cons_ne_nil first rest)) := by
        rw [List.max?_eq_some_iff]
        refine ⟨List.getLast_mem _, fun reading member => ?_⟩
        exact h.rel_getLast member
      have earliest : (first :: rest).min? = some first := by
        rw [List.min?_eq_some_iff]
        refine ⟨List.mem_cons_self, fun reading member => ?_⟩
        rcases List.mem_cons.mp member with rfl | member
        · exact le_refl reading
        · exact (List.pairwise_cons.mp h).1 reading member
      have covered := forward_sorted h
      rw [span, latest, earliest, Option.getD_some, Option.getD_some]
      omega

/-- A late call earns the time before it again: with 60 tokens a minute, of which one second
earns one, 63 calls are granted between readings one second apart. -/
theorem late_call_earns_twice :
    let calls := List.replicate 60 0 ++ [1000000000, 0, 1000000000, 0, 1000000000]
    grants argon2PerMinute (RateState.new argon2PerMinute 0) calls = 63 ∧
      argon2PerMinute + argon2PerMinute * span calls / token = 61 := by
  decide +kernel

end Noxide.Limiter
