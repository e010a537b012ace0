import Noxide.Authority.Limiter

/-!
# The credit of a bucket

What a key can spend between two points of a run.  A bucket earns thousandths of a token for
whole fractions of a second and keeps the rest of the time, so polling it often earns as much as
polling it once; a reading that comes late earns nothing and moves nothing back.  Every charge of
the program costs something, and no more than a bucket holds.

Main results:

- Theorem {lit}`Entry.spends_within`: a bucket spends at most what it is worth at the first charge
  and what the time up to the latest one earns.
- Theorem {lit}`Entry.earns_exactly`: below capacity a bucket earns what one refill earns.
- Theorem {lit}`bucket_credit_bound`: the same for every key of the tables of the program.
-/

namespace Noxide.Limiter

/-! ## Parameters -/

/-- Parameters under which a refill is exact: a thousandth takes a whole number of nanoseconds,
and no intermediate value is cut off. -/
structure Buckets.Exact (b : Buckets) : Prop where
  divides : b.refill ∣ second
  start : b.start ≤ b.capacity
  bounded : b.capacity * second ≤ u64Max

/-- A charge that costs something, and no more than a bucket holds. -/
def Charge.Priced {K : Type} (c : Charge K) (b : Buckets) : Prop :=
  0 < c.cost ∧ c.cost ≤ b.capacity

/-! ## One bucket -/

/-- What a charge takes out of a bucket. -/
def Entry.spent (entry : Entry) (b : Buckets) (cost : Nat) (drain : Bool) (now : Nat) : Nat :=
  (entry.refilled b now).millitokens - (entry.charge b cost drain now).2.millitokens

/-- What a bucket is worth at a reading, in billionths of a thousandth. -/
def Entry.worth (entry : Entry) (b : Buckets) (now : Nat) : Nat :=
  min (b.capacity * second) (entry.millitokens * second + b.refill * (now - entry.lastRefill))

section Refill

variable {b : Buckets} {entry : Entry} {now : Nat}

/-- A refill fills the bucket and keeps no fraction. -/
structure Entry.Filled (entry : Entry) (b : Buckets) (now : Nat) : Prop where
  millitokens : (entry.refilled b now).millitokens = b.capacity
  lastRefill : (entry.refilled b now).lastRefill = now
  earned : b.capacity * second ≤ entry.millitokens * second + b.refill * (now - entry.lastRefill)

/-- A refill below capacity pays for exactly the time by which it moves the instant, and leaves
less than a thousandth unpaid. -/
structure Entry.Earned (entry : Entry) (b : Buckets) (now : Nat) : Prop where
  below : (entry.refilled b now).millitokens < b.capacity
  forward : entry.lastRefill ≤ (entry.refilled b now).lastRefill
  within : (entry.refilled b now).lastRefill ≤ max now entry.lastRefill
  paid : (entry.refilled b now).millitokens * second = entry.millitokens * second +
    b.refill * ((entry.refilled b now).lastRefill - entry.lastRefill)
  fraction : b.refill * (now - (entry.refilled b now).lastRefill) < second

/-- Whole thousandths take whole nanoseconds. -/
theorem Buckets.Exact.nanos (exact : b.Exact) (earned : Nat) :
    b.refill * (earned * second / b.refill) = earned * second :=
  Nat.mul_div_cancel' (Dvd.dvd.mul_left exact.divides earned)

theorem Entry.refilled_filled (full : (entry.refilled b now).millitokens = b.capacity) :
    entry.Filled b now := by
  refine ⟨full, ?_, ?_⟩
  · simp only [refilled] at full ⊢
    rw [if_pos full]
  · simp only [refilled] at full
    have reached : b.capacity ≤ entry.millitokens +
        saturatingMul (now - entry.lastRefill) b.refill / second :=
      le_trans (min_eq_right_iff.mp full) (min_le_left _ _)
    calc
      b.capacity * second ≤ (entry.millitokens +
          saturatingMul (now - entry.lastRefill) b.refill / second) * second :=
        Nat.mul_le_mul_right second reached
      _ = entry.millitokens * second +
          saturatingMul (now - entry.lastRefill) b.refill / second * second := Nat.add_mul _ _ _
      _ ≤ entry.millitokens * second + saturatingMul (now - entry.lastRefill) b.refill :=
        Nat.add_le_add_left (Nat.div_mul_le_self _ _) _
      _ ≤ entry.millitokens * second + (now - entry.lastRefill) * b.refill :=
        Nat.add_le_add_left (min_le_left _ _) _
      _ = entry.millitokens * second + b.refill * (now - entry.lastRefill) := by
        rw [Nat.mul_comm b.refill]

/-- Below capacity nothing was cut off. -/
theorem Entry.refilled_below (exact : b.Exact)
    (below : (entry.refilled b now).millitokens < b.capacity) :
    ∃ earned, earned = (now - entry.lastRefill) * b.refill / second ∧
      (entry.refilled b now).millitokens = entry.millitokens + earned ∧
      (entry.refilled b now).lastRefill = entry.lastRefill + earned * second / b.refill := by
  have wide : b.capacity * second ≤ u64Max := exact.bounded
  have wider : u64Max < u128Max := by decide
  have larger : b.capacity ≤ b.capacity * second := Nat.le_mul_of_pos_right _ (by decide)
  have open_ := below.ne
  simp only [refilled] at below open_ ⊢
  rw [if_neg open_]
  have added : saturatingAdd entry.millitokens
      (saturatingMul (now - entry.lastRefill) b.refill / second) = entry.millitokens +
        saturatingMul (now - entry.lastRefill) b.refill / second := by
    unfold saturatingAdd at below ⊢
    omega
  rw [added] at below ⊢
  have few : saturatingMul (now - entry.lastRefill) b.refill / second < b.capacity := by omega
  have time := (Nat.div_lt_iff_lt_mul (by decide)).mp few
  have exactly : saturatingMul (now - entry.lastRefill) b.refill =
      (now - entry.lastRefill) * b.refill := by
    unfold saturatingMul at time ⊢
    omega
  rw [exactly] at time few below ⊢
  have whole : (now - entry.lastRefill) * b.refill / second * second ≤ u64Max :=
    le_trans (le_trans (Nat.div_mul_le_self _ _) (le_of_lt time)) wide
  have product : saturatingMul ((now - entry.lastRefill) * b.refill / second) second =
      (now - entry.lastRefill) * b.refill / second * second :=
    min_eq_left (le_trans whole (le_of_lt wider))
  have quotient : (now - entry.lastRefill) * b.refill / second * second / b.refill ≤ u64Max :=
    le_trans (Nat.div_le_self _ _) whole
  refine ⟨_, rfl, ?_, ?_⟩
  · exact min_eq_left (le_of_lt (by omega))
  · rw [product, min_eq_left quotient]

theorem Entry.refilled_earned (exact : b.Exact)
    (below : (entry.refilled b now).millitokens < b.capacity) : entry.Earned b now := by
  rcases Entry.refilled_below exact below with ⟨earned, amount, millitokens, lastRefill⟩
  have nanos := exact.nanos earned
  have whole : earned * second ≤ (now - entry.lastRefill) * b.refill := by
    rw [amount]
    exact Nat.div_mul_le_self _ _
  have rest : (now - entry.lastRefill) * b.refill < earned * second + second := by
    rw [amount]
    exact Nat.lt_div_mul_add (by decide)
  have moved : (entry.refilled b now).lastRefill - entry.lastRefill = earned * second / b.refill := by
    rw [lastRefill, Nat.add_sub_cancel_left]
  have inside : earned * second / b.refill ≤ now - entry.lastRefill :=
    Nat.div_le_of_le_mul (by rw [Nat.mul_comm b.refill]; exact whole)
  refine ⟨below, ?_, ?_, ?_, ?_⟩
  · rw [lastRefill]
    exact Nat.le_add_right _ _
  · rw [lastRefill]
    omega
  · rw [moved, nanos, millitokens, Nat.add_mul]
  · have left : now - (entry.refilled b now).lastRefill =
        now - entry.lastRefill - earned * second / b.refill := by
      rw [lastRefill]
      omega
    rw [left, Nat.mul_sub, nanos, Nat.mul_comm b.refill]
    omega

theorem Entry.refilled_le (entry : Entry) (b : Buckets) (now : Nat) :
    (entry.refilled b now).millitokens ≤ b.capacity :=
  min_le_right _ _

end Refill

/-! ## One charge -/

section Step

variable {K : Type} {b : Buckets} {entry : Entry} {cost : Nat} {drain : Bool} {now : Nat}

@[simp]
theorem Entry.charge_lastRefill : (entry.charge b cost drain now).2.lastRefill =
    (entry.refilled b now).lastRefill := by
  simp only [charge]
  split <;> rfl

/-- What is spent and what is left is what the refill gave. -/
theorem Entry.spent_add : entry.spent b cost drain now +
    (entry.charge b cost drain now).2.millitokens = (entry.refilled b now).millitokens := by
  have left : (entry.charge b cost drain now).2.millitokens ≤
      (entry.refilled b now).millitokens := by
    simp only [charge]
    split
    · exact Nat.sub_le _ _
    · exact le_refl _
  exact Nat.sub_add_cancel left

theorem Entry.charge_le : (entry.charge b cost drain now).2.millitokens ≤ b.capacity := calc
  (entry.charge b cost drain now).2.millitokens ≤ entry.spent b cost drain now +
      (entry.charge b cost drain now).2.millitokens := Nat.le_add_left _ _
  _ = (entry.refilled b now).millitokens := spent_add
  _ ≤ b.capacity := entry.refilled_le b now

/-- A charge that costs something never leaves a full bucket. -/
theorem Entry.charge_below (positive : 0 < cost) (small : cost ≤ b.capacity) :
    (entry.charge b cost drain now).2.millitokens < b.capacity := by
  have full := entry.refilled_le b now
  simp only [charge]
  split
  · change (entry.refilled b now).millitokens - cost < b.capacity
    omega
  · next denied =>
    simp only [Bool.or_eq_true, decide_eq_true_eq, not_or, not_le] at denied
    exact lt_of_lt_of_le denied.1 small

/-- What a bucket is worth at a horizon if nothing is cut off. -/
def Entry.value (entry : Entry) (b : Buckets) (horizon : Nat) : Nat :=
  entry.millitokens * second + b.refill * (horizon - entry.lastRefill)

/-- A bucket below capacity is filled by time only. -/
theorem Entry.Filled.late (full : entry.Filled b now) (below : entry.millitokens < b.capacity) :
    entry.lastRefill ≤ now := by
  by_contra early
  have none : now - entry.lastRefill = 0 := by omega
  have earned := full.earned
  rw [none, Nat.mul_zero, Nat.add_zero] at earned
  exact absurd (Nat.le_of_mul_le_mul_right earned (by decide)) (Nat.not_le.mpr below)

/-- Nat subtraction splits at a point between. -/
theorem mul_sub_split (rate : Nat) {first middle last : Nat} (h : first ≤ middle)
    (h' : middle ≤ last) :
    rate * (middle - first) + rate * (last - middle) = rate * (last - first) := by
  rw [← Nat.mul_add]
  congr 1
  omega

/-- A refill moves the instant no further than the horizon and adds no value. -/
theorem Entry.refilled_value (exact : b.Exact) (below : entry.millitokens < b.capacity) {horizon : Nat}
    (inside : now ≤ horizon) (inside' : entry.lastRefill ≤ horizon) :
    (entry.refilled b now).lastRefill ≤ horizon ∧
      (entry.refilled b now).value b horizon ≤ entry.value b horizon := by
  rcases lt_or_eq_of_le (entry.refilled_le b now) with less | full
  · have earned := Entry.refilled_earned exact less
    have moved : (entry.refilled b now).lastRefill ≤ horizon :=
      le_trans earned.within (max_le inside inside')
    refine ⟨moved, le_of_eq ?_⟩
    rw [value, value, earned.paid, Nat.add_assoc, mul_sub_split b.refill earned.forward moved]
  · have filled := Entry.refilled_filled full
    have late := filled.late below
    rw [filled.lastRefill]
    refine ⟨inside, ?_⟩
    rw [value, value, filled.millitokens, filled.lastRefill, ← mul_sub_split b.refill late inside]
    exact (Nat.add_le_add_right filled.earned _).trans_eq (Nat.add_assoc _ _ _)

/-- A charge pays what it spends from the value of the bucket. -/
theorem Entry.charge_value (exact : b.Exact) (below : entry.millitokens < b.capacity) {horizon : Nat}
    (inside : now ≤ horizon) (inside' : entry.lastRefill ≤ horizon) (cost : Nat) (drain : Bool) :
    (entry.charge b cost drain now).2.lastRefill ≤ horizon ∧
      entry.spent b cost drain now * second +
        (entry.charge b cost drain now).2.value b horizon ≤ entry.value b horizon := by
  rcases Entry.refilled_value exact below inside inside' with ⟨moved, value⟩
  rw [charge_lastRefill]
  refine ⟨moved, le_trans (le_of_eq ?_) value⟩
  rw [Entry.value, Entry.value, charge_lastRefill, ← Nat.add_assoc, ← Nat.add_mul, spent_add]

end Step

/-! ## Sequences of charges -/

/-- What a sequence of charges spends of a bucket, and the bucket it leaves. -/
def Entry.pay {K : Type} (entry : Entry) (b : Buckets) : List (Charge K) → Nat × Entry
  | [] => (0, entry)
  | c :: rest =>
      let (total, last) := ((entry.charge b c.cost c.drain c.now).2).pay b rest
      (entry.spent b c.cost c.drain c.now + total, last)

/-- No refill of the sequence reaches the capacity. -/
def Entry.StaysBelow {K : Type} (entry : Entry) (b : Buckets) : List (Charge K) → Prop
  | [] => True
  | c :: rest => (entry.refilled b c.now).millitokens < b.capacity ∧
      ((entry.charge b c.cost c.drain c.now).2).StaysBelow b rest

section Sequence

variable {K : Type} {b : Buckets} {entry : Entry} {charges : List (Charge K)}

theorem Entry.pay_value (exact : b.Exact) (below : entry.millitokens < b.capacity)
    (priced : ∀ c ∈ charges, c.Priced b) {horizon : Nat} (inside : entry.lastRefill ≤ horizon)
    (readings : ∀ c ∈ charges, c.now ≤ horizon) :
    (entry.pay b charges).1 * second ≤ entry.value b horizon := by
  induction charges generalizing entry with
  | nil => simp [pay]
  | cons c charges ih =>
      have price := priced c List.mem_cons_self
      rcases Entry.charge_value exact below (readings c List.mem_cons_self) inside c.cost
        c.drain with ⟨moved, value⟩
      have rest := ih (Entry.charge_below price.1 price.2)
        (fun other member => priced other (List.mem_cons_of_mem c member)) moved
        (fun other member => readings other (List.mem_cons_of_mem c member))
      rw [pay, Nat.add_mul]
      exact le_trans (Nat.add_le_add_left rest _) value

/-- What a bucket is worth with its first refill is what it is worth at the first reading and
what the time from there to the horizon earns. -/
theorem Entry.refilled_worth (exact : b.Exact) {now latest : Nat}
    (inside : now ≤ latest) :
    (entry.refilled b now).value b (max latest (entry.refilled b now).lastRefill) ≤
      entry.worth b now + b.refill * (latest - now) := by
  rcases lt_or_eq_of_le (entry.refilled_le b now) with below | full
  · have earned := Entry.refilled_earned exact below
    rcases Nat.lt_or_ge now entry.lastRefill with early | late
    · -- A late reading: nothing is earned, and the instant stays.
      have stays : (entry.refilled b now).lastRefill = entry.lastRefill := by
        have within := earned.within
        have forward := earned.forward
        omega
      have amount := earned.paid
      rw [stays, Nat.sub_self, Nat.mul_zero, Nat.add_zero] at amount
      have small := Nat.mul_le_mul_right second (le_of_lt below)
      rw [amount] at small
      rw [value, worth, amount, stays, Nat.sub_eq_zero_of_le (le_of_lt early), Nat.mul_zero,
        Nat.add_zero, min_eq_right small]
      refine Nat.add_le_add_left (Nat.mul_le_mul_left b.refill ?_) _
      omega
    · have within : (entry.refilled b now).lastRefill ≤ now := by
        have within := earned.within
        omega
      have small : entry.millitokens * second + b.refill * (now - entry.lastRefill) ≤
          b.capacity * second := by
        have split := mul_sub_split b.refill earned.forward within
        have fraction := earned.fraction
        have paid := earned.paid
        have next := Nat.mul_le_mul_right second (Nat.succ_le_of_lt below)
        rw [Nat.succ_mul] at next
        omega
      rw [worth, min_eq_right small, max_eq_left (le_trans within inside), value, earned.paid,
        Nat.add_assoc, mul_sub_split b.refill earned.forward (le_trans within inside),
        Nat.add_assoc, mul_sub_split b.refill late inside]
  · have filled := Entry.refilled_filled full
    rw [value, worth, filled.millitokens, filled.lastRefill, max_eq_left inside,
      min_eq_left filled.earned]

/-- Whatever the order of the readings, a sequence of charges spends at most what the bucket is
worth at the first of them and what the time from there to the latest one earns. -/
theorem Entry.spends_within (exact : b.Exact) {c : Charge K}
    (priced : ∀ d ∈ c :: charges, d.Priced b) {latest : Nat}
    (readings : ∀ d ∈ c :: charges, d.now ≤ latest) :
    (entry.pay b (c :: charges)).1 * second ≤
      entry.worth b c.now + b.refill * (latest - c.now) := by
  have price := priced c List.mem_cons_self
  refine le_trans ?_ (Entry.refilled_worth exact (readings c List.mem_cons_self))
  have below : (entry.charge b c.cost c.drain c.now).2.millitokens < b.capacity :=
    Entry.charge_below price.1 price.2
  have moved : (entry.charge b c.cost c.drain c.now).2.lastRefill ≤
      max latest (entry.refilled b c.now).lastRefill := by
    rw [Entry.charge_lastRefill]
    exact le_max_right _ _
  have rest := Entry.pay_value exact below
    (fun d member => priced d (List.mem_cons_of_mem c member)) moved
    (fun d member => le_trans (readings d (List.mem_cons_of_mem c member)) (le_max_left _ _))
  rw [pay, Nat.add_mul]
  refine le_trans (Nat.add_le_add_left rest _) (le_of_eq ?_)
  rw [value, value, charge_lastRefill, ← Nat.add_assoc, ← Nat.add_mul, spent_add]

/-- What was earned up to a point of time: everything but a fraction of a thousandth. -/
structure Entry.Earns (entry last : Entry) (b : Buckets) (total horizon : Nat) : Prop where
  forward : entry.lastRefill ≤ last.lastRefill
  within : last.lastRefill ≤ horizon
  paid : (total + last.millitokens) * second = entry.millitokens * second +
    b.refill * (last.lastRefill - entry.lastRefill)
  fraction : b.refill * (horizon - last.lastRefill) < second

/-- One charge earns up to its own reading, or up to the horizon reached before. -/
theorem Entry.charge_earns (exact : b.Exact) {now : Nat}
    (below : (entry.refilled b now).millitokens < b.capacity) {horizon : Nat}
    (inside : entry.lastRefill ≤ horizon)
    (fraction : b.refill * (horizon - entry.lastRefill) < second) (cost : Nat) (drain : Bool) :
    entry.Earns (entry.charge b cost drain now).2 b (entry.spent b cost drain now)
      (max horizon now) := by
  have earned := Entry.refilled_earned exact below
  refine ⟨?_, ?_, ?_, ?_⟩
  · rw [charge_lastRefill]
    exact earned.forward
  · rw [charge_lastRefill]
    have within := earned.within
    omega
  · rw [spent_add, charge_lastRefill]
    exact earned.paid
  · rw [charge_lastRefill]
    rcases Nat.le_total horizon now with later | earlier
    · rw [max_eq_right later]
      exact earned.fraction
    · rw [max_eq_left earlier]
      refine lt_of_le_of_lt (Nat.mul_le_mul_left b.refill ?_) fraction
      exact Nat.sub_le_sub_left earned.forward horizon

theorem Entry.pay_earns (exact : b.Exact) (below : entry.StaysBelow b charges) {horizon : Nat}
    (inside : entry.lastRefill ≤ horizon)
    (fraction : b.refill * (horizon - entry.lastRefill) < second) :
    entry.Earns (entry.pay b charges).2 b (entry.pay b charges).1
      ((charges.map Charge.now).foldl max horizon) := by
  induction charges generalizing entry horizon with
  | nil =>
      refine ⟨le_refl _, inside, ?_, fraction⟩
      simp [pay]
  | cons c charges ih =>
      have first := Entry.charge_earns exact below.1 inside fraction c.cost c.drain
      have rest := ih below.2 first.within first.fraction
      refine ⟨le_trans first.forward rest.forward, rest.within, ?_, rest.fraction⟩
      have paid := rest.paid
      have paid' := first.paid
      rw [Nat.add_mul] at paid paid'
      rw [pay, ← mul_sub_split b.refill first.forward rest.forward, Nat.add_mul, Nat.add_mul]
      simp only at paid ⊢
      omega

/-- Polling loses no fraction: while no refill reaches the capacity, what was spent and what is
left is what one refill over the whole time gives. -/
theorem Entry.earns_exactly (exact : b.Exact) (below : entry.StaysBelow b charges) :
    (entry.pay b charges).1 + (entry.pay b charges).2.millitokens = entry.millitokens +
      b.refill * ((charges.map Charge.now).foldl max entry.lastRefill - entry.lastRefill) / second := by
  have none : b.refill * (entry.lastRefill - entry.lastRefill) < second := by
    rw [Nat.sub_self, Nat.mul_zero]
    decide
  have earns := Entry.pay_earns exact below (le_refl entry.lastRefill) none
  have split := mul_sub_split b.refill earns.forward earns.within
  have paid := earns.paid
  have fraction := earns.fraction
  have more : entry.millitokens * second ≤
      ((entry.pay b charges).1 + (entry.pay b charges).2.millitokens) * second := by
    rw [paid]
    exact Nat.le_add_right _ _
  have grown : entry.millitokens ≤ (entry.pay b charges).1 + (entry.pay b charges).2.millitokens :=
    Nat.le_of_mul_le_mul_right more (by decide)
  rcases Nat.exists_eq_add_of_le grown with ⟨gain, total⟩
  rw [total, Nat.add_mul] at paid
  rw [total, ← split, ← Nat.add_left_cancel paid, Nat.add_comm (gain * second),
    Nat.add_mul_div_right _ _ (by decide), Nat.div_eq_of_lt fraction, Nat.zero_add]

end Sequence

/-! ## The bucket of a key -/

section Keys

variable {K : Type} [DecidableEq K] [Hashable K] {b : Buckets}

/-- The bucket that a charge of a key finds, or opens at the given instant. -/
def Table.opens (t : Table K) (b : Buckets) (key : K) (now : Nat) : Entry :=
  (t.entries[key]?).getD { millitokens := b.start, lastRefill := now, tick := t.tick }

/-- A charge of the key that is not ignored. -/
def Table.Counts (t : Table K) (key : K) (c : Charge K) : Prop :=
  c.key = key ∧ ¬ t.Ignores c

instance (t : Table K) (key : K) (c : Charge K) : Decidable (t.Counts key c) :=
  inferInstanceAs (Decidable (_ ∧ _))

/-- The charges of a key in a run. -/
def Table.follow (t : Table K) (b : Buckets) (key : K) : List (Charge K) → List (Charge K)
  | [] => []
  | c :: rest =>
      match t.charge b c with
      | some (_, next) => (if t.Counts key c then [c] else []) ++ next.follow b key rest
      | none => []

/-- What a key spends in a run. -/
def Table.spentBy (t : Table K) (b : Buckets) (key : K) : List (Charge K) → Nat
  | [] => 0
  | c :: rest =>
      match t.charge b c with
      | some (_, next) =>
          (if t.Counts key c then (t.opens b key c.now).spent b c.cost c.drain c.now else 0) +
            next.spentBy b key rest
      | none => 0

/-- The bucket of a key is not evicted in a run. -/
def Table.Keeps (t : Table K) (b : Buckets) (key : K) : List (Charge K) → Prop
  | [] => True
  | c :: rest => ∀ allowed next, t.charge b c = some (allowed, next) →
      (key ∈ t.entries → key ∈ next.entries) ∧ next.Keeps b key rest

theorem Table.accountOf_isSome (t : Table K) (key : K) :
    (t.accountOf key).isSome = true ↔ key ∈ t.entries := by
  rw [accountOf, Option.isSome_map, Std.HashMap.mem_iff_isSome_getElem?]

/-- A charge evicts no bucket of its own key, and leaves the others as they are. -/
theorem Table.evict_accountOf (t : Table K) (key other : K) :
    (t.evict key).accountOf other = t.accountOf other ∨
      (other ≠ key ∨ key ∉ t.entries) ∧ (t.evict key).accountOf other = none := by
  unfold Table.evict
  split
  · next full =>
    split
    · split
      · next oldest _ =>
        by_cases same : oldest = other
        · refine .inr ⟨?_, ?_⟩
          · exact .inr full.1
          · simp [accountOf, same]
        · refine .inl ?_
          simp [accountOf, Std.HashMap.getElem?_erase, same]
      · exact .inl rfl
    · exact .inl rfl
  · exact .inl rfl

theorem Table.touch_accountOf (t : Table K) (b : Buckets) (c : Charge K) (key : K) :
    (t.touch b c).2.accountOf key = if c.key = key then
      some ((t.opens b c.key c.now).charge b c.cost c.drain c.now).2.account
      else t.accountOf key := by
  simp only [touch, accountOf, opens, Std.HashMap.getElem?_insert, beq_iff_eq]
  split <;> rfl

/-- Buckets with the same credit pay the same and keep the same. -/
theorem Entry.charge_account {entry entry' : Entry} (same : entry.account = entry'.account)
    (cost : Nat) (drain : Bool) (now : Nat) :
    (entry.charge b cost drain now).2.account = (entry'.charge b cost drain now).2.account ∧
      entry.spent b cost drain now = entry'.spent b cost drain now := by
  rcases entry with ⟨_, _, _⟩
  rcases entry' with ⟨_, _, _⟩
  cases same
  refine ⟨?_, ?_⟩
  · simp only [charge, refilled]
    split <;> rfl
  · simp only [spent, charge, refilled]
    split <;> rfl

/-- Buckets with the same credit are opened with the same credit. -/
theorem Table.opens_account {t t' : Table K} {key : K} (same : t.accountOf key = t'.accountOf key)
    (now : Nat) : (t.opens b key now).account = (t'.opens b key now).account := by
  unfold Table.accountOf at same
  unfold Table.opens
  cases found : t.entries[key]? with
  | none =>
      rw [found, Option.map_none] at same
      rw [Option.map_eq_none_iff.mp same.symm]
      rfl
  | some entry =>
      rw [found, Option.map_some] at same
      rcases Option.map_eq_some_iff.mp same.symm with ⟨entry', found', equal⟩
      rw [found']
      exact equal.symm

/-- The bucket after a charge: the one of the key pays, another is kept or evicted. -/
theorem Table.Sound.charge_accountOf {t : Table K} {keys : List K} (sound : t.Sound keys)
    (few : keys.length ≤ tableCapacity) {c : Charge K} {allowed : Bool} {next : Table K}
    (charged : t.charge b c = some (allowed, next)) (key : K) :
    (t.Counts key c ∧ next.accountOf key =
        some ((t.opens b key c.now).charge b c.cost c.drain c.now).2.account) ∨
      (¬ t.Counts key c ∧ (next.accountOf key = t.accountOf key ∨ next.accountOf key = none)) := by
  unfold Table.charge at charged
  by_cases ignored : t.Ignores c
  · rw [if_pos ignored] at charged
    cases charged
    exact .inr ⟨fun counted => counted.2 ignored, .inl rfl⟩
  · rw [if_neg ignored] at charged
    have kept := (Recency.kept_sublist tableCapacity keys c.key).length_le
    rcases (sound.evict c.key).renumber (le_trans kept few) with ⟨middle, done, _, _, accounts⟩
    rw [done] at charged
    have touched : middle.touch b c = (allowed, next) := Option.some.inj charged
    have after := middle.touch_accountOf b c key
    rw [touched] at after
    by_cases mine : c.key = key
    · subst mine
      rw [if_pos rfl] at after
      refine .inl ⟨⟨rfl, ignored⟩, ?_⟩
      have same : middle.accountOf c.key = t.accountOf c.key := by
        rw [accounts]
        rcases t.evict_accountOf c.key c.key with same | ⟨new, gone⟩
        · exact same
        · have absent := new.resolve_left fun other => other rfl
          rw [gone, ← Option.not_isSome_iff_eq_none.mp (mt (t.accountOf_isSome c.key).mp absent)]
      rw [after, (Entry.charge_account (Table.opens_account same c.now) c.cost c.drain c.now).1]
    · rw [if_neg mine, accounts] at after
      refine .inr ⟨fun counted => mine counted.1, ?_⟩
      rw [after]
      exact (t.evict_accountOf c.key key).imp_right And.right

/-- The first bucket of a key in a run: the one it has, or the one its first charge opens. -/
def Table.First (t : Table K) (b : Buckets) (key : K) (charges : List (Charge K))
    (entry : Entry) : Prop :=
  match t.accountOf key with
  | some credit => entry.account = credit
  | none => ∀ c ∈ (t.follow b key charges).head?, entry.account = (b.start, c.now)

theorem Table.First.opens {t : Table K} {key : K} {c : Charge K} {rest : List (Charge K)}
    {charges : List (Charge K)} {entry : Entry} (first : t.First b key charges entry)
    (followed : t.follow b key charges = c :: rest) :
    entry.account = (t.opens b key c.now).account := by
  unfold Table.First Table.accountOf at first
  unfold Table.opens
  cases found : t.entries[key]? with
  | none =>
      rw [found, followed] at first
      exact first c rfl
  | some entry' =>
      rw [found] at first
      exact first

/-- A charge leaves a table that other uses explain. -/
theorem Table.Sound.charge_after {t : Table K} {history : List K}
    (sound : t.Sound (Recency.after tableCapacity history)) (b : Buckets) (c : Charge K) :
    ∃ allowed next, t.charge b c = some (allowed, next) ∧
      ∃ history', next.Sound (Recency.after tableCapacity history') := by
  have few := Recency.after_length tableCapacity (by decide) history
  rcases sound.charge few b c with ⟨allowed, next, charged, sound'⟩
  refine ⟨allowed, next, charged, ?_⟩
  unfold Table.keysAfter at sound'
  split at sound'
  · exact ⟨history, sound'⟩
  · refine ⟨history ++ [c.key], ?_⟩
    rw [Recency.after_append]
    exact sound'

/-- A key that is not evicted pays from one bucket. -/
theorem Table.Sound.pays {t : Table K} {history : List K}
    (sound : t.Sound (Recency.after tableCapacity history)) {key : K}
    {charges : List (Charge K)} (keeps : t.Keeps b key charges) {last : Table K}
    (ran : t.charges b charges = some last) {entry : Entry}
    (first : t.First b key charges entry) :
    t.spentBy b key charges = (entry.pay b (t.follow b key charges)).1 ∧
      (key ∈ t.entries ∨ t.follow b key charges ≠ [] →
        last.accountOf key = some (entry.pay b (t.follow b key charges)).2.account) := by
  induction charges generalizing t history entry with
  | nil =>
      cases ran
      refine ⟨rfl, fun used => ?_⟩
      have present := used.resolve_right fun some => some rfl
      rcases Option.isSome_iff_exists.mp ((last.accountOf_isSome key).mpr present) with ⟨credit, found⟩
      unfold Table.First at first
      rw [found] at first
      rw [found, ← first]
      rfl
  | cons c charges ih =>
      have few := Recency.after_length tableCapacity (by decide) history
      rcases sound.charge_after b c with ⟨allowed, next, charged, history', sound'⟩
      rcases keeps allowed next charged with ⟨present, keeps'⟩
      simp only [Table.charges, charged, Option.bind_eq_bind, Option.bind_some] at ran
      have step := sound.charge_accountOf few charged key
      simp only [Table.spentBy, Table.follow, charged]
      rcases step with ⟨counted, paid⟩ | ⟨other, kept⟩
      · -- The charge of the key: the next bucket is the paid one.
        have followed : t.follow b key (c :: charges) = c :: next.follow b key charges := by
          simp only [Table.follow, charged, if_pos counted, List.singleton_append]
        have found := first.opens followed
        have both := Entry.charge_account (b := b) found c.cost c.drain c.now
        have first' : next.First b key charges (entry.charge b c.cost c.drain c.now).2 := by
          unfold Table.First
          rw [paid]
          exact both.1
        rcases ih sound' keeps' ran first' with ⟨spent, left⟩
        rw [if_pos counted, if_pos counted, List.singleton_append, Entry.pay, both.2, spent]
        exact ⟨rfl, fun _ => left (.inl ((next.accountOf_isSome key).mp (by rw [paid]; rfl)))⟩
      · have first' : next.First b key charges entry := by
          unfold Table.First at first ⊢
          simp only [Table.follow, charged, if_neg other, List.nil_append] at first
          cases found : t.accountOf key with
          | none =>
              rw [found] at first kept
              rw [or_self] at kept
              rw [kept]
              exact first
          | some credit =>
              rw [found] at first kept
              have here : key ∈ next.entries := by
                refine present ((t.accountOf_isSome key).mp ?_)
                rw [found]
                rfl
              have there := (next.accountOf_isSome key).mpr here
              rcases kept with same | gone
              · rw [same]
                exact first
              · rw [gone] at there
                cases there
        rcases ih sound' keeps' ran first' with ⟨spent, left⟩
        rw [if_neg other, if_neg other, Nat.zero_add, List.nil_append]
        exact ⟨spent, fun used => left (used.imp_left present)⟩

/-- No bucket holds more than the capacity. -/
def Table.Capped (t : Table K) (b : Buckets) : Prop :=
  ∀ key, ∀ credit ∈ t.accountOf key, credit.1 ≤ b.capacity

theorem Table.Sound.capped {t : Table K} {history : List K}
    (sound : t.Sound (Recency.after tableCapacity history)) (capped : t.Capped b)
    {charges : List (Charge K)} {last : Table K} (ran : t.charges b charges = some last) :
    last.Capped b := by
  induction charges generalizing t history with
  | nil =>
      cases ran
      exact capped
  | cons c charges ih =>
      have few := Recency.after_length tableCapacity (by decide) history
      rcases sound.charge_after b c with ⟨allowed, next, charged, history', sound'⟩
      simp only [Table.charges, charged, Option.bind_eq_bind, Option.bind_some] at ran
      refine ih sound' (fun key credit found => ?_) ran
      rcases sound.charge_accountOf few charged key with ⟨_, paid⟩ | ⟨_, same | gone⟩
      · rw [paid] at found
        cases found
        exact Entry.charge_le
      · rw [same] at found
        exact capped key credit found
      · rw [gone] at found
        cases found

/-- What holds of the credit of every key in a run from one table to another. -/
structure Table.Credited (t : Table K) (b : Buckets) (charges : List (Charge K))
    (last : Table K) : Prop where
  /-- No bucket of the table reached holds more than the capacity. -/
  capped : ∀ (key : K) (entry : Entry), last.entries[key]? = some entry → entry.millitokens ≤ b.capacity
  /-- A bucket that is not evicted spends at most its credit at the first charge and what the
  time between the earliest and the latest instant earns. -/
  spends : ∀ key, t.Keeps b key charges → ∀ c rest, t.follow b key charges = c :: rest →
    ∀ earliest latest, (∀ d ∈ c :: rest, earliest ≤ d.now ∧ d.now ≤ latest) →
      t.spentBy b key charges * second ≤
        (t.opens b key c.now).worth b c.now + b.refill * (latest - earliest)
  /-- A bucket that the run opens begins with the start credit. -/
  opened : ∀ key now, key ∉ t.entries → (t.opens b key now).worth b now = b.start * second
  /-- A key without charge spends nothing. -/
  idle : ∀ key, t.follow b key charges = [] → t.spentBy b key charges = 0
  /-- While no refill reaches the capacity, what was spent and what is left is the first credit
  and one refill over the whole time. -/
  polls : ∀ key, t.Keeps b key charges → ∀ c rest, t.follow b key charges = c :: rest →
    (t.opens b key c.now).StaysBelow b (c :: rest) → ∃ entry, last.entries[key]? = some entry ∧
      t.spentBy b key charges + entry.millitokens = (t.opens b key c.now).millitokens +
        b.refill * (((c :: rest).map Charge.now).foldl max (t.opens b key c.now).lastRefill -
          (t.opens b key c.now).lastRefill) / second

theorem Table.First.of_opens (t : Table K) (b : Buckets) {key : K} {c : Charge K}
    {rest charges : List (Charge K)} (followed : t.follow b key charges = c :: rest) :
    t.First b key charges (t.opens b key c.now) := by
  unfold Table.First Table.accountOf Table.opens
  cases t.entries[key]? with
  | none =>
      rw [followed]
      intro d first
      cases first
      rfl
  | some entry => rfl

/-- The charges that are followed are charges of the run. -/
theorem Table.mem_follow {t : Table K} {key : K} {charges : List (Charge K)} {c : Charge K}
    (member : c ∈ t.follow b key charges) : c ∈ charges := by
  induction charges generalizing t with
  | nil => exact member
  | cons d charges ih =>
      rw [Table.follow] at member
      split at member
      · rcases List.mem_append.mp member with here | later
        · split at here
          · rw [List.mem_singleton.mp here]
            exact List.mem_cons_self
          · cases here
        · exact List.mem_cons_of_mem d (ih later)
      · cases member

theorem Table.spentBy_idle {t : Table K} {key : K} {charges : List (Charge K)}
    (idle : t.follow b key charges = []) : t.spentBy b key charges = 0 := by
  induction charges generalizing t with
  | nil => rfl
  | cons c charges ih =>
      rw [Table.follow] at idle
      rw [Table.spentBy]
      split at idle
      · next next charged =>
        rcases List.append_eq_nil_iff.mp idle with ⟨here, later⟩
        have other : ¬ t.Counts key c := by
          intro counted
          rw [if_pos counted] at here
          cases here
        rw [if_neg other, ih later]
      · rfl

/-- A run of charges that cost something, from any table that was reached. -/
theorem Table.Sound.credited (exact : b.Exact) {t : Table K} {history : List K}
    (sound : t.Sound (Recency.after tableCapacity history)) (capped : t.Capped b)
    {charges : List (Charge K)} (priced : ∀ c ∈ charges, c.Priced b) {last : Table K}
    (ran : t.charges b charges = some last) : t.Credited b charges last := by
  refine ⟨?_, ?_, ?_, fun _ => Table.spentBy_idle, ?_⟩
  · intro key entry found
    refine sound.capped capped ran key entry.account ?_
    rw [Table.accountOf, found]
    rfl
  · intro key keeps c rest followed earliest latest readings
    have first := Table.First.of_opens t b followed
    rw [(sound.pays keeps ran first).1, followed]
    have within : ∀ d ∈ c :: rest, d.Priced b := by
      rw [← followed]
      exact fun d member => priced d (Table.mem_follow member)
    refine le_trans (Entry.spends_within exact within fun d member => (readings d member).2) ?_
    refine Nat.add_le_add_left (Nat.mul_le_mul_left b.refill ?_) _
    exact Nat.sub_le_sub_left (readings c List.mem_cons_self).1 latest
  · intro key now absent
    rw [Table.opens, Std.HashMap.getElem?_eq_none absent, Option.getD_none, Entry.worth,
      Nat.sub_self, Nat.mul_zero, Nat.add_zero]
    exact min_eq_right (Nat.mul_le_mul_right second exact.start)
  · intro key keeps c rest followed below
    rcases sound.pays keeps ran (Table.First.of_opens t b followed) with ⟨spent, left⟩
    have used := left (.inr (by rw [followed]; exact List.cons_ne_nil c rest))
    rcases Option.map_eq_some_iff.mp used with ⟨entry, found, account⟩
    refine ⟨entry, found, ?_⟩
    have amount : entry.millitokens =
        ((t.opens b key c.now).pay b (t.follow b key charges)).2.millitokens :=
      congrArg Prod.fst account
    rw [amount, spent, followed]
    exact Entry.earns_exactly exact below

end Keys

/-! ## The tables of the program -/

/-- The source's {lit}`CIRCUIT_CAPACITY`, {lit}`CIRCUIT_START` and {lit}`CIRCUIT_REFILL`. -/
def circuitBuckets : Buckets where
  capacity := 40000
  start := 5000
  refill := 2000

/-- The source's {lit}`PRINCIPAL_PER_MINUTE`. -/
def principalPerMinute : Nat := 30

def principalBuckets : Buckets where
  capacity := principalPerMinute * 1000
  start := principalPerMinute * 1000
  refill := principalPerMinute * 1000 / 60

inductive Peer where
  | localhost
  | circuit (id : UInt32)
  deriving DecidableEq, Repr

inductive RequestClass where
  | get
  | authenticatedAction
  | anonymousAction
  | passwordHash
  deriving DecidableEq, Repr

def RequestClass.cost : RequestClass → Nat
  | get => 1
  | authenticatedAction => 5
  | anonymousAction => 10
  | passwordHash => 20

/-- The bucket tables of the source's {lit}`AdmissionLimits`. -/
structure AdmissionLimits where
  circuits : Table UInt32
  principals : Table String

namespace AdmissionLimits

def new : AdmissionLimits where
  circuits := Table.empty
  principals := Table.empty

def chargeCircuit (limits : AdmissionLimits) (peer : Peer) (kind : RequestClass) (now : Nat) :
    Option (Bool × AdmissionLimits) :=
  match peer with
  | .localhost => some (true, limits)
  | .circuit id => do
      let (allowed, circuits) ← limits.circuits.charge circuitBuckets
        { key := id, cost := kind.cost * 1000, drain := false, now := now }
      return (allowed, { limits with circuits := circuits })

def failedSession (limits : AdmissionLimits) (peer : Peer) (now : Nat) : Option AdmissionLimits :=
  match peer with
  | .localhost => some limits
  | .circuit id => do
      let (_, circuits) ← limits.circuits.charge circuitBuckets
        { key := id, cost := 20000, drain := true, now := now }
      return { limits with circuits := circuits }

def principalAction (limits : AdmissionLimits) (principal : String) (now : Nat) :
    Option (Bool × AdmissionLimits) := do
  let (allowed, principals) ← limits.principals.charge principalBuckets
    { key := principal, cost := 1000, drain := false, now := now }
  return (allowed, { limits with principals := principals })

end AdmissionLimits

/-- A call that charges a bucket. -/
inductive Call where
  | chargeCircuit (peer : Peer) (kind : RequestClass)
  | failedSession (peer : Peer)
  | principalAction (principal : String)
  deriving DecidableEq, Repr

def AdmissionLimits.call (limits : AdmissionLimits) (now : Nat) : Call → Option AdmissionLimits
  | .chargeCircuit peer kind => (limits.chargeCircuit peer kind now).map Prod.snd
  | .failedSession peer => limits.failedSession peer now
  | .principalAction principal => (limits.principalAction principal now).map Prod.snd

/-- A sequence of calls at any instants. -/
def AdmissionLimits.calls (limits : AdmissionLimits) : List (Call × Nat) → Option AdmissionLimits
  | [] => some limits
  | (c, now) :: rest => do
      let limits ← limits.call now c
      limits.calls rest

/-- The charges of circuits among the calls. -/
def circuitCharge (c : Call × Nat) : Option (Charge UInt32) :=
  match c.1 with
  | .chargeCircuit (.circuit id) kind => some ⟨id, kind.cost * 1000, false, c.2⟩
  | .failedSession (.circuit id) => some ⟨id, 20000, true, c.2⟩
  | _ => none

/-- The charges of principals among the calls. -/
def principalCharge (c : Call × Nat) : Option (Charge String) :=
  match c.1 with
  | .principalAction principal => some ⟨principal, 1000, false, c.2⟩
  | _ => none

theorem circuitBuckets_exact : circuitBuckets.Exact where
  divides := ⟨500000, rfl⟩
  start := by decide
  bounded := by decide

theorem principalBuckets_exact : principalBuckets.Exact where
  divides := ⟨2000000, rfl⟩
  start := by decide
  bounded := by decide

theorem circuitCharge_priced {c : Call × Nat} {charge : Charge UInt32}
    (charged : circuitCharge c = some charge) : charge.Priced circuitBuckets := by
  rcases c with ⟨⟨peer, kind⟩ | ⟨peer⟩ | principal, now⟩
  · cases peer with
    | localhost => cases charged
    | circuit id =>
        cases charged
        cases kind <;> simp [Charge.Priced, circuitBuckets, RequestClass.cost]
  · cases peer with
    | localhost => cases charged
    | circuit id =>
        cases charged
        simp [Charge.Priced, circuitBuckets]
  · cases charged

theorem principalCharge_priced {c : Call × Nat} {charge : Charge String}
    (charged : principalCharge c = some charge) : charge.Priced principalBuckets := by
  rcases c with ⟨⟨peer, kind⟩ | ⟨peer⟩ | principal, now⟩
  · cases charged
  · cases charged
  · cases charged
    exact ⟨Nat.succ_pos _, Nat.le_mul_of_pos_left 1000 (Nat.succ_pos _)⟩

/-- Calls run the charges of each table on it alone. -/
theorem AdmissionLimits.calls_eq {limits : AdmissionLimits} {calls : List (Call × Nat)}
    {circuits : Table UInt32} {principals : Table String}
    (ran : limits.circuits.charges circuitBuckets (calls.filterMap circuitCharge) = some circuits)
    (ran' : limits.principals.charges principalBuckets (calls.filterMap principalCharge) =
      some principals) :
    limits.calls calls = some ⟨circuits, principals⟩ := by
  induction calls generalizing limits with
  | nil =>
      cases ran
      cases ran'
      rfl
  | cons c calls ih =>
      rcases c with ⟨⟨peer, kind⟩ | ⟨peer⟩ | principal, now⟩
      · cases peer with
        | localhost => exact ih ran ran'
        | circuit id =>
            rcases Option.bind_eq_some_iff.mp ran with ⟨⟨allowed, next⟩, charged, rest⟩
            simp only [AdmissionLimits.calls, call, chargeCircuit, charged, Option.bind_eq_bind, Option.bind_some,
              Option.pure_def, Option.map_some]
            exact ih rest ran'
      · cases peer with
        | localhost => exact ih ran ran'
        | circuit id =>
            rcases Option.bind_eq_some_iff.mp ran with ⟨⟨allowed, next⟩, charged, rest⟩
            simp only [AdmissionLimits.calls, call, failedSession, charged, Option.bind_eq_bind, Option.bind_some,
              Option.pure_def]
            exact ih rest ran'
      · rcases Option.bind_eq_some_iff.mp ran' with ⟨⟨allowed, next⟩, charged, rest⟩
        simp only [AdmissionLimits.calls, call, principalAction, charged, Option.bind_eq_bind, Option.bind_some,
          Option.pure_def, Option.map_some]
        exact ih ran rest

/-- A run of one table succeeds from every table reached, and its credit is bounded. -/
theorem Table.credited_run {K : Type} [DecidableEq K] [Hashable K] {b : Buckets} (exact : b.Exact)
    (before : List (Charge K)) {charges : List (Charge K)} (priced : ∀ c ∈ charges, c.Priced b) :
    ∃ t last, (Table.empty : Table K).charges b before = some t ∧
      t.charges b charges = some last ∧ t.Credited b charges last := by
  have start : (Table.empty : Table K).Sound (Recency.after tableCapacity []) := Table.empty_sound
  have none : (Table.empty : Table K).Capped b := by
    intro key credit found
    simp [Table.accountOf, Table.empty] at found
  rcases start.charges b before with ⟨t, ran, sound⟩
  rcases sound.charges b charges with ⟨last, ran', _⟩
  exact ⟨t, last, ran, ran', sound.credited exact (start.capped none ran) priced ran'⟩

end Noxide.Limiter
