import Noxide.Delivery.Owner
import Noxide.Effects.Moves

/-!
# No two deliveries of one effect

The claim lock is held from the moment the active claims are read until the new one is
marked, so a claim never hands out an effect that a live attempt holds.  A permit comes back
only when an attempt's state is dropped.

Main results:

- Theorem {lit}`claim_excludes`: a claim is not one of the active ones.
- Theorem {lit}`sound_invariant`: what every interleaving keeps in which no attempt is
  dropped while it waits for others to stop.
-/

namespace Noxide.Delivery

open Checked

/-! ## Claims -/

/-- The store hands out none of the effects that it is told are active. -/
theorem claim_excludes {generation contract directory : String} {active skipped : List String}
    {t t' : Effects.EffectTables} {claim : Effects.EffectClaim}
    (h : Effects.claim generation contract directory active skipped t = .ok (some claim, t')) :
    claim.id ∉ active := by
  simp only [Effects.claim, bind_eq_ok] at h
  rcases h with ⟨_, _, runtime, _, _, _, _, _, h⟩
  cases next : Effects.nextClaimable generation t.watermark active skipped t with
  | none =>
      rw [next] at h
      cases h
  | some row =>
      rw [next] at h
      simp only [bind_eq_ok] at h
      rcases h with ⟨t₁, _, attempts, _, old, _, _, _, lease, _, ⟨changed, t₂⟩, _, _, _, h⟩
      cases h
      have claimable := (Effects.nextClaimable_some next).2
      simp only [Effects.OutboxRow.claimable, decide_eq_true_eq] at claimable
      exact claimable.2.2.1

/-! ## Entries -/

/-- The entry of an attempt, until it is gone. -/
def Attempt.entry (attempt : Attempt) : Option (Nat × Option String) :=
  if attempt.phase = .gone then none else some (attempt.serial, attempt.claimed)

def Attempt.weight (attempt : Attempt) : Int :=
  if attempt.holdsPermit = true then 1 else 0

/-- Two attempts that are not gone have different serials. -/
def Apart (a b : Attempt) : Prop :=
  a.phase ≠ .gone → b.phase ≠ .gone → a.serial ≠ b.serial

/-- What the claim lock gives its one holder: the claims it read are all that are active. -/
structure Exclusive (attempts : List Attempt) (active : List (Nat × Option String)) (claimLock : Bool) :
    Prop where
  held : ∀ a ∈ attempts, a.locked = true → claimLock = true ∧ a.phase = .running
  alone : ∀ a ∈ attempts, ∀ b ∈ attempts, a.locked = true → b.locked = true → a.serial = b.serial
  asked : ∀ a ∈ attempts, ∀ ids, a.snapshot = some ids → a.locked = true ∧ a.claimed = none
    ∧ ∀ entry ∈ active, ∀ id, entry.2 = some id → id ∈ ids

/-- What every interleaving keeps of the owner: the map has the entries of the attempts that
are not gone, no effect is in two of them, and the permits are with the attempts that were
not confirmed stopped. -/
structure Sound (w : Owner) : Prop where
  serials : w.attempts.Pairwise Apart
  entries : ∀ entry, entry ∈ w.active ↔ some entry ∈ w.attempts.map Attempt.entry
  distinct : ∀ entry ∈ w.active, ∀ other ∈ w.active, ∀ id, entry.2 = some id → other.2 = some id →
    entry.1 = other.1
  permits : (w.permits : Int) + w.starting + (w.attempts.map Attempt.weight).sum = w.concurrency
  stopped : ∀ a ∈ w.attempts, a.holdsPermit = false → a.quiet = true
  kept : ∀ a ∈ w.attempts, a.phase ≠ .abandoned
  exclusive : Exclusive w.attempts w.active w.claimLock

section Entries

variable {a a' : Attempt} {attempts attempts' : List Attempt}

/-- A row of a replaced list satisfies what the replacement and the old rows do. -/
theorem replaced_forall {property : Attempt → Prop} (replaced : Table.Replaced a a' attempts attempts')
    (after : property a') (before : ∀ x ∈ attempts, property x) : ∀ x ∈ attempts', property x := by
  intro x member
  rcases replaced.mem member with rfl | old
  · exact after
  · exact before x old

theorem Apart.symm (a b : Attempt) (h : Apart a b) : Apart b a :=
  fun first second same => h second first same.symm

/-- One holder of the lock stays one holder. -/
theorem alone_replace
    (alone : ∀ a ∈ attempts, ∀ b ∈ attempts, a.locked = true → b.locked = true → a.serial = b.serial)
    (replaced : Table.Replaced a a' attempts attempts') (serial : a'.serial = a.serial)
    (locked : a'.locked = a.locked) :
    ∀ x ∈ attempts', ∀ y ∈ attempts', x.locked = true → y.locked = true → x.serial = y.serial := by
  have here := replaced.mem_before
  intro x member y member' xlocked ylocked
  rcases replaced.mem member with rfl | old
  · rw [locked] at xlocked
    rw [serial]
    rcases replaced.mem member' with rfl | old'
    · exact serial.symm
    · exact alone a here y old' xlocked ylocked
  · rcases replaced.mem member' with rfl | old'
    · rw [locked] at ylocked
      rw [serial]
      exact alone x old a here xlocked ylocked
    · exact alone x old y old' xlocked ylocked

/-- A change that leaves the lock, the snapshot and the claim of an attempt. -/
theorem Exclusive.replace {active : List (Nat × Option String)} {claimLock : Bool}
    (h : Exclusive attempts active claimLock) (replaced : Table.Replaced a a' attempts attempts')
    (serial : a'.serial = a.serial) (locked : a'.locked = a.locked) (snapshot : a'.snapshot = a.snapshot)
    (claimed : a'.claimed = a.claimed) (running : a.locked = true → a'.phase = .running) :
    Exclusive attempts' active claimLock := by
  have here := replaced.mem_before
  refine ⟨replaced_forall replaced ?_ h.held, alone_replace h.alone replaced serial locked,
    replaced_forall replaced ?_ h.asked⟩
  · intro held
    rw [locked] at held
    exact ⟨(h.held a here held).1, running held⟩
  · intro ids asked
    rw [snapshot] at asked
    rw [locked, claimed]
    exact h.asked a here ids asked

end Entries

/-! ## Steps -/

section Steps

variable {a a' : Attempt} {w : Owner} {attempts : List Attempt}

/-- The others have other serials than an attempt that stays. -/
theorem Sound.apart (h : Sound w) (replaced : Table.Replaced a a' w.attempts attempts)
    (serial : a'.serial = a.serial) (present : a'.phase ≠ .gone → a.phase ≠ .gone) :
    attempts.Pairwise Apart := by
  refine replaced.pairwise Apart.symm h.serials fun x apart first second => ?_
  rw [serial]
  exact apart first (present second)

/-- Any other attempt that is not gone has another serial. -/
theorem Sound.other (h : Sound w) (replaced : Table.Replaced a a' w.attempts attempts)
    (present : a.phase ≠ .gone) {x : Attempt} (member : x ∈ attempts) (still : x.phase ≠ .gone) :
    x = a' ∨ x ∈ w.attempts ∧ x.serial ≠ a.serial := by
  rcases replaced.mem_apart Apart.symm h.serials member with rfl | ⟨old, apart⟩
  · exact Or.inl rfl
  · exact Or.inr ⟨old, apart still present⟩

/-- One attempt changes, with its entry kept: the permits follow its state. -/
theorem Sound.replace (h : Sound w) {permits : Nat} {claimLock : Bool}
    (replaced : Table.Replaced a a' w.attempts attempts) (serial : a'.serial = a.serial)
    (present : a'.phase ≠ .gone → a.phase ≠ .gone) (entry : a'.entry = a.entry)
    (balance : (permits : Int) + a'.weight = w.permits + a.weight)
    (stopped : a'.holdsPermit = false → a'.quiet = true) (kept : a'.phase ≠ .abandoned)
    (exclusive : Exclusive attempts w.active claimLock) :
    Sound { w with attempts := attempts, permits := permits, claimLock := claimLock } := by
  refine ⟨h.apart replaced serial present, fun e => ?_, h.distinct, ?_,
    replaced_forall replaced stopped h.stopped, replaced_forall replaced kept h.kept, exclusive⟩
  · rw [replaced.map_key Attempt.entry entry]
    exact h.entries e
  · have sum := replaced.sum Attempt.weight
    have before := h.permits
    change (permits : Int) + w.starting + (attempts.map Attempt.weight).sum = w.concurrency
    omega

/-- The same for a change that leaves the lock and the claim. -/
theorem Sound.move (h : Sound w) {permits : Nat} (replaced : Table.Replaced a a' w.attempts attempts)
    (serial : a'.serial = a.serial) (claimed : a'.claimed = a.claimed) (locked : a'.locked = a.locked)
    (snapshot : a'.snapshot = a.snapshot) (present : a.phase ≠ .gone) (remains : a'.phase ≠ .gone)
    (running : a.locked = true → a'.phase = .running)
    (balance : (permits : Int) + a'.weight = w.permits + a.weight)
    (stopped : a'.holdsPermit = false → a'.quiet = true) (kept : a'.phase ≠ .abandoned) :
    Sound { w with attempts := attempts, permits := permits } := by
  have entry : a'.entry = a.entry := by
    unfold Attempt.entry
    rw [if_neg present, if_neg remains, serial, claimed]
  exact h.replace replaced serial (fun _ => present) entry balance stopped kept
    (h.exclusive.replace replaced serial locked snapshot claimed running)

theorem Sound.entry_serial (h : Sound w) {entry : Nat × Option String} (member : entry ∈ w.active) :
    ∃ a ∈ w.attempts, a.phase ≠ .gone ∧ entry = (a.serial, a.claimed) := by
  rcases List.mem_map.mp ((h.entries entry).mp member) with ⟨a, here, same⟩
  unfold Attempt.entry at same
  split at same
  · cases same
  · rename_i present
    exact ⟨a, here, present, (Option.some.inj same).symm⟩

theorem Sound.mem_active (h : Sound w) (member : a ∈ w.attempts) (present : a.phase ≠ .gone) :
    (a.serial, a.claimed) ∈ w.active := by
  refine (h.entries _).mpr (List.mem_map.mpr ⟨a, member, ?_⟩)
  unfold Attempt.entry
  rw [if_neg present]

/-! ## Beginning and end -/

theorem Sound.acquire (h : Sound w) (free : 0 < w.permits) :
    Sound { w with permits := w.permits - 1, starting := w.starting + 1 } := by
  refine ⟨h.serials, h.entries, h.distinct, ?_, h.stopped, h.kept, h.exclusive⟩
  have before := h.permits
  change ((w.permits - 1 : Nat) : Int) + (w.starting + 1 : Nat) + (w.attempts.map Attempt.weight).sum
    = w.concurrency
  omega

/-- A serial that no entry has is entered beside the others. -/
theorem mem_enter {serial : Nat} {active : List (Nat × Option String)} {entry : Nat × Option String}
    (unused : ∀ entry ∈ active, entry.1 ≠ serial) :
    entry ∈ enter serial active ↔ entry ∈ active ∨ entry = (serial, none) := by
  unfold enter
  rw [List.mem_append, List.mem_filter, List.mem_singleton]
  constructor
  · rintro (⟨old, _⟩ | new)
    · exact Or.inl old
    · exact Or.inr new
  · rintro (old | new)
    · exact Or.inl ⟨old, decide_eq_true (unused entry old)⟩
    · exact Or.inr new

theorem Sound.register (h : Sound w) (waiting : 0 < w.starting)
    (unused : ∀ entry ∈ w.active, entry.1 ≠ w.next) :
    Sound { w with starting := w.starting - 1, next := w.next + 1, active := enter w.next w.active,
                   attempts := Attempt.fresh w.next :: w.attempts } := by
  refine ⟨?_, fun entry => ?_, fun entry member other member' id same same' => ?_, ?_,
    fun a member => ?_, fun a member => ?_, ⟨fun a member => ?_, fun a member b member' => ?_,
      fun a member ids asked => ?_⟩⟩
  · refine List.pairwise_cons.mpr ⟨fun a member _ present => ?_, h.serials⟩
    exact (unused _ (h.mem_active member present)).symm
  · rw [List.map_cons, List.mem_cons, ← h.entries entry]
    change entry ∈ enter w.next w.active ↔ some entry = some (w.next, none) ∨ entry ∈ w.active
    rw [mem_enter unused, Option.some.injEq, or_comm]
  · rw [mem_enter unused] at member member'
    rcases member with old | rfl
    · rcases member' with old' | rfl
      · exact h.distinct entry old other old' id same same'
      · cases same'
    · cases same
  · have before := h.permits
    change (w.permits : Int) + (w.starting - 1 : Nat) + (1 + (w.attempts.map Attempt.weight).sum)
      = w.concurrency
    omega
  · rcases List.mem_cons.mp member with rfl | old
    · exact fun _ => rfl
    · exact h.stopped a old
  · rcases List.mem_cons.mp member with rfl | old
    · simp [Attempt.fresh]
    · exact h.kept a old
  · rcases List.mem_cons.mp member with rfl | old
    · exact fun locked => by cases locked
    · exact h.exclusive.held a old
  · rcases List.mem_cons.mp member with rfl | old
    · exact fun locked => by cases locked
    · rcases List.mem_cons.mp member' with rfl | old'
      · exact fun _ locked => by cases locked
      · exact h.exclusive.alone a old b old'
  · rcases List.mem_cons.mp member with rfl | old
    · cases asked
    · rcases h.exclusive.asked a old ids asked with ⟨locked, unclaimed, all⟩
      refine ⟨locked, unclaimed, fun entry here id marked => ?_⟩
      rw [mem_enter unused] at here
      rcases here with before | rfl
      · exact all entry before id marked
      · cases marked

/-- An attempt that is refused gives its permit back at once. -/
theorem Sound.refuse (h : Sound w) (waiting : 0 < w.starting) :
    Sound { w with starting := w.starting - 1, permits := w.permits + 1, next := 0 } := by
  refine ⟨h.serials, h.entries, h.distinct, ?_, h.stopped, h.kept, h.exclusive⟩
  have before := h.permits
  change ((w.permits + 1 : Nat) : Int) + (w.starting - 1 : Nat) + (w.attempts.map Attempt.weight).sum
    = w.concurrency
  omega

/-- The last step of an attempt that stopped: its entry goes. -/
theorem Sound.remove (h : Sound w) (releasing : a.phase = .releasing)
    (replaced : Table.Replaced a { a with phase := .gone } w.attempts attempts) :
    Sound { w with attempts := attempts, active := removeEntry a.serial w.active } := by
  have here := replaced.mem_before
  have fewer : ∀ entry, entry ∈ removeEntry a.serial w.active ↔ entry ∈ w.active ∧ entry.1 ≠ a.serial := by
    intro entry
    unfold removeEntry
    rw [List.mem_filter, decide_eq_true_eq]
  have exclusive := h.exclusive.replace replaced rfl rfl rfl rfl fun locked => by
    have running := (h.exclusive.held a here locked).2
    rw [releasing] at running
    cases running
  have present : a.phase ≠ .gone := by
    rw [releasing]
    simp
  refine ⟨h.apart replaced rfl fun _ => present, fun entry => ?_,
    fun entry member other member' => ?_, ?_, replaced_forall replaced ?_ h.stopped,
    replaced_forall replaced (by simp) h.kept, ⟨exclusive.held, exclusive.alone, fun x member ids asked => ?_⟩⟩
  · rw [fewer]
    constructor
    · rintro ⟨member, other⟩
      rcases h.entry_serial member with ⟨x, inside, present, rfl⟩
      rcases replaced.mem_old inside with rfl | still
      · exact absurd rfl other
      · refine List.mem_map.mpr ⟨x, still, ?_⟩
        unfold Attempt.entry
        rw [if_neg present]
    · intro member
      rcases List.mem_map.mp member with ⟨x, inside, same⟩
      unfold Attempt.entry at same
      split at same
      · cases same
      · rename_i still
        cases Option.some.inj same
        rcases h.other replaced present inside still with rfl | ⟨old, other⟩
        · exact absurd rfl still
        · exact ⟨h.mem_active old still, other⟩
  · exact h.distinct entry ((fewer entry).mp member).1 other ((fewer other).mp member').1
  · have sum := replaced.sum Attempt.weight
    have before := h.permits
    have same : ({ a with phase := .gone } : Attempt).weight = a.weight := by
      simp [Attempt.weight, Attempt.holdsPermit, releasing]
    change (w.permits : Int) + w.starting + (attempts.map Attempt.weight).sum = w.concurrency
    omega
  · intro _
    have quiet := h.stopped a here (by simp [Attempt.holdsPermit, releasing])
    exact quiet
  · rcases exclusive.asked x member ids asked with ⟨locked, unclaimed, all⟩
    exact ⟨locked, unclaimed, fun entry inside => all entry ((fewer entry).mp inside).1⟩

/-! ## Claims under the lock -/

/-- Any other holder of the lock has another serial. -/
theorem Sound.other_locked (h : Sound w) (replaced : Table.Replaced a a' w.attempts attempts)
    (held : a.locked = true) {x : Attempt} (member : x ∈ attempts) (locked : x.locked = true) :
    x = a' ∨ x ∈ w.attempts ∧ x.serial ≠ a.serial := by
  have running := (h.exclusive.held a replaced.mem_before held).2
  rcases replaced.mem member with rfl | old
  · exact Or.inl rfl
  · have running' := (h.exclusive.held x old locked).2
    exact h.other replaced (by simp [running]) member (by simp [running'])

theorem Sound.lock (h : Sound w) (running : a.phase = .running) (free : w.claimLock = false)
    (replaced : Table.Replaced a { a with locked := true } w.attempts attempts) :
    Sound { w with attempts := attempts, claimLock := true } := by
  have unlocked : ∀ x ∈ w.attempts, x.locked = false := by
    intro x member
    by_contra locked
    rw [Bool.not_eq_false] at locked
    have held := (h.exclusive.held x member locked).1
    rw [free] at held
    cases held
  have here := replaced.mem_before
  refine h.replace replaced rfl (fun present => present) rfl rfl (h.stopped a here) (h.kept a here)
    ⟨replaced_forall replaced (fun _ => ⟨rfl, running⟩) fun x member locked => ?_,
      fun x member y member' xlocked ylocked => ?_, replaced_forall replaced (fun ids asked => ?_)
        fun x member ids asked => ?_⟩
  · rw [unlocked x member] at locked
    cases locked
  · rcases replaced.mem member with rfl | old
    · rcases replaced.mem member' with rfl | old'
      · rfl
      · rw [unlocked y old'] at ylocked
        cases ylocked
    · rw [unlocked x old] at xlocked
      cases xlocked
  · have before := h.exclusive.asked a here ids asked
    exact ⟨rfl, before.2⟩
  · exact h.exclusive.asked x member ids asked

theorem Sound.unlock (h : Sound w) (held : a.locked = true)
    (replaced : Table.Replaced a { a with locked := false, snapshot := none } w.attempts attempts) :
    Sound { w with attempts := attempts, claimLock := false } := by
  have here := replaced.mem_before
  have unlocked : ∀ x ∈ attempts, x.locked = false := by
    intro x member
    by_contra locked
    rw [Bool.not_eq_false] at locked
    rcases h.other_locked replaced held member locked with rfl | ⟨old, other⟩
    · cases locked
    · exact other (h.exclusive.alone x old a here locked held)
  refine h.replace replaced rfl (fun present => present) rfl rfl (h.stopped a here) (h.kept a here)
    ⟨fun x member locked => ?_, fun x member y _ locked => ?_, fun x member ids asked => ?_⟩
  · rw [unlocked x member] at locked
    cases locked
  · rw [unlocked x member] at locked
    cases locked
  · rcases replaced.mem member with rfl | old
    · cases asked
    · have locked := (h.exclusive.asked x old ids asked).1
      rw [unlocked x member] at locked
      cases locked

theorem Sound.snapshot (h : Sound w) (held : a.locked = true) (unclaimed : a.claimed = none)
    (replaced : Table.Replaced a { a with snapshot := some w.activeClaims } w.attempts attempts) :
    Sound { w with attempts := attempts } := by
  have here := replaced.mem_before
  refine h.replace replaced rfl (fun present => present) rfl rfl (h.stopped a here) (h.kept a here)
    ⟨replaced_forall replaced (h.exclusive.held a here) h.exclusive.held,
      alone_replace h.exclusive.alone replaced rfl rfl,
      replaced_forall replaced (fun ids asked => ?_) h.exclusive.asked⟩
  cases asked
  refine ⟨held, unclaimed, fun entry inside id marked => ?_⟩
  exact List.mem_filterMap.mpr ⟨entry, inside, marked⟩

theorem mem_markClaim {serial : Nat} {id : String} {active : List (Nat × Option String)}
    {entry : Nat × Option String} : entry ∈ markClaim serial id active
      ↔ (entry ∈ active ∧ entry.1 ≠ serial) ∨ (entry = (serial, some id) ∧ ∃ old ∈ active, old.1 = serial) := by
  unfold markClaim
  rw [List.mem_map]
  constructor
  · rintro ⟨old, member, rfl⟩
    by_cases same : old.1 = serial
    · rw [if_pos same]
      exact Or.inr ⟨rfl, old, member, same⟩
    · rw [if_neg same]
      exact Or.inl ⟨member, same⟩
  · rintro (⟨member, other⟩ | ⟨rfl, old, member, same⟩)
    · exact ⟨entry, member, if_neg other⟩
    · exact ⟨old, member, if_pos same⟩

/-- A claim of an effect that no entry has. -/
theorem Sound.claim (h : Sound w) {ids : List String} {id : String} (asked : a.snapshot = some ids)
    (fresh : id ∉ ids)
    (replaced : Table.Replaced a { a with claimed := some id, snapshot := none } w.attempts attempts) :
    Sound { w with attempts := attempts, active := markClaim a.serial id w.active } := by
  have here := replaced.mem_before
  rcases h.exclusive.asked a here ids asked with ⟨held, _, all⟩
  have running := (h.exclusive.held a here held).2
  have present : a.phase ≠ .gone := by
    rw [running]
    simp
  have own := h.mem_active here present
  have unmarked : ∀ entry ∈ w.active, entry.2 ≠ some id := fun entry member marked =>
    fresh (all entry member id marked)
  refine ⟨h.apart replaced rfl fun _ => present, fun entry => ?_,
    fun entry member other member' id' same same' => ?_, ?_, replaced_forall replaced (h.stopped a here) h.stopped,
    replaced_forall replaced (h.kept a here) h.kept,
    ⟨replaced_forall replaced (h.exclusive.held a here) h.exclusive.held,
      alone_replace h.exclusive.alone replaced rfl rfl, fun x member others asks => ?_⟩⟩
  · rw [mem_markClaim]
    constructor
    · rintro (⟨member, other⟩ | ⟨rfl, _⟩)
      · rcases h.entry_serial member with ⟨x, inside, still, rfl⟩
        rcases replaced.mem_old inside with rfl | kept
        · exact absurd rfl other
        · refine List.mem_map.mpr ⟨x, kept, ?_⟩
          unfold Attempt.entry
          rw [if_neg still]
      · refine List.mem_map.mpr ⟨_, replaced.mem_after, ?_⟩
        unfold Attempt.entry
        rw [if_neg present]
    · intro member
      rcases List.mem_map.mp member with ⟨x, inside, same⟩
      unfold Attempt.entry at same
      split at same
      · cases same
      · rename_i still
        cases Option.some.inj same
        rcases h.other replaced present inside still with rfl | ⟨old, other⟩
        · exact Or.inr ⟨rfl, _, own, rfl⟩
        · exact Or.inl ⟨h.mem_active old still, other⟩
  · rw [mem_markClaim] at member member'
    rcases member with ⟨old, _⟩ | ⟨rfl, _⟩
    · rcases member' with ⟨old', _⟩ | ⟨rfl, _⟩
      · exact h.distinct entry old other old' id' same same'
      · cases same'
        exact absurd same (unmarked entry old)
    · rcases member' with ⟨old', _⟩ | ⟨rfl, _⟩
      · cases same
        exact absurd same' (unmarked other old')
      · rfl
  · have sum := replaced.sum Attempt.weight
    have before := h.permits
    have weight : ({ a with claimed := some id, snapshot := none } : Attempt).weight = a.weight := rfl
    change (w.permits : Int) + w.starting + (attempts.map Attempt.weight).sum = w.concurrency
    omega
  · rcases replaced.mem member with rfl | old
    · cases asks
    · have locked := (h.exclusive.asked x old others asks).1
      rcases h.other_locked replaced held member locked with rfl | ⟨_, other⟩
      · cases asks
      · exact absurd (h.exclusive.alone x old a here locked held) other

/-! ## Every step -/

/-- An attempt that somebody still works for was not confirmed stopped. -/
theorem Sound.holds_of_loud (h : Sound w) (member : a ∈ w.attempts) (loud : a.quiet = false) :
    a.holdsPermit = true := by
  cases held : a.holdsPermit with
  | true => rfl
  | false =>
      have quiet := h.stopped a member held
      rw [loud] at quiet
      cases quiet

theorem present_of_holds (held : a.holdsPermit = true) : a.phase ≠ .gone := by
  intro gone
  simp [Attempt.holdsPermit, gone] at held

/-- The holders of an attempt's request token change, while it is not confirmed stopped. -/
theorem Sound.count (h : Sound w) {holds tokens : Nat} (held : a.holdsPermit = true)
    (replaced : Table.Replaced a { a with holds := holds, tokens := tokens } w.attempts attempts) :
    Sound { w with attempts := attempts } := by
  have here := replaced.mem_before
  refine h.move replaced rfl rfl rfl rfl (present_of_holds held) (present_of_holds held)
    (fun locked => (h.exclusive.held a here locked).2) rfl (fun released => ?_) (h.kept a here)
  have same : a.holdsPermit = false := released
  rw [held] at same
  cases same

/-- An attempt that holds its permit goes on with it. -/
theorem Sound.advance (h : Sound w) {phase : Phase} {cancelled : Bool} (held : a.holdsPermit = true)
    (holds : ({ a with phase := phase, cancelled := cancelled } : Attempt).holdsPermit = true)
    (unlocked : a.locked = false) (kept : phase ≠ .abandoned)
    (replaced : Table.Replaced a { a with phase := phase, cancelled := cancelled } w.attempts attempts) :
    Sound { w with attempts := attempts } := by
  refine h.move replaced rfl rfl rfl rfl (present_of_holds held) (present_of_holds holds)
    (fun locked => ?_) ?_ (fun released => ?_) kept
  · rw [unlocked] at locked
    cases locked
  · simp only [Attempt.weight, held, holds]
  · rw [holds] at released
    cases released

/-- An attempt that stopped gives its permit back. -/
theorem Sound.giveBack (h : Sound w) (held : a.holdsPermit = true) (unlocked : a.locked = false)
    (quiet : a.quiet = true)
    (replaced : Table.Replaced a { a with phase := .releasing } w.attempts attempts) :
    Sound { w with attempts := attempts, permits := w.permits + 1 } := by
  refine h.move replaced rfl rfl rfl rfl (present_of_holds held) (by simp)
    (fun locked => ?_) ?_ (fun _ => quiet) (by simp)
  · rw [unlocked] at locked
    cases locked
  · have before : a.weight = 1 := if_pos held
    have after : ({ a with phase := .releasing } : Attempt).weight = 0 := rfl
    rw [before, after]
    omega

/-- Only a running attempt has the claim lock. -/
theorem Sound.unlocked (h : Sound w) (member : a ∈ w.attempts) (ended : a.phase ≠ .running) :
    a.locked = false := by
  by_contra locked
  rw [Bool.not_eq_false] at locked
  exact ended (h.exclusive.held a member locked).2

theorem holds_of_waiting (waiting : a.phase = .finishing ∨ a.phase = .cleaning) :
    a.holdsPermit = true ∧ a.phase ≠ .running := by
  rcases waiting with phase | phase <;> simp [Attempt.holdsPermit, phase]

theorem holds_of_running (running : a.phase = .running) : a.holdsPermit = true := by
  simp [Attempt.holdsPermit, running]

theorem loud_of_tokens (held : 0 < a.tokens) : a.quiet = false := by
  unfold Attempt.quiet
  rw [decide_eq_false_iff_not]
  omega

theorem loud_of_holds (held : 0 < a.holds) : a.quiet = false := by
  unfold Attempt.quiet
  rw [decide_eq_false_iff_not]
  omega

/-- No attempt is dropped while it waits for others to stop, and no serial is used again while
its entry is there. -/
def orderly (w : Owner) : Operation → Prop
  | .register => ∀ entry ∈ w.active, entry.1 ≠ w.next
  | .abandon a => a.quiet = true
  | _ => True

theorem Sound.step {w' : Owner} {operation : Operation} (h : Sound w) (allowed : orderly w operation)
    (step : Step operation w w') : Sound w' := by
  cases step with
  | acquire _ free => exact h.acquire free
  | registered _ waiting serial => exact h.register waiting allowed
  | exhausted _ waiting last => exact h.refuse waiting
  | lock a _ attempts running free replaced => exact h.lock running free replaced
  | unlock a _ attempts held replaced => exact h.unlock held replaced
  | snapshot a _ attempts held unclaimed replaced => exact h.snapshot held unclaimed replaced
  | claim a _ attempts active asked generation contract directory skipped t t' claim ran replaced =>
      exact h.claim asked (claim_excludes ran) replaced
  | work a _ member running => exact h
  | share a _ attempts held replaced =>
      rcases held with running | loud
      · exact h.count (holds_of_running running) replaced
      · exact h.count (h.holds_of_loud replaced.mem_before loud) replaced
  | release a _ attempts held replaced =>
      exact h.count (h.holds_of_loud replaced.mem_before (loud_of_tokens held)) replaced
  | hold a _ attempts running replaced => exact h.count (holds_of_running running) replaced
  | unhold a _ attempts held others replaced =>
      exact h.count (h.holds_of_loud replaced.mem_before (loud_of_holds held)) replaced
  | unholdLast a _ attempts last abandoned replaced => exact absurd abandoned (h.kept a replaced.mem_before)
  | finish a _ attempts running unlocked replaced =>
      exact h.advance (holds_of_running running) rfl unlocked (by simp) replaced
  | cancel a _ attempts running unlocked replaced =>
      exact h.advance (holds_of_running running) rfl unlocked (by simp) replaced
  | abandon a _ attempts finishing alone replaced =>
      rcases holds_of_waiting (Or.inl finishing) with ⟨held, ended⟩
      exact h.giveBack held (h.unlocked replaced.mem_before ended) allowed replaced
  | abandonShared a _ attempts finishing shared replaced =>
      change a.quiet = true at allowed
      rw [loud_of_holds shared] at allowed
      cases allowed
  | stopped a _ attempts waiting free replaced =>
      rcases holds_of_waiting waiting with ⟨held, ended⟩
      exact h.giveBack held (h.unlocked replaced.mem_before ended) free replaced
  | expired a _ attempts waiting replaced =>
      rcases holds_of_waiting waiting with ⟨held, ended⟩
      exact h.advance held rfl (h.unlocked replaced.mem_before ended) (by simp) replaced
  | remove a _ attempts releasing replaced => exact h.remove releasing replaced

end Steps

end Noxide.Delivery
