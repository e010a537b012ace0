import Noxide.Authority.RateWindow
import Noxide.Library.Recency

/-!
# The bucket table

A table of token buckets, one for each key, of bounded size.  Every charge stamps its key with a
fresh tick; an index from ticks to keys gives the least recently used key, which a new key
evicts from a full table.  Before the ticks run out all entries are renumbered.

Main results:

- Theorem {lit}`Table.Sound.charge`: a charge is one use of its key in a recency list.
- Theorem {lit}`buckets_lru`: entries and index mirror each other, and eviction and renumbering
  follow the order of the last uses, in every run.
-/

namespace Noxide.Limiter

/-! ## Buckets -/

/-- The source's {lit}`TABLE_CAPACITY`. -/
def tableCapacity : Nat := 65536

def u64Max : Nat := 2 ^ 64 - 1

/-- Nanoseconds of a second. -/
def second : Nat := 1000000000

/-- The parameters of a table, in thousandths of a token and thousandths a second. -/
structure Buckets where
  capacity : Nat
  start : Nat
  refill : Nat
  deriving DecidableEq, Repr

structure Entry where
  millitokens : Nat
  lastRefill : Nat
  tick : Nat
  deriving DecidableEq, Repr

/-- Refill an entry.  The instant advances by the time of whole thousandths only, so a fraction
is kept; a full bucket keeps none. -/
def Entry.refilled (entry : Entry) (b : Buckets) (now : Nat) : Entry :=
  let refill := saturatingMul (now - entry.lastRefill) b.refill / second
  let millitokens := min (saturatingAdd entry.millitokens refill) b.capacity
  let lastRefill :=
    if millitokens = b.capacity then now
    else entry.lastRefill + min (saturatingMul refill second / b.refill) u64Max
  { entry with millitokens := millitokens, lastRefill := lastRefill }

/-- Charge an entry: whether it could pay, and what is left.  A drain takes what there is. -/
def Entry.charge (entry : Entry) (b : Buckets) (cost : Nat) (drain : Bool) (now : Nat) :
    Bool × Entry :=
  let entry := entry.refilled b now
  let allowed := decide (cost ≤ entry.millitokens)
  (allowed, if allowed || drain then { entry with millitokens := entry.millitokens - cost }
    else entry)

/-! ## The index -/

section Index

variable {K : Type} (lru : Std.TreeMap Nat K)

@[simp]
theorem lru_erase (tick other : Nat) :
    (lru.erase tick)[other]? = if tick = other then none else lru[other]? := by
  simp [Std.TreeMap.getElem?_erase]

@[simp]
theorem lru_insert (tick other : Nat) (key : K) :
    (lru.insert tick key)[other]? = if tick = other then some key else lru[other]? := by
  simp [Std.TreeMap.getElem?_insert]

end Index

/-- In a list without repetitions a key is at a position exactly when it has that index. -/
theorem getElem?_eq_some_iff_idxOf {K : Type} [DecidableEq K] {keys : List K} (distinct : keys.Nodup) (n : Nat) (key : K) :
    keys[n]? = some key ↔ key ∈ keys ∧ keys.idxOf key = n := by
  constructor
  · intro h
    rcases List.getElem?_eq_some_iff.mp h with ⟨inside, rfl⟩
    exact ⟨List.getElem_mem inside, distinct.idxOf_getElem n inside⟩
  · rintro ⟨member, rfl⟩
    rw [List.getElem?_eq_getElem (List.idxOf_lt_length_iff.mpr member), List.getElem_idxOf]

/-! ## The table -/

section Table

variable {K : Type} [DecidableEq K] [Hashable K]

structure Table (K : Type) [DecidableEq K] [Hashable K] where
  entries : Std.HashMap K Entry
  lru : Std.TreeMap Nat K
  tick : Nat

def Table.empty : Table K where
  entries := ∅
  lru := ∅
  tick := 0

/-- A new key at capacity evicts the key of the least tick. -/
def Table.evict (t : Table K) (key : K) : Table K :=
  if key ∉ t.entries ∧ t.entries.size = tableCapacity then
    match t.lru.minKey? with
    | some tick =>
        match t.lru[tick]? with
        | some oldest =>
            { t with entries := t.entries.erase oldest, lru := t.lru.erase tick }
        | none => t
    | none => t
  else
    t

/-- Give a key a tick in both maps; a key without entry is a panic of the source. -/
def Table.place (t : Table K) (key : K) (tick : Nat) : Option (Table K) := do
  let entry ← t.entries[key]?
  return { t with
    entries := t.entries.insert key { entry with tick := tick }
    lru := t.lru.insert tick key }

def Table.placeAll (t : Table K) : List (K × Nat) → Option (Table K)
  | [] => some t
  | (key, tick) :: rest => do
      let t ← t.place key tick
      t.placeAll rest

/-- Renumber before the counter would wrap. -/
def Table.renumber (t : Table K) : Option (Table K) :=
  if t.tick = u64Max then do
    let t ← ({ t with lru := ∅ } : Table K).placeAll (t.lru.toList.map Prod.snd).zipIdx
    return { t with tick := t.entries.size }
  else
    some t

structure Charge (K : Type) where
  key : K
  cost : Nat
  drain : Bool
  now : Nat
  deriving DecidableEq, Repr

/-- Fees drain only buckets that exist. -/
def Table.Ignores (t : Table K) (c : Charge K) : Prop :=
  c.drain = true ∧ c.key ∉ t.entries

instance (t : Table K) (c : Charge K) : Decidable (t.Ignores c) :=
  inferInstanceAs (Decidable (_ ∧ _))

/-- Charge the entry of a key, a new one if it has none, under the next tick. -/
def Table.touch (t : Table K) (b : Buckets) (c : Charge K) : Bool × Table K :=
  let tick := t.tick
  let entry := (t.entries[c.key]?).getD { millitokens := b.start, lastRefill := c.now, tick := tick }
  let charged := entry.charge b c.cost c.drain c.now
  (charged.1, {
    entries := t.entries.insert c.key { charged.2 with tick := tick }
    lru := (t.lru.erase entry.tick).insert tick c.key
    tick := tick + 1 })

/-- The source's {lit}`Buckets::charge`. -/
def Table.charge (t : Table K) (b : Buckets) (c : Charge K) : Option (Bool × Table K) :=
  if t.Ignores c then some (false, t)
  else do
    let t ← (t.evict c.key).renumber
    return t.touch b c

/-- The table after a sequence of charges. -/
def Table.charges (t : Table K) (b : Buckets) : List (Charge K) → Option (Table K)
  | [] => some t
  | c :: rest => do
      let (_, t) ← t.charge b c
      t.charges b rest

/-- The keys that a sequence of charges uses, in order. -/
def Table.uses (t : Table K) (b : Buckets) : List (Charge K) → List K
  | [] => []
  | c :: rest =>
      match t.charge b c with
      | some (_, next) => (if t.Ignores c then [] else [c.key]) ++ next.uses b rest
      | none => []

/-! ## Entries and index -/

def Table.tickOf (t : Table K) (key : K) : Option Nat :=
  (t.entries[key]?).map Entry.tick

/-- The entry map and the index are inverse to each other, every tick is below the next one, and
the keys in the order of their ticks are the given ones. -/
structure Table.Sound (t : Table K) (keys : List K) : Prop where
  linked : ∀ tick key, t.lru[tick]? = some key ↔ t.tickOf key = some tick
  below : ∀ key tick, t.tickOf key = some tick → tick < t.tick
  bound : t.tick ≤ u64Max
  distinct : keys.Nodup
  member : ∀ key, key ∈ keys ↔ (t.tickOf key).isSome = true
  order : keys.Pairwise fun older younger => ∀ first second, t.tickOf older = some first →
    t.tickOf younger = some second → first < second
  size : t.entries.size = keys.length

theorem Table.tickOf_isSome (t : Table K) (key : K) :
    (t.tickOf key).isSome = true ↔ key ∈ t.entries := by
  rw [tickOf, Option.isSome_map, Std.HashMap.mem_iff_isSome_getElem?]

theorem Table.Sound.mem (t : Table K) {keys : List K} (sound : t.Sound keys) (key : K) :
    key ∈ keys ↔ key ∈ t.entries := by
  rw [sound.member, t.tickOf_isSome]

theorem Table.empty_sound : (Table.empty : Table K).Sound [] where
  linked := by
    intro tick key
    simp [empty, tickOf]
  below := by
    intro key tick h
    simp [empty, tickOf] at h
  bound := Nat.zero_le _
  distinct := List.nodup_nil
  member := by
    intro key
    simp [empty, tickOf]
  order := List.Pairwise.nil
  size := rfl

/-! ## Eviction -/

/-- The least tick belongs to the first key. -/
theorem Table.Sound.oldest {t : Table K} {first : K} {rest : List K}
    (sound : t.Sound (first :: rest)) :
    ∃ tick, t.lru.minKey? = some tick ∧ t.lru[tick]? = some first := by
  have present : (t.tickOf first).isSome = true := (sound.member first).mp List.mem_cons_self
  rcases Option.isSome_iff_exists.mp present with ⟨tick, stamped⟩
  have indexed := (sound.linked tick first).mpr stamped
  refine ⟨tick, ?_, indexed⟩
  rw [Std.TreeMap.minKey?_eq_some_iff_mem_and_forall]
  have here : tick ∈ t.lru := by
    rw [Std.TreeMap.mem_iff_isSome_getElem?, indexed]
    rfl
  refine ⟨here, fun other there => ?_⟩
  rw [Std.TreeMap.mem_iff_isSome_getElem?] at there
  rcases Option.isSome_iff_exists.mp there with ⟨key, indexed'⟩
  have stamped' := (sound.linked other key).mp indexed'
  have member : key ∈ first :: rest :=
    (sound.member key).mpr (Option.isSome_iff_exists.mpr ⟨other, stamped'⟩)
  rw [Nat.isLE_compare]
  rcases List.mem_cons.mp member with rfl | member
  · rw [stamped] at stamped'
    cases stamped'
    exact le_refl tick
  · exact le_of_lt ((List.pairwise_cons.mp sound.order).1 key member tick other stamped stamped')

/-- Removing the first key from both maps leaves the others. -/
theorem Table.Sound.dropFirst {t : Table K} {first : K} {rest : List K} {tick : Nat}
    (sound : t.Sound (first :: rest)) (indexed : t.lru[tick]? = some first) :
    ({ t with entries := t.entries.erase first, lru := t.lru.erase tick } : Table K).Sound rest := by
  have stamped := (sound.linked tick first).mp indexed
  have absent : first ∉ rest := (List.nodup_cons.mp sound.distinct).1
  have tickOf : ∀ key, ({ t with entries := t.entries.erase first, lru := t.lru.erase tick } :
      Table K).tickOf key = if first = key then none else t.tickOf key := by
    intro key
    simp only [Table.tickOf, Std.HashMap.getElem?_erase, beq_iff_eq]
    split <;> rfl
  constructor
  · intro other key
    rw [tickOf, lru_erase]
    by_cases same : first = key
    · subst same
      rw [if_pos rfl]
      split
      · simp
      · next different =>
        rw [sound.linked, stamped]
        simpa using different
    · rw [if_neg same]
      split
      · next equal =>
        subst equal
        simp only [reduceCtorEq, false_iff]
        intro other
        rw [← sound.linked, indexed] at other
        exact same (Option.some.inj other)
      · exact sound.linked other key
  · intro key other h
    rw [tickOf] at h
    split at h
    · cases h
    · exact sound.below key other h
  · exact sound.bound
  · exact (List.nodup_cons.mp sound.distinct).2
  · intro key
    rw [tickOf]
    by_cases same : first = key
    · subst same
      simpa using absent
    · rw [if_neg same, ← sound.member, List.mem_cons]
      exact ⟨Or.inr, fun h => h.resolve_left (Ne.symm same)⟩
  · have order := (List.pairwise_cons.mp sound.order).2
    refine order.imp fun related a b h h' => ?_
    rw [tickOf] at h h'
    split at h
    · cases h
    · split at h'
      · cases h'
      · exact related a b h h'
  · have here : first ∈ t.entries := (sound.mem t first).mp List.mem_cons_self
    rw [Std.HashMap.size_erase, if_pos here, sound.size, List.length_cons, Nat.add_sub_cancel]

/-- A new key at capacity pushes out the first key and no other. -/
theorem Table.Sound.evict {t : Table K} {keys : List K} (sound : t.Sound keys) (key : K) :
    (t.evict key).Sound (Recency.kept tableCapacity keys key) := by
  unfold Table.evict Recency.kept
  have same : (key ∉ t.entries ∧ t.entries.size = tableCapacity) ↔
      (key ∉ keys ∧ keys.length = tableCapacity) := by
    rw [sound.mem t key, sound.size]
  by_cases full : key ∉ keys ∧ keys.length = tableCapacity
  · rw [if_pos (same.mpr full), if_pos full]
    cases keys with
    | nil => exact absurd full.2.symm (by simp [tableCapacity])
    | cons first rest =>
        rcases sound.oldest with ⟨tick, least, indexed⟩
        simp only [least, indexed]
        exact sound.dropFirst indexed
  · rw [if_neg (mt same.mp full), if_neg full]
    exact sound

/-! ## Renumbering -/

/-- Placing distinct keys gives each its position as tick, and changes nothing else. -/
theorem Table.placeAll_spec {keys : List K} (distinct : keys.Nodup) (t : Table K)
    (present : ∀ key ∈ keys, key ∈ t.entries) (first : Nat) :
    ∃ t', t.placeAll (keys.zipIdx first) = some t' ∧ t'.tick = t.tick ∧
      t'.entries.size = t.entries.size ∧
      (∀ n, t'.lru[n]? =
        if first ≤ n ∧ n < first + keys.length then keys[n - first]? else t.lru[n]?) ∧
      ∀ key, t'.entries[key]? = if key ∈ keys then
        (t.entries[key]?).map fun e => { e with tick := first + keys.idxOf key }
        else t.entries[key]? := by
  induction keys generalizing t first with
  | nil =>
      refine ⟨t, rfl, rfl, rfl, fun n => ?_, fun key => ?_⟩
      · rw [if_neg (by rw [List.length_nil]; omega)]
      · rw [if_neg List.not_mem_nil]
  | cons head keys ih =>
      have here := present head List.mem_cons_self
      rw [Std.HashMap.mem_iff_isSome_getElem?] at here
      rcases Option.isSome_iff_exists.mp here with ⟨e, found⟩
      rcases List.nodup_cons.mp distinct with ⟨absent, distinct'⟩
      have retained : ∀ key ∈ keys, key ∈ t.entries.insert head { e with tick := first } := by
        intro key member
        rw [Std.HashMap.mem_insert]
        exact Or.inr (present key (List.mem_cons_of_mem head member))
      rcases ih distinct' { t with
        entries := t.entries.insert head { e with tick := first }
        lru := t.lru.insert first head } retained (first + 1) with ⟨t', placed, tick, size, index, entries⟩
      refine ⟨t', ?_, tick, ?_, fun n => ?_, fun key => ?_⟩
      · simp only [List.zipIdx_cons, placeAll, place, found]
        exact placed
      · rw [size, Std.HashMap.size_insert, if_pos (present head List.mem_cons_self)]
      · rw [index n, lru_insert]
        rcases Nat.lt_trichotomy n first with before | rfl | later
        · rw [if_neg (by omega), if_neg (by omega), if_neg (by omega)]
        · rw [if_neg (by omega), if_pos rfl, if_pos (by simp)]
          simp
        · have position : n - first = (n - (first + 1)) + 1 := by omega
          rw [List.length_cons, position, List.getElem?_cons_succ, if_neg (by omega : ¬ first = n)]
          by_cases inside : n < first + 1 + keys.length
          · rw [if_pos (by omega), if_pos (by omega)]
          · rw [if_neg (by omega), if_neg (by omega)]
      · rw [entries key, Std.HashMap.getElem?_insert]
        by_cases same : head = key
        · subst same
          rw [if_neg absent, if_pos (by simp), if_pos List.mem_cons_self, found]
          simp
        · have other : ¬ (head == key) = true := by simpa using same
          by_cases member : key ∈ keys
          · rw [if_pos member, if_pos (List.mem_cons_of_mem head member), if_neg other,
              List.idxOf_cons_ne keys same]
            simp only [Nat.succ_eq_add_one, Nat.add_assoc, Nat.add_comm 1]
          · rw [if_neg member, if_neg other, if_neg]
            rw [List.mem_cons]
            exact not_or.mpr ⟨Ne.symm same, member⟩

/-- The values of the index in the order of the ticks are the keys in order. -/
theorem Table.Sound.values {t : Table K} {keys : List K} (sound : t.Sound keys) :
    t.lru.toList.map Prod.snd = keys := by
  have indexed : ∀ pair ∈ t.lru.toList, t.tickOf pair.2 = some pair.1 := by
    intro pair member
    rw [← sound.linked]
    exact Std.TreeMap.mem_toList_iff_getElem?_eq_some.mp member
  have order : (t.lru.toList.map Prod.snd).Pairwise fun older younger => ∀ first second,
      t.tickOf older = some first → t.tickOf younger = some second → first < second := by
    rw [List.pairwise_map]
    refine (Std.TreeMap.ordered_keys_toList).imp_of_mem ?_
    intro a b member member' less first second stamped stamped'
    rw [indexed a member] at stamped
    rw [indexed b member'] at stamped'
    cases stamped
    cases stamped'
    exact compare_lt_iff_lt.mp less
  have members : ∀ key, key ∈ t.lru.toList.map Prod.snd ↔ key ∈ keys := by
    intro key
    rw [sound.member, Option.isSome_iff_exists, List.mem_map]
    constructor
    · rintro ⟨pair, member, rfl⟩
      exact ⟨pair.1, indexed pair member⟩
    · rintro ⟨tick, stamped⟩
      refine ⟨(tick, key), Std.TreeMap.mem_toList_iff_getElem?_eq_some.mpr ?_, rfl⟩
      exact (sound.linked tick key).mpr stamped
  have stamped : ∀ key ∈ keys, ∃ tick, t.tickOf key = some tick := fun key member =>
    Option.isSome_iff_exists.mp ((sound.member key).mp member)
  have distinct : (t.lru.toList.map Prod.snd).Nodup := by
    refine order.imp_of_mem fun {a b} member _ related same => ?_
    subst same
    rcases stamped a ((members a).mp member) with ⟨tick, here⟩
    exact absurd (related tick tick here here) (Nat.lt_irrefl tick)
  refine List.Perm.eq_of_pairwise ?_ order sound.order
    ((List.perm_ext_iff_of_nodup distinct sound.distinct).mpr members)
  intro a b member member' related related'
  rcases stamped a ((members a).mp member) with ⟨first, here⟩
  rcases stamped b member' with ⟨second, there⟩
  exact absurd (related first second here there) (Nat.lt_asymm (related' second first there here))

/-- The credit of an entry, whatever its tick. -/
def Entry.account (entry : Entry) : Nat × Nat :=
  (entry.millitokens, entry.lastRefill)

def Table.accountOf (t : Table K) (key : K) : Option (Nat × Nat) :=
  (t.entries[key]?).map Entry.account

/-- Renumbering succeeds, keeps the order and every credit, and leaves room for more ticks. -/
theorem Table.Sound.renumber {t : Table K} {keys : List K} (sound : t.Sound keys)
    (few : keys.length ≤ tableCapacity) :
    ∃ t', t.renumber = some t' ∧ t'.Sound keys ∧ t'.tick < u64Max ∧
      ∀ key, t'.accountOf key = t.accountOf key := by
  unfold Table.renumber
  by_cases last : t.tick = u64Max
  · have present : ∀ key ∈ keys, key ∈ ({ t with lru := ∅ } : Table K).entries := fun key member =>
      (sound.mem t key).mp member
    rcases Table.placeAll_spec sound.distinct { t with lru := ∅ } present 0 with
      ⟨t', placed, _, size, index, entries⟩
    rw [if_pos last, sound.values, placed]
    refine ⟨{ t' with tick := t'.entries.size }, rfl, ?_, ?_, fun key => ?_⟩
    · have tickOf : ∀ key, ({ t' with tick := t'.entries.size } : Table K).tickOf key =
          if key ∈ keys then some (keys.idxOf key) else none := by
        intro key
        rw [Table.tickOf, entries key]
        by_cases member : key ∈ keys
        · rw [if_pos member, if_pos member]
          have here := present key member
          rw [Std.HashMap.mem_iff_isSome_getElem?] at here
          rcases Option.isSome_iff_exists.mp here with ⟨e, found⟩
          rw [found]
          simp
        · rw [if_neg member, if_neg member, Std.HashMap.getElem?_eq_none, Option.map_none]
          exact mt (sound.mem t key).mpr member
      have indexed : ∀ n : Nat, t'.lru[n]? = keys[n]? := by
        intro n
        rw [index n, Nat.sub_zero, Nat.zero_add]
        split
        · rfl
        · next outside =>
          rw [List.getElem?_eq_none (by omega)]
          simp
      have stamped : ∀ key tick, (if key ∈ keys then some (keys.idxOf key) else none) = some tick ↔
          keys[tick]? = some key := by
        intro key tick
        rw [getElem?_eq_some_iff_idxOf sound.distinct]
        split
        · next member => simp [member]
        · next other => simp [other]
      constructor
      · intro tick key
        rw [tickOf, stamped, indexed]
      · intro key tick h
        rw [tickOf, stamped] at h
        have inside := (List.getElem?_eq_some_iff.mp h).1
        rw [← sound.size] at inside
        exact lt_of_lt_of_eq inside size.symm
      · calc
          t'.entries.size = keys.length := size.trans sound.size
          _ ≤ tableCapacity := few
          _ ≤ u64Max := by decide
      · exact sound.distinct
      · intro key
        rw [tickOf]
        split
        · next member => simp [member]
        · next other => simp [other]
      · rw [List.pairwise_iff_getElem]
        intro i j inside inside' less first second h h'
        rw [tickOf, stamped, getElem?_eq_some_iff_idxOf sound.distinct,
          sound.distinct.idxOf_getElem] at h h'
        omega
      · exact size.trans sound.size
    · calc
        t'.entries.size = keys.length := size.trans sound.size
        _ ≤ tableCapacity := few
        _ < u64Max := by decide
    · rw [Table.accountOf, Table.accountOf, entries key]
      split
      · rw [Option.map_map]
        rfl
      · rfl
  · rw [if_neg last]
    exact ⟨t, rfl, sound, lt_of_le_of_ne sound.bound last, fun _ => rfl⟩

/-! ## One use -/

theorem Table.touch_tickOf (t : Table K) (b : Buckets) (c : Charge K) (key : K) :
    (t.touch b c).2.tickOf key = if c.key = key then some t.tick else t.tickOf key := by
  simp only [touch, tickOf, Std.HashMap.getElem?_insert, beq_iff_eq]
  split <;> rfl

/-- Touching a key moves it behind all others. -/
theorem Table.Sound.touch {t : Table K} {keys : List K} (sound : t.Sound keys)
    (room : t.tick < u64Max) (b : Buckets) (c : Charge K) :
    (t.touch b c).2.Sound (keys.erase c.key ++ [c.key]) := by
  have old : ((t.entries[c.key]?).getD
      { millitokens := b.start, lastRefill := c.now, tick := t.tick }).tick =
        (t.tickOf c.key).getD t.tick := by
    rw [Table.tickOf]
    cases t.entries[c.key]? <;> rfl
  have others : ∀ key ∈ keys.erase c.key, c.key ≠ key := by
    rintro key member rfl
    exact sound.distinct.not_mem_erase member
  have index : ∀ n, (t.touch b c).2.lru[n]? = if t.tick = n then some c.key
      else if (t.tickOf c.key).getD t.tick = n then none else t.lru[n]? := by
    intro n
    simp only [Table.touch, lru_insert, lru_erase, old]
  constructor
  · intro tick key
    rw [t.touch_tickOf b c, index]
    by_cases new : t.tick = tick
    · subst new
      rw [if_pos rfl]
      by_cases same : c.key = key
      · simp [same]
      · rw [if_neg same]
        constructor
        · intro h
          exact absurd (Option.some.inj h) same
        · intro h
          exact absurd (sound.below key t.tick h) (Nat.lt_irrefl _)
    · rw [if_neg new]
      by_cases same : c.key = key
      · subst same
        rw [if_pos rfl]
        have other : ¬ some t.tick = some tick := fun h => new (Option.some.inj h)
        refine ⟨fun h => ?_, fun h => absurd h other⟩
        split at h
        · cases h
        · next different =>
          rw [sound.linked] at h
          rw [h] at different
          exact absurd rfl different
      · rw [if_neg same]
        split
        · next replaced =>
          constructor
          · intro h
            cases h
          · intro h
            exfalso
            cases current : t.tickOf c.key with
            | none =>
                rw [current] at replaced
                exact new replaced
            | some mine =>
                rw [current, Option.getD_some] at replaced
                subst replaced
                have both := ((sound.linked mine c.key).mpr current).symm.trans
                  ((sound.linked mine key).mpr h)
                exact same (Option.some.inj both)
        · exact sound.linked tick key
  · intro key tick h
    rw [t.touch_tickOf b c] at h
    split at h
    · cases h
      exact Nat.lt_succ_self _
    · exact Nat.lt_succ_of_lt (sound.below key tick h)
  · exact room
  · refine List.nodup_append.mpr ⟨sound.distinct.erase c.key, List.nodup_singleton _, ?_⟩
    intro a member other same
    rw [List.mem_singleton] at same
    subst same
    rintro rfl
    exact sound.distinct.not_mem_erase member
  · intro key
    rw [t.touch_tickOf b c, List.mem_append, List.mem_singleton, sound.distinct.mem_erase_iff]
    by_cases same : c.key = key
    · simp [same]
    · rw [if_neg same, ← sound.member]
      exact ⟨fun h => h.elim And.right fun equal => absurd equal.symm same,
        fun h => .inl ⟨Ne.symm same, h⟩⟩
  · rw [List.pairwise_append]
    refine ⟨?_, List.pairwise_singleton _ _, ?_⟩
    · have order : (keys.erase c.key).Pairwise _ := sound.order.sublist List.erase_sublist
      refine order.imp_of_mem fun {older younger} member member' related first second h h' => ?_
      rw [t.touch_tickOf b c, if_neg (others older member)] at h
      rw [t.touch_tickOf b c, if_neg (others younger member')] at h'
      exact related first second h h'
    · intro older member younger same first second h h'
      rw [List.mem_singleton] at same
      subst same
      rw [t.touch_tickOf b c, if_neg (others older member)] at h
      rw [t.touch_tickOf b c, if_pos rfl] at h'
      cases h'
      exact sound.below older first h
  · rw [List.length_append, List.length_singleton]
    simp only [Table.touch, Std.HashMap.size_insert, sound.size]
    split
    · next present =>
      have member := (sound.mem t c.key).mpr present
      have occupied := List.length_pos_of_mem member
      rw [List.length_erase_of_mem member]
      omega
    · next absent => rw [List.erase_of_not_mem (mt (sound.mem t c.key).mp absent)]

/-! ## Charges and runs -/

/-- The keys after a charge. -/
def Table.keysAfter (t : Table K) (keys : List K) (c : Charge K) : List K :=
  if t.Ignores c then keys else Recency.use tableCapacity keys c.key

/-- A charge never panics, and is one use of its key. -/
theorem Table.Sound.charge {t : Table K} {keys : List K} (sound : t.Sound keys)
    (few : keys.length ≤ tableCapacity) (b : Buckets) (c : Charge K) :
    ∃ allowed t', t.charge b c = some (allowed, t') ∧ t'.Sound (t.keysAfter keys c) := by
  unfold Table.charge Table.keysAfter
  by_cases ignored : t.Ignores c
  · rw [if_pos ignored, if_pos ignored]
    exact ⟨false, t, rfl, sound⟩
  · rw [if_neg ignored, if_neg ignored]
    have kept := (Recency.kept_sublist tableCapacity keys c.key).length_le
    rcases (sound.evict c.key).renumber (le_trans kept few) with ⟨t', done, sound', room, _⟩
    rw [done]
    exact ⟨_, _, rfl, sound'.touch room b c⟩

theorem Table.Sound.charges {t : Table K} {history : List K}
    (sound : t.Sound (Recency.after tableCapacity history)) (b : Buckets)
    (charges : List (Charge K)) : ∃ t', t.charges b charges = some t' ∧
      t'.Sound (Recency.after tableCapacity (history ++ t.uses b charges)) := by
  induction charges generalizing t history with
  | nil => exact ⟨t, rfl, by rw [Table.uses, List.append_nil]; exact sound⟩
  | cons c charges ih =>
      have few := Recency.after_length tableCapacity (by decide) history
      rcases sound.charge few b c with ⟨allowed, next, charged, sound'⟩
      have used : t.keysAfter (Recency.after tableCapacity history) c =
          Recency.after tableCapacity (history ++ if t.Ignores c then [] else [c.key]) := by
        unfold Table.keysAfter
        split
        · rw [List.append_nil]
        · rw [Recency.after_append]
      rw [used] at sound'
      rcases ih sound' with ⟨t', ran, sound''⟩
      refine ⟨t', ?_, ?_⟩
      · simp only [Table.charges, charged, Option.bind_eq_bind, Option.bind_some]
        exact ran
      · rw [Table.uses, charged]
        simpa only [List.append_assoc] using sound''

/-! ## The promises of the table -/

/-- The next charge of a table whose keys were used in the given order. -/
structure Table.Next (t t' : Table K) (history : List K) (c : Charge K) : Prop where
  /-- A fee for a key without bucket changes nothing. -/
  ignored : t.Ignores c → t' = t
  /-- While there is room, or the key has a bucket, no bucket is lost. -/
  room : ¬ t.Ignores c → (c.key ∈ t.entries ∨ t.entries.size ≠ tableCapacity) →
    ∀ key, key ∈ t'.entries ↔ key = c.key ∨ key ∈ t.entries
  /-- A new key at capacity evicts the bucket whose last use is the oldest, and only it. -/
  evicts : ¬ t.Ignores c → c.key ∉ t.entries → t.entries.size = tableCapacity →
    ∃ oldest ∈ t.entries,
      (∀ other ∈ t.entries, other ≠ oldest → Recency.UsedSince history oldest other) ∧
      ∀ key, key ∈ t'.entries ↔ key = c.key ∨ (key ∈ t.entries ∧ key ≠ oldest)
  /-- The other buckets keep their order, also when all are renumbered. -/
  order : ∀ one other, one ≠ c.key → other ≠ c.key →
    ∀ first second first' second', t.tickOf one = some first → t.tickOf other = some second →
      t'.tickOf one = some first' → t'.tickOf other = some second' →
      (first < second ↔ first' < second')

/-- What holds of a table after its charges. -/
structure Table.Lru (t : Table K) (b : Buckets) (history : List K) : Prop where
  /-- Entries and index are inverse to each other: no tick is used twice. -/
  inverse : ∀ tick key, t.lru[tick]? = some key ↔ t.tickOf key = some tick
  sizes : t.lru.size = t.entries.size
  bounded : t.entries.size ≤ tableCapacity
  next : ∀ c, ∃ allowed t', t.charge b c = some (allowed, t') ∧ t.Next t' history c

theorem Table.Sound.order_iff {t t' : Table K} {keys keys' : List K} (sound : t.Sound keys)
    (sound' : t'.Sound keys') {common : List K} (within : common.Sublist keys)
    (within' : common.Sublist keys') {one other : K} (member : one ∈ common)
    (member' : other ∈ common) {first second first' second' : Nat}
    (h : t.tickOf one = some first) (h₂ : t.tickOf other = some second)
    (h₃ : t'.tickOf one = some first') (h₄ : t'.tickOf other = some second') :
    first < second ↔ first' < second' := by
  by_cases same : one = other
  · subst same
    rw [h] at h₂
    rw [h₃] at h₄
    cases h₂
    cases h₄
    simp
  · have both := (sound.order.sublist within).and (sound'.order.sublist within')
    have either : common.Pairwise fun a c =>
        ((∀ m n, t.tickOf a = some m → t.tickOf c = some n → m < n) ∧
          ∀ m n, t'.tickOf a = some m → t'.tickOf c = some n → m < n) ∨
        ((∀ m n, t.tickOf c = some m → t.tickOf a = some n → m < n) ∧
          ∀ m n, t'.tickOf c = some m → t'.tickOf a = some n → m < n) :=
      both.imp fun related => .inl related
    have symmetric : Std.Symm fun a c : K =>
        ((∀ m n, t.tickOf a = some m → t.tickOf c = some n → m < n) ∧
          ∀ m n, t'.tickOf a = some m → t'.tickOf c = some n → m < n) ∨
        ((∀ m n, t.tickOf c = some m → t.tickOf a = some n → m < n) ∧
          ∀ m n, t'.tickOf c = some m → t'.tickOf a = some n → m < n) :=
      ⟨fun _ _ related => related.symm⟩
    rcases either.forall member member' same with ⟨before, before'⟩ | ⟨after, after'⟩
    · exact ⟨fun _ => before' _ _ h₃ h₄, fun _ => before _ _ h h₂⟩
    · have back := after _ _ h₂ h
      have back' := after' _ _ h₄ h₃
      omega

theorem Table.Sound.next {t t' : Table K} {history : List K} {c : Charge K}
    (sound : t.Sound (Recency.after tableCapacity history))
    (sound' : t'.Sound (t.keysAfter (Recency.after tableCapacity history) c))
    (same : t.Ignores c → t' = t) : t.Next t' history c := by
  have used : ¬ t.Ignores c → t'.Sound
      ((Recency.kept tableCapacity (Recency.after tableCapacity history) c.key).erase c.key ++
        [c.key]) := by
    intro counted
    rw [Table.keysAfter, if_neg counted] at sound'
    exact sound'
  have distinct := (sound.distinct).sublist (Recency.kept_sublist tableCapacity _ c.key)
  have present : ¬ t.Ignores c → ∀ key, key ∈ t'.entries ↔ key = c.key ∨
      key ∈ Recency.kept tableCapacity (Recency.after tableCapacity history) c.key := by
    intro counted key
    rw [← (used counted).mem, List.mem_append, List.mem_singleton, distinct.mem_erase_iff]
    by_cases mine : key = c.key
    · simp [mine]
    · simp [mine]
  refine ⟨same, ?_, ?_, ?_⟩
  · intro counted room key
    have keeps : Recency.kept tableCapacity (Recency.after tableCapacity history) c.key =
        Recency.after tableCapacity history := by
      refine if_neg fun full => ?_
      rw [← sound.size, sound.mem] at full
      exact room.elim full.1 fun other => other full.2
    rw [present counted, keeps, sound.mem]
  · intro counted absent full
    have order := Recency.after_order tableCapacity history
    have evicted : Recency.kept tableCapacity (Recency.after tableCapacity history) c.key =
        (Recency.after tableCapacity history).tail := by
      refine if_pos ?_
      rw [← sound.size, sound.mem]
      exact ⟨absent, full⟩
    have members := present counted
    rw [evicted] at members
    have distinct := sound.distinct
    have entries := sound.mem t
    have length := sound.size
    cases keys : Recency.after tableCapacity history with
    | nil =>
        rw [keys, full] at length
        cases length
    | cons oldest rest =>
        rw [keys] at members distinct entries order
        rw [List.pairwise_cons] at order
        refine ⟨oldest, (entries oldest).mp List.mem_cons_self, fun other here different => ?_,
          fun key => ?_⟩
        · exact order.1 other (List.mem_of_ne_of_mem different ((entries other).mpr here))
        · rw [members, List.tail_cons, ← entries, List.mem_cons]
          refine or_congr Iff.rfl ⟨fun inside => ⟨.inr inside, ?_⟩, fun inside => ?_⟩
          · rintro rfl
            exact (List.nodup_cons.mp distinct).1 inside
          · exact inside.1.resolve_left inside.2
  · intro one other mine mine' first second first' second' h h₂ h₃ h₄
    by_cases counted : t.Ignores c
    · rw [same counted, h] at h₃
      rw [same counted, h₂] at h₄
      cases h₃
      cases h₄
      rfl
    · have common : ∀ key tick, key ≠ c.key → t'.tickOf key = some tick → key ∈
          (Recency.kept tableCapacity (Recency.after tableCapacity history) c.key).erase c.key := by
        intro key tick different stamped
        have member := ((used counted).member key).mpr (Option.isSome_iff_exists.mpr ⟨tick, stamped⟩)
        rw [List.mem_append, List.mem_singleton] at member
        exact member.resolve_right different
      exact sound.order_iff (used counted)
        (List.erase_sublist.trans (Recency.kept_sublist tableCapacity _ c.key))
        (List.sublist_append_left _ _) (common one first' mine h₃) (common other second' mine' h₄)
        h h₂ h₃ h₄

/-- A table after any uses keeps its promises. -/
theorem Table.Sound.lru {t : Table K} {history : List K}
    (sound : t.Sound (Recency.after tableCapacity history)) (b : Buckets) : t.Lru b history := by
  have few := Recency.after_length tableCapacity (by decide) history
  refine ⟨sound.linked, ?_, ?_, fun c => ?_⟩
  · rw [sound.size, ← Std.TreeMap.length_toList, ← sound.values, List.length_map]
  · rw [sound.size]
    exact few
  · rcases sound.charge few b c with ⟨allowed, t', charged, sound'⟩
    refine ⟨allowed, t', charged, sound.next sound' fun ignored => ?_⟩
    rw [Table.charge, if_pos ignored] at charged
    exact (Prod.mk.inj (Option.some.inj charged)).2.symm

/-- Every sequence of charges, of any keys, succeeds and leaves a table whose entries and index
mirror each other, of bounded size, whose next charge evicts by the order of the last uses. -/
theorem buckets_lru (b : Buckets) (charges : List (Charge K)) :
    ∃ t, (Table.empty : Table K).charges b charges = some t ∧
      t.Lru b ((Table.empty : Table K).uses b charges) := by
  have start : (Table.empty : Table K).Sound (Recency.after tableCapacity []) := Table.empty_sound
  rcases start.charges b charges with ⟨t, ran, sound⟩
  exact ⟨t, ran, sound.lru b⟩

end Table

end Noxide.Limiter
