import Noxide.Admission.Queries
import Noxide.Library.MergedScan
import Noxide.Store.Runtime
import Mathlib.Data.List.Sort
import Mathlib.Data.Prod.Lex
import Mathlib.Data.String.Basic
import Mathlib.Data.Sum.Order
import Mathlib.Tactic.Linarith

/-!
# Sealed frontiers

A list or a search that is answered from several ordered streams reads the first rows of each and
keeps the rows up to the first key at which a stream was cut off.  The posting streams of a search
are sealed by {lit}`sealFrontier`, the policy streams of a list by {lit}`sealStreams`.

Main results:

- Theorem {lit}`sealFrontier_sealed` and {lit}`sealStreams_sealed`: neither loses or repeats a row.
- Theorem {lit}`frontier_exact`: the pages of any number of refills, and the agreement of both.
-/

namespace Noxide.Queries

open Checked

/-! ## Posting streams -/

structure Key where
  sequence : Nat
  record : Nat
  deriving DecidableEq, Repr

structure Seed where
  key : Key
  incarnation : String
  revision : Int
  deriving DecidableEq, Repr

structure Stream where
  field : Nat
  limit : Nat
  rows : List Seed
  deriving DecidableEq, Repr

structure Frontier where
  candidates : List Seed
  /-- Largest fully known prefix across all streams, not largest fetched key. -/
  cutoff : Option Key
  exhausted : Bool
  plannedWork : Nat
  observedWork : Nat
  deriving DecidableEq, Repr

/-- By sequence, then by record. -/
def Key.rank (key : Key) : ℕ ×ₗ ℕ := toLex (key.sequence, key.record)

theorem Key.rank_injective : Function.Injective Key.rank := by
  rintro ⟨sequence, record⟩ ⟨sequence', record'⟩ same
  cases toLex.injective same
  rfl

instance : LinearOrder Key := LinearOrder.lift' Key.rank Key.rank_injective

instance : Std.LawfulEqOrd Key := ⟨fun same => compare_eq_iff_eq.mp same⟩

/-- Reads on in the direction of the frontier. -/
abbrev advances (descending : Bool) (left right : Key) : Prop := MergedScan.Advances descending left right

/-- The maps of {lit}`sealFrontier`: the rows by their keys, and the keys by their records. -/
structure Merge where
  merged : Std.TreeMap Key Seed
  identities : Std.TreeMap Nat Key

/-- One row of a stream, behind the row before it. -/
def addSeed (descending : Bool) (last : Option Key) (maps : Merge) (seed : Seed) : Result Merge := do
  check "posting identity" (0 < seed.key.sequence ∧ (seed.key.sequence : Int) ≤ maxI64
    ∧ 0 < seed.key.record ∧ (seed.key.record : Int) ≤ maxI64)
  check "posting metadata" (0 < seed.revision ∧ seed.incarnation ≠ "" ∧ seed.incarnation.utf8ByteSize ≤ 64)
  check "posting stream order" (last.all (fun key => advances descending key seed.key) = true)
  check "posting identity key mismatch"
    (maps.identities[seed.key.record]?.all (fun key => key = seed.key) = true)
  check "posting alias metadata mismatch"
    (maps.merged[seed.key]?.all (fun previous => previous = seed) = true)
  return ⟨maps.merged.insert seed.key seed, maps.identities.insert seed.key.record seed.key⟩

def addSeeds (descending : Bool) : Option Key → Merge → List Seed → Result Merge
  | _, maps, [] => .ok maps
  | last, maps, seed :: rest => do
      let maps ← addSeed descending last maps seed
      addSeeds descending (some seed.key) maps rest

/-- The state of {lit}`sealFrontier` between two streams. -/
structure Sealing where
  fields : List Nat
  plannedWork : Nat
  observedWork : Nat
  cutoff : Option Key
  maps : Merge

/-- A full stream is cut off at its last row, and the frontier at the least advanced one. -/
def closer (descending : Bool) (cutoff : Option Key) (stream : Stream) : Option Key :=
  if stream.rows.length = stream.limit then
    match stream.rows.getLast?, cutoff with
    | none, cutoff => cutoff
    | some row, none => some row.key
    | some row, some cutoff => some (if descending then max cutoff row.key else min cutoff row.key)
  else cutoff

def addStream (previous : Option Key) (descending : Bool) (state : Sealing) (stream : Stream) : Result Sealing := do
  check "posting stream field" (stream.field < 4 ∧ stream.field ∉ state.fields)
  check "posting stream window"
    ((1 ≤ stream.limit ∧ stream.limit ≤ 64) ∧ stream.rows.length ≤ stream.limit)
  check "posting work overflow" (state.plannedWork + stream.limit < 2 ^ 64)
  check "posting work overflow" (state.observedWork + stream.rows.length < 2 ^ 64)
  check "posting work limit" (state.plannedWork + stream.limit ≤ 256)
  let maps ← addSeeds descending previous state.maps stream.rows
  return ⟨stream.field :: state.fields, state.plannedWork + stream.limit,
    state.observedWork + stream.rows.length, closer descending state.cutoff stream, maps⟩

/-- What is known to come first: the merged rows up to the cut, in the direction of the scan. -/
def Sealing.frontier (descending : Bool) (state : Sealing) : Frontier :=
  let candidates := (state.maps.merged.toList.map Prod.snd).filter fun seed =>
    state.cutoff.all fun cutoff => ¬ advances descending cutoff seed.key
  ⟨if descending then candidates.reverse else candidates, state.cutoff, state.cutoff.isNone,
    state.plannedWork, state.observedWork⟩

/-- The source's {lit}`frontier::seal`. -/
def sealFrontier (streams : List Stream) (previous : Option Key) (descending : Bool) : Result Frontier := do
  check "posting stream count" (streams ≠ [] ∧ streams.length ≤ 4)
  let state ← streams.foldlM (addStream previous descending) ⟨[], 0, 0, none, ⟨∅, ∅⟩⟩
  return state.frontier descending

/-! ## Streams of a list -/

structure Candidate where
  key : CursorKey
  incarnation : String
  revision : Int
  deriving DecidableEq, Repr

structure Window where
  rows : List Candidate
  exhausted : Bool
  rawWork : Nat
  deriving DecidableEq, Repr

def idOf : CursorKey → Nat
  | .created _ record => record
  | .scalar _ record => record

/-- The order of two keys; keys of two orders are never compared. -/
def compareKeys : CursorKey → CursorKey → Ordering
  | .created a ai, .created b bi => (compare a b).then (compare ai bi)
  | .scalar (.integer a) ai, .scalar (.integer b) bi => (compare a b).then (compare ai bi)
  | .scalar (.binary a) ai, .scalar (.binary b) bi => (compare a b).then (compare ai bi)
  | _, _ => .eq

/-- The state of {lit}`seal_streams` between two streams. -/
structure Streaming where
  cutoff : Option CursorKey
  merged : Std.TreeMap Nat Candidate

def addCandidate (descending : Bool) (previous : Option CursorKey) (merged : Std.TreeMap Nat Candidate)
    (row : Candidate) : Result (Std.TreeMap Nat Candidate) := do
  check "query stream order" (previous.all (fun previous =>
    if descending then compareKeys previous row.key = .gt else compareKeys previous row.key = .lt) = true)
  check "query candidate metadata"
    (0 < row.revision ∧ row.incarnation ≠ "" ∧ row.incarnation.utf8ByteSize ≤ 64)
  check "query alias mismatch" (merged[idOf row.key]?.all (fun old => old = row) = true)
  return merged.insert (idOf row.key) row

def addCandidates (descending : Bool) : Option CursorKey → Std.TreeMap Nat Candidate → List Candidate →
    Result (Std.TreeMap Nat Candidate)
  | _, merged, [] => .ok merged
  | previous, merged, row :: rest => do
      let merged ← addCandidate descending previous merged row
      addCandidates descending (some row.key) merged rest

/-- A full stream moves the cut where its last row comes first. -/
def nearer (limit : Nat) (descending : Bool) (cutoff : Option CursorKey) (stream : List Candidate) :
    Option CursorKey :=
  if stream.length = limit then
    match stream.getLast? with
    | none => cutoff
    | some row =>
        if cutoff.all fun old =>
            if descending then compareKeys row.key old = .gt else compareKeys row.key old = .lt
        then some row.key else cutoff
  else cutoff

def addCandidateStream (limit : Nat) (descending : Bool) (state : Streaming) (stream : List Candidate) :
    Result Streaming := do
  let merged ← addCandidates descending none state.merged stream
  return ⟨nearer limit descending state.cutoff stream, merged⟩

/-- The loop of {lit}`seal_streams`. -/
def mergeStreams (streams : List (List Candidate)) (limit : Nat) (descending : Bool) : Result Streaming :=
  streams.foldlM (addCandidateStream limit descending) ⟨none, ∅⟩

/-- The merged rows up to the cut, sorted in the direction of the list. -/
def Streaming.window (descending : Bool) (state : Streaming) (streams : List (List Candidate)) : Window :=
  let rows := (state.merged.toList.map Prod.snd).filter fun row => state.cutoff.all fun cutoff =>
    if descending then compareKeys row.key cutoff ≠ .lt else compareKeys row.key cutoff ≠ .gt
  ⟨rows.insertionSort fun a b =>
      (if descending then compareKeys b.key a.key else compareKeys a.key b.key) ≠ .gt,
    state.cutoff.isNone, (streams.map List.length).sum⟩

/-- The source's {lit}`seal_streams`. -/
def sealStreams (streams : List (List Candidate)) (limit : Nat) (descending : Bool) : Result Window := do
  let state ← mergeStreams streams limit descending
  return state.window descending streams

/-- A row of a posting stream. -/
def Candidate.seed (row : Candidate) : Result Seed :=
  match row.key with
  | .created sequence record => .ok ⟨⟨sequence, record⟩, row.incarnation, row.revision⟩
  | .scalar _ _ => .error (.message "posting created key")

def Seed.candidate (seed : Seed) : Candidate :=
  ⟨.created seed.key.sequence seed.key.record, seed.incarnation, seed.revision⟩

/-- One stream, under its position. -/
def numberStream (limit : Nat) (entry : List Candidate × Nat) : Result Stream := do
  check "TryFromIntError" (entry.2 ≤ 255)
  let rows ← entry.1.mapM Candidate.seed
  return ⟨entry.2, limit, rows⟩

def numberStreams (streams : List (List Candidate)) (limit : Nat) : Result (List Stream) :=
  streams.zipIdx.mapM (numberStream limit)

/-- The source's {lit}`seal_posting_streams`. -/
def sealPostingStreams (streams : List (List Candidate)) (limit : Nat) (descending : Bool) : Result Window := do
  let streams ← numberStreams streams limit
  let frontier ← sealFrontier streams none descending
  check "posting frontier accounting" (frontier.plannedWork = limit * streams.length
    ∧ frontier.observedWork ≤ frontier.plannedWork ∧ frontier.exhausted = frontier.cutoff.isNone)
  return ⟨frontier.candidates.map Seed.candidate, frontier.exhausted, frontier.observedWork⟩

/-! ## Sound postings -/

/-- The underlying list of a posting stream, and how many rows of it are read at a time. -/
structure Posting where
  field : Nat
  limit : Nat
  seeds : List Seed
  deriving DecidableEq, Repr

structure Seed.Valid (seed : Seed) : Prop where
  identity : 0 < seed.key.sequence ∧ (seed.key.sequence : Int) ≤ maxI64
    ∧ 0 < seed.key.record ∧ (seed.key.record : Int) ≤ maxI64
  metadata : 0 < seed.revision ∧ seed.incarnation ≠ "" ∧ seed.incarnation.utf8ByteSize ≤ 64

/-- The first rows after the previous cut. -/
def Posting.stream (descending : Bool) (previous : Option Key) (posting : Posting) : Stream :=
  ⟨posting.field, posting.limit, MergedScan.window descending Seed.key posting.limit previous posting.seeds⟩

/-- The lists of the posting streams, each with its limit. -/
def sources (postings : List Posting) : List (Nat × List Seed) :=
  postings.map fun posting => (posting.limit, posting.seeds)

/-- One to four streams over ordered lists, in which a record is everywhere the same. -/
structure Sound (descending : Bool) (postings : List Posting) : Prop where
  count : postings ≠ [] ∧ postings.length ≤ 4
  distinct : (postings.map (·.field)).Nodup
  field : ∀ posting ∈ postings, posting.field < 4
  limit : ∀ posting ∈ postings, 1 ≤ posting.limit ∧ posting.limit ≤ 64
  ordered : ∀ posting ∈ postings, MergedScan.Ordered descending Seed.key posting.seeds
  valid : ∀ posting ∈ postings, ∀ seed ∈ posting.seeds, seed.Valid
  aliases : ∀ posting ∈ postings, ∀ seed ∈ posting.seeds, ∀ twin ∈ postings, ∀ other ∈ twin.seeds,
    seed.key.record = other.key.record → seed = other

/-- The maps hold the rows that were read. -/
structure Merge.Holds (maps : Merge) (done : List Seed) : Prop where
  merged : ∀ key seed, maps.merged[key]? = some seed ↔ seed ∈ done ∧ seed.key = key
  identities : ∀ record key, maps.identities[record]? = some key ↔
    ∃ seed ∈ done, seed.key.record = record ∧ seed.key = key

section Postings

variable {descending : Bool} {previous last cutoff : Option Key} {maps : Merge} {done rows : List Seed} {seed : Seed}

theorem Merge.Holds.nil : Merge.Holds ⟨∅, ∅⟩ [] := by
  constructor
  · intro key seed
    simp
  · intro record key
    simp

/-- A row that agrees with the rows of its record. -/
theorem addSeed_ok (holds : maps.Holds done) (valid : seed.Valid) (after : MergedScan.After descending last seed.key)
    (agrees : ∀ other ∈ done, other.key.record = seed.key.record → other = seed) :
    ∃ maps', addSeed descending last maps seed = .ok maps' ∧ maps'.Holds (done ++ [seed]) := by
  refine ⟨⟨maps.merged.insert seed.key seed, maps.identities.insert seed.key.record seed.key⟩, ?_, ?_, ?_⟩
  · simp only [addSeed, check, bind_eq_ok, ensure_eq_ok]
    refine ⟨(), valid.identity, (), valid.metadata, (), ?_, (), ?_, (), ?_, rfl⟩
    · rw [Option.all_eq_true]
      exact fun key same => decide_eq_true (after key same)
    · rw [Option.all_eq_true]
      intro key stored
      rcases (holds.identities _ key).mp stored with ⟨other, member, record, rfl⟩
      rw [agrees other member record]
      exact decide_eq_true rfl
    · rw [Option.all_eq_true]
      intro other stored
      rcases (holds.merged _ other).mp stored with ⟨member, same⟩
      exact decide_eq_true (agrees other member (congrArg Key.record same))
  · intro key other
    rw [Std.TreeMap.getElem?_insert, List.mem_append, List.mem_singleton]
    split
    · rename_i here
      rw [compare_eq_iff_eq] at here
      subst here
      constructor
      · intro same
        cases same
        exact ⟨.inr rfl, rfl⟩
      · rintro ⟨member | rfl, same⟩
        · rw [agrees other member (congrArg Key.record same)]
        · rfl
    · rename_i elsewhere
      rw [holds.merged]
      constructor
      · exact fun both => ⟨.inl both.1, both.2⟩
      · rintro ⟨member | rfl, same⟩
        · exact ⟨member, same⟩
        · exact absurd (compare_eq_iff_eq.mpr same) elsewhere
  · intro record key
    rw [Std.TreeMap.getElem?_insert]
    simp only [List.mem_append, List.mem_singleton]
    split
    · rename_i here
      rw [compare_eq_iff_eq] at here
      subst here
      constructor
      · intro same
        cases same
        exact ⟨seed, .inr rfl, rfl, rfl⟩
      · rintro ⟨other, member | rfl, same, rfl⟩
        · rw [agrees other member same]
        · rfl
    · rename_i elsewhere
      rw [holds.identities]
      constructor
      · rintro ⟨other, member, both⟩
        exact ⟨other, .inl member, both⟩
      · rintro ⟨other, member | rfl, same, rfl⟩
        · exact ⟨other, member, same, rfl⟩
        · exact absurd (compare_eq_iff_eq.mpr same) elsewhere

/-- The rows of one stream. -/
theorem addSeeds_ok (last : Option Key) (holds : maps.Holds done) (valid : ∀ seed ∈ rows, seed.Valid)
    (ordered : MergedScan.Ordered descending Seed.key rows)
    (after : ∀ seed ∈ rows, MergedScan.After descending last seed.key)
    (agrees : ∀ seed ∈ done ++ rows, ∀ other ∈ done ++ rows, seed.key.record = other.key.record → seed = other) :
    ∃ maps', addSeeds descending last maps rows = .ok maps' ∧ maps'.Holds (done ++ rows) := by
  induction rows generalizing last maps done with
  | nil => exact ⟨maps, rfl, by rw [List.append_nil]; exact holds⟩
  | cons seed rest ih =>
      rcases List.pairwise_cons.mp ordered with ⟨front, behind⟩
      have here : seed ∈ done ++ seed :: rest := List.mem_append_right _ List.mem_cons_self
      rcases addSeed_ok holds (valid seed List.mem_cons_self) (after seed List.mem_cons_self)
        (fun other member => agrees other (List.mem_append_left _ member) seed here) with ⟨maps', added, holds'⟩
      have same : done ++ [seed] ++ rest = done ++ seed :: rest := List.append_cons _ _ _ ▸ rfl
      rcases ih (some seed.key) holds' (fun other member => valid other (List.mem_cons_of_mem _ member)) behind
        (fun other member key same => Option.some.inj same ▸ front other member) (same ▸ agrees) with
        ⟨maps'', others, holds''⟩
      refine ⟨maps'', ?_, same ▸ holds''⟩
      rw [addSeeds, added]
      exact others

/-! ## Sealed postings -/

/-- What a stream adds to the cut. -/
theorem closer_cutoff {posting : Posting} {cuts : List Key} (positive : 1 ≤ posting.limit)
    (least : MergedScan.IsCutoff descending cuts cutoff) :
    MergedScan.IsCutoff descending
      (cuts ++ (MergedScan.boundary Seed.key posting.limit (posting.stream descending previous).rows).toList)
      (closer descending cutoff (posting.stream descending previous)) := by
  have same : (posting.stream descending previous).limit = posting.limit := rfl
  unfold closer MergedScan.boundary
  rw [same]
  by_cases full : (posting.stream descending previous).rows.length = posting.limit
  · rw [if_pos full, if_pos full]
    cases stop : (posting.stream descending previous).rows.getLast? with
    | none =>
        rw [List.getLast?_eq_none_iff.mp stop, List.length_nil] at full
        change 0 = posting.limit at full
        omega
    | some row =>
        cases cutoff with
        | none => exact least.first
        | some cut =>
            cases descending with
            | false =>
                exact least.push (min_choice cut row.key) (not_lt.mpr (min_le_left _ _))
                  (not_lt.mpr (min_le_right _ _))
            | true =>
                exact least.push (max_choice cut row.key) (not_lt.mpr (le_max_left _ _))
                  (not_lt.mpr (le_max_right _ _))
  · rw [if_neg full, if_neg full, Option.toList_none, List.append_nil]
    exact least

/-- The state of the loop after some streams. -/
structure Sealing.After (descending : Bool) (previous : Option Key) (state : Sealing) (done : List Posting) :
    Prop where
  fields : ∀ field, field ∈ state.fields ↔ field ∈ done.map (·.field)
  planned : state.plannedWork = (done.map (·.limit)).sum
  observed : state.observedWork = (done.map fun posting => (posting.stream descending previous).rows.length).sum
  cutoff : MergedScan.IsCutoff descending (MergedScan.boundaries descending Seed.key previous (sources done))
    state.cutoff
  maps : state.maps.Holds (done.flatMap fun posting => (posting.stream descending previous).rows)

theorem Sealing.After.nil : Sealing.After descending previous ⟨[], 0, 0, none, ⟨∅, ∅⟩⟩ [] :=
  ⟨fun field => by simp, rfl, rfl, rfl, Merge.Holds.nil⟩

theorem boundaries_append {done : List Posting} {posting : Posting} :
    MergedScan.boundaries descending Seed.key previous (sources (done ++ [posting]))
      = MergedScan.boundaries descending Seed.key previous (sources done)
        ++ (MergedScan.boundary Seed.key posting.limit (posting.stream descending previous).rows).toList := by
  unfold MergedScan.boundaries sources
  rw [List.map_append, List.filterMap_append]
  congr 1

theorem mem_stream {posting : Posting} (h : seed ∈ (posting.stream descending previous).rows) :
    seed ∈ posting.seeds :=
  (MergedScan.mem_window h).1

/-- One stream more. -/
theorem addStream_ok {state : Sealing} {postings done rest : List Posting} {posting : Posting}
    (sound : Sound descending postings) (split : postings = done ++ posting :: rest)
    (after : state.After descending previous done) :
    ∃ state', addStream previous descending state (posting.stream descending previous) = .ok state'
      ∧ state'.After descending previous (done ++ [posting]) := by
  have here : posting ∈ postings := by
    rw [split]
    exact List.mem_append_right _ List.mem_cons_self
  have earlier : ∀ other ∈ done, other ∈ postings := by
    intro other member
    rw [split]
    exact List.mem_append_left _ member
  have fresh : posting.field ∉ done.map (·.field) := by
    have distinct := sound.distinct
    rw [split, List.map_append, List.map_cons, List.nodup_append] at distinct
    exact fun member => distinct.2.2 _ member _ List.mem_cons_self rfl
  have window : (posting.stream descending previous).rows.length ≤ posting.limit := MergedScan.window_length
  have few : done.length < 4 := by
    have count := congrArg List.length split
    rw [List.length_append, List.length_cons] at count
    have most := sound.count.2
    omega
  have planned : state.plannedWork ≤ 64 * done.length := by
    have bounded : ∀ limit ∈ done.map (·.limit), limit ≤ 64 := by
      intro limit member
      rcases List.mem_map.mp member with ⟨other, listed, rfl⟩
      exact (sound.limit other (earlier other listed)).2
    have total := List.sum_le_card_nsmul _ 64 bounded
    rw [List.length_map] at total
    change _ ≤ done.length * 64 at total
    rw [after.planned]
    omega
  have observed : state.observedWork ≤ state.plannedWork := by
    rw [after.observed, after.planned]
    exact List.sum_le_sum fun other _ => MergedScan.window_length
  have limit := sound.limit posting here
  have listed : ∀ seed ∈ (done.flatMap fun posting => (posting.stream descending previous).rows)
      ++ (posting.stream descending previous).rows, ∃ other ∈ postings, seed ∈ other.seeds := by
    intro seed member
    rcases List.mem_append.mp member with member | member
    · rcases List.mem_flatMap.mp member with ⟨other, chosen, row⟩
      exact ⟨other, earlier other chosen, mem_stream row⟩
    · exact ⟨posting, here, mem_stream member⟩
  rcases addSeeds_ok previous after.maps (fun seed member => sound.valid posting here seed (mem_stream member))
    (MergedScan.window_ordered (sound.ordered posting here)) (fun seed member => (MergedScan.mem_window member).2)
    (fun seed first other second same => by
      rcases listed seed first with ⟨posting₁, listed₁, row₁⟩
      rcases listed other second with ⟨posting₂, listed₂, row₂⟩
      exact sound.aliases posting₁ listed₁ seed row₁ posting₂ listed₂ other row₂ same) with ⟨maps, added, holds⟩
  refine ⟨⟨posting.field :: state.fields, state.plannedWork + posting.limit,
    state.observedWork + (posting.stream descending previous).rows.length,
    closer descending state.cutoff (posting.stream descending previous), maps⟩, ?_, ?_⟩
  · simp only [addStream, check, bind_eq_ok, ensure_eq_ok]
    refine ⟨(), ⟨sound.field posting here, fun member => fresh ((after.fields _).mp member)⟩, (),
      ⟨limit, window⟩, (), ?_, (), ?_, (), ?_, maps, added, rfl⟩
    · change state.plannedWork + posting.limit < 2 ^ 64
      omega
    · omega
    · change state.plannedWork + posting.limit ≤ 256
      omega
  · constructor
    · intro field
      rw [List.map_append, List.mem_append, List.mem_cons, after.fields field, List.map_singleton,
        List.mem_singleton, or_comm]
    · rw [List.map_append, List.sum_append, ← after.planned]
      rfl
    · rw [List.map_append, List.sum_append, ← after.observed]
      rfl
    · rw [boundaries_append]
      exact closer_cutoff limit.1 after.cutoff
    · rw [List.flatMap_append, List.flatMap_singleton]
      exact holds

theorem addStreams_ok {state : Sealing} {postings done rest : List Posting} (sound : Sound descending postings)
    (split : postings = done ++ rest) (after : state.After descending previous done) :
    ∃ state', (rest.map (Posting.stream descending previous)).foldlM (addStream previous descending) state = .ok state'
      ∧ state'.After descending previous postings := by
  induction rest generalizing state done with
  | nil =>
      rw [List.append_nil] at split
      subst split
      exact ⟨state, rfl, after⟩
  | cons posting rest ih =>
      rcases addStream_ok sound split after with ⟨state₁, added, after₁⟩
      rw [List.append_cons] at split
      rcases ih split after₁ with ⟨state₂, others, after₂⟩
      refine ⟨state₂, ?_, after₂⟩
      rw [List.map_cons, List.foldlM_cons, added]
      exact others

/-- The merged rows in the order of their keys. -/
theorem Merge.Holds.listed (holds : maps.Holds done) :
    (∀ seed, seed ∈ maps.merged.toList.map Prod.snd ↔ seed ∈ done)
      ∧ (maps.merged.toList.map Prod.snd).Pairwise fun a b => a.key < b.key := by
  have stored : ∀ entry ∈ maps.merged.toList, entry.2 ∈ done ∧ entry.2.key = entry.1 := fun entry member =>
    (holds.merged entry.1 entry.2).mp (Std.TreeMap.mem_toList_iff_getElem?_eq_some.mp member)
  constructor
  · intro seed
    rw [List.mem_map]
    constructor
    · rintro ⟨entry, member, rfl⟩
      exact (stored entry member).1
    · intro member
      exact ⟨(seed.key, seed),
        Std.TreeMap.mem_toList_iff_getElem?_eq_some.mpr ((holds.merged seed.key seed).mpr ⟨member, rfl⟩), rfl⟩
  · rw [List.pairwise_map]
    refine (Std.TreeMap.ordered_keys_toList (t := maps.merged)).imp_of_mem fun {a b} first second order => ?_
    rw [(stored a first).2, (stored b second).2]
    exact compare_lt_iff_lt.mp order

/-- What {lit}`sealFrontier` keeps of the merged rows, in its direction. -/
theorem kept_ordered {kept : List Seed} (order : kept.Pairwise fun a b => a.key < b.key) :
    MergedScan.Ordered descending Seed.key (if descending then kept.reverse else kept) := by
  cases descending with
  | false => exact order
  | true => exact List.pairwise_reverse.mpr order

/-- The posting streams of sound lists are sealed, and nothing of them is lost or repeated. -/
theorem sealFrontier_sealed {postings : List Posting} (sound : Sound descending postings) (previous : Option Key) :
    ∃ frontier, sealFrontier (postings.map (Posting.stream descending previous)) previous descending = .ok frontier
      ∧ MergedScan.Sealed descending Seed.key (sources postings) previous frontier.cutoff frontier.candidates
      ∧ frontier.exhausted = frontier.cutoff.isNone
      ∧ frontier.plannedWork = (postings.map (·.limit)).sum
      ∧ frontier.observedWork
        = (postings.map fun posting => (posting.stream descending previous).rows.length).sum := by
  rcases addStreams_ok sound (List.nil_append postings).symm Sealing.After.nil with ⟨state, folded, after⟩
  rcases after.maps.listed with ⟨members, order⟩
  refine ⟨state.frontier descending, ?_, ?_, rfl, after.planned, after.observed⟩
  · simp only [sealFrontier, check, bind_eq_ok, ensure_eq_ok]
    refine ⟨(), ⟨?_, ?_⟩, state, folded, rfl⟩
    · exact fun empty => sound.count.1 (List.map_eq_nil_iff.mp empty)
    · rw [List.length_map]
      exact sound.count.2
  · refine MergedScan.Sealed.of_merge (fun source member => ?_) (fun source member => ?_) after.cutoff
      (fun seed => ?_) (kept_ordered (order.sublist List.filter_sublist))
    · rcases List.mem_map.mp member with ⟨posting, listed, rfl⟩
      exact (sound.limit posting listed).1
    · rcases List.mem_map.mp member with ⟨posting, listed, rfl⟩
      exact sound.ordered posting listed
    · have reversed : ∀ kept : List Seed, seed ∈ (if descending then kept.reverse else kept) ↔ seed ∈ kept := by
        intro kept
        split
        · exact List.mem_reverse
        · exact Iff.rfl
      rw [Sealing.frontier, reversed, List.mem_filter, members, Option.all_eq_true, List.mem_flatMap]
      have streams : (∃ posting ∈ postings, seed ∈ (posting.stream descending previous).rows)
          ↔ ∃ source ∈ sources postings, seed ∈ MergedScan.window descending Seed.key source.1 previous source.2 := by
        constructor
        · rintro ⟨posting, listed, row⟩
          exact ⟨_, List.mem_map_of_mem listed, row⟩
        · rintro ⟨source, member, row⟩
          rcases List.mem_map.mp member with ⟨posting, listed, rfl⟩
          exact ⟨posting, listed, row⟩
      rw [streams]
      refine and_congr_right fun _ => forall₂_congr fun cut _ => ?_
      rw [decide_eq_true_eq]

end Postings

/-! ## Sealed lists -/

/-- Lists are ordered by creation, by a number or by a text. -/
inductive KeyOrder where
  | created
  | integer
  | binary
  deriving DecidableEq, Repr

def orderOf : CursorKey → KeyOrder
  | .created _ _ => .created
  | .scalar (.integer _) _ => .integer
  | .scalar (.binary _) _ => .binary

/-- By the position in the order of the key, then by record. -/
def cursorRank : CursorKey → (ℕ ×ₗ ℕ) ⊕ₗ ((ℤ ×ₗ ℕ) ⊕ₗ (String ×ₗ ℕ))
  | .created sequence record => toLex (.inl (toLex (sequence, record)))
  | .scalar (.integer value) record => toLex (.inr (toLex (.inl (toLex (value, record)))))
  | .scalar (.binary value) record => toLex (.inr (toLex (.inr (toLex (value, record)))))

theorem cursorRank_injective : Function.Injective cursorRank := by
  intro a b same
  cases a with
  | created _ _ =>
      cases b with
      | created _ _ =>
          cases same
          rfl
      | scalar value _ => cases value <;> cases same
  | scalar value _ =>
      cases b with
      | created _ _ => cases value <;> cases same
      | scalar other _ =>
          cases value <;> cases other <;> cases same <;> rfl

instance : LinearOrder CursorKey := LinearOrder.lift' cursorRank cursorRank_injective

theorem compare_then {α : Type} [LinearOrder α] {a b : α} {x y : Nat} :
    ((compare a b).then (compare x y) = .lt ↔ toLex (a, x) < toLex (b, y))
      ∧ ((compare a b).then (compare x y) = .gt ↔ toLex (b, y) < toLex (a, x)) := by
  rw [Prod.Lex.toLex_lt_toLex, Prod.Lex.toLex_lt_toLex, Ordering.then_eq_lt, Ordering.then_eq_gt,
    compare_lt_iff_lt, compare_lt_iff_lt, compare_gt_iff_gt, compare_gt_iff_gt, compare_eq_iff_eq]
  exact ⟨Iff.rfl, or_congr_right (and_congr_left fun _ => eq_comm)⟩

/-- Keys of one order compare as the order of keys has them. -/
theorem compareKeys_exact {a b : CursorKey} (uniform : orderOf a = orderOf b) :
    (compareKeys a b = .lt ↔ a < b) ∧ (compareKeys a b = .gt ↔ b < a) := by
  change (_ ↔ cursorRank a < cursorRank b) ∧ (_ ↔ cursorRank b < cursorRank a)
  cases a with
  | created sequence record =>
      cases b with
      | created sequence' record' =>
          rw [cursorRank, cursorRank, Sum.Lex.inl_lt_inl_iff, Sum.Lex.inl_lt_inl_iff]
          exact compare_then
      | scalar value _ => cases value <;> cases uniform
  | scalar value record =>
      cases b with
      | created _ _ => cases value <;> cases uniform
      | scalar other record' =>
          cases value with
          | integer a =>
              cases other with
              | integer b =>
                  rw [cursorRank, cursorRank, Sum.Lex.inr_lt_inr_iff, Sum.Lex.inl_lt_inl_iff, Sum.Lex.inr_lt_inr_iff,
                    Sum.Lex.inl_lt_inl_iff]
                  exact compare_then
              | binary _ => cases uniform
          | binary a =>
              cases other with
              | integer _ => cases uniform
              | binary b =>
                  rw [cursorRank, cursorRank, Sum.Lex.inr_lt_inr_iff, Sum.Lex.inr_lt_inr_iff, Sum.Lex.inr_lt_inr_iff,
                    Sum.Lex.inr_lt_inr_iff]
                  exact compare_then

/-- Lists in one order, in which a record is everywhere the same. -/
structure Extended (descending : Bool) (lists : List (List Candidate)) : Prop where
  uniform : ∀ rows ∈ lists, ∀ row ∈ rows, ∀ others ∈ lists, ∀ other ∈ others, orderOf row.key = orderOf other.key
  ordered : ∀ rows ∈ lists, MergedScan.Ordered descending Candidate.key rows
  metadata : ∀ rows ∈ lists, ∀ row ∈ rows,
    0 < row.revision ∧ row.incarnation ≠ "" ∧ row.incarnation.utf8ByteSize ≤ 64
  aliases : ∀ rows ∈ lists, ∀ row ∈ rows, ∀ others ∈ lists, ∀ other ∈ others,
    idOf row.key = idOf other.key → row = other

/-- The lists of the streams, all with one limit. -/
def listSources (limit : Nat) (lists : List (List Candidate)) : List (Nat × List Candidate) :=
  lists.map fun rows => (limit, rows)

/-- The map holds the rows that were read. -/
def Held (merged : Std.TreeMap Nat Candidate) (done : List Candidate) : Prop :=
  ∀ (record : Nat) row, merged[record]? = some row ↔ row ∈ done ∧ idOf row.key = record

section Extended

variable {descending : Bool} {previous last cutoff : Option CursorKey} {merged : Std.TreeMap Nat Candidate}
  {done rows : List Candidate} {row : Candidate} {lists : List (List Candidate)} {limit : Nat}

theorem Held.nil : Held ∅ [] := by
  intro record row
  simp

theorem addCandidate_ok (held : Held merged done) (uniform : ∀ key, last = some key → orderOf key = orderOf row.key)
    (metadata : 0 < row.revision ∧ row.incarnation ≠ "" ∧ row.incarnation.utf8ByteSize ≤ 64)
    (after : MergedScan.After descending last row.key)
    (agrees : ∀ other ∈ done, idOf other.key = idOf row.key → other = row) :
    ∃ merged', addCandidate descending last merged row = .ok merged' ∧ Held merged' (done ++ [row]) := by
  refine ⟨merged.insert (idOf row.key) row, ?_, ?_⟩
  · simp only [addCandidate, check, bind_eq_ok, ensure_eq_ok]
    refine ⟨(), ?_, (), metadata, (), ?_, rfl⟩
    · rw [Option.all_eq_true]
      intro key same
      have front := after key same
      cases descending with
      | false => exact decide_eq_true ((compareKeys_exact (uniform key same)).1.mpr front)
      | true => exact decide_eq_true ((compareKeys_exact (uniform key same)).2.mpr front)
    · rw [Option.all_eq_true]
      intro other stored
      rcases (held _ other).mp stored with ⟨member, same⟩
      exact decide_eq_true (agrees other member same)
  · intro record other
    rw [Std.TreeMap.getElem?_insert, List.mem_append, List.mem_singleton]
    split
    · rename_i here
      rw [compare_eq_iff_eq] at here
      subst here
      constructor
      · intro same
        cases same
        exact ⟨.inr rfl, rfl⟩
      · rintro ⟨member | rfl, same⟩
        · rw [agrees other member same]
        · rfl
    · rename_i elsewhere
      rw [held]
      constructor
      · exact fun both => ⟨.inl both.1, both.2⟩
      · rintro ⟨member | rfl, same⟩
        · exact ⟨member, same⟩
        · exact absurd (compare_eq_iff_eq.mpr same) elsewhere

theorem addCandidates_ok (last : Option CursorKey) (held : Held merged done)
    (uniform : ∀ row ∈ rows, ∀ key, last = some key → orderOf key = orderOf row.key)
    (single : ∀ row ∈ rows, ∀ other ∈ rows, orderOf row.key = orderOf other.key)
    (metadata : ∀ row ∈ rows, 0 < row.revision ∧ row.incarnation ≠ "" ∧ row.incarnation.utf8ByteSize ≤ 64)
    (ordered : MergedScan.Ordered descending Candidate.key rows)
    (after : ∀ row ∈ rows, MergedScan.After descending last row.key)
    (agrees : ∀ row ∈ done ++ rows, ∀ other ∈ done ++ rows, idOf row.key = idOf other.key → row = other) :
    ∃ merged', addCandidates descending last merged rows = .ok merged' ∧ Held merged' (done ++ rows) := by
  induction rows generalizing last merged done with
  | nil => exact ⟨merged, rfl, by rw [List.append_nil]; exact held⟩
  | cons row rest ih =>
      rcases List.pairwise_cons.mp ordered with ⟨front, behind⟩
      have here : row ∈ done ++ row :: rest := List.mem_append_right _ List.mem_cons_self
      rcases addCandidate_ok held (uniform row List.mem_cons_self) (metadata row List.mem_cons_self)
        (after row List.mem_cons_self)
        (fun other member => agrees other (List.mem_append_left _ member) row here) with ⟨merged', added, held'⟩
      have same : done ++ [row] ++ rest = done ++ row :: rest := List.append_cons _ _ _ ▸ rfl
      rcases ih (some row.key) held' (fun other member key same => by
          cases same
          exact single row List.mem_cons_self other (List.mem_cons_of_mem _ member))
        (fun one first other second => single one (List.mem_cons_of_mem _ first) other (List.mem_cons_of_mem _ second))
        (fun other member => metadata other (List.mem_cons_of_mem _ member)) behind
        (fun other member key same => Option.some.inj same ▸ front other member) (same ▸ agrees) with
        ⟨merged'', others, held''⟩
      refine ⟨merged'', ?_, same ▸ held''⟩
      rw [addCandidates, added]
      exact others

/-- What a stream does to the cut. -/
theorem nearer_cutoff {cuts : List CursorKey} (positive : 1 ≤ limit)
    (uniform : ∀ cut ∈ cuts, ∀ row ∈ rows, orderOf row.key = orderOf cut)
    (least : MergedScan.IsCutoff descending cuts cutoff) :
    MergedScan.IsCutoff descending (cuts ++ (MergedScan.boundary Candidate.key limit rows).toList)
      (nearer limit descending cutoff rows) := by
  unfold nearer MergedScan.boundary
  by_cases full : rows.length = limit
  · rw [if_pos full, if_pos full]
    cases stop : rows.getLast? with
    | none =>
        rw [List.getLast?_eq_none_iff.mp stop, List.length_nil] at full
        omega
    | some row =>
        cases cutoff with
        | none => exact least.first
        | some cut =>
            have orders := uniform cut least.1 row (List.mem_of_getLast? stop)
            have front : (if descending then decide (compareKeys row.key cut = .gt)
                else decide (compareKeys row.key cut = .lt)) = true
                ↔ MergedScan.Advances descending row.key cut := by
              cases descending with
              | false => exact decide_eq_true_iff.trans (compareKeys_exact orders).1
              | true => exact decide_eq_true_iff.trans (compareKeys_exact orders).2
            simp only [Option.all_some]
            by_cases moves : MergedScan.Advances descending row.key cut
            · rw [if_pos (front.mpr moves)]
              exact least.push (.inr rfl) moves.asymm (MergedScan.Advances.irrefl _)
            · rw [if_neg fun earlier => moves (front.mp earlier)]
              exact least.push (.inl rfl) (MergedScan.Advances.irrefl _) moves
  · rw [if_neg full, if_neg full, Option.toList_none, List.append_nil]
    exact least

/-- The pages of the lists. -/
def pages (descending : Bool) (limit : Nat) (previous : Option CursorKey) (lists : List (List Candidate)) :
    List (List Candidate) :=
  lists.map (MergedScan.window descending Candidate.key limit previous)

theorem mem_pages (h : row ∈ (pages descending limit previous lists).flatten) : ∃ rows ∈ lists, row ∈ rows := by
  rcases List.mem_flatten.mp h with ⟨page, listed, here⟩
  rcases List.mem_map.mp listed with ⟨rows, member, rfl⟩
  exact ⟨rows, member, (MergedScan.mem_window here).1⟩

/-- The state of the loop after the pages of some lists. -/
structure Streaming.After (descending : Bool) (limit : Nat) (previous : Option CursorKey) (state : Streaming)
    (done : List (List Candidate)) : Prop where
  cutoff : MergedScan.IsCutoff descending
    (MergedScan.boundaries descending Candidate.key previous (listSources limit done)) state.cutoff
  merged : Held state.merged (pages descending limit previous done).flatten

theorem listBoundaries_append :
    MergedScan.boundaries descending Candidate.key previous (listSources limit (lists ++ [rows]))
      = MergedScan.boundaries descending Candidate.key previous (listSources limit lists)
        ++ (MergedScan.boundary Candidate.key limit
          (MergedScan.window descending Candidate.key limit previous rows)).toList := by
  unfold MergedScan.boundaries listSources
  rw [List.map_append, List.filterMap_append]
  congr 1

theorem mem_listBoundaries {cut : CursorKey}
    (h : cut ∈ MergedScan.boundaries descending Candidate.key previous (listSources limit lists)) :
    ∃ rows ∈ lists, ∃ row ∈ rows, row.key = cut := by
  rcases MergedScan.mem_boundaries.mp h with ⟨source, listed, full⟩
  rcases List.mem_map.mp listed with ⟨rows, member, rfl⟩
  rcases MergedScan.boundary_mem full with ⟨row, here, same⟩
  exact ⟨rows, member, row, (MergedScan.mem_window here).1, same⟩

theorem addCandidateStream_ok {state : Streaming} {rest before : List (List Candidate)}
    (extended : Extended descending lists) (positive : 1 ≤ limit) (split : lists = before ++ rows :: rest)
    (after : state.After descending limit previous before) :
    ∃ state', addCandidateStream limit descending state
        (MergedScan.window descending Candidate.key limit previous rows) = .ok state'
      ∧ state'.After descending limit previous (before ++ [rows]) := by
  have here : rows ∈ lists := by
    rw [split]
    exact List.mem_append_right _ List.mem_cons_self
  have earlier : ∀ others ∈ before, others ∈ lists := by
    intro others member
    rw [split]
    exact List.mem_append_left _ member
  have own : ∀ row ∈ MergedScan.window descending Candidate.key limit previous rows, row ∈ rows :=
    fun row member => (MergedScan.mem_window member).1
  have listed : ∀ row ∈ (pages descending limit previous before).flatten
      ++ MergedScan.window descending Candidate.key limit previous rows, ∃ others ∈ lists, row ∈ others := by
    intro row member
    rcases List.mem_append.mp member with member | member
    · rcases mem_pages member with ⟨others, chosen, row⟩
      exact ⟨others, earlier others chosen, row⟩
    · exact ⟨rows, here, own row member⟩
  rcases addCandidates_ok none after.merged (fun row _ key absent => (by cases absent))
    (fun row first other second => extended.uniform rows here row (own row first) rows here other (own other second))
    (fun row member => extended.metadata rows here row (own row member))
    (MergedScan.window_ordered (extended.ordered rows here)) (fun row _ key absent => (by cases absent))
    (fun row first other second same => by
      rcases listed row first with ⟨rows₁, listed₁, row₁⟩
      rcases listed other second with ⟨rows₂, listed₂, row₂⟩
      exact extended.aliases rows₁ listed₁ row row₁ rows₂ listed₂ other row₂ same) with ⟨merged, added, held⟩
  refine ⟨⟨nearer limit descending state.cutoff (MergedScan.window descending Candidate.key limit previous rows),
    merged⟩, ?_, ?_, ?_⟩
  · rw [addCandidateStream, added]
    rfl
  · rw [listBoundaries_append]
    refine nearer_cutoff positive (fun cut member row window => ?_) after.cutoff
    rcases mem_listBoundaries member with ⟨others, chosen, other, there, rfl⟩
    exact extended.uniform rows here row (own row window) others (earlier others chosen) other there
  · rw [pages, List.map_append, List.flatten_append, List.map_singleton, List.flatten_singleton]
    exact held

theorem mergeStreams_ok {state : Streaming} {rest before : List (List Candidate)}
    (extended : Extended descending lists) (positive : 1 ≤ limit) (split : lists = before ++ rest)
    (after : state.After descending limit previous before) :
    ∃ state', (pages descending limit previous rest).foldlM (addCandidateStream limit descending) state = .ok state'
      ∧ state'.After descending limit previous lists := by
  induction rest generalizing state before with
  | nil =>
      rw [List.append_nil] at split
      subst split
      exact ⟨state, rfl, after⟩
  | cons rows rest ih =>
      rcases addCandidateStream_ok extended positive split after with ⟨state₁, added, after₁⟩
      rw [List.append_cons] at split
      rcases ih split after₁ with ⟨state₂, others, after₂⟩
      refine ⟨state₂, ?_, after₂⟩
      rw [pages, List.map_cons, List.foldlM_cons, added]
      exact others

/-- The merged rows, each record once. -/
theorem Held.listed (held : Held merged done) :
    (∀ row, row ∈ merged.toList.map Prod.snd ↔ row ∈ done)
      ∧ (merged.toList.map Prod.snd).Pairwise fun a b => idOf a.key ≠ idOf b.key := by
  have stored : ∀ entry ∈ merged.toList, entry.2 ∈ done ∧ idOf entry.2.key = entry.1 := fun entry member =>
    (held entry.1 entry.2).mp (Std.TreeMap.mem_toList_iff_getElem?_eq_some.mp member)
  constructor
  · intro row
    rw [List.mem_map]
    constructor
    · rintro ⟨entry, member, rfl⟩
      exact (stored entry member).1
    · intro member
      exact ⟨(idOf row.key, row),
        Std.TreeMap.mem_toList_iff_getElem?_eq_some.mpr ((held _ row).mpr ⟨member, rfl⟩), rfl⟩
  · rw [List.pairwise_map]
    refine (Std.TreeMap.ordered_keys_toList (t := merged)).imp_of_mem fun {a b} first second order => ?_
    rw [(stored a first).2, (stored b second).2]
    exact (compare_lt_iff_lt.mp order).ne

/-- Sorting in the order of the keys. -/
theorem insertionSort_ordered {keys : Candidate → Candidate → Prop} [DecidableRel keys]
    (agrees : ∀ a ∈ rows, ∀ b ∈ rows, keys a b ↔ ¬ MergedScan.Advances descending b.key a.key)
    (distinct : rows.Pairwise fun a b => idOf a.key ≠ idOf b.key) :
    MergedScan.Ordered descending Candidate.key (rows.insertionSort keys) := by
  let behind : Candidate → Candidate → Prop := fun a b => ¬ MergedScan.Advances descending b.key a.key
  have total : Std.Total behind := ⟨fun a b => by
    by_cases front : MergedScan.Advances descending b.key a.key
    · exact .inr front.asymm
    · exact .inl front⟩
  have transitive : IsTrans Candidate behind := ⟨fun a b c first second front =>
    first (MergedScan.Advances.of_not second front)⟩
  have same : rows.insertionSort keys = rows.insertionSort behind := by
    have mapped := List.map_insertionSort (r := keys) (s := behind) id rows agrees
    rw [List.map_id, List.map_id] at mapped
    exact mapped
  have sorted : (rows.insertionSort behind).Pairwise behind := List.pairwise_insertionSort behind rows
  have apart : (rows.insertionSort behind).Pairwise fun a b => idOf a.key ≠ idOf b.key :=
    ((List.perm_insertionSort behind rows).pairwise_iff fun different => different.symm).mpr distinct
  rw [same]
  refine (sorted.and apart).imp fun {a b} both => ?_
  rcases MergedScan.not_advances.mp both.1 with equal | front
  · exact absurd (congrArg idOf equal.symm) both.2
  · exact front

/-- The streams of sound lists are sealed, and nothing of them is lost or repeated. -/
theorem sealStreams_sealed (extended : Extended descending lists) (positive : 1 ≤ limit)
    (previous : Option CursorKey) :
    ∃ state window, mergeStreams (pages descending limit previous lists) limit descending = .ok state
      ∧ sealStreams (pages descending limit previous lists) limit descending = .ok window
      ∧ MergedScan.Sealed descending Candidate.key (listSources limit lists) previous state.cutoff window.rows
      ∧ window.exhausted = state.cutoff.isNone
      ∧ window.rawWork = ((pages descending limit previous lists).map List.length).sum := by
  have start : Streaming.After descending limit previous ⟨none, ∅⟩ [] := ⟨rfl, Held.nil⟩
  rcases mergeStreams_ok extended positive (List.nil_append lists).symm start with ⟨state, merged, after⟩
  rcases after.merged.listed with ⟨members, distinct⟩
  refine ⟨state, state.window descending (pages descending limit previous lists), merged, ?_, ?_, rfl, rfl⟩
  · rw [sealStreams, show mergeStreams _ _ _ = _ from merged]
    rfl
  have uniform : ∀ row ∈ (pages descending limit previous lists).flatten,
      ∀ other ∈ (pages descending limit previous lists).flatten, orderOf row.key = orderOf other.key := by
    intro row first other second
    rcases mem_pages first with ⟨rows₁, listed₁, row₁⟩
    rcases mem_pages second with ⟨rows₂, listed₂, row₂⟩
    exact extended.uniform rows₁ listed₁ row row₁ rows₂ listed₂ other row₂
  -- the cut is the key of a row, so that it is in the order of the rows
  have kept : ∀ row ∈ (pages descending limit previous lists).flatten,
      (state.cutoff.all (fun cutoff => if descending then compareKeys row.key cutoff ≠ .lt
          else compareKeys row.key cutoff ≠ .gt) = true
        ↔ MergedScan.UpTo descending state.cutoff row.key) := by
    intro row member
    rw [Option.all_eq_true]
    refine forall₂_congr fun cut reached => ?_
    have least := after.cutoff
    rw [reached] at least
    rcases mem_listBoundaries least.1 with ⟨others, chosen, other, there, rfl⟩
    rcases mem_pages member with ⟨rows, listed, here⟩
    have orders := extended.uniform rows listed row here others chosen other there
    cases descending with
    | false => exact decide_eq_true_iff.trans (not_congr (compareKeys_exact orders).2)
    | true => exact decide_eq_true_iff.trans (not_congr (compareKeys_exact orders).1)
  refine MergedScan.Sealed.of_merge (fun source member => ?_) (fun source member => ?_) after.cutoff
    (fun row => ?_) (insertionSort_ordered (fun a first b second => ?_) (distinct.sublist List.filter_sublist))
  · rcases List.mem_map.mp member with ⟨rows, listed, rfl⟩
    exact positive
  · rcases List.mem_map.mp member with ⟨rows, listed, rfl⟩
    exact extended.ordered rows listed
  · have streams : row ∈ (pages descending limit previous lists).flatten
        ↔ ∃ source ∈ listSources limit lists,
          row ∈ MergedScan.window descending Candidate.key source.1 previous source.2 := by
      rw [List.mem_flatten]
      constructor
      · rintro ⟨page, member, here⟩
        rcases List.mem_map.mp member with ⟨rows, listed, rfl⟩
        exact ⟨_, List.mem_map_of_mem listed, here⟩
      · rintro ⟨source, member, here⟩
        rcases List.mem_map.mp member with ⟨rows, listed, rfl⟩
        exact ⟨_, List.mem_map_of_mem listed, here⟩
    rw [Streaming.window, List.mem_insertionSort, List.mem_filter, members, ← streams]
    exact and_congr_right fun member => kept row member
  · have orders := uniform a ((members a).mp (List.mem_of_mem_filter first)) b
      ((members b).mp (List.mem_of_mem_filter second))
    cases descending with
    | false => exact not_congr (compareKeys_exact orders).2
    | true => exact not_congr (compareKeys_exact orders.symm).2

end Extended

/-! ## Both agree -/

def Key.cursor (key : Key) : CursorKey := .created key.sequence key.record

/-- The page of a posting stream as rows of a list. -/
def candidatePages (descending : Bool) (previous : Option Key) (postings : List Posting) : List (List Candidate) :=
  postings.map fun posting => (posting.stream descending previous).rows.map Seed.candidate

section Agreement

variable {descending : Bool} {limit : Nat} {postings : List Posting}

theorem Seed.candidate_key (seed : Seed) : seed.candidate.key = seed.key.cursor := rfl

theorem Key.cursor_strict : StrictMono Key.cursor := by
  intro a b front
  change cursorRank a.cursor < cursorRank b.cursor
  rw [Key.cursor, Key.cursor, cursorRank, cursorRank, Sum.Lex.inl_lt_inl_iff]
  exact front

theorem Sound.extended (sound : Sound descending postings) :
    Extended descending (postings.map fun posting => posting.seeds.map Seed.candidate) := by
  have listed : ∀ rows ∈ postings.map (fun posting => posting.seeds.map Seed.candidate), ∀ row ∈ rows,
      ∃ posting ∈ postings, ∃ seed ∈ posting.seeds, seed.candidate = row := by
    intro rows member row here
    rcases List.mem_map.mp member with ⟨posting, listed, rfl⟩
    rcases List.mem_map.mp here with ⟨seed, found, same⟩
    exact ⟨posting, listed, seed, found, same⟩
  constructor
  · intro rows member row here others chosen other there
    rcases listed rows member row here with ⟨_, _, seed, _, rfl⟩
    rcases listed others chosen other there with ⟨_, _, twin, _, rfl⟩
    rfl
  · intro rows member
    rcases List.mem_map.mp member with ⟨posting, listed, rfl⟩
    refine List.pairwise_map.mpr ((sound.ordered posting listed).imp fun front => ?_)
    exact (MergedScan.advances_map Key.cursor_strict).mpr front
  · intro rows member row here
    rcases listed rows member row here with ⟨posting, listed, seed, found, rfl⟩
    exact (sound.valid posting listed seed found).metadata
  · intro rows member row here others chosen other there same
    rcases listed rows member row here with ⟨posting, listed₁, seed, found, rfl⟩
    rcases listed others chosen other there with ⟨twin, listed₂, other, found', rfl⟩
    rw [sound.aliases posting listed₁ seed found twin listed₂ other found' same]

theorem candidatePages_eq (previous : Option Key) (common : ∀ posting ∈ postings, posting.limit = limit) :
    pages descending limit (previous.map Key.cursor) (postings.map fun posting => posting.seeds.map Seed.candidate)
      = candidatePages descending previous postings := by
  rw [pages, candidatePages, List.map_map]
  refine List.map_congr_left fun posting member => ?_
  have mapped : MergedScan.window descending Candidate.key limit (previous.map Key.cursor)
      (posting.seeds.map Seed.candidate)
      = (MergedScan.window descending Seed.key limit previous posting.seeds).map Seed.candidate :=
    MergedScan.window_map Seed.candidate_key Key.cursor_strict
  rw [Posting.stream, common posting member]
  exact mapped

theorem listSources_eq (common : ∀ posting ∈ postings, posting.limit = limit) :
    listSources limit (postings.map fun posting => posting.seeds.map Seed.candidate)
      = (sources postings).map fun source => (source.1, source.2.map Seed.candidate) := by
  rw [listSources, sources, List.map_map, List.map_map]
  refine List.map_congr_left fun posting member => ?_
  rw [Function.comp, Function.comp, common posting member]

/-- Streams with one limit: the streams of a list are sealed as the posting streams are. -/
theorem sealStreams_agrees (sound : Sound descending postings) (common : ∀ posting ∈ postings, posting.limit = limit)
    (previous : Option Key) {frontier : Frontier}
    (sealed : sealFrontier (postings.map (Posting.stream descending previous)) previous descending = .ok frontier) :
    (∃ state, mergeStreams (candidatePages descending previous postings) limit descending = .ok state
        ∧ state.cutoff = frontier.cutoff.map Key.cursor)
      ∧ sealStreams (candidatePages descending previous postings) limit descending
        = .ok ⟨frontier.candidates.map Seed.candidate, frontier.exhausted, frontier.observedWork⟩ := by
  have positive : 1 ≤ limit := by
    rcases List.exists_mem_of_ne_nil _ sound.count.1 with ⟨posting, member⟩
    rw [← common posting member]
    exact (sound.limit posting member).1
  rcases sealFrontier_sealed sound previous with ⟨found, again, here, exhausted, _, observed⟩
  rw [sealed] at again
  cases again
  rcases sealStreams_sealed sound.extended positive (previous.map Key.cursor) with
    ⟨state, window, merged, sealedStreams, there, exhausted', rawWork⟩
  rw [candidatePages_eq previous common] at merged sealedStreams rawWork
  rw [listSources_eq common] at there
  have mapped : MergedScan.Sealed descending Candidate.key
      ((sources postings).map fun source => (source.1, source.2.map Seed.candidate)) (previous.map Key.cursor)
      (frontier.cutoff.map Key.cursor) (frontier.candidates.map Seed.candidate) :=
    here.map Seed.candidate_key Key.cursor_strict
  rcases there.unique mapped with ⟨cutoff, rows⟩
  refine ⟨⟨state, merged, cutoff⟩, ?_⟩
  have work : window.rawWork = frontier.observedWork := by
    rw [rawWork, observed, candidatePages, List.map_map]
    congr 1
    exact List.map_congr_left fun posting _ => List.length_map _
  have ended : window.exhausted = frontier.exhausted := by
    rw [exhausted', cutoff, Option.isNone_map, exhausted]
  rw [sealedStreams, ← rows, ← ended, ← work]

/-- The postings as {lit}`seal_posting_streams` numbers them, from the previous cut on. -/
def numbered (descending : Bool) (limit : Nat) (previous : Option Key) (postings : List Posting) : List Posting :=
  postings.zipIdx.map fun entry =>
    ⟨entry.2, limit, entry.1.seeds.filter fun seed => MergedScan.After descending previous seed.key⟩

theorem mem_numbered {previous : Option Key} {posting : Posting}
    (h : posting ∈ numbered descending limit previous postings) :
    ∃ original ∈ postings, posting.field < postings.length ∧ posting.limit = limit
      ∧ posting.seeds.Sublist original.seeds := by
  rcases List.mem_map.mp h with ⟨⟨original, index⟩, listed, rfl⟩
  have found := List.mem_zipIdx listed
  refine ⟨original, ?_, by simpa using found.2.1, rfl, List.filter_sublist⟩
  exact found.2.2 ▸ List.getElem_mem _

theorem Sound.numbered (sound : Sound descending postings) (common : ∀ posting ∈ postings, posting.limit = limit)
    (previous : Option Key) : Sound descending (numbered descending limit previous postings) := by
  have fields : (Queries.numbered descending limit previous postings).map (·.field) = List.range postings.length := by
    rw [Queries.numbered, List.map_map]
    exact (List.zipIdx_map_snd 0 postings).trans List.range_eq_range'.symm
  constructor
  · rw [Queries.numbered, List.length_map, List.length_zipIdx]
    refine ⟨fun empty => sound.count.1 ?_, sound.count.2⟩
    have none_left := congrArg List.length empty
    rw [List.length_map, List.length_zipIdx] at none_left
    exact List.eq_nil_of_length_eq_zero none_left
  · rw [fields]
    exact List.nodup_range
  · intro posting member
    rcases mem_numbered member with ⟨original, listed, field, _, _⟩
    exact field.trans_le sound.count.2
  · intro posting member
    rcases mem_numbered member with ⟨original, listed, _, same, _⟩
    rw [same, ← common original listed]
    exact sound.limit original listed
  · intro posting member
    rcases mem_numbered member with ⟨original, listed, _, _, sub⟩
    exact (sound.ordered original listed).sublist sub
  · intro posting member seed here
    rcases mem_numbered member with ⟨original, listed, _, _, sub⟩
    exact sound.valid original listed seed (sub.mem here)
  · intro posting member seed here twin chosen other there
    rcases mem_numbered member with ⟨original, listed, _, _, sub⟩
    rcases mem_numbered chosen with ⟨original', listed', _, _, sub'⟩
    exact sound.aliases original listed seed (sub.mem here) original' listed' other (sub'.mem there)

theorem candidate_seed (seeds : List Seed) : (seeds.map Seed.candidate).mapM Candidate.seed = .ok seeds := by
  induction seeds with
  | nil => rfl
  | cons seed rest ih =>
      rw [List.map_cons, List.mapM_cons, ih]
      rfl

theorem numberStreams_ok (sound : Sound descending postings) (common : ∀ posting ∈ postings, posting.limit = limit)
    (previous : Option Key) :
    numberStreams (candidatePages descending previous postings) limit
      = .ok ((numbered descending limit previous postings).map (Posting.stream descending none)) := by
  rw [numberStreams, mapM_eq_ok, candidatePages, List.zipIdx_map, numbered, List.map_map,
    List.forall₂_map_left_iff, List.forall₂_map_right_iff, List.forall₂_same]
  rintro ⟨posting, index⟩ listed
  have found := List.mem_zipIdx listed
  have few : index ≤ 255 := by
    have most := sound.count.2
    omega
  have member : posting ∈ postings := found.2.2 ▸ List.getElem_mem _
  have page : (posting.stream descending previous).rows = MergedScan.window descending Seed.key limit none
      (posting.seeds.filter fun seed => MergedScan.After descending previous seed.key) := by
    rw [Posting.stream, MergedScan.window_none, common posting member]
  simp only [numberStream, check, bind_eq_ok, ensure_eq_ok]
  refine ⟨(), few, (posting.stream descending previous).rows, candidate_seed _, ?_⟩
  rw [page]
  rfl

/-- Posting streams of the repository are sealed as the posting streams of their lists. -/
theorem sealPostingStreams_agrees (sound : Sound descending postings)
    (common : ∀ posting ∈ postings, posting.limit = limit) (previous : Option Key) {frontier : Frontier}
    (sealed : sealFrontier (postings.map (Posting.stream descending previous)) previous descending = .ok frontier) :
    sealPostingStreams (candidatePages descending previous postings) limit descending
      = .ok ⟨frontier.candidates.map Seed.candidate, frontier.exhausted, frontier.observedWork⟩ := by
  rcases sealFrontier_sealed sound previous with ⟨found, again, here, exhausted, planned, observed⟩
  rw [sealed] at again
  cases again
  rcases sealFrontier_sealed (sound.numbered common previous) none with
    ⟨other, other_sealed, there, exhausted', planned', observed'⟩
  have sources_eq : sources (numbered descending limit previous postings)
      = (sources postings).map fun source =>
        (source.1, source.2.filter fun seed => MergedScan.After descending previous seed.key) := by
    rw [sources, sources, numbered, List.map_map, List.map_map, ← List.zipIdx_map_fst 0 postings, List.map_map,
      List.zipIdx_map_fst]
    refine List.map_congr_left fun entry listed => ?_
    have member : entry.1 ∈ postings := (List.mem_zipIdx listed).2.2 ▸ List.getElem_mem _
    rw [Function.comp, Function.comp, Function.comp, common entry.1 member]
  rw [sources_eq] at there
  rcases there.after.unique here with ⟨cutoff, rows⟩
  have count : (numbered descending limit previous postings).length = postings.length := by
    rw [numbered, List.length_map, List.length_zipIdx]
  have plans : other.plannedWork = limit * postings.length := by
    have same : (numbered descending limit previous postings).map (·.limit)
        = List.replicate postings.length limit := by
      rw [List.eq_replicate_iff, List.length_map]
      refine ⟨count, fun bound listed => ?_⟩
      rcases List.mem_map.mp listed with ⟨posting, member, rfl⟩
      rcases mem_numbered member with ⟨_, _, _, same, _⟩
      exact same
    rw [planned', same, List.sum_replicate_nat, Nat.mul_comm]
  have work : other.observedWork = frontier.observedWork := by
    rw [observed', observed, numbered, List.map_map, ← List.zipIdx_map_fst 0 postings, List.map_map,
      List.zipIdx_map_fst]
    congr 1
    refine List.map_congr_left fun entry listed => ?_
    have member : entry.1 ∈ postings := (List.mem_zipIdx listed).2.2 ▸ List.getElem_mem _
    rw [Function.comp, Function.comp, Posting.stream, Posting.stream, MergedScan.window_none, common entry.1 member]
  have within : other.observedWork ≤ other.plannedWork := by
    rw [observed', planned']
    exact List.sum_le_sum fun posting _ => MergedScan.window_length
  simp only [sealPostingStreams, check, bind_eq_ok, ensure_eq_ok]
  refine ⟨_, numberStreams_ok sound common previous, other, other_sealed, (), ⟨?_, within, exhausted'⟩, ?_⟩
  · rw [List.length_map, count]
    exact plans
  · rw [rows, exhausted', cutoff, work, exhausted]
    rfl

/-- Refill after refill, each after the cut of the one before. -/
def refill (descending : Bool) (postings : List Posting) : Nat → Option Key → Option (List Seed) :=
  MergedScan.drain fun previous =>
    (sealFrontier (postings.map (Posting.stream descending previous)) previous descending).toOption.map
      fun frontier => (frontier.candidates, frontier.cutoff)

theorem refill_exact (sound : Sound descending postings) (previous : Option Key) :
    ∃ rows, refill descending postings ((postings.flatMap (·.seeds)).length + 1) previous = some rows
      ∧ MergedScan.Ordered descending Seed.key rows
      ∧ ∀ seed, seed ∈ rows ↔ (∃ posting ∈ postings, seed ∈ posting.seeds)
        ∧ MergedScan.After descending previous seed.key := by
  have seals : ∀ previous, ∃ candidates cutoff,
      (sealFrontier (postings.map (Posting.stream descending previous)) previous descending).toOption.map
        (fun frontier => (frontier.candidates, frontier.cutoff)) = some (candidates, cutoff)
      ∧ MergedScan.Sealed descending Seed.key (sources postings) previous cutoff candidates := by
    intro previous
    rcases sealFrontier_sealed sound previous with ⟨frontier, done, here, _⟩
    refine ⟨frontier.candidates, frontier.cutoff, ?_, here⟩
    rw [done]
    rfl
  have enough : (MergedScan.remaining descending Seed.key (sources postings) previous).length
      < (postings.flatMap (·.seeds)).length + 1 := by
    have all : (sources postings).flatMap Prod.snd = postings.flatMap (·.seeds) := by
      rw [sources, List.flatMap_map]
    rw [MergedScan.remaining, all]
    exact Nat.lt_succ_of_le (List.length_filter_le _ _)
  rcases MergedScan.drain_exact seals _ previous enough with ⟨rows, drained, ordered, members⟩
  refine ⟨rows, drained, ordered, fun seed => ?_⟩
  rw [members seed]
  refine and_congr_left fun _ => ?_
  constructor
  · rintro ⟨source, listed, here⟩
    rcases List.mem_map.mp listed with ⟨posting, member, rfl⟩
    exact ⟨posting, member, here⟩
  · rintro ⟨posting, member, here⟩
    exact ⟨_, List.mem_map_of_mem member, here⟩

end Agreement

/-- Sealing loses and repeats nothing.  The posting streams of sound lists are sealed up to the
least cut, which is missing exactly at the end; refills read every row once; and the streams of a
list are sealed in the same way, in each of their orders. -/
theorem frontier_exact (descending : Bool) :
    (∀ postings, Sound descending postings →
      (∀ previous, ∃ frontier,
        sealFrontier (postings.map (Posting.stream descending previous)) previous descending = .ok frontier
          ∧ MergedScan.Sealed descending Seed.key (sources postings) previous frontier.cutoff frontier.candidates
          ∧ (frontier.cutoff = none ↔
            ∀ stream ∈ postings.map (Posting.stream descending previous), stream.rows.length < stream.limit)
          ∧ frontier.exhausted = frontier.cutoff.isNone
          ∧ (frontier.exhausted = false → frontier.candidates ≠ [])
          ∧ ∀ limit, (∀ posting ∈ postings, posting.limit = limit) →
            (∃ state, mergeStreams (candidatePages descending previous postings) limit descending = .ok state
              ∧ state.cutoff = frontier.cutoff.map Key.cursor)
            ∧ sealStreams (candidatePages descending previous postings) limit descending
              = .ok ⟨frontier.candidates.map Seed.candidate, frontier.exhausted, frontier.observedWork⟩
            ∧ sealPostingStreams (candidatePages descending previous postings) limit descending
              = .ok ⟨frontier.candidates.map Seed.candidate, frontier.exhausted, frontier.observedWork⟩)
      ∧ ∀ previous, ∃ rows,
        refill descending postings ((postings.flatMap (·.seeds)).length + 1) previous = some rows
          ∧ MergedScan.Ordered descending Seed.key rows
          ∧ ∀ seed, seed ∈ rows ↔ (∃ posting ∈ postings, seed ∈ posting.seeds)
            ∧ MergedScan.After descending previous seed.key)
    ∧ ∀ lists limit, Extended descending lists → 1 ≤ limit → ∀ previous, ∃ state window,
      mergeStreams (pages descending limit previous lists) limit descending = .ok state
        ∧ sealStreams (pages descending limit previous lists) limit descending = .ok window
        ∧ MergedScan.Sealed descending Candidate.key (listSources limit lists) previous state.cutoff window.rows
        ∧ window.exhausted = state.cutoff.isNone := by
  refine ⟨fun postings sound => ⟨fun previous => ?_, refill_exact sound⟩, fun lists limit extended positive previous => ?_⟩
  · rcases sealFrontier_sealed sound previous with ⟨frontier, done, here, exhausted, _, _⟩
    refine ⟨frontier, done, here, ?_, exhausted, fun more => here.progress ?_, fun limit common => ?_⟩
    · rw [here.short fun source member => ?_]
      · constructor
        · intro short stream member
          rcases List.mem_map.mp member with ⟨posting, listed, rfl⟩
          exact short _ (List.mem_map_of_mem listed)
        · intro short source member
          rcases List.mem_map.mp member with ⟨posting, listed, rfl⟩
          exact short _ (List.mem_map_of_mem listed)
      · rcases List.mem_map.mp member with ⟨posting, listed, rfl⟩
        exact (sound.limit posting listed).1
    · intro ended
      rw [exhausted, ended] at more
      cases more
    · rcases sealStreams_agrees sound common previous done with ⟨cut, window⟩
      exact ⟨cut, window, sealPostingStreams_agrees sound common previous done⟩
  · rcases sealStreams_sealed extended positive previous with ⟨state, window, merged, done, here, exhausted, _⟩
    exact ⟨state, window, merged, done, here, exhausted⟩

/-! ## Two fields -/

def sampleSeed (sequence : Nat) : Seed := ⟨⟨sequence, sequence + 100⟩, "incarnation", 1⟩

/-- The rows of one token in two fields, of which two contain it in both. -/
def samplePostings : List Posting :=
  [⟨0, 2, [1, 2, 5, 6].map sampleSeed⟩, ⟨1, 2, [2, 3, 4, 6].map sampleSeed⟩]

theorem samplePostings_sound : Sound false samplePostings := by
  have valid : ∀ sequence ∈ [1, 2, 3, 4, 5, 6], (sampleSeed sequence).Valid := by
    intro sequence member
    constructor <;> revert sequence <;> decide
  have seeds : ∀ posting ∈ samplePostings, ∀ seed ∈ posting.seeds, ∃ sequence ∈ [1, 2, 3, 4, 5, 6],
      sampleSeed sequence = seed := by decide
  constructor
  · decide
  · decide
  · decide
  · decide
  · unfold MergedScan.Ordered
    decide
  · intro posting listed seed member
    rcases seeds posting listed seed member with ⟨sequence, small, rfl⟩
    exact valid sequence small
  · decide

/-- Four refills read six rows, none of them twice. -/
theorem frontier_exact_sample :
    (∃ rows, refill false samplePostings 9 none = some rows ∧ MergedScan.Ordered false Seed.key rows
      ∧ ∀ seed, seed ∈ rows ↔ (∃ posting ∈ samplePostings, seed ∈ posting.seeds)
        ∧ MergedScan.After false none seed.key)
    ∧ refill false samplePostings 9 none = some ([1, 2, 3, 4, 5, 6].map sampleSeed) :=
  ⟨((frontier_exact false).1 samplePostings samplePostings_sound).2 none, by decide⟩

end Noxide.Queries
