import Mathlib.Data.List.Nodup
import Mathlib.Data.List.Perm.Basic
import Mathlib.Data.List.Sort
import Mathlib.Order.Defs.LinearOrder

/-!
# Merged scans

Several ordered lists are read together, page by page, and each page of a list holds at most a
limit of rows.  The rows that are certain to come first are those up to the least of the keys
at which a list was cut off.

Main results:

- Theorem {lit}`Sealed.of_merge`: what is merged up to the least cut is sealed.
- Theorem {lit}`Sealed.short` and {lit}`Sealed.progress`: when a scan ends, and that it goes on.
- Theorem {lit}`Sealed.unique`: a page is determined by the lists and the previous cut.
- Theorem {lit}`drain_exact`: page by page, every row is read once.
-/

namespace MergedScan

variable {α κ : Type} [LinearOrder κ]

/-- One key comes before another in the direction of the scan. -/
def Advances (descending : Bool) (a b : κ) : Prop := if descending then b < a else a < b

instance (descending : Bool) (a b : κ) : Decidable (Advances descending a b) :=
  inferInstanceAs (Decidable (if descending then b < a else a < b))

def After (descending : Bool) (previous : Option κ) (k : κ) : Prop :=
  ∀ last, previous = some last → Advances descending last k

def UpTo (descending : Bool) (cutoff : Option κ) (k : κ) : Prop :=
  ∀ last, cutoff = some last → ¬ Advances descending last k

instance (descending : Bool) (previous : Option κ) (k : κ) : Decidable (After descending previous k) :=
  match previous with
  | none => isTrue fun _ absent => by cases absent
  | some last => decidable_of_iff (Advances descending last k)
      ⟨fun h _ same => Option.some.inj same ▸ h, fun h => h last rfl⟩

instance (descending : Bool) (cutoff : Option κ) (k : κ) : Decidable (UpTo descending cutoff k) :=
  match cutoff with
  | none => isTrue fun _ absent => by cases absent
  | some last => decidable_of_iff (¬ Advances descending last k)
      ⟨fun h _ same => Option.some.inj same ▸ h, fun h => h last rfl⟩

/-- Ordered strictly in the direction of the scan. -/
def Ordered (descending : Bool) (key : α → κ) (rows : List α) : Prop :=
  rows.Pairwise fun a b => Advances descending (key a) (key b)

/-- The page of a list: its first rows after the previous cut. -/
def window (descending : Bool) (key : α → κ) (limit : Nat) (previous : Option κ) (rows : List α) : List α :=
  (rows.filter fun a => After descending previous (key a)).take limit

/-- The key at which a full page was cut off. -/
def boundary (key : α → κ) (limit : Nat) (page : List α) : Option κ :=
  if page.length = limit then page.getLast?.map key else none

/-- A cut in front of which none of the boundaries lies. -/
def IsCutoff (descending : Bool) (boundaries : List κ) : Option κ → Prop
  | none => boundaries = []
  | some cut => cut ∈ boundaries ∧ ∀ b ∈ boundaries, ¬ Advances descending b cut

/-- The boundaries of the pages of all lists, each with its limit. -/
def boundaries (descending : Bool) (key : α → κ) (previous : Option κ) (sources : List (Nat × List α)) : List κ :=
  sources.filterMap fun source => boundary key source.1 (window descending key source.1 previous source.2)

/-- The rows of all lists after the previous cut and up to the next one. -/
structure Sealed (descending : Bool) (key : α → κ) (sources : List (Nat × List α)) (previous cutoff : Option κ)
    (candidates : List α) : Prop where
  least : IsCutoff descending (boundaries descending key previous sources) cutoff
  exact : ∀ a, a ∈ candidates ↔
    (∃ source ∈ sources, a ∈ source.2) ∧ After descending previous (key a) ∧ UpTo descending cutoff (key a)
  ordered : Ordered descending key candidates

/-! ## Directions -/

section Directions

variable {descending : Bool} {a b c : κ}

theorem Advances.irrefl (a : κ) : ¬ Advances descending a a := by
  cases descending <;> exact lt_irrefl a

theorem Advances.trans (first : Advances descending a b) (second : Advances descending b c) :
    Advances descending a c := by
  cases descending with
  | false => exact lt_trans (a := a) first second
  | true => exact lt_trans (a := c) second first

theorem Advances.asymm (first : Advances descending a b) : ¬ Advances descending b a :=
  fun second => Advances.irrefl a (first.trans second)

theorem not_advances : ¬ Advances descending a b ↔ a = b ∨ Advances descending b a := by
  cases descending with
  | false =>
      change ¬ a < b ↔ a = b ∨ b < a
      rw [not_lt, le_iff_eq_or_lt, eq_comm]
  | true =>
      change ¬ b < a ↔ a = b ∨ a < b
      rw [not_lt, le_iff_eq_or_lt]

/-- Nothing in front of a key that is not in front of another is in front of that one. -/
theorem Advances.of_not (behind : ¬ Advances descending a b) (first : Advances descending a c) :
    Advances descending b c := by
  rcases not_advances.mp behind with rfl | earlier
  · exact first
  · exact earlier.trans first

end Directions

/-! ## Pages -/

section Pages

variable {descending : Bool} {key : α → κ} {limit : Nat} {previous cutoff : Option κ} {rows : List α} {a : α}

theorem Ordered.nodup (ordered : Ordered descending key rows) : rows.Nodup :=
  List.Pairwise.imp (fun {a b} (advances : Advances descending (key a) (key b)) (same : a = b) =>
    Advances.irrefl (key b) (same ▸ advances)) ordered

/-- A page and the rows behind it. -/
theorem window_append (limit : Nat) : window descending key limit previous rows
    ++ (rows.filter fun a => After descending previous (key a)).drop limit
    = rows.filter fun a => After descending previous (key a) :=
  List.take_append_drop _ _

theorem mem_window (h : a ∈ window descending key limit previous rows) :
    a ∈ rows ∧ After descending previous (key a) := by
  rcases List.mem_filter.mp (List.mem_of_mem_take h) with ⟨member, after⟩
  exact ⟨member, of_decide_eq_true after⟩

theorem window_ordered (ordered : Ordered descending key rows) :
    Ordered descending key (window descending key limit previous rows) :=
  ordered.sublist ((List.take_sublist _ _).trans List.filter_sublist)

theorem window_length : (window descending key limit previous rows).length ≤ limit :=
  List.length_take_le _ _

/-- A page that is not full is all there is. -/
theorem mem_window_of_short (short : (window descending key limit previous rows).length < limit)
    (member : a ∈ rows) (after : After descending previous (key a)) :
    a ∈ window descending key limit previous rows := by
  have rest : (rows.filter fun a => After descending previous (key a)).length ≤ limit := by
    unfold window at short
    rw [List.length_take] at short
    omega
  rw [window, List.take_of_length_le rest]
  exact List.mem_filter.mpr ⟨member, decide_eq_true after⟩

/-- A full page holds every row up to its last one. -/
theorem mem_window_of_boundary (ordered : Ordered descending key rows) {cut : κ}
    (full : boundary key limit (window descending key limit previous rows) = some cut)
    (member : a ∈ rows) (after : After descending previous (key a)) (upTo : ¬ Advances descending cut (key a)) :
    a ∈ window descending key limit previous rows := by
  unfold boundary at full
  split at full
  · rcases Option.map_eq_some_iff.mp full with ⟨last, atEnd, rfl⟩
    have chosen : a ∈ rows.filter fun a => After descending previous (key a) :=
      List.mem_filter.mpr ⟨member, decide_eq_true after⟩
    rw [← window_append limit] at chosen
    rcases List.mem_append.mp chosen with here | behind
    · exact here
    · -- the rows behind a page come after its last one
      have parts : Ordered descending key (rows.filter fun a => After descending previous (key a)) :=
        ordered.sublist List.filter_sublist
      rw [Ordered, ← window_append limit, List.pairwise_append] at parts
      exact absurd (parts.2.2 last (List.mem_of_getLast? atEnd) a behind) upTo
  · cases full

omit [LinearOrder κ] in
theorem boundary_mem {cut : κ} (full : boundary key limit rows = some cut) : ∃ a ∈ rows, key a = cut := by
  unfold boundary at full
  split at full
  · rcases Option.map_eq_some_iff.mp full with ⟨last, atEnd, same⟩
    exact ⟨last, List.mem_of_getLast? atEnd, same⟩
  · cases full

omit [LinearOrder κ] in
/-- Only a page that is not full has no boundary. -/
theorem boundary_none (positive : 0 < limit) : boundary key limit rows = none ↔ rows.length ≠ limit := by
  unfold boundary
  split
  · rename_i full
    have some_row : rows ≠ [] := by
      rintro rfl
      rw [List.length_nil] at full
      omega
    simp [List.getLast?_eq_some_getLast some_row, full]
  · rename_i short
    simp [short]

end Pages

/-! ## Merged pages -/

section Merged

variable {descending : Bool} {key : α → κ} {sources : List (Nat × List α)} {previous cutoff : Option κ}
  {candidates : List α}

theorem mem_boundaries {cut : κ} : cut ∈ boundaries descending key previous sources ↔
    ∃ source ∈ sources, boundary key source.1 (window descending key source.1 previous source.2) = some cut :=
  List.mem_filterMap

/-- What is merged from the pages up to the least boundary is sealed. -/
theorem Sealed.of_merge (positive : ∀ source ∈ sources, 0 < source.1)
    (sorted : ∀ source ∈ sources, Ordered descending key source.2)
    (least : IsCutoff descending (boundaries descending key previous sources) cutoff)
    (merged : ∀ a, a ∈ candidates ↔
      (∃ source ∈ sources, a ∈ window descending key source.1 previous source.2)
        ∧ UpTo descending cutoff (key a))
    (ordered : Ordered descending key candidates) :
    Sealed descending key sources previous cutoff candidates := by
  refine ⟨least, fun a => ?_, ordered⟩
  rw [merged a]
  constructor
  · rintro ⟨⟨source, member, here⟩, upTo⟩
    rcases mem_window here with ⟨row, after⟩
    exact ⟨⟨source, member, row⟩, after, upTo⟩
  · rintro ⟨⟨source, member, row⟩, after, upTo⟩
    refine ⟨⟨source, member, ?_⟩, upTo⟩
    cases full : boundary key source.1 (window descending key source.1 previous source.2) with
    | none =>
        have short := (boundary_none (positive source member)).mp full
        exact mem_window_of_short (lt_of_le_of_ne window_length short) row after
    | some b =>
        refine mem_window_of_boundary (sorted source member) full row after fun beyond => ?_
        have listed : b ∈ boundaries descending key previous sources := mem_boundaries.mpr ⟨source, member, full⟩
        cases cutoff with
        | none =>
            rw [show boundaries descending key previous sources = [] from least] at listed
            cases listed
        | some cut =>
            exact upTo cut rfl (Advances.of_not (least.2 b listed) beyond)

/-- A scan ends where every page is short of its limit. -/
theorem Sealed.short (page : Sealed descending key sources previous cutoff candidates)
    (positive : ∀ source ∈ sources, 0 < source.1) :
    cutoff = none ↔ ∀ source ∈ sources,
      (window descending key source.1 previous source.2).length < source.1 := by
  have empty : cutoff = none ↔ boundaries descending key previous sources = [] := by
    have least := page.least
    cases cutoff with
    | none => exact ⟨fun _ => least, fun _ => rfl⟩
    | some cut => exact ⟨fun absent => (by cases absent), fun none_left => (by
        have listed := least.1
        rw [none_left] at listed
        cases listed)⟩
  rw [empty, boundaries, List.filterMap_eq_nil_iff]
  refine forall₂_congr fun source member => ?_
  rw [boundary_none (positive source member)]
  exact ⟨fun short => lt_of_le_of_ne window_length short, fun short => short.ne⟩

/-- A page with a cut has rows: the one at the cut. -/
theorem Sealed.reached {cut : κ} (page : Sealed descending key sources previous (some cut) candidates) :
    ∃ a ∈ candidates, key a = cut := by
  rcases mem_boundaries.mp page.least.1 with ⟨source, member, full⟩
  rcases boundary_mem full with ⟨a, here, same⟩
  rcases mem_window here with ⟨row, after⟩
  refine ⟨a, (page.exact a).mpr ⟨⟨source, member, row⟩, after, fun last reached => ?_⟩, same⟩
  cases reached
  rw [same]
  exact Advances.irrefl _

theorem Sealed.progress (page : Sealed descending key sources previous cutoff candidates)
    (open_scan : cutoff ≠ none) : candidates ≠ [] := by
  cases cutoff with
  | none => exact absurd rfl open_scan
  | some cut =>
      rcases page.reached with ⟨a, member, _⟩
      exact List.ne_nil_of_mem member

/-- One more boundary: the cut stays, or moves to it, so that neither lies in front of it. -/
theorem IsCutoff.push {cuts : List κ} {cut b c : κ} (h : IsCutoff descending cuts (some cut))
    (chosen : c = cut ∨ c = b) (first : ¬ Advances descending cut c) (second : ¬ Advances descending b c) :
    IsCutoff descending (cuts ++ [b]) (some c) := by
  constructor
  · rcases chosen with rfl | rfl
    · exact List.mem_append_left _ h.1
    · exact List.mem_append_right _ (List.mem_singleton.mpr rfl)
  · intro b' listed
    rcases List.mem_append.mp listed with before | last
    · exact fun front => first (Advances.of_not (h.2 b' before) front)
    · rw [List.mem_singleton.mp last]
      exact second

theorem IsCutoff.first {cuts : List κ} {b : κ} (h : IsCutoff descending cuts none) :
    IsCutoff descending (cuts ++ [b]) (some b) := by
  rw [show cuts = [] from h]
  refine ⟨List.mem_singleton.mpr rfl, fun b' listed => ?_⟩
  rw [List.mem_singleton.mp listed]
  exact Advances.irrefl b

theorem IsCutoff.unique {cuts : List κ} {cutoff' : Option κ} (first : IsCutoff descending cuts cutoff)
    (second : IsCutoff descending cuts cutoff') : cutoff = cutoff' := by
  cases cutoff with
  | none =>
      cases cutoff' with
      | none => rfl
      | some cut =>
          have listed := second.1
          rw [show cuts = [] from first] at listed
          cases listed
  | some cut =>
      cases cutoff' with
      | none =>
          have listed := first.1
          rw [show cuts = [] from second] at listed
          cases listed
      | some cut' =>
          rcases not_advances.mp (first.2 cut' second.1) with same | front
          · rw [same]
          · exact absurd front (second.2 cut first.1)

/-- Ordered rows are determined by what they are. -/
theorem Ordered.ext {rows rows' : List α} (first : Ordered descending key rows)
    (second : Ordered descending key rows') (same : ∀ a, a ∈ rows ↔ a ∈ rows') : rows = rows' := by
  have perm : rows.Perm rows' := (List.perm_ext_iff_of_nodup first.nodup second.nodup).mpr same
  refine perm.eq_of_pairwise (fun a b _ _ front back => ?_) first second
  exact absurd back front.asymm

theorem Sealed.unique {cutoff' : Option κ} {candidates' : List α}
    (page : Sealed descending key sources previous cutoff candidates)
    (page' : Sealed descending key sources previous cutoff' candidates') :
    cutoff = cutoff' ∧ candidates = candidates' := by
  have same := page.least.unique page'.least
  subst same
  exact ⟨rfl, page.ordered.ext page'.ordered fun a => (page.exact a).trans (page'.exact a).symm⟩

theorem window_none {limit : Nat} {rows : List α} :
    window descending key limit none (rows.filter fun a => After descending previous (key a))
      = window descending key limit previous rows := by
  have anything : ∀ a : α, decide (After descending none (key a)) = true := fun a =>
    decide_eq_true fun _ absent => by cases absent
  rw [window, window, List.filter_eq_self.mpr fun a _ => anything a]

/-- The pages after a cut are the first pages of the rows after it. -/
theorem Sealed.after (page : Sealed descending key
      (sources.map fun source => (source.1, source.2.filter fun a => After descending previous (key a))) none cutoff
      candidates) : Sealed descending key sources previous cutoff candidates := by
  refine ⟨?_, fun a => ?_, page.ordered⟩
  · have same : boundaries descending key none
          (sources.map fun source => (source.1, source.2.filter fun a => After descending previous (key a)))
        = boundaries descending key previous sources := by
      rw [boundaries, boundaries, List.filterMap_map]
      congr 1
      funext source
      rw [Function.comp, window_none]
    exact same ▸ page.least
  · rw [page.exact a]
    constructor
    · rintro ⟨⟨source, member, row⟩, _, upTo⟩
      rcases List.mem_map.mp member with ⟨source, listed, rfl⟩
      rcases List.mem_filter.mp row with ⟨here, after⟩
      exact ⟨⟨source, listed, here⟩, of_decide_eq_true after, upTo⟩
    · rintro ⟨⟨source, listed, here⟩, after, upTo⟩
      exact ⟨⟨_, List.mem_map_of_mem listed, List.mem_filter.mpr ⟨here, decide_eq_true after⟩⟩,
        fun _ absent => (by cases absent), upTo⟩

/-! ## Other keys -/

section Maps

variable {β κ' : Type} [LinearOrder κ'] {key' : β → κ'} {f : α → β} {g : κ → κ'}

theorem advances_map (strict : StrictMono g) {a b : κ} :
    Advances descending (g a) (g b) ↔ Advances descending a b := by
  cases descending <;> exact strict.lt_iff_lt

theorem window_map (keys : ∀ a, key' (f a) = g (key a)) (strict : StrictMono g) {limit : Nat} {rows : List α} :
    window descending key' limit (previous.map g) (rows.map f)
      = (window descending key limit previous rows).map f := by
  rw [window, window, List.filter_map, List.map_take]
  congr 2
  refine List.filter_congr fun a _ => ?_
  rw [Function.comp, decide_eq_decide, keys]
  constructor
  · intro after last same
    exact (advances_map strict).mp (after (g last) (by rw [same]; rfl))
  · intro after last same
    rcases Option.map_eq_some_iff.mp same with ⟨before, start, rfl⟩
    exact (advances_map strict).mpr (after before start)

theorem boundaries_map (keys : ∀ a, key' (f a) = g (key a)) (strict : StrictMono g) :
    boundaries descending key' (previous.map g) (sources.map fun source => (source.1, source.2.map f))
      = (boundaries descending key previous sources).map g := by
  rw [boundaries, boundaries, List.filterMap_map, List.map_filterMap]
  congr 1
  funext source
  rw [Function.comp, window_map keys strict, boundary, boundary, List.length_map]
  split
  · rw [List.getLast?_map, Option.map_map, Option.map_map]
    congr 1
    funext a
    exact keys a
  · rfl

/-- A page of the same rows under other names, and keys in the same order. -/
theorem Sealed.map (page : Sealed descending key sources previous cutoff candidates)
    (keys : ∀ a, key' (f a) = g (key a)) (strict : StrictMono g) :
    Sealed descending key' (sources.map fun source => (source.1, source.2.map f)) (previous.map g)
      (cutoff.map g) (candidates.map f) := by
  refine ⟨?_, fun b => ?_, ?_⟩
  · rw [boundaries_map keys strict]
    have least := page.least
    cases cutoff with
    | none => exact List.map_eq_nil_iff.mpr least
    | some cut =>
        refine ⟨List.mem_map_of_mem least.1, fun b listed => ?_⟩
        rcases List.mem_map.mp listed with ⟨b, before, rfl⟩
        rw [advances_map strict]
        exact least.2 b before
  · constructor
    · intro member
      rcases List.mem_map.mp member with ⟨a, here, rfl⟩
      rcases (page.exact a).mp here with ⟨⟨source, listed, row⟩, after, upTo⟩
      refine ⟨⟨_, List.mem_map_of_mem listed, List.mem_map_of_mem row⟩, fun last same => ?_, fun last same => ?_⟩
      · rcases Option.map_eq_some_iff.mp same with ⟨before, start, rfl⟩
        rw [keys, advances_map strict]
        exact after before start
      · rcases Option.map_eq_some_iff.mp same with ⟨cut, stop, rfl⟩
        rw [keys, advances_map strict]
        exact upTo cut stop
    · rintro ⟨⟨source, listed, row⟩, after, upTo⟩
      rcases List.mem_map.mp listed with ⟨source, before, rfl⟩
      rcases List.mem_map.mp row with ⟨a, here, rfl⟩
      refine List.mem_map_of_mem ((page.exact a).mpr ⟨⟨source, before, here⟩, fun last same => ?_, fun last same => ?_⟩)
      · have start := after (g last) (by rw [same]; rfl)
        rw [keys, advances_map strict] at start
        exact start
      · have stop := upTo (g last) (by rw [same]; rfl)
        rw [keys, advances_map strict] at stop
        exact stop
  · refine List.pairwise_map.mpr (page.ordered.imp fun front => ?_)
    rw [keys, keys, advances_map strict]
    exact front

end Maps

end Merged

/-! ## Page by page -/

/-- Read page by page, each after the cut of the one before. -/
def drain (page : Option κ → Option (List α × Option κ)) : Nat → Option κ → Option (List α)
  | 0, _ => none
  | fuel + 1, previous =>
      match page previous with
      | none => none
      | some (candidates, none) => some candidates
      | some (candidates, some cut) => (drain page fuel (some cut)).map (candidates ++ ·)

/-- The rows of all lists that are still to be read. -/
def remaining (descending : Bool) (key : α → κ) (sources : List (Nat × List α)) (previous : Option κ) : List α :=
  (sources.flatMap Prod.snd).filter fun a => After descending previous (key a)

section Drain

variable {descending : Bool} {key : α → κ} {sources : List (Nat × List α)} {previous : Option κ}
  {page : Option κ → Option (List α × Option κ)}

theorem mem_remaining {a : α} : a ∈ remaining descending key sources previous ↔
    (∃ source ∈ sources, a ∈ source.2) ∧ After descending previous (key a) := by
  rw [remaining, List.mem_filter, List.mem_flatMap, decide_eq_true_eq]

/-- A cut is behind the one before it, and leaves fewer rows. -/
theorem Sealed.fewer {cut : κ} {candidates : List α}
    (here : Sealed descending key sources previous (some cut) candidates) :
    After descending previous cut
      ∧ (remaining descending key sources (some cut)).length < (remaining descending key sources previous).length := by
  rcases here.reached with ⟨a, member, same⟩
  rcases (here.exact a).mp member with ⟨row, after, _⟩
  rw [same] at after
  refine ⟨after, ?_⟩
  have narrower : remaining descending key sources (some cut)
      = (remaining descending key sources previous).filter fun a => After descending (some cut) (key a) := by
    rw [remaining, remaining, List.filter_filter]
    refine List.filter_congr fun b _ => ?_
    rw [← Bool.decide_and, decide_eq_decide]
    refine ⟨fun behind => ⟨behind, fun last first => (after last first).trans (behind cut rfl)⟩, fun both => both.1⟩
  rw [narrower]
  refine List.length_filter_lt_length_iff_exists.mpr ⟨a, mem_remaining.mpr ⟨row, same ▸ after⟩, fun behind => ?_⟩
  rw [decide_eq_true_eq, same] at behind
  exact Advances.irrefl _ (behind cut rfl)

/-- Where every page is sealed, reading page by page ends, and has then read every row after the
start, once and in order. -/
theorem drain_exact (seals : ∀ previous, ∃ candidates cutoff, page previous = some (candidates, cutoff)
      ∧ Sealed descending key sources previous cutoff candidates) (fuel : Nat) (previous : Option κ)
    (enough : (remaining descending key sources previous).length < fuel) :
    ∃ rows, drain page fuel previous = some rows ∧ Ordered descending key rows
      ∧ ∀ a, a ∈ rows ↔ (∃ source ∈ sources, a ∈ source.2) ∧ After descending previous (key a) := by
  induction fuel generalizing previous with
  | zero => omega
  | succ fuel ih =>
      rcases seals previous with ⟨candidates, cutoff, paged, here⟩
      rw [drain, paged]
      cases cutoff with
      | none =>
          refine ⟨candidates, rfl, here.ordered, fun a => ?_⟩
          rw [here.exact a]
          exact ⟨fun all => ⟨all.1, all.2.1⟩, fun both => ⟨both.1, both.2, fun _ absent => by cases absent⟩⟩
      | some cut =>
          rcases here.fewer with ⟨after, fewer⟩
          rcases ih (some cut) (by omega) with ⟨rest, drained, ordered, members⟩
          refine ⟨candidates ++ rest, ?_, ?_, fun a => ?_⟩
          · simp only [drained, Option.map_some]
          · -- what follows the cut comes after what leads up to it
            refine List.pairwise_append.mpr ⟨here.ordered, ordered, fun a first b second => ?_⟩
            have upTo := ((here.exact a).mp first).2.2 cut rfl
            have behind := ((members b).mp second).2 cut rfl
            exact Advances.of_not upTo behind
          · rw [List.mem_append, here.exact a, members a]
            constructor
            · rintro (⟨row, first, _⟩ | ⟨row, behind⟩)
              · exact ⟨row, first⟩
              · exact ⟨row, fun last same => (after last same).trans (behind cut rfl)⟩
            · rintro ⟨row, first⟩
              by_cases beyond : Advances descending cut (key a)
              · exact .inr ⟨row, fun last same => Option.some.inj same ▸ beyond⟩
              · exact .inl ⟨row, first, fun last same => Option.some.inj same ▸ beyond⟩

end Drain

end MergedScan
