import Mathlib.Data.List.Basic
import Mathlib.Data.List.Infix

/-!
# Streaming pattern matching

Matching of one pattern against a text that arrives symbol by symbol, with the
table of longest borders to fall back to, and the occurrences of the pattern.

Main results:

- Theorem {lit}`failureTable_borders`: the table holds the longest border of every
  prefix of the pattern.
- Theorem {lit}`advance_longest`: one symbol later the matcher again holds the
  longest prefix of the pattern that ends the text.
- Theorem {lit}`fallback_fallen`: a fallback releases what it no longer holds.
- Theorem {lit}`FirstOccurrence.append`: the first occurrence stays the first when
  more text arrives.
-/

namespace Matching

variable {α : Type}

/-! ## Matched prefixes -/

/-- The first {lit}`k` symbols of the pattern end the text. -/
def Matches (pattern text : List α) (k : Nat) : Prop :=
  k ≤ pattern.length ∧ pattern.take k <:+ text

/-- The longest prefix of the pattern that ends the text. -/
structure Longest (pattern text : List α) (k : Nat) : Prop where
  holds : Matches pattern text k
  greatest : ∀ other, Matches pattern text other → other ≤ k

theorem matches_zero (pattern text : List α) : Matches pattern text 0 :=
  ⟨Nat.zero_le _, by simp⟩

theorem Matches.length {pattern text : List α} {k : Nat} (h : Matches pattern text k) :
    k ≤ text.length := by
  have short := h.2.length_le
  rw [List.length_take, Nat.min_eq_left h.1] at short
  exact short

/-- A longer match extends a match by the symbol that arrives. -/
theorem matches_snoc {pattern text : List α} {symbol : α} {k : Nat} :
    Matches pattern (text ++ [symbol]) (k + 1) ↔
      Matches pattern text k ∧ pattern[k]? = some symbol := by
  constructor
  · rintro ⟨inside, suffix⟩
    have here : k < pattern.length := inside
    rw [List.take_succ_eq_append_getElem here] at suffix
    rcases suffix with ⟨rest, split⟩
    rw [← List.append_assoc] at split
    have same := List.append_inj' split rfl
    refine ⟨⟨here.le, rest, same.1⟩, ?_⟩
    rw [List.getElem?_eq_getElem here, List.singleton_inj.mp same.2]
  · rintro ⟨⟨_, rest, rfl⟩, found⟩
    rcases List.getElem?_eq_some_iff.mp found with ⟨here, rfl⟩
    refine ⟨here, rest, ?_⟩
    rw [List.take_succ_eq_append_getElem here, List.append_assoc]

/-- Of two matches the shorter one ends the longer one. -/
theorem Matches.nested {pattern text : List α} {j k : Nat} (hj : Matches pattern text j)
    (hk : Matches pattern text k) (le : k ≤ j) : Matches pattern (pattern.take j) k := by
  refine ⟨hk.1, List.suffix_of_suffix_length_le hk.2 hj.2 ?_⟩
  rw [List.length_take, List.length_take]
  omega

theorem Matches.trans {pattern text : List α} {j k : Nat} (hj : Matches pattern text j)
    (hk : Matches pattern (pattern.take j) k) : Matches pattern text k :=
  ⟨hk.1, hk.2.trans hj.2⟩

/-- A match shorter than the text starts after its first symbol. -/
theorem Matches.tail {pattern text : List α} {k : Nat} (h : Matches pattern text k)
    (shorter : k < text.length) : Matches pattern (text.drop 1) k := by
  cases text with
  | nil => cases shorter
  | cons first rest =>
      refine ⟨h.1, ?_⟩
      rcases List.suffix_cons_iff.mp h.2 with same | suffix
      · have length := congrArg List.length same
        rw [List.length_take, Nat.min_eq_left h.1] at length
        omega
      · exact suffix

theorem Matches.of_tail {pattern text : List α} {k : Nat} (h : Matches pattern (text.drop 1) k) :
    Matches pattern text k :=
  ⟨h.1, h.2.trans (List.drop_suffix 1 text)⟩

/-! ## Falling back -/

/-- The longest borders of the prefixes up to a length: {lit}`next j` is the longest
proper border of the first {lit}`j` symbols. -/
def Borders (pattern : List α) (next : Nat → Nat) (length : Nat) : Prop :=
  ∀ j, 0 < j → j ≤ length → Longest pattern ((pattern.take j).drop 1) (next j)

/-- A border is shorter than its prefix. -/
theorem Borders.lt {pattern : List α} {next : Nat → Nat} {length j : Nat}
    (h : Borders pattern next length) (pos : 0 < j) (le : j ≤ length) : next j < j := by
  have short := (h j pos le).holds.length
  rw [List.length_drop, List.length_take] at short
  omega

/-- The entry of a table for a prefix length. -/
def tableNext (table : List Nat) (matched : Nat) : Nat :=
  table.getD (matched - 1) 0

theorem tableNext_append {table : List Nat} {entry j : Nat} (pos : 0 < j) (le : j ≤ table.length) :
    tableNext (table ++ [entry]) j = tableNext table j := by
  unfold tableNext
  rw [List.getD_eq_getElem?_getD, List.getElem?_append_left (by omega), ← List.getD_eq_getElem?_getD]

theorem tableNext_last {table : List Nat} {entry : Nat} :
    tableNext (table ++ [entry]) (table.length + 1) = entry := by
  simp [tableNext]

theorem borders_append {pattern : List α} {table : List Nat} {entry : Nat}
    (borders : Borders pattern (tableNext table) table.length)
    (last : Longest pattern ((pattern.take (table.length + 1)).drop 1) entry) :
    Borders pattern (tableNext (table ++ [entry])) (table.length + 1) := by
  intro j pos le
  by_cases new : j = table.length + 1
  · rw [new, tableNext_last]
    exact last
  · have old : j ≤ table.length := by omega
    rw [tableNext_append pos old]
    exact borders j pos old

/-- A table of the first borders, with the last of them. -/
structure Built (pattern : List α) (table : List Nat) (matched : Nat) : Prop where
  pos : 0 < table.length
  inside : table.length ≤ pattern.length
  borders : Borders pattern (tableNext table) table.length
  longest : Longest pattern ((pattern.take table.length).drop 1) matched

/-- The last border is shorter than its prefix. -/
theorem Built.lt {pattern : List α} {table : List Nat} {matched : Nat} (h : Built pattern table matched) :
    matched < table.length := by
  have bound := h.longest.holds.length
  have pos := h.pos
  rw [List.length_drop, List.length_take] at bound
  omega

/-- One symbol has no proper border. -/
theorem Built.first {pattern : List α} (nonempty : pattern ≠ []) : Built pattern [0] 0 := by
  have single : Longest pattern ((pattern.take 1).drop 1) 0 := by
    refine ⟨matches_zero _ _, fun k hk => ?_⟩
    have bound := hk.length
    rw [List.length_drop, List.length_take] at bound
    omega
  refine ⟨Nat.one_pos, List.length_pos_iff.mpr nonempty, ?_, single⟩
  intro j pos le
  have one : j = 1 := by
    rw [List.length_singleton] at le
    omega
  rw [one]
  exact single

/-- What is dropped in front of a border is released. -/
theorem take_border {pattern : List α} {j k : Nat} (inside : j ≤ pattern.length)
    (border : pattern.take k <:+ pattern.take j) (le : k ≤ j) :
    pattern.take (j - k) ++ pattern.take k = pattern.take j := by
  rcases border with ⟨front, split⟩
  have length := congrArg List.length split
  rw [List.length_append, List.length_take, List.length_take, Nat.min_eq_left inside,
    Nat.min_eq_left (le.trans inside)] at length
  have front_eq : front = pattern.take (j - k) := by
    have taken := congrArg (List.take (j - k)) split
    rw [List.take_append_of_le_length (by omega), List.take_of_length_le (by omega),
      List.take_take, Nat.min_eq_left (by omega)] at taken
    exact taken
  rw [← front_eq, split]

section Algorithm

variable [DecidableEq α]

/-- Fall back from a match to shorter ones until the symbol extends it; answers what
is released and the match that is left.  The fuel is the match's length. -/
def fallback (pattern : List α) (next : Nat → Nat) (symbol : α) : Nat → Nat → List α × Nat
  | 0, matched => ([], matched)
  | fuel + 1, matched =>
      if 0 < matched ∧ pattern[matched]? ≠ some symbol then
        let rest := fallback pattern next symbol fuel (next matched)
        (pattern.take (matched - next matched) ++ rest.1, rest.2)
      else ([], matched)

theorem fallback_stop {pattern : List α} {next : Nat → Nat} {symbol : α} {fuel matched : Nat}
    (h : ¬ (0 < matched ∧ pattern[matched]? ≠ some symbol)) :
    fallback pattern next symbol fuel matched = ([], matched) := by
  cases fuel with
  | zero => rfl
  | succ fuel => rw [fallback, if_neg h]

/-- What a fallback leaves: a shorter match that the symbol extends, or nothing, and
nothing longer was possible. -/
structure Fallen (pattern : List α) (symbol : α) (matched : Nat) (result : List α × Nat) :
    Prop where
  left : Matches pattern (pattern.take matched) result.2
  extends_or_empty : result.2 = 0 ∨ pattern[result.2]? = some symbol
  greatest : ∀ k, Matches pattern (pattern.take matched) k → pattern[k]? = some symbol →
    k ≤ result.2
  released : result.1 ++ pattern.take result.2 = pattern.take matched

/-- With fuel for the whole match, a fallback finds the longest border the symbol
extends. -/
theorem fallback_fallen {pattern : List α} {next : Nat → Nat} (symbol : α) {fuel matched : Nat}
    (borders : Borders pattern next matched) (inside : matched ≤ pattern.length)
    (enough : matched ≤ fuel) :
    Fallen pattern symbol matched (fallback pattern next symbol fuel matched) := by
  -- Induction on the fuel: every border is shorter than the match before it.
  have self : Matches pattern (pattern.take matched) matched := ⟨inside, List.suffix_rfl⟩
  induction fuel generalizing matched with
  | zero =>
      have empty : matched = 0 := by omega
      subst empty
      refine ⟨self, Or.inl rfl, fun k hk _ => ?_, rfl⟩
      exact hk.length.trans (by simp)
  | succ fuel ih =>
      by_cases falls : 0 < matched ∧ pattern[matched]? ≠ some symbol
      · rw [fallback, if_pos falls]
        have border := borders matched falls.1 le_rfl
        have shorter := borders.lt falls.1 le_rfl
        have held : Matches pattern (pattern.take matched) (next matched) := border.holds.of_tail
        have rest := @ih (next matched)
          (fun j pos le => borders j pos (le.trans shorter.le)) held.1 (by omega)
          ⟨held.1, List.suffix_rfl⟩
        refine ⟨held.trans rest.left, rest.extends_or_empty, ?_, ?_⟩
        · intro k hk found
          have length := hk.length
          rw [List.length_take, Nat.min_eq_left inside] at length
          have different : k ≠ matched := by
            rintro rfl
            exact falls.2 found
          have proper : Matches pattern ((pattern.take matched).drop 1) k := by
            refine hk.tail ?_
            rw [List.length_take, Nat.min_eq_left inside]
            omega
          exact rest.greatest k (held.nested hk (border.greatest k proper)) found
        · rw [List.append_assoc, rest.released, take_border inside held.2 shorter.le]
      · rw [fallback_stop falls]
        refine ⟨self, ?_, fun k hk _ => ?_, by simp⟩
        · rcases Nat.eq_zero_or_pos matched with zero | pos
          · exact Or.inl zero
          · right
            by_contra other
            exact falls ⟨pos, other⟩
        · have length := hk.length
          rw [List.length_take, Nat.min_eq_left inside] at length
          exact length

/-! ## Reading the text -/

/-- The match after one more symbol. -/
def advance (pattern : List α) (next : Nat → Nat) (symbol : α) (matched : Nat) : Nat :=
  let left := (fallback pattern next symbol matched matched).2
  if pattern[left]? = some symbol then left + 1 else 0

/-- One symbol later the match is again the longest. -/
theorem advance_longest {pattern text : List α} {next : Nat → Nat} (symbol : α) {matched : Nat}
    (borders : Borders pattern next matched) (h : Longest pattern text matched) :
    Longest pattern (text ++ [symbol]) (advance pattern next symbol matched) := by
  have fallen := fallback_fallen symbol borders h.holds.1 le_rfl
  have greatest : ∀ k, Matches pattern (text ++ [symbol]) (k + 1) →
      k ≤ (fallback pattern next symbol matched matched).2 ∧ pattern[k]? = some symbol := by
    intro k hk
    rcases matches_snoc.mp hk with ⟨before, found⟩
    exact ⟨fallen.greatest k (h.holds.nested before (h.greatest k before)) found, found⟩
  unfold advance
  by_cases found : pattern[(fallback pattern next symbol matched matched).2]? = some symbol
  · rw [if_pos found]
    refine ⟨matches_snoc.mpr ⟨h.holds.trans fallen.left, found⟩, ?_⟩
    intro k hk
    cases k with
    | zero => exact Nat.zero_le _
    | succ k => exact Nat.succ_le_succ (greatest k hk).1
  · rw [if_neg found]
    refine ⟨matches_zero _ _, ?_⟩
    intro k hk
    cases k with
    | zero => exact le_rfl
    | succ k =>
        rcases fallen.extends_or_empty with empty | extended
        · have bound := (greatest k hk).1
          rw [empty] at bound found
          have zero : k = 0 := by omega
          rw [zero] at hk
          exact absurd (greatest 0 hk).2 found
        · exact absurd extended found

/-! ## The table of borders -/

/-- Extend the table by one border for each further symbol of the pattern. -/
def failureFrom (pattern : List α) : List α → List Nat → Nat → List Nat
  | [], table, _ => table
  | symbol :: rest, table, matched =>
      let matched := advance pattern (tableNext table) symbol matched
      failureFrom pattern rest (table ++ [matched]) matched

/-- The longest borders of the pattern's prefixes. -/
def failureTable (pattern : List α) : List Nat :=
  failureFrom pattern pattern.tail [0] 0

/-- Each further entry is the longest border of one more symbol. -/
theorem Built.next {pattern : List α} {table : List Nat} {matched : Nat} {symbol : α}
    (h : Built pattern table matched) (found : pattern[table.length]? = some symbol) :
    Built pattern (table ++ [advance pattern (tableNext table) symbol matched])
      (advance pattern (tableNext table) symbol matched) := by
  rcases List.getElem?_eq_some_iff.mp found with ⟨here, symbol_eq⟩
  have pos := h.pos
  have extended : (pattern.take (table.length + 1)).drop 1 =
      (pattern.take table.length).drop 1 ++ [symbol] := by
    rw [List.take_succ_eq_append_getElem here, symbol_eq, List.drop_append_of_le_length]
    rw [List.length_take]
    omega
  have advanced : Longest pattern ((pattern.take (table.length + 1)).drop 1)
      (advance pattern (tableNext table) symbol matched) := by
    rw [extended]
    exact advance_longest _ (fun j jpos le => h.borders j jpos (le.trans h.lt.le)) h.longest
  have length : (table ++ [advance pattern (tableNext table) symbol matched]).length =
      table.length + 1 := by simp
  refine ⟨?_, ?_, ?_, ?_⟩
  · rw [length]
    omega
  · rw [length]
    exact here
  · rw [length]
    exact borders_append h.borders advanced
  · rw [length]
    exact advanced

/-- The remaining symbols complete the table. -/
theorem failureFrom_borders {pattern rest : List α} {table : List Nat} {matched : Nat}
    (split : pattern.drop table.length = rest) (h : Built pattern table matched) :
    Borders pattern (tableNext (failureFrom pattern rest table matched)) pattern.length := by
  induction rest generalizing table matched with
  | nil =>
      rw [failureFrom]
      intro j jpos le
      have whole : pattern.length ≤ table.length := List.drop_eq_nil_iff.mp split
      exact h.borders j jpos (le.trans whole)
  | cons symbol rest ih =>
      rw [failureFrom]
      have found : pattern[table.length]? = some symbol := by
        rw [← List.head?_drop, split]
        rfl
      refine ih ?_ (h.next found)
      rw [List.length_append, List.length_singleton, ← List.drop_drop, split]
      rfl

/-- The table holds the longest border of every prefix of the pattern. -/
theorem failureTable_borders (pattern : List α) :
    Borders pattern (tableNext (failureTable pattern)) pattern.length := by
  by_cases empty : pattern = []
  · subst empty
    intro j pos le
    exact absurd le (by rw [List.length_nil]; omega)
  · exact failureFrom_borders List.drop_one (Built.first empty)

theorem length_failureFrom (pattern rest : List α) (table : List Nat) (matched : Nat) :
    (failureFrom pattern rest table matched).length = table.length + rest.length := by
  induction rest generalizing table matched with
  | nil => rfl
  | cons symbol rest ih =>
      rw [failureFrom, ih, List.length_append, List.length_singleton, List.length_cons]
      omega

/-- The table has one entry for every symbol of the pattern. -/
theorem length_failureTable {pattern : List α} (nonempty : pattern ≠ []) :
    (failureTable pattern).length = pattern.length := by
  have pos := List.length_pos_iff.mpr nonempty
  rw [failureTable, length_failureFrom, List.length_singleton, List.length_tail]
  omega

end Algorithm

/-! ## Occurrences -/

/-- The pattern occurs in the text at an index. -/
def Occurs (pattern text : List α) (index : Nat) : Prop :=
  pattern <+: text.drop index

/-- The pattern occurs at an index and not before. -/
structure FirstOccurrence (pattern text : List α) (start : Nat) : Prop where
  occurs : Occurs pattern text start
  first : ∀ index < start, ¬ Occurs pattern text index

theorem Occurs.bound {pattern text : List α} {index : Nat} (h : Occurs pattern text index)
    (nonempty : pattern ≠ []) : index + pattern.length ≤ text.length := by
  have short := List.IsPrefix.length_le h
  have pos := List.length_pos_iff.mpr nonempty
  rw [List.length_drop] at short
  omega

/-- An occurrence inside the text does not depend on what follows. -/
theorem occurs_append {pattern text more : List α} {index : Nat}
    (inside : index + pattern.length ≤ text.length) :
    Occurs pattern (text ++ more) index ↔ Occurs pattern text index := by
  unfold Occurs
  rw [List.drop_append_of_le_length (by omega)]
  constructor
  · intro occurs
    refine List.prefix_of_prefix_length_le occurs (List.prefix_append _ _) ?_
    rw [List.length_drop]
    omega
  · intro occurs
    exact occurs.trans (List.prefix_append _ _)

theorem FirstOccurrence.append {pattern text : List α} {start : Nat}
    (h : FirstOccurrence pattern text start) (nonempty : pattern ≠ []) (more : List α) :
    FirstOccurrence pattern (text ++ more) start := by
  have bound := h.occurs.bound nonempty
  refine ⟨(occurs_append bound).mpr h.occurs, fun index before occurs => ?_⟩
  exact h.first index before ((occurs_append (by omega)).mp occurs)

theorem FirstOccurrence.unique {pattern text : List α} {start other : Nat}
    (h : FirstOccurrence pattern text start) (h' : FirstOccurrence pattern text other) :
    start = other := by
  rcases Nat.lt_trichotomy start other with before | same | after
  · exact absurd h.occurs (h'.first start before)
  · exact same
  · exact absurd h'.occurs (h.first other after)

/-- Without a full match at its end, a text gains no occurrence. -/
theorem not_occurs_snoc {pattern text : List α} {symbol : α} {matched : Nat}
    (none : ∀ index, ¬ Occurs pattern text index)
    (longest : Longest pattern (text ++ [symbol]) matched) (partly : matched < pattern.length) :
    ∀ index, ¬ Occurs pattern (text ++ [symbol]) index := by
  intro index occurs
  have nonempty : pattern ≠ [] := by
    rintro rfl
    cases partly
  have bound := occurs.bound nonempty
  rw [List.length_append, List.length_singleton] at bound
  by_cases inside : index + pattern.length ≤ text.length
  · exact none index ((occurs_append inside).mp occurs)
  · have whole : pattern = (text ++ [symbol]).drop index := by
      refine List.IsPrefix.eq_of_length occurs ?_
      rw [List.length_drop, List.length_append, List.length_singleton]
      omega
    have full : Matches pattern (text ++ [symbol]) pattern.length := by
      refine ⟨le_rfl, ?_⟩
      rw [List.take_length]
      nth_rewrite 1 [whole]
      exact List.drop_suffix _ _
    have bound := longest.greatest _ full
    omega

/-- A pattern that ends a text without an earlier occurrence occurs there first. -/
theorem first_at_end {pattern text before : List α} {symbol : α}
    (none : ∀ index, ¬ Occurs pattern text index) (ends : before ++ pattern = text ++ [symbol]) :
    FirstOccurrence pattern (text ++ [symbol]) before.length := by
  have length := congrArg List.length ends
  rw [List.length_append, List.length_append, List.length_singleton] at length
  constructor
  · rw [← ends, Occurs, List.drop_left]
  · intro index earlier occurs
    exact none index ((occurs_append (by omega)).mp occurs)

end Matching
