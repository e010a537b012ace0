import Noxide.Blobs.Multipart

/-!
# Matching by index

The matcher as its loops read the delimiter and the table: every index, every difference and the
end of every loop is checked.

Main results:

- Theorem {lit}`newMatcher_eq`: the table is built without a failed check.
- Theorem {lit}`indexedByte_eq`: one byte is read without a failed check.
- Theorem {lit}`matcher_streams`: what is released is what precedes the first delimiter, and the
  delimiter is reported with its last byte.
-/

namespace Noxide.Indexed

open Checked

/-! ## The source's loops -/

/-- How a loop on indices goes wrong. -/
inductive IndexStop where
  | outOfRange
  | underflow
  | endless
  deriving DecidableEq, Repr

/-- The source's index into a slice. -/
def readAt {α : Type} (xs : List α) (i : Nat) : Except IndexStop α :=
  context .outOfRange xs[i]?

/-- The table's entry for a matched prefix. -/
def entryOf (failure : List Nat) (matched : Nat) : Except IndexStop Nat := do
  ensure .underflow (0 < matched)
  readAt failure (matched - 1)

/-- The inner loop that builds the table. -/
def shrink (delimiter : List UInt8) (failure : List Nat) (index : Nat) :
    Nat → Nat → Except IndexStop Nat
  | _, 0 => .ok 0
  | rounds, matched + 1 => do
      let symbol ← readAt delimiter index
      let here ← readAt delimiter (matched + 1)
      if symbol = here then return matched + 1
      else
        match rounds with
        | 0 => .error .endless
        | rounds + 1 => do
            let shorter ← entryOf failure (matched + 1)
            shrink delimiter failure index rounds shorter

/-- One round of the outer loop. -/
def tableRound (delimiter : List UInt8) (state : List Nat × Nat) (index : Nat) :
    Except IndexStop (List Nat × Nat) := do
  let matched ← shrink delimiter state.1 index state.2 state.2
  let symbol ← readAt delimiter index
  let here ← readAt delimiter matched
  let matched := if symbol = here then matched + 1 else matched
  ensure .outOfRange (index < state.1.length)
  return (state.1.set index matched, matched)

/-- The source's {lit}`Matcher::new`. -/
def newMatcher (delimiter : List UInt8) : Except IndexStop Matcher := do
  let (failure, _) ← (List.range' 1 (delimiter.length - 1)).foldlM (tableRound delimiter)
    (List.replicate delimiter.length 0, 0)
  return { delimiter := delimiter, failure := failure, matched := 0 }

/-- The loop that falls back before a byte, with the bytes released so far. -/
def release (m : Matcher) (byte : UInt8) : Nat → Nat → List UInt8 → Except IndexStop (List UInt8 × Nat)
  | _, 0, released => .ok (released, 0)
  | rounds, matched + 1, released => do
      let here ← readAt m.delimiter (matched + 1)
      if here = byte then return (released, matched + 1)
      else
        match rounds with
        | 0 => .error .endless
        | rounds + 1 => do
            let shorter ← entryOf m.failure (matched + 1)
            ensure .underflow (shorter ≤ matched + 1)
            ensure .outOfRange (matched + 1 - shorter ≤ m.delimiter.length)
            release m byte rounds shorter (released ++ m.delimiter.take (matched + 1 - shorter))

/-- The source's {lit}`Matcher::byte`: the bytes released, the matcher, and whether the delimiter
ended. -/
def indexedByte (m : Matcher) (byte : UInt8) : Except IndexStop (List UInt8 × Matcher × Bool) := do
  let (released, matched) ← release m byte m.matched m.matched []
  let here ← readAt m.delimiter matched
  if here = byte then
    return if matched + 1 = m.delimiter.length then (released, { m with matched := 0 }, true)
      else (released, { m with matched := matched + 1 }, false)
  else return (released ++ [byte], { m with matched := matched }, false)

/-- A matcher fed up to its first report: the bytes released, the matcher, and how many bytes were
read when it reported the delimiter. -/
structure Fed where
  released : List UInt8
  matcher : Matcher
  reported : Option Nat

/-- Feed bytes one by one, after those already read. -/
def feed (m : Matcher) (released : List UInt8) (count : Nat) : List UInt8 → Except IndexStop Fed
  | [] => .ok ⟨released, m, none⟩
  | byte :: rest => do
      let (more, m, ended) ← indexedByte m byte
      if ended = true then return ⟨released ++ more, m, some (count + 1)⟩
      else feed m (released ++ more) (count + 1) rest

/-! ## No check fails -/

theorem readAt_ok {α : Type} {xs : List α} {i : Nat} {x : α} (found : xs[i]? = some x) :
    readAt xs i = .ok x := by
  rw [readAt, found]
  rfl

/-- The table holds the next match for every prefix up to a length. -/
def Entries (failure : List Nat) (next : Nat → Nat) (length : Nat) : Prop :=
  ∀ j, 0 < j → j ≤ length → failure[j - 1]? = some (next j)

theorem entryOf_ok {failure : List Nat} {next : Nat → Nat} {length j : Nat}
    (entries : Entries failure next length) (pos : 0 < j) (le : j ≤ length) :
    entryOf failure j = .ok (next j) := by
  rw [entryOf, ensure_pos pos, bind_ok]
  exact readAt_ok (entries j pos le)

section Loops

variable {delimiter : List UInt8} {failure : List Nat} {next : Nat → Nat} {byte : UInt8}
  {rounds matched : Nat}

/-- The loop that builds the table falls back as the algorithm does. -/
theorem shrink_eq {index : Nat} (entries : Entries failure next matched)
    (borders : Matching.Borders delimiter next matched) (inside : matched < delimiter.length)
    (found : delimiter[index]? = some byte) (enough : matched ≤ rounds) :
    shrink delimiter failure index rounds matched
      = .ok (Matching.fallback delimiter next byte rounds matched).2 := by
  -- Induction on the rounds: every border is shorter than the match before it.
  induction rounds generalizing matched with
  | zero =>
      have empty : matched = 0 := by omega
      subst empty
      rw [shrink, Matching.fallback]
  | succ rounds ih =>
      cases matched with
      | zero => rw [shrink, Matching.fallback_stop (by omega)]
      | succ matched =>
          have here := List.getElem?_eq_getElem inside
          simp only [shrink]
          rw [readAt_ok found, readAt_ok here, bind_ok, bind_ok]
          by_cases same : byte = delimiter[matched + 1]
          · rw [if_pos same, Matching.fallback_stop (by rw [here, same]; exact fun h => h.2 rfl)]
            rfl
          · have differs : delimiter[matched + 1]? ≠ some byte := by
              rw [here]
              exact fun h => same (Option.some.inj h).symm
            have shorter := borders.lt (Nat.succ_pos matched) le_rfl
            rw [if_neg same, entryOf_ok entries (Nat.succ_pos matched) le_rfl, bind_ok,
              Matching.fallback, if_pos ⟨Nat.succ_pos matched, differs⟩]
            exact ih (fun j pos le => entries j pos (by omega)) (fun j pos le => borders j pos (by omega))
              (by omega) (by omega)

/-- The loop before a byte falls back as the algorithm does, and releases what it lets go. -/
theorem release_eq {m : Matcher} (entries : Entries m.failure next matched)
    (borders : Matching.Borders m.delimiter next matched) (inside : matched < m.delimiter.length)
    (enough : matched ≤ rounds) (released : List UInt8) :
    release m byte rounds matched released
      = .ok (released ++ (Matching.fallback m.delimiter next byte rounds matched).1,
        (Matching.fallback m.delimiter next byte rounds matched).2) := by
  induction rounds generalizing matched released with
  | zero =>
      have empty : matched = 0 := by omega
      subst empty
      rw [release, Matching.fallback, List.append_nil]
  | succ rounds ih =>
      cases matched with
      | zero => rw [release, Matching.fallback_stop (by omega), List.append_nil]
      | succ matched =>
          have here := List.getElem?_eq_getElem inside
          simp only [release]
          rw [readAt_ok here, bind_ok]
          by_cases same : m.delimiter[matched + 1] = byte
          · rw [if_pos same, Matching.fallback_stop (by rw [here, same]; exact fun h => h.2 rfl),
              List.append_nil]
            rfl
          · have differs : m.delimiter[matched + 1]? ≠ some byte := by
              rw [here]
              exact fun h => same (Option.some.inj h)
            have shorter := borders.lt (Nat.succ_pos matched) le_rfl
            rw [if_neg same, entryOf_ok entries (Nat.succ_pos matched) le_rfl, bind_ok,
              ensure_pos shorter.le, bind_ok, ensure_pos (by omega), bind_ok,
              Matching.fallback, if_pos ⟨Nat.succ_pos matched, differs⟩,
              ih (fun j pos le => entries j pos (by omega)) (fun j pos le => borders j pos (by omega))
                (by omega) (by omega), List.append_assoc]

end Loops

/-! ## The table -/

section Table

variable {delimiter table : List UInt8}

/-- The entries written so far, before the zeros of the rest. -/
theorem entries_prefix (table : List Nat) (rest : List Nat) :
    Entries (table ++ rest) (Matching.tableNext table) table.length := by
  intro j pos le
  have inside : j - 1 < table.length := by omega
  rw [List.getElem?_append_left inside, Matching.tableNext, List.getD_eq_getElem?_getD,
    List.getElem?_eq_getElem inside]
  rfl

/-- One round writes the next border. -/
theorem tableRound_eq {table : List Nat} {matched : Nat} {symbol : UInt8} (rest : List Nat)
    (built : Matching.Built delimiter table matched) (found : delimiter[table.length]? = some symbol) :
    tableRound delimiter (table ++ 0 :: rest, matched) table.length
      = .ok ((table ++ [Matching.advance delimiter (Matching.tableNext table) symbol matched]) ++ rest,
        Matching.advance delimiter (Matching.tableNext table) symbol matched) := by
  have here := (List.getElem?_eq_some_iff.mp found).1
  have short := built.lt
  have borders : Matching.Borders delimiter (Matching.tableNext table) matched :=
    fun j pos le => built.borders j pos (le.trans short.le)
  have entries : Entries (table ++ 0 :: rest) (Matching.tableNext table) matched :=
    fun j pos le => entries_prefix table _ j pos (le.trans short.le)
  have fallen := Matching.fallback_fallen symbol borders (by omega) le_rfl
  have left : (Matching.fallback delimiter (Matching.tableNext table) symbol matched matched).2
      < delimiter.length := by
    have bound := fallen.left.length
    rw [List.length_take] at bound
    omega
  unfold tableRound
  rw [shrink_eq entries borders (by omega) found le_rfl, bind_ok, readAt_ok found, bind_ok,
    readAt_ok (List.getElem?_eq_getElem left), bind_ok, ensure_pos (by simp)]
  have written : (if symbol = delimiter[(Matching.fallback delimiter (Matching.tableNext table) symbol
      matched matched).2] then (Matching.fallback delimiter (Matching.tableNext table) symbol matched
        matched).2 + 1 else (Matching.fallback delimiter (Matching.tableNext table) symbol matched matched).2)
      = Matching.advance delimiter (Matching.tableNext table) symbol matched := by
    unfold Matching.advance
    by_cases same : symbol = delimiter[(Matching.fallback delimiter (Matching.tableNext table) symbol
      matched matched).2]
    · rw [if_pos same, if_pos (by rw [List.getElem?_eq_getElem left, ← same])]
    · have differs : ¬ delimiter[(Matching.fallback delimiter (Matching.tableNext table) symbol matched
          matched).2]? = some symbol := by
        rw [List.getElem?_eq_getElem left]
        exact fun h => same (Option.some.inj h).symm
      rw [if_neg same, if_neg differs]
      exact fallen.extends_or_empty.resolve_right differs
  have placed : ∀ entry, (table ++ 0 :: rest).set table.length entry = (table ++ [entry]) ++ rest := by
    intro entry
    rw [List.set_append_right _ _ le_rfl, Nat.sub_self, List.set_cons_zero, List.append_assoc]
    rfl
  rw [bind_ok, written, placed]
  rfl

/-- The rounds complete the table. -/
theorem tableRounds_eq {rest : List UInt8} {table : List Nat} {matched : Nat}
    (split : delimiter.drop table.length = rest) (built : Matching.Built delimiter table matched) :
    ∃ last, (List.range' table.length rest.length).foldlM (tableRound delimiter)
      (table ++ List.replicate rest.length 0, matched)
        = .ok (Matching.failureFrom delimiter rest table matched, last) := by
  induction rest generalizing table matched with
  | nil =>
      rw [List.length_nil, List.replicate_zero, List.append_nil]
      exact ⟨matched, rfl⟩
  | cons symbol rest ih =>
      have found : delimiter[table.length]? = some symbol := by
        rw [← List.head?_drop, split]
        rfl
      have further : delimiter.drop (table ++ [Matching.advance delimiter (Matching.tableNext table) symbol
          matched]).length = rest := by
        rw [List.length_append, List.length_singleton, ← List.drop_drop, split]
        rfl
      rcases ih further (built.next found) with ⟨last, completed⟩
      refine ⟨last, ?_⟩
      rw [List.length_cons, List.range'_succ, List.replicate_succ, List.foldlM_cons,
        tableRound_eq _ built found, bind_ok, Matching.failureFrom]
      rw [List.length_append, List.length_singleton] at completed
      exact completed

/-- The table is built without a failed check. -/
theorem newMatcher_eq (nonempty : delimiter ≠ []) : newMatcher delimiter = .ok (Matcher.new delimiter) := by
  have pos := List.length_pos_iff.mpr nonempty
  have rest : delimiter.tail.length = delimiter.length - 1 := List.length_tail
  have zeros : List.replicate delimiter.length 0 = [0] ++ List.replicate delimiter.tail.length 0 := by
    rw [rest, List.singleton_append, ← List.replicate_succ, Nat.sub_add_cancel pos]
  have split : delimiter.drop [0].length = delimiter.tail := List.drop_one
  rcases tableRounds_eq split (Matching.Built.first nonempty) with ⟨last, built⟩
  rw [rest, List.length_singleton] at built
  rw [rest] at zeros
  rw [newMatcher, zeros, built]
  rfl

end Table


/-! ## Feeding bytes -/

/-- One byte is read without a failed check. -/
theorem indexedByte_eq {m : Matcher} (nonempty : m.delimiter ≠ []) (byte : UInt8)
    (table : m.failure = Matching.failureTable m.delimiter) (partly : m.matched < m.delimiter.length) :
    indexedByte m byte = .ok (m.byte byte) := by
  have borders : Matching.Borders m.delimiter (Matching.tableNext m.failure) m.matched := by
    rw [table]
    exact fun j pos le => Matching.failureTable_borders m.delimiter j pos (le.trans partly.le)
  have entries : Entries m.failure (Matching.tableNext m.failure) m.matched := by
    have whole := entries_prefix m.failure []
    rw [List.append_nil] at whole
    refine fun j pos le => whole j pos ?_
    rw [table, Matching.length_failureTable nonempty]
    omega
  have fallen := Matching.fallback_fallen byte borders partly.le le_rfl
  have left : (Matching.fallback m.delimiter (Matching.tableNext m.failure) byte m.matched m.matched).2
      < m.delimiter.length := by
    have bound := fallen.left.length
    rw [List.length_take] at bound
    omega
  have here := List.getElem?_eq_getElem left
  unfold indexedByte Matcher.byte
  rw [release_eq entries borders partly le_rfl]
  simp only [bind_ok, List.nil_append, readAt_ok here, here, Option.some.injEq]
  by_cases found : m.delimiter[(Matching.fallback m.delimiter (Matching.tableNext m.failure) byte m.matched
      m.matched).2] = byte
  · rw [if_pos found, if_pos found]
    rfl
  · rw [if_neg found, if_neg found]
    rfl

/-- With its report a matcher starts again. -/
theorem byte_restarts {m : Matcher} {byte : UInt8} (ended : (m.byte byte).2.2 = true) :
    (m.byte byte).2.1 = { m with matched := 0 } := by
  unfold Matcher.byte at ended ⊢
  simp only at ended ⊢
  split at ended
  · split at ended
    · rw [if_pos ‹_›, if_pos ‹_›]
    · cases ended
  · cases ended

/-- What a matcher makes of a text: the bytes before the first delimiter, a report with its last
byte, and until then everything but a retained prefix of the delimiter. -/
structure Streams (delimiter input : List UInt8) (fed : Fed) : Prop where
  reported : ∀ count, fed.reported = some count ↔
    ∃ start, Matching.FirstOccurrence delimiter input start ∧ count = start + delimiter.length
  released : ∀ start, Matching.FirstOccurrence delimiter input start → fed.released = input.take start
  retained : fed.reported = none → fed.released ++ delimiter.take fed.matcher.matched = input
    ∧ fed.matcher.matched < delimiter.length
  restarted : fed.reported.isSome = true → fed.matcher = Matcher.new delimiter

/-- A matcher that read a text without a delimiter goes on with the rest. -/
theorem feed_streams {delimiter out text : List UInt8} {m : Matcher} (nonempty : delimiter ≠ [])
    (h : Reads delimiter .data m out text) (rest : List UInt8) :
    ∃ fed, feed m out text.length rest = .ok fed ∧ Streams delimiter (text ++ rest) fed := by
  -- Induction on the rest; each byte either completes the first delimiter or leaves none.
  induction rest generalizing m out text with
  | nil =>
      cases h with
      | data same table held longest partly none =>
          refine ⟨⟨out, m, Option.none⟩, rfl, ?_⟩
          rw [List.append_nil]
          refine ⟨fun count => ⟨fun reported => (by cases reported), ?_⟩, ?_, fun _ => ⟨held, partly⟩,
            fun reported => (by cases reported)⟩
          · rintro ⟨start, first, _⟩
            exact absurd first.occurs (none start)
          · intro start first
            exact absurd first.occurs (none start)
  | cons byte rest ih =>
      have step := reads_byte byte h
      have read : indexedByte m byte = .ok (m.byte byte) := by
        cases h with
        | data same table held longest partly none =>
            subst same
            exact indexedByte_eq nonempty byte table partly
      have keeps : m.delimiter = delimiter ∧ m.failure = Matching.failureTable delimiter := by
        cases h with
        | data same table held longest partly none => exact ⟨same, table⟩
      have round : feed m out text.length (byte :: rest) =
          if (m.byte byte).2.2 = true then
            .ok ⟨out ++ (m.byte byte).1, (m.byte byte).2.1, some (text.length + 1)⟩
          else feed (m.byte byte).2.1 (out ++ (m.byte byte).1) (text.length + 1) rest := by
        rw [feed, read]
        rfl
      rw [round]
      have length : (text ++ [byte]).length = text.length + 1 := List.length_append
      have rejoin : text ++ byte :: rest = (text ++ [byte]) ++ rest := by
        rw [List.append_assoc]
        rfl
      rw [rejoin]
      by_cases ended : (m.byte byte).2.2 = true
      · rw [if_pos ended] at step
        refine ⟨_, if_pos ended, ?_⟩
        cases step with
        | closing inside split first =>
            have whole := congrArg List.length split
            rw [length, List.take_zero, List.append_nil, List.length_append] at whole
            have occurs := first.append nonempty rest
            have before : (text ++ [byte] ++ rest).take (out ++ (m.byte byte).1).length
                = out ++ (m.byte byte).1 := by
              rw [split, List.take_zero, List.append_nil, List.append_assoc, List.take_left]
            refine ⟨fun count => ⟨?_, ?_⟩, ?_, fun absent => (by cases absent), fun _ => ?_⟩
            · intro reported
              cases reported
              exact ⟨_, occurs, whole⟩
            · rintro ⟨start, other, rfl⟩
              rw [other.unique occurs, ← whole]
            · intro start other
              rw [other.unique occurs]
              exact before.symm
            · rw [byte_restarts ended, keeps.1, keeps.2]
              rfl
      · rw [if_neg ended] at step
        rcases ih step with ⟨fed, fedRest, streams⟩
        refine ⟨fed, ?_, streams⟩
        rw [length] at fedRest
        exact (if_neg ended).trans fedRest

/-- Fed a text byte by byte, the matcher of a delimiter releases what precedes its first occurrence,
reports it with its last byte, and no index is out of range. -/
theorem matcher_streams (delimiter input : List UInt8) (nonempty : delimiter ≠ []) :
    ∃ m fed, newMatcher delimiter = .ok m ∧ feed m [] 0 input = .ok fed
      ∧ Streams delimiter input fed := by
  rcases feed_streams nonempty (reads_nil nonempty) input with ⟨fed, ran, streams⟩
  exact ⟨Matcher.new delimiter, fed, newMatcher_eq nonempty, ran, streams⟩

/-- A delimiter that overlaps itself: the first three of five letters are released before the match
that the fourth mismatch leaves. -/
theorem matcher_streams_sample : ∃ m fed, newMatcher [97, 97, 98] = .ok m
    ∧ feed m [] 0 [97, 97, 97, 97, 98, 99] = .ok fed ∧ fed.reported = some 5
    ∧ fed.released = [97, 97] := by
  rcases matcher_streams [97, 97, 98] [97, 97, 97, 97, 98, 99] (by decide) with ⟨m, fed, built, ran, streams⟩
  have first : Matching.FirstOccurrence [97, 97, 98] ([97, 97, 97, 97, 98, 99] : List UInt8) 2 := by
    constructor
    · unfold Matching.Occurs
      decide
    · unfold Matching.Occurs
      decide
  exact ⟨m, fed, built, ran, (streams.reported 5).mpr ⟨2, first, rfl⟩, streams.released 2 first⟩

end Noxide.Indexed
