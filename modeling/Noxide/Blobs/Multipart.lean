import Noxide.Library.Matching
import Noxide.Protocol.Scalar

/-!
# Streaming file decoding

The boundary of a native multipart form, and the decoder of the one file part that
ends its body: delimiter matching over pushed buffers, one bounded output buffer,
the closing suffix and the byte limit.

Main results:

- Theorem {lit}`pushAll_pushed`: a decoder that read a text has handed on what precedes
  the delimiter, however the text was cut.
- Theorem {lit}`file_decoder_recognises`: a body is accepted exactly when it is data
  within the limit up to the first delimiter, and the closing suffix.
-/

namespace Noxide

open Checked

/-! ## Boundaries -/

/-- Unicode white space. -/
def isWhitespace (c : Char) : Bool :=
  [0x20, 0x85, 0xA0, 0x1680, 0x2028, 0x2029, 0x202F, 0x205F, 0x3000].contains c.toNat
    || (decide (9 ≤ c.toNat) && decide (c.toNat ≤ 13))
    || (decide (0x2000 ≤ c.toNat) && decide (c.toNat ≤ 0x200A))

/-- A text without the white space around it. -/
def trim (value : List Char) : List Char :=
  ((value.dropWhile isWhitespace).reverse.dropWhile isWhitespace).reverse

def eqIgnoreAsciiCase (left right : List Char) : Bool :=
  left.map Char.toLower == right.map Char.toLower

/-- A token, or one quoted token. -/
def unquote (value : List Char) : Result (List Char) :=
  match value with
  | '"' :: rest => do
      check "invalid quoted boundary" (rest.getLast? = some '"')
      return rest.dropLast
  | _ => .ok value

def isBoundaryChar (c : Char) : Bool :=
  c.isAlphanum || c == '-' || c == '_' || c == '.'

/-- The boundary token of a multipart form. -/
structure Boundary where
  token : List UInt8
  deriving DecidableEq

/-- The one parameter of the media type. -/
def boundaryParameter (parameter : List Char) : Result Boundary := do
  check "missing multipart boundary" ('=' ∈ parameter)
  check "unknown multipart parameter"
    (eqIgnoreAsciiCase (parameter.takeWhile (· ≠ '=')) "boundary".toList = true)
  let value ← unquote ((parameter.dropWhile (· ≠ '=')).drop 1)
  check "invalid multipart boundary"
    (value ≠ [] ∧ value.length ≤ 70 ∧ value.all isBoundaryChar = true)
  return ⟨value.map fun c => c.toNat.toUInt8⟩

/-- The boundary of a content type: one token, possibly quoted, and no other
parameter. -/
def Boundary.contentType (value : String) : Result Boundary := do
  check "multipart content type limit" (value.utf8ByteSize ≤ 256)
  match value.toList.splitOn ';' with
  | [media] => do
      check "invalid multipart media type"
        (eqIgnoreAsciiCase (trim media) "multipart/form-data".toList = true)
      .error (.message "missing multipart boundary")
  | media :: parameter :: rest => do
      check "invalid multipart media type"
        (eqIgnoreAsciiCase (trim media) "multipart/form-data".toList = true)
      check "unknown multipart parameter" (rest = [])
      boundaryParameter (trim parameter)
  | [] => .error (.message "invalid multipart media type")

/-- The delimiter after the file: a line break, two dashes and the token. -/
def Boundary.fileEnd (boundary : Boundary) : List UInt8 :=
  [13, 10, 45, 45] ++ boundary.token

/-! ## Matching the delimiter -/

/-- A delimiter with its table of borders, and how much of it is matched. -/
structure Matcher where
  delimiter : List UInt8
  failure : List Nat
  matched : Nat

def Matcher.new (delimiter : List UInt8) : Matcher where
  delimiter := delimiter
  failure := Matching.failureTable delimiter
  matched := 0

/-- Read one byte: the bytes released, the matcher, and whether the delimiter ended. -/
def Matcher.byte (m : Matcher) (byte : UInt8) : List UInt8 × Matcher × Bool :=
  let fallen := Matching.fallback m.delimiter (Matching.tableNext m.failure) byte m.matched m.matched
  if m.delimiter[fallen.2]? = some byte then
    if fallen.2 + 1 = m.delimiter.length then (fallen.1, { m with matched := 0 }, true)
    else (fallen.1, { m with matched := fallen.2 + 1 }, false)
  else (fallen.1 ++ [byte], { m with matched := fallen.2 }, false)

/-! ## The decoder -/

def transferBufferBytes : Nat := 64 * 1024

theorem transferBufferBytes_pos : 0 < transferBufferBytes := by
  decide

inductive FilePhase where
  | data
  | closing (cursor : Nat)
  | done
  | poisoned
  deriving DecidableEq, Repr

structure FileDecoder where
  matcher : Matcher
  phase : FilePhase
  limit : Nat
  accepted : Nat

def FileDecoder.new (boundary : Boundary) (limit : Nat) : FileDecoder where
  matcher := Matcher.new boundary.fileEnd
  phase := .data
  limit := limit
  accepted := 0

/-- What follows the delimiter after the last part. -/
def closingSuffix : List UInt8 := [45, 45, 13, 10]

section Push

variable {σ : Type} (sink : List UInt8 → σ → Result σ)

/-- The decoder inside a push, with the used part of its output buffer and what the
sink got. -/
structure Pushing (σ : Type) where
  decoder : FileDecoder
  buffer : List UInt8
  got : σ

/-- Hand the used part of the buffer to the sink. -/
def flush (p : Pushing σ) : Result (Pushing σ) := do
  let total := p.decoder.accepted + p.buffer.length
  check "multipart file overflow" (total < 2 ^ 64)
  check "multipart file byte limit" (total ≤ p.decoder.limit)
  let got ← sink p.buffer p.got
  return ⟨{ p.decoder with accepted := total }, [], got⟩

/-- Write a byte at the buffer's next index, which must be inside the buffer; a full
buffer is flushed. -/
def put (p : Pushing σ) (byte : UInt8) : Result (Pushing σ) := do
  check "index out of bounds" (p.buffer.length < transferBufferBytes)
  let p := { p with buffer := p.buffer ++ [byte] }
  if p.buffer.length = transferBufferBytes then flush sink p else .ok p

def putAll (p : Pushing σ) : List UInt8 → Result (Pushing σ)
  | [] => .ok p
  | byte :: rest => do
      let p ← put sink p byte
      putAll p rest

/-- Read one byte of the body. -/
def readByte (p : Pushing σ) (byte : UInt8) : Result (Pushing σ) :=
  match p.decoder.phase with
  | .data => do
      let (released, matcher, ended) := p.decoder.matcher.byte byte
      let p ← putAll sink p released
      return { p with decoder := { p.decoder with
        matcher := matcher, phase := if ended then .closing 0 else .data } }
  | .closing cursor => do
      check "unexpected part or multipart closing suffix" (closingSuffix[cursor]? = some byte)
      return { p with decoder := { p.decoder with
        phase := if cursor + 1 = closingSuffix.length then .done else .closing (cursor + 1) } }
  | .done => .error (.message "multipart epilogue or extra part denied")
  | .poisoned => .error (.message "multipart file is poisoned")

def readAll (p : Pushing σ) : List UInt8 → Result (Pushing σ)
  | [] => .ok p
  | byte :: rest => do
      let p ← readByte sink p byte
      readAll p rest

/-- Hand on what is left in the buffer. -/
def flushRest (p : Pushing σ) : Result (Pushing σ) :=
  if p.buffer = [] then .ok p else flush sink p

def pushInner (decoder : FileDecoder) (got : σ) (input : List UInt8) : Result (FileDecoder × σ) := do
  check "multipart file input buffer limit" (input.length ≤ transferBufferBytes)
  check "multipart file is poisoned" (decoder.phase ≠ .poisoned)
  let p ← readAll sink ⟨decoder, [], got⟩ input
  let p ← flushRest sink p
  return (p.decoder, p.got)

/-- Any failure poisons the body. -/
def FileDecoder.push (decoder : FileDecoder) (got : σ) (input : List UInt8) :
    FileDecoder × Result σ :=
  match pushInner sink decoder got input with
  | .ok (decoder, got) => (decoder, .ok got)
  | .error e => ({ decoder with phase := .poisoned }, .error e)

def FileDecoder.finish (decoder : FileDecoder) : Result Nat := do
  check "truncated multipart file" (decoder.phase = .done)
  return decoder.accepted

/-- Push buffers one after the other, up to the first failure. -/
def pushAll (decoder : FileDecoder) (got : σ) : List (List UInt8) → FileDecoder × Result σ
  | [] => (decoder, .ok got)
  | chunk :: rest =>
      match decoder.push sink got chunk with
      | (decoder, .ok got) => pushAll decoder got rest
      | failed => failed

end Push

/-- A sink that keeps all it gets. -/
def collect (bytes got : List UInt8) : Result (List UInt8) :=
  .ok (got ++ bytes)

/-- Decode a body cut into chunks: the bytes given to the sink and the file's length. -/
def decode (boundary : Boundary) (limit : Nat) (chunks : List (List UInt8)) :
    Result (List UInt8 × Nat) := do
  let pushed := pushAll collect (FileDecoder.new boundary limit) [] chunks
  let got ← pushed.2
  let length ← pushed.1.finish
  return (got, length)

/-! ## What the decoder has read -/

/-- A body of data within the limit, the first delimiter and the closing suffix. -/
structure FileBody (delimiter : List UInt8) (limit : Nat) (body data : List UInt8) : Prop where
  split : body = data ++ delimiter ++ closingSuffix
  first : Matching.FirstOccurrence delimiter body data.length
  limited : data.length ≤ limit

/-- Where the decoder is in the text it read, with {lit}`out` as the data so far. -/
inductive Reads (delimiter : List UInt8) : FilePhase → Matcher → List UInt8 → List UInt8 → Prop where
  | data {m : Matcher} {out text : List UInt8} : m.delimiter = delimiter →
      m.failure = Matching.failureTable delimiter → out ++ delimiter.take m.matched = text →
        Matching.Longest delimiter text m.matched → m.matched < delimiter.length →
          (∀ index, ¬ Matching.Occurs delimiter text index) → Reads delimiter .data m out text
  | closing {m : Matcher} {out text : List UInt8} {cursor : Nat} :
      cursor < closingSuffix.length → text = out ++ delimiter ++ closingSuffix.take cursor →
        Matching.FirstOccurrence delimiter text out.length →
          Reads delimiter (.closing cursor) m out text
  | done {m : Matcher} {out text : List UInt8} : text = out ++ delimiter ++ closingSuffix →
      Matching.FirstOccurrence delimiter text out.length → Reads delimiter .done m out text

theorem fileEnd_ne_nil (boundary : Boundary) : boundary.fileEnd ≠ [] := by
  simp [Boundary.fileEnd]

section Read

variable {delimiter out text : List UInt8} {m : Matcher}

/-- A new decoder has read nothing. -/
theorem reads_nil (nonempty : delimiter ≠ []) : Reads delimiter .data (Matcher.new delimiter) [] [] := by
  have pos := List.length_pos_iff.mpr nonempty
  refine Reads.data rfl rfl (by simp [Matcher.new]) ⟨Matching.matches_zero _ _, ?_⟩ pos ?_
  · intro other h
    exact h.length
  · intro index occurs
    have bound := occurs.bound nonempty
    rw [List.length_nil] at bound
    omega

/-- One byte of data releases what can no longer start the delimiter. -/
theorem reads_byte (byte : UInt8) (h : Reads delimiter .data m out text) :
    Reads delimiter (if (m.byte byte).2.2 = true then .closing 0 else .data) (m.byte byte).2.1
      (out ++ (m.byte byte).1) (text ++ [byte]) := by
  cases h with
  | data same table held longest partly none =>
      have borders : Matching.Borders delimiter (Matching.tableNext m.failure) m.matched := by
        rw [table]
        exact fun j pos le => Matching.failureTable_borders delimiter j pos (le.trans partly.le)
      have fallen := Matching.fallback_fallen byte borders longest.holds.1 le_rfl
      have next := Matching.advance_longest byte borders longest
      have released : out ++ (Matching.fallback delimiter (Matching.tableNext m.failure) byte
          m.matched m.matched).1 ++ delimiter.take (Matching.fallback delimiter
            (Matching.tableNext m.failure) byte m.matched m.matched).2 = text := by
        rw [List.append_assoc, fallen.released, held]
      unfold Matching.advance at next
      unfold Matcher.byte
      rw [same]
      generalize Matching.fallback delimiter (Matching.tableNext m.failure) byte m.matched
        m.matched = result at fallen next released ⊢
      by_cases found : delimiter[result.2]? = some byte
      · simp only [if_pos found] at next ⊢
        rcases List.getElem?_eq_some_iff.mp found with ⟨here, symbol⟩
        have extended : out ++ result.1 ++ delimiter.take (result.2 + 1) = text ++ [byte] := by
          rw [List.take_succ_eq_append_getElem here, symbol, ← List.append_assoc, released]
        by_cases whole : result.2 + 1 = delimiter.length
        · simp only [if_pos whole, if_true]
          rw [whole, List.take_length] at extended
          refine Reads.closing (by decide) (by simp [extended]) ?_
          exact Matching.first_at_end none extended
        · simp only [if_neg whole, Bool.false_eq_true, if_false]
          have partly' : result.2 + 1 < delimiter.length := by omega
          exact Reads.data rfl table extended next partly'
            (Matching.not_occurs_snoc none next partly')
      · simp only [if_neg found, Bool.false_eq_true, if_false] at next ⊢
        have empty : result.2 = 0 := fallen.extends_or_empty.resolve_right found
        have pos : 0 < delimiter.length := by omega
        rw [empty, List.take_zero, List.append_nil] at released
        refine Reads.data rfl table ?_ ?_ ?_ (Matching.not_occurs_snoc none next pos)
        · rw [empty, List.take_zero, List.append_nil, ← List.append_assoc, released]
        · rw [empty]
          exact next
        · rw [empty]
          exact pos

/-- Before its end, a file's body has handed on no more than its data. -/
theorem Reads.out_le {phase : FilePhase} {limit : Nat} {rest data : List UInt8}
    (h : Reads delimiter phase m out text) (nonempty : delimiter ≠ [])
    (body : FileBody delimiter limit (text ++ rest) data) : out.length ≤ data.length := by
  cases h with
  | closing inside split first =>
      exact ((first.append nonempty rest).unique body.first).le
  | done split first => exact ((first.append nonempty rest).unique body.first).le
  | data same table held longest partly none =>
      have held_length := congrArg List.length held
      rw [List.length_append, List.length_take, Nat.min_eq_left partly.le] at held_length
      by_cases before : text.length ≤ data.length
      · omega
      have within : text.length ≤ data.length + delimiter.length := by
        by_contra beyond
        exact none data.length ((Matching.occurs_append (by omega)).mp body.first.occurs)
      have started : data ++ delimiter.take (text.length - data.length) = text := by
        have taken := congrArg (List.take text.length) body.split
        rw [List.take_left, List.append_assoc, List.take_append, List.take_of_length_le (by omega),
          List.take_append_of_le_length (by omega)] at taken
        exact taken.symm
      have matched : Matching.Matches delimiter text (text.length - data.length) := by
        refine ⟨by omega, ?_⟩
        nth_rewrite 2 [← started]
        exact List.suffix_append _ _
      have bound := longest.greatest _ matched
      omega

/-- The closing suffix continues as it must. -/
theorem reads_closing {cursor : Nat} {byte : UInt8} (h : Reads delimiter (.closing cursor) m out text)
    (nonempty : delimiter ≠ []) (found : closingSuffix[cursor]? = some byte) :
    Reads delimiter (if cursor + 1 = closingSuffix.length then .done else .closing (cursor + 1)) m
      out (text ++ [byte]) := by
  cases h with
  | closing inside split first =>
      rcases List.getElem?_eq_some_iff.mp found with ⟨here, symbol⟩
      have extended : text ++ [byte] = out ++ delimiter ++ closingSuffix.take (cursor + 1) := by
        rw [split, List.take_succ_eq_append_getElem here, symbol]
        simp only [List.append_assoc]
      have first' := first.append nonempty [byte]
      by_cases last : cursor + 1 = closingSuffix.length
      · rw [if_pos last]
        rw [last, List.take_length] at extended
        exact Reads.done extended first'
      · rw [if_neg last]
        exact Reads.closing (by omega) extended first'

/-- Anything else after the delimiter ends no file. -/
theorem reads_closing_refused {cursor limit : Nat} {byte : UInt8} {rest data : List UInt8}
    (h : Reads delimiter (.closing cursor) m out text) (nonempty : delimiter ≠ [])
    (other : closingSuffix[cursor]? ≠ some byte) :
    ¬ FileBody delimiter limit (text ++ byte :: rest) data := by
  intro body
  cases h with
  | closing inside split first =>
      have length : out.length = data.length :=
        (first.append nonempty (byte :: rest)).unique body.first
      have same := body.split
      rw [split, List.append_assoc, List.append_assoc, List.append_assoc] at same
      have parts := List.append_inj same length
      have suffix := List.append_cancel_left parts.2
      have symbol := congrArg (fun l => l[cursor]?) suffix
      rw [List.getElem?_append_right (by rw [List.length_take]; omega), List.length_take,
        Nat.min_eq_left inside.le, Nat.sub_self] at symbol
      exact other symbol.symm

/-- Nothing follows the end of a file. -/
theorem reads_done_refused {limit : Nat} {byte : UInt8} {rest data : List UInt8}
    (h : Reads delimiter .done m out text) (nonempty : delimiter ≠ []) :
    ¬ FileBody delimiter limit (text ++ byte :: rest) data := by
  intro body
  cases h with
  | done split first =>
      have length : out.length = data.length :=
        (first.append nonempty (byte :: rest)).unique body.first
      have total := congrArg List.length body.split
      rw [split] at total
      simp only [List.length_append, List.length_cons] at total
      omega

/-- A text that stops before the closing suffix ends no file. -/
theorem reads_unfinished_refused {phase : FilePhase} {limit : Nat} {data : List UInt8}
    (h : Reads delimiter phase m out text) (unfinished : phase ≠ .done) :
    ¬ FileBody delimiter limit text data := by
  intro body
  cases h with
  | data same table held longest partly none => exact none _ body.first.occurs
  | done split first => exact unfinished rfl
  | closing inside split first =>
      have length : out.length = data.length := first.unique body.first
      have total := congrArg List.length body.split
      rw [split] at total
      simp only [List.length_append, List.length_take] at total
      omega

end Read

/-! ## The output buffer -/

/-- A push that handed on {lit}`out`, in part still in its buffer. -/
structure Filled (limit : Nat) (p : Pushing (List UInt8)) (out : List UInt8) : Prop where
  bound : p.decoder.limit = limit
  accepted : p.decoder.accepted = p.got.length
  within : p.got.length ≤ limit
  room : p.buffer.length < transferBufferBytes
  held : p.got ++ p.buffer = out

/-- Bytes are handed on, or they exceed the limit. -/
inductive Kept (limit : Nat) (decoder : FileDecoder) (out : List UInt8) :
    Result (Pushing (List UInt8)) → Prop where
  | ok {p : Pushing (List UInt8)} : Filled limit p out → p.decoder.phase = decoder.phase →
      p.decoder.matcher = decoder.matcher → Kept limit decoder out (.ok p)
  | error {e : Failure} : limit < out.length → e ≠ .message "index out of bounds" →
      Kept limit decoder out (.error e)

section Buffer

variable {limit : Nat} {p : Pushing (List UInt8)} {out : List UInt8}

/-- A flush is refused only above the limit. -/
theorem flush_kept (bits : limit < 2 ^ 64) (bound : p.decoder.limit = limit)
    (accepted : p.decoder.accepted = p.got.length) (held : p.got ++ p.buffer = out) :
    Kept limit p.decoder out (flush collect p) := by
  have total : p.decoder.accepted + p.buffer.length = out.length := by
    rw [accepted, ← held, List.length_append]
  unfold flush
  simp only [check, total, bound]
  by_cases within : out.length ≤ limit
  · have small : out.length < 2 ^ 64 := by omega
    rw [ensure_pos small, ensure_pos within]
    refine Kept.ok ⟨rfl, ?_, ?_, transferBufferBytes_pos, ?_⟩ rfl rfl
    · simp only [held]
    · simp only [held]
      exact within
    · simp only [held, List.append_nil]
  · have beyond : limit < out.length := by omega
    by_cases small : out.length < 2 ^ 64
    · rw [ensure_pos small, ensure_neg within]
      exact Kept.error beyond (by decide)
    · rw [ensure_neg small]
      exact Kept.error beyond (by decide)

/-- The next index is always inside the buffer. -/
theorem put_kept (byte : UInt8) (bits : limit < 2 ^ 64) (h : Filled limit p out) :
    Kept limit p.decoder (out ++ [byte]) (put collect p byte) := by
  have held : p.got ++ (p.buffer ++ [byte]) = out ++ [byte] := by
    rw [← List.append_assoc, h.held]
  unfold put
  simp only [check]
  rw [ensure_pos h.room]
  simp only [bind_ok]
  split
  · exact flush_kept (p := { p with buffer := p.buffer ++ [byte] }) bits h.bound h.accepted held
  · rename_i partly
    have room := h.room
    rw [List.length_append, List.length_singleton] at partly
    refine Kept.ok ⟨h.bound, h.accepted, h.within, ?_, held⟩ rfl rfl
    rw [List.length_append, List.length_singleton]
    omega

theorem putAll_kept (bits : limit < 2 ^ 64) (bytes : List UInt8) (h : Filled limit p out) :
    Kept limit p.decoder (out ++ bytes) (putAll collect p bytes) := by
  induction bytes generalizing p out with
  | nil =>
      rw [List.append_nil]
      exact Kept.ok h rfl rfl
  | cons byte rest ih =>
      have step := put_kept byte bits h
      have extended : out ++ byte :: rest = out ++ [byte] ++ rest := by
        rw [List.append_assoc, List.singleton_append]
      rw [extended]
      simp only [putAll]
      generalize put collect p byte = result at step ⊢
      cases step with
      | error beyond other =>
          refine Kept.error ?_ other
          rw [List.length_append]
          omega
      | ok filled phase matcher =>
          have further := ih filled
          rw [bind_ok]
          generalize putAll collect _ rest = result at further ⊢
          cases further with
          | error beyond other => exact Kept.error beyond other
          | ok filled' phase' matcher' =>
              exact Kept.ok filled' (phase'.trans phase) (matcher'.trans matcher)

end Buffer

/-! ## Pushing a body -/

/-- A push that read a text and handed on its data. -/
structure Traced (delimiter : List UInt8) (limit : Nat) (p : Pushing (List UInt8))
    (out text : List UInt8) : Prop where
  filled : Filled limit p out
  reads : Reads delimiter p.decoder.phase p.decoder.matcher out text

/-- No file's body begins with this text, and no index left the buffer. -/
structure Refused (delimiter : List UInt8) (limit : Nat) (text : List UInt8) (e : Failure) : Prop where
  other : e ≠ .message "index out of bounds"
  none : ∀ rest data, ¬ FileBody delimiter limit (text ++ rest) data

/-- Reading goes on, or the text is refused. -/
inductive Follows (delimiter : List UInt8) (limit : Nat) (text : List UInt8) :
    Result (Pushing (List UInt8)) → Prop where
  | ok {p : Pushing (List UInt8)} {out : List UInt8} : Traced delimiter limit p out text →
      Follows delimiter limit text (.ok p)
  | error {e : Failure} : Refused delimiter limit text e → Follows delimiter limit text (.error e)

section Body

variable {delimiter out text : List UInt8} {limit : Nat} {p : Pushing (List UInt8)}

theorem Refused.append {e : Failure} (h : Refused delimiter limit text e) (more : List UInt8) :
    Refused delimiter limit (text ++ more) e := by
  refine ⟨h.other, ?_⟩
  intro rest data body
  rw [List.append_assoc] at body
  exact h.none _ _ body

/-- More data than the limit ends no file. -/
theorem refused_over {phase : FilePhase} {m : Matcher} {e : Failure} (nonempty : delimiter ≠ [])
    (reads : Reads delimiter phase m out text) (beyond : limit < out.length)
    (other : e ≠ .message "index out of bounds") : Refused delimiter limit text e := by
  refine ⟨other, ?_⟩
  intro rest data body
  have bound := reads.out_le nonempty body
  have limited := body.limited
  omega

theorem readByte_follows (byte : UInt8) (nonempty : delimiter ≠ []) (bits : limit < 2 ^ 64)
    (h : Traced delimiter limit p out text) :
    Follows delimiter limit (text ++ [byte]) (readByte collect p byte) := by
  have reads := h.reads
  unfold readByte
  cases phase : p.decoder.phase with
  | data =>
      rw [phase] at reads
      have next := reads_byte byte reads
      have kept := putAll_kept bits (p.decoder.matcher.byte byte).1 h.filled
      dsimp only
      generalize putAll collect p (p.decoder.matcher.byte byte).1 = result at kept ⊢
      cases kept with
      | error beyond other => exact Follows.error (refused_over nonempty next beyond other)
      | ok filled _ _ =>
          exact Follows.ok ⟨⟨filled.bound, filled.accepted, filled.within, filled.room,
            filled.held⟩, next⟩
  | closing cursor =>
      rw [phase] at reads
      by_cases found : closingSuffix[cursor]? = some byte
      · simp only [check]
        rw [ensure_pos found]
        have next := reads_closing reads nonempty found
        exact Follows.ok ⟨⟨h.filled.bound, h.filled.accepted, h.filled.within, h.filled.room,
          h.filled.held⟩, next⟩
      · simp only [check]
        rw [ensure_neg found]
        refine Follows.error ⟨by decide, ?_⟩
        intro rest data body
        rw [List.append_assoc, List.singleton_append] at body
        exact reads_closing_refused reads nonempty found body
  | done =>
      rw [phase] at reads
      refine Follows.error ⟨by decide, ?_⟩
      intro rest data body
      rw [List.append_assoc, List.singleton_append] at body
      exact reads_done_refused reads nonempty body
  | poisoned =>
      rw [phase] at reads
      cases reads

theorem readAll_follows (input : List UInt8) (nonempty : delimiter ≠ []) (bits : limit < 2 ^ 64)
    (h : Traced delimiter limit p out text) :
    Follows delimiter limit (text ++ input) (readAll collect p input) := by
  induction input generalizing p out text with
  | nil =>
      rw [List.append_nil]
      exact Follows.ok h
  | cons byte rest ih =>
      have step := readByte_follows byte nonempty bits h
      have extended : text ++ byte :: rest = text ++ [byte] ++ rest := by
        rw [List.append_assoc, List.singleton_append]
      rw [extended]
      simp only [readAll]
      generalize readByte collect p byte = result at step ⊢
      cases step with
      | error refused => exact Follows.error (refused.append rest)
      | ok traced => exact ih traced

/-- What a push leaves: all its data handed on, or a refusal. -/
inductive Pushed (delimiter : List UInt8) (limit : Nat) (text : List UInt8) :
    FileDecoder × Result (List UInt8) → Prop where
  | ok {decoder : FileDecoder} {got : List UInt8} :
      Traced delimiter limit ⟨decoder, [], got⟩ got text →
        Pushed delimiter limit text (decoder, .ok got)
  | error {decoder : FileDecoder} {e : Failure} : Refused delimiter limit text e →
      Pushed delimiter limit text (decoder, .error e)

/-- At the end of a push the buffer is handed on, within the limit. -/
theorem flushRest_follows (nonempty : delimiter ≠ []) (bits : limit < 2 ^ 64)
    (h : Traced delimiter limit p out text) :
    Follows delimiter limit text (flushRest collect p)
      ∧ ∀ q, flushRest collect p = .ok q → q.buffer = [] := by
  unfold flushRest
  split
  · rename_i empty
    refine ⟨Follows.ok h, ?_⟩
    rintro q hq
    cases hq
    exact empty
  · have kept := flush_kept bits h.filled.bound h.filled.accepted h.filled.held
    have emptied : ∀ q, flush collect p = .ok q → q.buffer = [] := by
      intro q hq
      unfold flush at hq
      simp only [check, bind_eq_ok, ensure_eq_ok] at hq
      rcases hq with ⟨_, _, _, _, got, _, hq⟩
      cases hq
      rfl
    refine ⟨?_, emptied⟩
    generalize flush collect p = result at kept ⊢
    cases kept with
    | error beyond other => exact Follows.error (refused_over nonempty h.reads beyond other)
    | ok filled phase matcher =>
        refine Follows.ok ⟨filled, ?_⟩
        rw [phase, matcher]
        exact h.reads

theorem push_pushed {decoder : FileDecoder} {got : List UInt8} (input : List UInt8)
    (nonempty : delimiter ≠ []) (bits : limit < 2 ^ 64) (sized : input.length ≤ transferBufferBytes)
    (h : Traced delimiter limit ⟨decoder, [], got⟩ got text) :
    Pushed delimiter limit (text ++ input) (decoder.push collect got input) := by
  have alive : decoder.phase ≠ .poisoned := by
    intro poisoned
    have reads := h.reads
    simp only [poisoned] at reads
    cases reads
  have read := readAll_follows input nonempty bits h
  unfold FileDecoder.push pushInner
  simp only [check]
  rw [ensure_pos sized, ensure_pos alive]
  simp only [bind_ok]
  generalize readAll collect ⟨decoder, [], got⟩ input = result at read ⊢
  cases read with
  | error refused => exact Pushed.error refused
  | @ok q out traced =>
      rcases flushRest_follows nonempty bits traced with ⟨rest, emptied⟩
      rw [bind_ok]
      generalize flushRest collect q = result at rest emptied ⊢
      cases rest with
      | error refused => exact Pushed.error refused
      | @ok last out' final =>
          have empty := emptied last rfl
          have same := final.filled.held
          rw [empty, List.append_nil] at same
          refine Pushed.ok ?_
          rw [← same] at final
          rcases last with ⟨decoder', buffer, got'⟩
          cases empty
          exact final

/-- However a text is cut, the decoder hands on its data or refuses it. -/
theorem pushAll_pushed {decoder : FileDecoder} {got : List UInt8} (chunks : List (List UInt8))
    (nonempty : delimiter ≠ []) (bits : limit < 2 ^ 64)
    (sized : ∀ chunk ∈ chunks, chunk.length ≤ transferBufferBytes)
    (h : Traced delimiter limit ⟨decoder, [], got⟩ got text) :
    Pushed delimiter limit (text ++ chunks.flatten) (pushAll collect decoder got chunks) := by
  induction chunks generalizing decoder got text with
  | nil =>
      rw [List.flatten_nil, List.append_nil]
      exact Pushed.ok h
  | cons chunk rest ih =>
      have step := push_pushed chunk nonempty bits (sized chunk List.mem_cons_self) h
      rw [List.flatten_cons, ← List.append_assoc]
      unfold pushAll
      generalize decoder.push collect got chunk = result at step ⊢
      cases step with
      | error refused => exact Pushed.error (refused.append _)
      | ok traced => exact ih (fun c hc => sized c (List.mem_cons_of_mem _ hc)) traced

/-- A body is data in one way only. -/
theorem FileBody.unique {body data other : List UInt8} (h : FileBody delimiter limit body data)
    (h' : FileBody delimiter limit body other) : data = other := by
  have split := h.split
  rw [h'.split, List.append_assoc, List.append_assoc] at split
  exact (List.append_inj split (h'.first.unique h.first)).1.symm

end Body

/-! ## The grammar -/

/-- A body is accepted exactly when it is data within the limit up to the first
delimiter and then the closing suffix, however it is cut; the sink gets the data. -/
theorem file_decoder_recognises {value : String} {boundary : Boundary} {limit : Nat}
    {body : List UInt8} {chunks : List (List UInt8)}
    (_accepted : Boundary.contentType value = .ok boundary) (bits : limit < 2 ^ 64)
    (cut : chunks.flatten = body) (sized : ∀ chunk ∈ chunks, chunk.length ≤ transferBufferBytes) :
    (∀ got length, decode boundary limit chunks = .ok (got, length)
      ↔ FileBody boundary.fileEnd limit body got ∧ length = got.length)
      ∧ decode boundary limit chunks ≠ .error (.message "index out of bounds") := by
  have nonempty := fileEnd_ne_nil boundary
  have start : Traced boundary.fileEnd limit ⟨FileDecoder.new boundary limit, [], []⟩ [] [] :=
    ⟨⟨rfl, rfl, Nat.zero_le _, transferBufferBytes_pos, rfl⟩, reads_nil nonempty⟩
  have pushed := pushAll_pushed chunks nonempty bits sized start
  rw [List.nil_append, cut] at pushed
  unfold decode
  generalize pushAll collect (FileDecoder.new boundary limit) [] chunks = result at pushed ⊢
  cases pushed with
  | error refused =>
      refine ⟨?_, ?_⟩
      · intro got length
        constructor
        · intro h
          cases h
        · rintro ⟨file, _⟩
          rw [← List.append_nil body] at file
          exact absurd file (refused.none [] got)
      · intro h
        exact refused.other (Except.error.inj h)
  | @ok decoder data traced =>
      dsimp only
      rw [bind_ok]
      unfold FileDecoder.finish
      simp only [check]
      by_cases done : decoder.phase = .done
      · rw [ensure_pos done]
        have reads := traced.reads
        simp only [done] at reads
        have file : FileBody boundary.fileEnd limit body data := by
          cases reads with
          | done split first => exact ⟨split, first, traced.filled.within⟩
        have counted : decoder.accepted = data.length := traced.filled.accepted
        refine ⟨?_, ?_⟩
        · intro got length
          constructor
          · intro h
            cases h
            exact ⟨file, counted⟩
          · rintro ⟨other, rfl⟩
            rw [← file.unique other, ← counted]
            rfl
        · intro h
          cases h
      · rw [ensure_neg done]
        refine ⟨?_, ?_⟩
        · intro got length
          constructor
          · intro h
            cases h
          · rintro ⟨file, _⟩
            exact absurd file (reads_unfinished_refused traced.reads done)
        · intro h
          exact absurd (Except.error.inj h) (by decide)

/-- A file with a near delimiter in it, cut inside both. -/
theorem file_decoder_recognises_sample :
    decode ⟨[98]⟩ 5 [[65, 13, 10, 45], [45, 66, 13], [10, 45, 45, 98, 45, 45, 13, 10]]
        = .error (.message "multipart file byte limit")
      ∧ decode ⟨[98]⟩ 6 [[65, 13, 10, 45], [45, 66, 13], [10, 45, 45, 98, 45, 45, 13, 10]]
        = .ok ([65, 13, 10, 45, 45, 66], 6) := by
  have accepted : Boundary.contentType "multipart/form-data; boundary=b" = .ok ⟨[98]⟩ := by
    decide
  have whole : FileBody (Boundary.fileEnd ⟨[98]⟩) 6
      [65, 13, 10, 45, 45, 66, 13, 10, 45, 45, 98, 45, 45, 13, 10] [65, 13, 10, 45, 45, 66] := by
    refine ⟨by decide, ⟨?_, ?_⟩, by decide⟩
    · unfold Matching.Occurs
      decide
    · unfold Matching.Occurs
      decide
  refine ⟨by decide, ?_⟩
  exact ((file_decoder_recognises accepted (by decide) (by decide) (by decide)).1 _ _).mpr
    ⟨whole, rfl⟩

end Noxide
