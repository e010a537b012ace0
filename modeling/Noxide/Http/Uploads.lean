import Noxide.Blobs.Grammar
import Noxide.Blobs.Objects

/-!
# Receiving an upload

The frames of a request's body: the prefix decoder reads up to the header of the file, and what
follows goes through the file decoder into the pending object of its reservation, which is then
finalized.  A retry, or an optional file that is absent, must send an empty file instead.

Main results:

- Theorem {lit}`upload_received_sound`: an upload that succeeds was a whole form and nothing else,
  and left a durable object of exactly its file.
- Theorem {lit}`upload_received_complete`: an encoded form is received, however it is cut into frames.
- Theorem {lit}`empty_file_expected`: only an empty file passes where none is taken.
-/

namespace Noxide
namespace Uploads

open Checked
open Multipart
open Multipart.PrefixDecoder (Delimited encodeForm new readFrom)
open Form (utf8Bytes)
open Blobs (ObjectKey Digest noDigest)
open Blobs.Files

/-! ## Frames -/

/-- A frame of a request's body. -/
inductive Frame where
  | data (bytes : List UInt8)
  | trailers
  deriving DecidableEq

/-- The frames that have not come yet. -/
abbrev Body := List Frame

/-- The bytes of the next frame. -/
def Frame.bytes : Frame → Result (List UInt8)
  | .data bytes => do
      check "multipart frame limit" (bytes.length ≤ transferBufferBytes)
      return bytes
  | .trailers => .error (.message "multipart trailers denied")

/-! ## The prefix -/

def finishPrefix (d : PrefixDecoder) : Result Unit :=
  match d.phase with
  | .ready => .ok ()
  | _ => .error (.message "truncated multipart prefix")

/-- Read until the prefix is complete.  The bytes past it belong to the file. -/
def readPrefix (d : PrefixDecoder) : Body → Result (ReadyPrefix × List UInt8 × Body)
  | [] => .error (.message "truncated multipart prefix")
  | frame :: rest => do
      let bytes ← frame.bytes
      match d.push bytes with
      | (_, .error e) => .error e
      | (d, .ok progress) =>
          match progress.ready with
          | none => readPrefix d rest
          | some ready => do
              finishPrefix d
              return (ready, bytes.drop progress.consumed, rest)

def intoBody (ready : ReadyPrefix) : FileDecoder := FileDecoder.new ready.boundary ready.limit

/-! ## The file -/

section Feed

variable {σ : Type} (sink : List UInt8 → σ → Result σ)

def pushBytes (decoder : FileDecoder) (got : σ) (bytes : List UInt8) : Result (FileDecoder × σ) :=
  match decoder.push sink got bytes with
  | (_, .error e) => .error e
  | (decoder, .ok got) => .ok (decoder, got)

/-- Push what was read behind the prefix. -/
def sendBuffered (decoder : FileDecoder) (got : σ) (buffered : List UInt8) : Result (FileDecoder × σ) :=
  if buffered = [] then .ok (decoder, got) else pushBytes sink decoder got buffered

/-- Push every frame that is left; a transfer skips those that are empty. -/
def sendFrames (skips : Bool) (decoder : FileDecoder) (got : σ) : Body → Result (FileDecoder × σ)
  | [] => .ok (decoder, got)
  | frame :: rest => do
      let bytes ← frame.bytes
      if skips = true ∧ bytes = [] then sendFrames skips decoder got rest
      else do
        let (decoder, got) ← pushBytes sink decoder got bytes
        sendFrames skips decoder got rest

end Feed

/-- Stream the file to its reservation. -/
def transferFile (sha256 : List UInt8 → Digest) (key : ObjectKey) (reserved : Nat) (ready : ReadyPrefix)
    (buffered : List UInt8) (body : Body) (answers : List (List WriteAnswer)) (s : Store) : Result Store := do
  let index := s.uploads.length
  let s ← s.begin key reserved
  let (decoder, state) ← sendBuffered (Store.writeChunk index) (intoBody ready) (s, answers) buffered
  let (decoder, state) ← sendFrames (Store.writeChunk index) true decoder state body
  let _ ← decoder.finish
  state.1.finalize sha256 index

/-- Where no upload is taken, the file must be whole and empty. -/
def expectEmptyFile (ready : ReadyPrefix) (buffered : List UInt8) (body : Body) : Result Nat := do
  let refuse : List UInt8 → Unit → Result Unit := fun _ _ => .error (.message "unexpected upload bytes")
  let (decoder, got) ← pushBytes refuse (intoBody ready) () buffered
  let (decoder, _) ← sendFrames refuse false decoder got body
  decoder.finish

/-- A body whose file goes to a new reservation. -/
def receive (sha256 : List UInt8 → Digest) (boundary : Boundary) (spec : PrefixSpec) (key : ObjectKey) (reserved : Nat)
    (body : Body) (answers : List (List WriteAnswer)) (s : Store) : Result (ReadyPrefix × Store) := do
  let (ready, buffered, rest) ← readPrefix (new boundary spec) body
  let s ← transferFile sha256 key reserved ready buffered rest answers s
  return (ready, s)

/-! ## Reading the prefix -/

theorem bytes_ok {frame : Frame} {bytes : List UInt8} (h : frame.bytes = .ok bytes) :
    frame = .data bytes ∧ bytes.length ≤ transferBufferBytes := by
  cases frame with
  | data other =>
      rcases bind_eq_ok.mp h with ⟨_, sized, same⟩
      cases same
      exact ⟨rfl, ensure_eq_ok.mp sized⟩
  | trailers => cases h

theorem bytes_data {bytes : List UInt8} (sized : bytes.length ≤ transferBufferBytes) :
    (Frame.data bytes).bytes = .ok bytes := by
  have passed : check "multipart frame limit" (bytes.length ≤ transferBufferBytes) = .ok () := ensure_pos sized
  simp only [Frame.bytes, passed]
  rfl

section Prefix

variable {d after : PrefixDecoder} {ready : ReadyPrefix}

theorem headersEnd_ready {header : List UInt8} (h : d.headersEnd header = .ok (after, some ready)) :
    after.phase = .ready := by
  unfold PrefixDecoder.headersEnd at h
  rcases bind_eq_ok.mp h with ⟨headers, _, h⟩
  simp only at h
  split at h
  · rcases bind_eq_ok.mp h with ⟨⟨d', ready'⟩, ended, h⟩
    cases h
    unfold PrefixDecoder.filePart at ended
    rcases bind_eq_ok.mp ended with ⟨_, _, ended⟩
    rcases bind_eq_ok.mp ended with ⟨_, _, ended⟩
    rcases bind_eq_ok.mp ended with ⟨_, _, ended⟩
    rcases bind_eq_ok.mp ended with ⟨_, _, ended⟩
    cases ended
    rfl
  · rcases bind_eq_ok.mp h with ⟨_, _, h⟩
    cases h

/-- The decoder that finished a prefix says so. -/
theorem readPhase_ready {byte : UInt8} (h : d.readPhase byte = .ok (after, some ready)) : after.phase = .ready := by
  unfold PrefixDecoder.readPhase at h
  cases phase : d.phase with
  | initial cursor =>
      simp only [phase] at h
      rcases bind_eq_ok.mp h with ⟨_, _, h⟩
      cases h
  | headers =>
      simp only [phase] at h
      rcases bind_eq_ok.mp h with ⟨_, _, h⟩
      split at h
      · exact headersEnd_ready h
      · cases h
  | scalar field value matcher =>
      simp only [phase] at h
      rcases bind_eq_ok.mp h with ⟨_, _, h⟩
      rcases bind_eq_ok.mp h with ⟨_, _, h⟩
      split at h
      · rcases bind_eq_ok.mp h with ⟨_, _, h⟩
        cases h
      · cases h
  | ready =>
      simp only [phase] at h
      cases h
  | poisoned =>
      simp only [phase] at h
      cases h

theorem readFrom_ready {input : List UInt8} {index : Nat} {progress : PrefixProgress}
    (h : d.readFrom index input = .ok (after, progress)) (finished : progress.ready = some ready) :
    after.phase = .ready ∧ progress.consumed ≤ index + input.length := by
  induction input generalizing d index with
  | nil =>
      cases h
      cases finished
  | cons byte rest ih =>
      rw [readFrom] at h
      rcases bind_eq_ok.mp h with ⟨⟨d', ready'⟩, step, h⟩
      rw [List.length_cons]
      cases ready' with
      | some ready' =>
          cases h
          unfold PrefixDecoder.readByte at step
          rcases bind_eq_ok.mp step with ⟨_, _, step⟩
          rcases bind_eq_ok.mp step with ⟨_, _, step⟩
          refine ⟨readPhase_ready step, ?_⟩
          simp only
          omega
      | none =>
          rcases ih h with ⟨phase, inside⟩
          exact ⟨phase, by omega⟩

theorem push_ok {chunk : List UInt8} {progress : PrefixProgress} (h : d.push chunk = (after, .ok progress)) :
    d.readFrom 0 chunk = .ok (after, progress) := by
  unfold PrefixDecoder.push at h
  cases inner : d.pushInner chunk with
  | error e =>
      rw [inner] at h
      cases h
  | ok result =>
      rw [inner] at h
      cases h
      unfold PrefixDecoder.pushInner at inner
      rcases bind_eq_ok.mp inner with ⟨_, _, inner⟩
      rcases bind_eq_ok.mp inner with ⟨_, _, inner⟩
      exact inner

theorem readFrom_push {chunk : List UInt8} {progress : PrefixProgress} (isOpen : d.phase.isOpen = true)
    (sized : chunk.length ≤ transferBufferBytes) (h : d.readFrom 0 chunk = .ok (after, progress)) :
    d.push chunk = (after, .ok progress) := by
  unfold PrefixDecoder.push PrefixDecoder.pushInner
  rw [check, ensure_pos sized, bind_ok, check, ensure_pos isOpen, bind_ok, h]

/-- What was read of a body is the text that the decoder read, and what follows is left. -/
theorem readPrefix_ok {body rest : Body} {buffered : List UInt8} (sound : d.Sound) (isOpen : d.phase.isOpen = true)
    (h : readPrefix d body = .ok (ready, buffered, rest)) :
    ∃ (front : List (List UInt8)) (after : PrefixDecoder) (consumed : Nat), body = front.map Frame.data ++ rest
      ∧ d.readFrom 0 front.flatten = .ok (after, ⟨consumed, some ready⟩) ∧ buffered = front.flatten.drop consumed
      ∧ buffered.length ≤ transferBufferBytes := by
  induction body generalizing d with
  | nil => cases h
  | cons frame body ih =>
      rw [readPrefix] at h
      rcases bind_eq_ok.mp h with ⟨chunk, sent, goes⟩
      rcases bytes_ok sent with ⟨rfl, sized⟩
      split at goes
      · cases goes
      · rename_i d' progress pushed
        have read := push_ok pushed
        split at goes
        · rename_i unfinished
          rcases (PrefixDecoder.readFrom_fields sound isOpen read).2.2 unfinished with ⟨sound', open', position⟩
          rcases ih sound' open' goes with ⟨front, after, consumed, rfl, further, rfl, small⟩
          refine ⟨chunk :: front, after, chunk.length + consumed, rfl, ?_, ?_, small⟩
          · have shifted := PrefixDecoder.readFrom_shift d' chunk.length 0 front.flatten
            rw [Nat.add_zero, further] at shifted
            have position' : progress.consumed = chunk.length := by
              rw [position, Nat.zero_add]
            rw [List.flatten_cons, PrefixDecoder.readFrom_append, read, bind_ok, if_neg, position', shifted]
            · rfl
            · rw [unfinished]
              exact Bool.false_ne_true
          · rw [List.flatten_cons, List.drop_length_add_append]
        · rename_i ready' finished
          rcases bind_eq_ok.mp goes with ⟨_, _, goes⟩
          cases goes
          refine ⟨[chunk], d', progress.consumed, rfl, ?_, ?_, ?_⟩
          · rw [List.flatten_singleton, read, ← finished]
          · rw [List.flatten_singleton]
          · rw [List.length_drop]
            omega

/-- A text that ends a prefix is read from frames, however it is cut. -/
theorem readPrefix_completes {chunks : List (List UInt8)} {consumed : Nat} (sound : d.Sound)
    (isOpen : d.phase.isOpen = true) (sized : ∀ chunk ∈ chunks, chunk.length ≤ transferBufferBytes)
    (h : d.readFrom 0 chunks.flatten = .ok (after, ⟨consumed, some ready⟩)) :
    ∃ (buffered : List UInt8) (rest : List (List UInt8)),
      readPrefix d (chunks.map Frame.data) = .ok (ready, buffered, rest.map Frame.data)
      ∧ buffered ++ rest.flatten = chunks.flatten.drop consumed ∧ buffered.length ≤ transferBufferBytes
      ∧ ∀ chunk ∈ rest, chunk.length ≤ transferBufferBytes := by
  induction chunks generalizing d consumed with
  | nil => cases h
  | cons chunk rest ih =>
      have small := sized chunk List.mem_cons_self
      have others : ∀ chunk ∈ rest, chunk.length ≤ transferBufferBytes :=
        fun c member => sized c (List.mem_cons_of_mem _ member)
      rw [List.flatten_cons, PrefixDecoder.readFrom_append] at h
      rcases bind_eq_ok.mp h with ⟨⟨d', progress⟩, read, h⟩
      have pushed := readFrom_push isOpen small read
      rw [List.map_cons, readPrefix, bytes_data small, bind_ok, pushed]
      simp only at h ⊢
      cases finished : progress.ready with
      | some ready' =>
          rw [finished, Option.isSome_some, if_pos rfl] at h
          have same := Except.ok.inj h
          have result : progress = ⟨consumed, some ready⟩ := congrArg Prod.snd same
          rw [result] at finished
          cases finished
          rcases readFrom_ready read (show progress.ready = some ready from by rw [result]) with ⟨phase, inside⟩
          rw [result, Nat.zero_add] at inside
          refine ⟨chunk.drop consumed, rest, ?_, ?_, ?_, others⟩
          · simp only [finishPrefix, phase, bind_ok, result]
            rfl
          · rw [List.flatten_cons, List.drop_append_of_le_length inside]
          · rw [List.length_drop]
            omega
      | none =>
          rcases (PrefixDecoder.readFrom_fields sound isOpen read).2.2 finished with ⟨sound', open', position⟩
          rw [finished, Option.isSome_none, if_neg Bool.false_ne_true, position, Nat.zero_add] at h
          have shifted := PrefixDecoder.readFrom_shift d' chunk.length 0 rest.flatten
          rw [Nat.add_zero, h] at shifted
          rcases map_eq_ok.mp shifted.symm with ⟨⟨d'', own⟩, further, same⟩
          have parts := Prod.mk.inj same
          have place : own.ready = some ready := congrArg PrefixProgress.ready parts.2
          have count : chunk.length + own.consumed = consumed := congrArg PrefixProgress.consumed parts.2
          have shape : own = ⟨own.consumed, some ready⟩ := by rw [← place]
          have final : d'' = after := congrArg Prod.fst same
          rw [shape, final] at further
          rcases ih sound' open' others further with ⟨buffered, left, result, kept, short, small'⟩
          refine ⟨buffered, left, result, ?_, short, small'⟩
          rw [kept, List.flatten_cons, ← count, List.drop_length_add_append]

end Prefix

/-! ## Sinks -/

section Sinks

variable {σ : Type} {sink : List UInt8 → σ → Result σ} {total : Prop} {limit : Nat} {holds : σ → List UInt8 → Prop}

/-- A sink that holds what it was given, and, where it is total, takes all that is within its limit. -/
structure Keeps (sink : List UInt8 → σ → Result σ) (total : Prop) (limit : Nat) (holds : σ → List UInt8 → Prop) :
    Prop where
  takes : ∀ {bytes got : List UInt8} {state after : σ}, holds state got → sink bytes state = .ok after →
    holds after (got ++ bytes)
  total : total → ∀ {bytes got : List UInt8} {state : σ}, holds state got → bytes.length ≤ transferBufferBytes →
    got.length + bytes.length ≤ limit → ∃ after, sink bytes state = .ok after

/-- A push into a sink goes as the push that collects, unless the sink refuses. -/
inductive Tracks (total : Prop) (holds : σ → List UInt8 → Prop) :
    Result (Pushing σ) → Result (Pushing (List UInt8)) → Prop where
  | ok {decoder : FileDecoder} {buffer got : List UInt8} {state : σ} : holds state got →
      Tracks total holds (.ok ⟨decoder, buffer, state⟩) (.ok ⟨decoder, buffer, got⟩)
  | failed {e e' : Failure} : Tracks total holds (.error e) (.error e')
  | refused {e : Failure} {other : Result (Pushing (List UInt8))} : ¬ total → Tracks total holds (.error e) other

/-- The same for whole pushes. -/
inductive Pushes (total : Prop) (holds : σ → List UInt8 → Prop) :
    Result (FileDecoder × σ) → Result (FileDecoder × List UInt8) → Prop where
  | ok {decoder : FileDecoder} {got : List UInt8} {state : σ} : holds state got →
      Pushes total holds (.ok (decoder, state)) (.ok (decoder, got))
  | failed {e e' : Failure} : Pushes total holds (.error e) (.error e')
  | refused {e : Failure} {other : Result (FileDecoder × List UInt8)} : ¬ total → Pushes total holds (.error e) other

theorem pushBytes_eq (decoder : FileDecoder) (state : σ) (input : List UInt8) :
    pushBytes sink decoder state input = pushInner sink decoder state input := by
  unfold pushBytes FileDecoder.push
  cases pushInner sink decoder state input with
  | ok result => rfl
  | error e => rfl

/-- Go on after a part that was tracked. -/
theorem Tracks.bind {first : Result (Pushing σ)} {first' : Result (Pushing (List UInt8))}
    {next : Pushing σ → Result (Pushing σ)} {next' : Pushing (List UInt8) → Result (Pushing (List UInt8))}
    (h : Tracks total holds first first')
    (goes : ∀ decoder buffer got state, holds state got → first' = .ok ⟨decoder, buffer, got⟩ →
      Tracks total holds (next ⟨decoder, buffer, state⟩) (next' ⟨decoder, buffer, got⟩)) :
    Tracks total holds (first >>= next) (first' >>= next') := by
  cases h with
  | ok held => exact goes _ _ _ _ held rfl
  | failed => exact .failed
  | refused partly => exact .refused partly

section Tracked

variable (keeps : Keeps sink total limit holds) {bound : Nat} (inside : bound ≤ limit) (bits : bound < 2 ^ 64)
  {decoder : FileDecoder} {buffer got out : List UInt8} {state : σ}

include keeps inside

theorem flush_tracks (held : holds state got) (same : decoder.limit = bound) (accepted : decoder.accepted = got.length)
    (sized : buffer.length ≤ transferBufferBytes) :
    Tracks total holds (flush sink ⟨decoder, buffer, state⟩) (flush collect ⟨decoder, buffer, got⟩) := by
  unfold flush
  simp only [check]
  by_cases small : decoder.accepted + buffer.length < 2 ^ 64
  · rw [ensure_pos small]
    simp only [bind_ok]
    by_cases within : decoder.accepted + buffer.length ≤ decoder.limit
    · rw [ensure_pos within]
      simp only [bind_ok]
      cases given : sink buffer state with
      | ok after => exact .ok (keeps.takes held given)
      | error e =>
          refine .refused fun all => ?_
          rcases keeps.total all held sized (by omega) with ⟨after, taken⟩
          rw [given] at taken
          cases taken
    · rw [ensure_neg within]
      exact .failed
  · rw [ensure_neg small]
    exact .failed

theorem put_tracks (byte : UInt8) (held : holds state got) (filled : Filled bound ⟨decoder, buffer, got⟩ out) :
    Tracks total holds (put sink ⟨decoder, buffer, state⟩ byte) (put collect ⟨decoder, buffer, got⟩ byte) := by
  have room : buffer.length < transferBufferBytes := filled.room
  unfold put
  simp only [check]
  rw [ensure_pos room]
  simp only [bind_ok]
  split
  · rename_i full
    exact flush_tracks keeps inside held filled.bound filled.accepted full.le
  · exact .ok held

include bits

theorem putAll_tracks (bytes : List UInt8) (held : holds state got) (filled : Filled bound ⟨decoder, buffer, got⟩ out) :
    Tracks total holds (putAll sink ⟨decoder, buffer, state⟩ bytes) (putAll collect ⟨decoder, buffer, got⟩ bytes) := by
  induction bytes generalizing decoder buffer got out state with
  | nil => exact .ok held
  | cons byte rest ih =>
      simp only [putAll]
      refine (put_tracks keeps inside byte held filled).bind ?_
      intro decoder' buffer' got' state' held' put
      have kept := put_kept byte bits filled
      rw [put] at kept
      cases kept with
      | ok filled' _ _ => exact ih held' filled'

variable {delimiter text : List UInt8} (nonempty : delimiter ≠ [])

theorem readByte_tracks (byte : UInt8) (held : holds state got) (filled : Filled bound ⟨decoder, buffer, got⟩ out) :
    Tracks total holds (readByte sink ⟨decoder, buffer, state⟩ byte)
      (readByte collect ⟨decoder, buffer, got⟩ byte) := by
  unfold readByte
  cases phase : decoder.phase with
  | data =>
      simp only
      refine (putAll_tracks keeps inside bits (decoder.matcher.byte byte).1 held filled).bind ?_
      intro decoder' buffer' got' state' held' _
      exact .ok held'
  | closing cursor =>
      simp only [check]
      by_cases found : closingSuffix[cursor]? = some byte
      · rw [ensure_pos found]
        exact .ok held
      · rw [ensure_neg found]
        exact .failed
  | done =>
      exact .failed
  | poisoned =>
      exact .failed

include nonempty

theorem readAll_tracks (input : List UInt8) (held : holds state got)
    (traced : Traced delimiter bound ⟨decoder, buffer, got⟩ out text) :
    Tracks total holds (readAll sink ⟨decoder, buffer, state⟩ input)
      (readAll collect ⟨decoder, buffer, got⟩ input) := by
  induction input generalizing decoder buffer got out state text with
  | nil => exact .ok held
  | cons byte rest ih =>
      simp only [readAll]
      refine (readByte_tracks keeps inside bits byte held traced.filled).bind ?_
      intro decoder' buffer' got' state' held' read
      have follows := readByte_follows byte nonempty bits traced
      rw [read] at follows
      cases follows with
      | ok traced' => exact ih held' traced'

/-- A push into a sink hands on what the push that collects does. -/
theorem pushBytes_tracks (input : List UInt8) (held : holds state got)
    (traced : Traced delimiter bound ⟨decoder, [], got⟩ got text) :
    Pushes total holds (pushBytes sink decoder state input) (pushBytes collect decoder got input) := by
  rw [pushBytes_eq, pushBytes_eq]
  unfold pushInner
  simp only [check]
  by_cases sized : input.length ≤ transferBufferBytes
  · rw [ensure_pos sized]
    simp only [bind_ok]
    by_cases alive : decoder.phase ≠ .poisoned
    · rw [ensure_pos alive]
      simp only [bind_ok]
      have rest : Tracks total holds (readAll sink ⟨decoder, [], state⟩ input >>= flushRest sink)
          (readAll collect ⟨decoder, [], got⟩ input >>= flushRest collect) := by
        refine (readAll_tracks keeps inside bits nonempty input held traced).bind ?_
        intro decoder' buffer' got' state' held' read
        have follows := readAll_follows input nonempty bits traced
        rw [read] at follows
        cases follows with
        | ok traced' =>
            unfold flushRest
            simp only
            split
            · exact .ok held'
            · exact flush_tracks keeps inside held' traced'.filled.bound traced'.filled.accepted traced'.filled.room.le
      rw [← bind_assoc, ← bind_assoc]
      generalize readAll sink ⟨decoder, [], state⟩ input >>= flushRest sink = result at rest ⊢
      generalize readAll collect ⟨decoder, [], got⟩ input >>= flushRest collect = result' at rest ⊢
      cases rest with
      | ok held' => exact .ok held'
      | failed => exact .failed
      | refused partly => exact .refused partly
    · rw [ensure_neg alive]
      exact .failed
  · rw [ensure_neg sized]
    exact .failed

/-- Frames into a sink hand on what the frames that are collected do. -/
theorem sendFrames_tracks (skips : Bool) (body : Body) (held : holds state got)
    (traced : Traced delimiter bound ⟨decoder, [], got⟩ got text) :
    Pushes total holds (sendFrames sink skips decoder state body)
      (sendFrames collect skips decoder got body) := by
  induction body generalizing decoder got state text with
  | nil => exact .ok held
  | cons frame rest ih =>
      simp only [sendFrames]
      cases sent : frame.bytes with
      | error e => exact .failed
      | ok bytes =>
          simp only [bind_ok]
          split
          · exact ih held traced
          · have pushed := pushBytes_tracks keeps inside bits nonempty bytes held traced
            have next := push_pushed bytes nonempty bits (bytes_ok sent).2 traced
            unfold pushBytes at pushed ⊢
            generalize decoder.push collect got bytes = result at pushed next ⊢
            generalize decoder.push sink state bytes = own at pushed ⊢
            rcases own with ⟨decoder', _ | state'⟩
            · cases next with
              | error _ => exact .failed
              | ok _ =>
                  cases pushed with
                  | refused partly => exact .refused partly
            · cases next with
              | error _ => cases pushed
              | ok traced' =>
                  cases pushed with
                  | ok held' => exact ih held' traced'

end Tracked

end Sinks

/-! ## The file of a body -/

section Collect

variable {delimiter text got : List UInt8} {limit : Nat} {decoder : FileDecoder}

/-- What frames leave: all data handed on, or a refusal. -/
inductive Sent (delimiter : List UInt8) (limit : Nat) (text : List UInt8) :
    Result (FileDecoder × List UInt8) → Prop where
  | ok {decoder : FileDecoder} {got : List UInt8} : Traced delimiter limit ⟨decoder, [], got⟩ got text →
      Sent delimiter limit text (.ok (decoder, got))
  | error {e : Failure} : Refused delimiter limit text e → Sent delimiter limit text (.error e)

theorem pushBytes_sent (bytes : List UInt8) (nonempty : delimiter ≠ []) (bits : limit < 2 ^ 64)
    (sized : bytes.length ≤ transferBufferBytes) (traced : Traced delimiter limit ⟨decoder, [], got⟩ got text) :
    Sent delimiter limit (text ++ bytes) (pushBytes collect decoder got bytes) := by
  have pushed := push_pushed bytes nonempty bits sized traced
  unfold pushBytes
  generalize decoder.push collect got bytes = result at pushed ⊢
  cases pushed with
  | ok traced' => exact .ok traced'
  | error refused => exact .error refused

theorem sendFrames_sent (skips : Bool) (chunks : List (List UInt8)) (nonempty : delimiter ≠ []) (bits : limit < 2 ^ 64)
    (sized : ∀ chunk ∈ chunks, chunk.length ≤ transferBufferBytes)
    (traced : Traced delimiter limit ⟨decoder, [], got⟩ got text) :
    Sent delimiter limit (text ++ chunks.flatten) (sendFrames collect skips decoder got (chunks.map Frame.data)) := by
  induction chunks generalizing decoder got text with
  | nil =>
      rw [List.flatten_nil, List.append_nil]
      exact .ok traced
  | cons chunk rest ih =>
      have small := sized chunk List.mem_cons_self
      have others : ∀ chunk ∈ rest, chunk.length ≤ transferBufferBytes :=
        fun c member => sized c (List.mem_cons_of_mem _ member)
      rw [List.map_cons, List.flatten_cons, ← List.append_assoc]
      simp only [sendFrames]
      rw [bytes_data small]
      simp only [bind_ok]
      split
      · rename_i skipped
        rw [skipped.2, List.append_nil]
        exact ih others traced
      · have pushed := pushBytes_sent chunk nonempty bits small traced
        generalize pushBytes collect decoder got chunk = result at pushed ⊢
        cases pushed with
        | ok traced' => exact ih others traced'
        | error refused => exact .error (refused.append _)

/-- Frames that were all read were data within the limit of a frame. -/
theorem sendFrames_data {σ : Type} {sink : List UInt8 → σ → Result σ} {skips : Bool} {body : Body} {state : σ}
    {result : FileDecoder × σ} (h : sendFrames sink skips decoder state body = .ok result) :
    ∃ chunks : List (List UInt8), body = chunks.map Frame.data
      ∧ ∀ chunk ∈ chunks, chunk.length ≤ transferBufferBytes := by
  induction body generalizing decoder state with
  | nil => exact ⟨[], rfl, fun c absurd => (List.not_mem_nil absurd).elim⟩
  | cons frame rest ih =>
      simp only [sendFrames] at h
      rcases bind_eq_ok.mp h with ⟨bytes, sent, goes⟩
      rcases bytes_ok sent with ⟨rfl, sized⟩
      have later : ∃ decoder' state', sendFrames sink skips decoder' state' rest = .ok result := by
        split at goes
        · exact ⟨_, _, goes⟩
        · rcases bind_eq_ok.mp goes with ⟨⟨decoder', state'⟩, _, goes⟩
          exact ⟨_, _, goes⟩
      rcases later with ⟨_, _, later⟩
      rcases ih later with ⟨chunks, rfl, others⟩
      exact ⟨bytes :: chunks, rfl, List.forall_mem_cons.mpr ⟨sized, others⟩⟩

theorem traced_new (boundary : Boundary) (limit : Nat) :
    Traced boundary.fileEnd limit ⟨FileDecoder.new boundary limit, [], []⟩ [] [] :=
  ⟨⟨rfl, rfl, Nat.zero_le _, transferBufferBytes_pos, rfl⟩, reads_nil (fileEnd_ne_nil boundary)⟩

end Collect

section Transfer

variable {sha256 : List UInt8 → Digest} {s after : Store} {index : Nat} {key : ObjectKey} {reserved : Nat}

/-- The upload at an index holds what the sink was given. -/
structure Stores (sha256 : List UInt8 → Digest) (start : Store) (index : Nat) (key : ObjectKey) (reserved : Nat)
    (benign : Prop) (state : Store × List (List WriteAnswer)) (got : List UInt8) : Prop where
  quiet : Quiet sha256 start state.1
  objects : ∀ name, state.1.disk.lookup .objects name = start.disk.lookup .objects name
  writing : ∃ object, Writing state.1 index object ∧ object.key = key ∧ object.limit = reserved ∧ object.digested = got
  answers : benign → ∀ answers ∈ state.2, Benign answers

theorem writeChunk_rest {bytes : List UInt8} {state rest : Store × List (List WriteAnswer)}
    (h : Store.writeChunk index bytes state = .ok rest) : rest.2 = state.2.tail := by
  unfold Store.writeChunk at h
  split at h
  · cases h
  · split at h
    · cases h
    · cases h
      rfl

/-- The pending object is a sink: it holds what it was given, and takes all up to its reservation
while the system goes on to write. -/
theorem stores_keeps (benign : Prop) (start : Store) (bits : reserved < 2 ^ 64) :
    Keeps (Store.writeChunk index) benign reserved (Stores sha256 start index key reserved benign) := by
  constructor
  · rintro bytes got ⟨s, answers⟩ ⟨after, rest⟩ held taken
    rcases held.writing with ⟨object, writing, rfl, limit, rfl⟩
    rcases writeChunk_writing taken writing with ⟨quiet, folders, writing'⟩
    refine ⟨⟨held.quiet.run.trans quiet.run, quiet.durable.trans held.quiet.durable,
      quiet.removed.trans held.quiet.removed⟩, ?_, ⟨_, writing', rfl, limit, rfl⟩, ?_⟩
    · intro name
      rw [← held.objects name, Disks.Disk.lookup, folders, Disks.Disk.lookup]
    · intro all list member
      have tail : rest = answers.tail := writeChunk_rest taken
      rw [tail] at member
      exact held.answers all list (List.mem_of_mem_tail member)
  · rintro all bytes got ⟨s, answers⟩ held sized room
    rcases held.writing with ⟨object, writing, _, limit, rfl⟩
    have benign' : Benign (answers.headD []) := by
      cases answers with
      | nil => exact fun answer absurd => (List.not_mem_nil absurd).elim
      | cons list rest => exact held.answers all list List.mem_cons_self
    rw [writing.counted, ← limit] at room
    rcases writeChunk_completes bytes answers writing benign' sized room (by rw [limit]; exact bits) with ⟨after, taken⟩
    exact ⟨_, taken⟩

theorem begin_within (h : s.begin key reserved = .ok after) : 1 ≤ reserved ∧ reserved ≤ Blobs.maxUploadBytes := by
  unfold Store.begin beginObject at h
  rcases bind_eq_ok.mp h with ⟨_, begun, _⟩
  rcases bind_eq_ok.mp begun with ⟨_, within, _⟩
  exact ensure_eq_ok.mp within

/-- A body that ends a file. -/
theorem finish_sent {delimiter text got : List UInt8} {limit : Nat} {decoder : FileDecoder} {length : Nat}
    (traced : Traced delimiter limit ⟨decoder, [], got⟩ got text) (h : decoder.finish = .ok length) :
    FileBody delimiter limit text got := by
  unfold FileDecoder.finish at h
  rcases bind_eq_ok.mp h with ⟨_, finished, _⟩
  have reads := traced.reads
  simp only [ensure_eq_ok.mp finished] at reads
  cases reads with
  | done split first => exact ⟨split, first, traced.filled.within⟩

theorem finish_completes {delimiter text data : List UInt8} {limit : Nat} {decoder : FileDecoder} {got : List UInt8}
    (traced : Traced delimiter limit ⟨decoder, [], got⟩ got text) (file : FileBody delimiter limit text data) :
    got = data ∧ decoder.finish = .ok decoder.accepted := by
  have finished : decoder.phase = .done := by
    by_contra unfinished
    exact reads_unfinished_refused traced.reads unfinished file
  have closes : decoder.finish = .ok decoder.accepted := by
    unfold FileDecoder.finish
    rw [check, ensure_pos finished]
    rfl
  exact ⟨(finish_sent traced closes).unique file, closes⟩

/-- A transfer that succeeds was a whole file and left evidence of exactly its data. -/
theorem transferFile_sound {ready : ReadyPrefix} {buffered : List UInt8} {body : Body}
    {answers : List (List WriteAnswer)} (bits : ready.limit < 2 ^ 64) (sized : buffered.length ≤ transferBufferBytes)
    (h : transferFile sha256 key reserved ready buffered body answers s = .ok after) :
    ∃ (chunks : List (List UInt8)) (data : List UInt8), body = chunks.map Frame.data
      ∧ FileBody ready.boundary.fileEnd ready.limit (buffered ++ chunks.flatten) data
      ∧ (storeSystem sha256).Run s after ∧ after.removed = s.removed
      ∧ after.durable = s.durable ++ [⟨⟨key, data.length, sha256 data⟩, data⟩] := by
  unfold transferFile at h
  rcases bind_eq_ok.mp h with ⟨begun, first, h⟩
  have small : reserved < 2 ^ 64 := by
    have within := begin_within first
    unfold Blobs.maxUploadBytes at within
    omega
  rcases begin_writing first with ⟨quiet, object, writing, named, limit, empty⟩
  have start : Stores sha256 begun s.uploads.length key reserved False (begun, answers) [] :=
    ⟨⟨System.Run.refl begun, rfl, rfl⟩, fun _ => rfl, ⟨object, writing, named, limit, empty⟩, fun absurd => absurd.elim⟩
  have keeps : Keeps (Store.writeChunk s.uploads.length) False ready.limit
      (Stores sha256 begun s.uploads.length key reserved False) :=
    ⟨(stores_keeps False begun small).takes, fun absurd => absurd.elim⟩
  have nonempty := fileEnd_ne_nil ready.boundary
  have traced : Traced ready.boundary.fileEnd ready.limit ⟨intoBody ready, [], []⟩ [] [] := traced_new _ _
  rcases bind_eq_ok.mp h with ⟨⟨decoder, state⟩, opened, h⟩
  -- what was buffered was read as the beginning of the file
  have beginning : ∃ got, Stores sha256 begun s.uploads.length key reserved False state got
      ∧ Traced ready.boundary.fileEnd ready.limit ⟨decoder, [], got⟩ got buffered := by
    unfold sendBuffered at opened
    split at opened
    · rename_i nothing
      cases opened
      rw [nothing]
      exact ⟨[], start, traced⟩
    · have tracks := pushBytes_tracks keeps le_rfl bits nonempty buffered start traced
      have sent := pushBytes_sent buffered nonempty bits sized traced
      rw [opened] at tracks
      generalize pushBytes collect (intoBody ready) [] buffered = result at tracks sent
      cases tracks with
      | ok held =>
          cases sent with
          | ok traced' => exact ⟨_, held, traced'⟩
  rcases beginning with ⟨got, held, traced'⟩
  rcases bind_eq_ok.mp h with ⟨⟨decoder', state'⟩, streamed, ending⟩
  rcases sendFrames_data streamed with ⟨chunks, rfl, sizes⟩
  have tracks := sendFrames_tracks keeps le_rfl bits nonempty true (chunks.map Frame.data) held traced'
  have sent := sendFrames_sent true chunks nonempty bits sizes traced'
  rw [streamed] at tracks
  generalize sendFrames collect true decoder got (chunks.map Frame.data) = result at tracks sent
  cases tracks with
  | ok held' =>
      rename_i data
      cases sent with
      | ok traced'' =>
          rcases bind_eq_ok.mp ending with ⟨length, finished, finalized⟩
          rcases held'.writing with ⟨object', writing', named', _, digested⟩
          rcases finalize_ok writing'.here finalized with ⟨run, removed, durable⟩
          refine ⟨chunks, data, rfl, finish_sent traced'' finished, ?_, ?_, ?_⟩
          · exact (quiet.run.trans held'.quiet.run).trans run
          · rw [removed, held'.quiet.removed, quiet.removed]
          · rw [durable, held'.quiet.durable, quiet.durable, named', ← writing'.counted, digested]

/-- Where its key is free and nothing fails, the whole of a file within its reservation is
transferred, however it is cut. -/
theorem transferFile_completes {ready : ReadyPrefix} {buffered data : List UInt8} {chunks : List (List UInt8)}
    {answers : List (List WriteAnswer)} (reachable : (storeSystem sha256).Reachable s)
    (within : 1 ≤ reserved ∧ reserved ≤ Blobs.maxUploadBytes) (limit : ready.limit ≤ reserved)
    (partials : s.disk.lookup .partials key.value = none) (objects : s.disk.lookup .objects key.value = none)
    (kept : key ∉ s.removed) (benign : ∀ list ∈ answers, Benign list) (sized : buffered.length ≤ transferBufferBytes)
    (sizes : ∀ chunk ∈ chunks, chunk.length ≤ transferBufferBytes)
    (file : FileBody ready.boundary.fileEnd ready.limit (buffered ++ chunks.flatten) data) :
    ∃ after, transferFile sha256 key reserved ready buffered (chunks.map Frame.data) answers s = .ok after := by
  have largest : Blobs.maxUploadBytes < 2 ^ 64 := by decide
  have small : reserved < 2 ^ 64 := by omega
  have bits : ready.limit < 2 ^ 64 := by omega
  rcases begin_completes within partials with ⟨begun, first, same⟩
  rcases begin_writing first with ⟨quiet, object, writing, named, limited, empty⟩
  have start : Stores sha256 begun s.uploads.length key reserved True (begun, answers) [] :=
    ⟨⟨System.Run.refl begun, rfl, rfl⟩, fun _ => rfl, ⟨object, writing, named, limited, empty⟩, fun _ => benign⟩
  have keeps : Keeps (Store.writeChunk s.uploads.length) True reserved
      (Stores sha256 begun s.uploads.length key reserved True) := stores_keeps True begun small
  have nonempty := fileEnd_ne_nil ready.boundary
  have traced : Traced ready.boundary.fileEnd ready.limit ⟨intoBody ready, [], []⟩ [] [] := traced_new _ _
  have beginning : ∃ decoder state got,
      sendBuffered (Store.writeChunk s.uploads.length) (intoBody ready) (begun, answers) buffered = .ok (decoder, state)
      ∧ Stores sha256 begun s.uploads.length key reserved True state got
      ∧ Traced ready.boundary.fileEnd ready.limit ⟨decoder, [], got⟩ got buffered := by
    unfold sendBuffered
    by_cases nothing : buffered = []
    · rw [if_pos nothing, nothing]
      exact ⟨_, _, [], rfl, start, traced⟩
    · rw [if_neg nothing]
      have tracks := pushBytes_tracks keeps limit bits nonempty buffered start traced
      have sent := pushBytes_sent buffered nonempty bits sized traced
      generalize pushBytes collect (intoBody ready) [] buffered = result at tracks sent
      generalize pushBytes _ (intoBody ready) (begun, answers) buffered = own at tracks ⊢
      cases tracks with
      | ok held =>
          cases sent with
          | ok traced' => exact ⟨_, _, _, rfl, held, traced'⟩
      | failed =>
          cases sent with
          | error refused => exact absurd file (refused.none _ _)
      | refused partly => exact absurd trivial partly
  rcases beginning with ⟨decoder, state, got, opened, held, traced'⟩
  have tracks := sendFrames_tracks keeps limit bits nonempty true (chunks.map Frame.data) held traced'
  have sent := sendFrames_sent true chunks nonempty bits sizes traced'
  have streamed : ∃ decoder' state' got', sendFrames (Store.writeChunk s.uploads.length) true decoder state
        (chunks.map Frame.data) = .ok (decoder', state')
      ∧ Stores sha256 begun s.uploads.length key reserved True state' got'
      ∧ Traced ready.boundary.fileEnd ready.limit ⟨decoder', [], got'⟩ got' (buffered ++ chunks.flatten) := by
    generalize sendFrames collect true decoder got (chunks.map Frame.data) = result at tracks sent
    generalize sendFrames _ true decoder state (chunks.map Frame.data) = own at tracks ⊢
    cases tracks with
    | ok held' =>
        cases sent with
        | ok traced'' => exact ⟨_, _, _, rfl, held', traced''⟩
    | failed =>
        cases sent with
        | error refused =>
            rw [← List.append_nil (buffered ++ chunks.flatten)] at file
            exact absurd file (refused.none _ _)
    | refused partly => exact absurd trivial partly
  rcases streamed with ⟨decoder', state', got', streamed, held', traced''⟩
  rcases held'.writing with ⟨object', writing', named', _, _⟩
  have sound := Blobs.Files.sound_invariant.holds ((reachable.run quiet.run).run held'.quiet.run)
  have free : state'.1.disk.lookup .objects object'.key.value = none := by
    rw [named', held'.objects, same]
    exact objects
  have unremoved : object'.key ∉ state'.1.removed := by
    rw [named', held'.quiet.removed, quiet.removed]
    exact kept
  rcases finalize_completes sound writing' unremoved free with ⟨after, finalized⟩
  refine ⟨after, ?_⟩
  unfold transferFile
  rw [first, bind_ok, opened, bind_ok]
  simp only
  rw [streamed, bind_ok]
  simp only
  rw [(finish_completes traced'' file).2, bind_ok]
  exact finalized

end Transfer

/-! ## Whole bodies -/

section Receive

variable {sha256 : List UInt8 → Digest} {boundary : Boundary} {spec : PrefixSpec} {key : ObjectKey} {reserved : Nat}
  {answers : List (List WriteAnswer)} {s after : Store} {ready : ReadyPrefix}

theorem spec_limit (spec : PrefixSpec) : 1 ≤ spec.limit ∧ spec.limit ≤ Blobs.maxUploadBytes := by
  have admitted := spec.admitted
  unfold checkSpec at admitted
  rcases bind_eq_ok.mp admitted with ⟨_, within, _⟩
  exact (ensure_eq_ok.mp within).2

/-- The limit of a file is that of its schema. -/
theorem prefixText_limit {text header : List UInt8} {parts : List SentPart} {raw : String} {media : Bool}
    (known : PrefixText boundary spec text ready parts header raw media) : ready.limit ≤ spec.limit := by
  rw [known.limit]
  split
  · exact le_rfl
  · exact Nat.zero_le _

/-- An upload that succeeds was a whole form: the opening delimiter, the parts of the schema's values, the
header of the file, the file and the closing delimiter, to the last byte.  It left a durable object of
exactly its file. -/
theorem upload_received_sound (body : Body)
    (h : receive sha256 boundary spec key reserved body answers s = .ok (ready, after)) :
    ∃ (chunks : List (List UInt8)) (text file data : List UInt8), body = chunks.map Frame.data
      ∧ chunks.flatten = text ++ file ∧ FieldsOf spec.fields ready.values
      ∧ (∃ parts header raw media, PrefixText boundary spec text ready parts header raw media)
      ∧ FileBody boundary.fileEnd ready.limit file data ∧ (storeSystem sha256).Run s after
      ∧ after.removed = s.removed ∧ after.durable = s.durable ++ [⟨⟨key, data.length, sha256 data⟩, data⟩] := by
  unfold receive at h
  rcases bind_eq_ok.mp h with ⟨⟨ready', buffered, rest⟩, read, h⟩
  rcases bind_eq_ok.mp h with ⟨after', transferred, h⟩
  cases h
  have sound := PrefixDecoder.new_sound boundary spec
  rcases readPrefix_ok sound rfl read with ⟨front, d, consumed, split, decoded, left, sized⟩
  have values := (PrefixDecoder.readFrom_fields sound rfl decoded).2.1 ready rfl
  rcases (PrefixDecoder.readFrom_reads sound rfl (PrefixDecoder.hasRead_new boundary spec) decoded).2.2.2 ready rfl
    with ⟨inside, parts, header, raw, media, known⟩
  rw [List.nil_append] at inside known
  have known' : PrefixText boundary spec (front.flatten.take consumed) ready parts header raw media := known
  have limit := (prefixText_limit known').trans (spec_limit spec).2
  have bits : ready.limit < 2 ^ 64 := by
    unfold Blobs.maxUploadBytes at limit
    omega
  rcases transferFile_sound bits sized transferred with ⟨chunks, data, rest', file, run, removed, durable⟩
  rw [known'.boundary] at file
  refine ⟨front ++ chunks, front.flatten.take consumed, buffered ++ chunks.flatten, data, ?_, ?_, values,
    ⟨parts, header, raw, media, known'⟩, file, run, removed, durable⟩
  · rw [split, rest', List.map_append]
  · rw [List.flatten_append, left, ← List.append_assoc, List.take_append_drop]

/-- A form with a file of two bytes, cut inside the header of the file and behind its first byte. -/
def sampleBody : Body :=
  let form := encodeForm ⟨[98]⟩ PrefixDecoder.sampleValues "_file" "page.html" none
  [.data (form.take 400), .data (form.drop 400 ++ [60]), .data [],
    .data ([115] ++ Boundary.fileEnd ⟨[98]⟩ ++ closingSuffix)]

theorem upload_received_sound_sample : ∃ ready after, receive noDigest ⟨[98]⟩ PrefixDecoder.sampleSpec sampleKey 100
    sampleBody [] sampleStore = .ok (ready, after) ∧ (storeSystem noDigest).Run sampleStore after := by
  have received : (receive noDigest ⟨[98]⟩ PrefixDecoder.sampleSpec sampleKey 100 sampleBody [] sampleStore).isOk := by
    decide +kernel
  cases result : receive noDigest ⟨[98]⟩ PrefixDecoder.sampleSpec sampleKey 100 sampleBody [] sampleStore with
  | error e =>
      rw [result] at received
      cases received
  | ok pair =>
      rcases upload_received_sound sampleBody result with ⟨_, _, _, _, _, _, _, _, _, run, _⟩
      exact ⟨pair.1, pair.2, rfl, run⟩

/-- An encoded form with its file is received, in whatever frames it arrives and however the system cuts its
writes, while nothing fails and the key of the reservation is free. -/
theorem upload_received_complete {values : Values} {filename : String} {media : Option String} {data : List UInt8}
    {chunks : List (List UInt8)} (reachable : (storeSystem sha256).Reachable s) (valid : FieldsOf spec.fields values)
    (delimited : ∀ pair ∈ values, Delimited boundary (utf8Bytes pair.2)) (writable : WritableName filename)
    (hint : ∀ text, media = some text → WritableHint text) (chosen : filename ≠ "")
    (room : (encodeForm boundary values spec.file filename media).length ≤ prefixBytes)
    (file : FileBody boundary.fileEnd spec.limit (data ++ boundary.fileEnd ++ closingSuffix) data)
    (cut : chunks.flatten = encodeForm boundary values spec.file filename media
      ++ (data ++ boundary.fileEnd ++ closingSuffix))
    (sizes : ∀ chunk ∈ chunks, chunk.length ≤ transferBufferBytes)
    (within : spec.limit ≤ reserved ∧ reserved ≤ Blobs.maxUploadBytes)
    (free : s.disk.lookup .partials key.value = none ∧ s.disk.lookup .objects key.value = none ∧ key ∉ s.removed)
    (benign : ∀ list ∈ answers, Benign list) :
    ∃ ready after, receive sha256 boundary spec key reserved (chunks.map Frame.data) answers s = .ok (ready, after)
      ∧ PrefixDecoder.Finished ready values filename ∧ (storeSystem sha256).Run s after
      ∧ after.durable = s.durable ++ [⟨⟨key, data.length, sha256 data⟩, data⟩] := by
  have sound := PrefixDecoder.new_sound boundary spec
  rcases PrefixDecoder.readFrom_encoded valid delimited writable hint (.inl chosen) room
    (data ++ boundary.fileEnd ++ closingSuffix) with ⟨d, ready, decoded, finished⟩
  rw [← cut] at decoded
  rcases (PrefixDecoder.readFrom_reads sound rfl (PrefixDecoder.hasRead_new boundary spec) decoded).2.2.2 ready rfl
    with ⟨_, parts, header, raw, media', known⟩
  have known' : PrefixText boundary spec _ ready parts header raw media' := known
  rcases finished.normalized chosen with ⟨label, _, named⟩
  have limit : ready.limit = spec.limit := by
    rw [known'.limit, named]
    rfl
  rcases readPrefix_completes sound rfl sizes decoded with ⟨buffered, rest, read, left, sized, sizes'⟩
  rw [cut, List.drop_left] at left
  rw [← left, ← known'.boundary, ← limit] at file
  rcases transferFile_completes reachable ⟨(spec_limit spec).1.trans within.1, within.2⟩ (by rw [limit]; exact within.1)
    free.1 free.2.1 free.2.2 benign sized sizes' file with ⟨after, transferred⟩
  have bits : ready.limit < 2 ^ 64 := by
    have small := (spec_limit spec).2
    unfold Blobs.maxUploadBytes at small
    omega
  rcases transferFile_sound bits sized transferred with ⟨chunks', data', same, file', run, _, durable⟩
  have frames : rest = chunks' := by
    refine List.map_injective_iff.mpr ?_ same
    intro one other equal
    cases equal
    rfl
  rw [← frames] at file'
  have content := file'.unique file
  subst content
  refine ⟨ready, after, ?_, finished, run, durable⟩
  unfold receive
  rw [read, bind_ok]
  simp only
  rw [transferred, bind_ok]
  rfl

theorem sample_file : FileBody (Boundary.fileEnd ⟨[98]⟩) 100 ([60, 115] ++ Boundary.fileEnd ⟨[98]⟩ ++ closingSuffix)
    [60, 115] := by
  refine ⟨rfl, ⟨?_, ?_⟩, by decide⟩
  · unfold Matching.Occurs
    decide
  · unfold Matching.Occurs
    decide

theorem upload_received_complete_sample : ∃ ready after, receive noDigest ⟨[98]⟩ PrefixDecoder.sampleSpec sampleKey 100
    sampleBody [] sampleStore = .ok (ready, after)
    ∧ after.durable = [⟨⟨sampleKey, 2, noDigest [60, 115]⟩, [60, 115]⟩] := by
  have fresh : (storeSystem noDigest).Reachable sampleStore :=
    System.Reachable.start ⟨fun _ _ => rfl, rfl, rfl, rfl⟩
  have valid : FieldsOf PrefixDecoder.sampleSpec.fields PrefixDecoder.sampleValues :=
    .present (by decide) (.present (by decide) (.present (by decide)
      (.present (by decide) .nil)))
  have delimited : ∀ pair ∈ PrefixDecoder.sampleValues, Delimited ⟨[98]⟩ (utf8Bytes pair.2) := by
    intro pair member
    refine PrefixDecoder.delimited_of_absent (by decide) fun index occurs => ?_
    have bound := occurs.bound (fileEnd_ne_nil _)
    have none : ∀ pair ∈ PrefixDecoder.sampleValues, ∀ index < 8,
        ¬ Boundary.fileEnd ⟨[98]⟩ <+: (utf8Bytes pair.2).drop index := by decide
    have short : ∀ pair ∈ PrefixDecoder.sampleValues, (utf8Bytes pair.2).length < 8 := by decide
    have small := short pair member
    exact none pair member index (by omega) occurs
  have writable : WritableName "page.html" := ⟨by unfold Printable; decide, by decide⟩
  let form := encodeForm ⟨[98]⟩ PrefixDecoder.sampleValues "_file" "page.html" none
  have cut : [form.take 400, form.drop 400 ++ [60], [], [115] ++ Boundary.fileEnd ⟨[98]⟩ ++ closingSuffix].flatten
      = form ++ ([60, 115] ++ Boundary.fileEnd ⟨[98]⟩ ++ closingSuffix) := by decide +kernel
  have within : 100 ≤ 100 ∧ 100 ≤ Blobs.maxUploadBytes := by decide
  have free : sampleStore.disk.lookup .partials sampleKey.value = none
      ∧ sampleStore.disk.lookup .objects sampleKey.value = none ∧ sampleKey ∉ sampleStore.removed :=
    ⟨rfl, rfl, List.not_mem_nil⟩
  have hint : ∀ text, (none : Option String) = some text → WritableHint text := fun text absurd => by cases absurd
  have benign : ∀ list ∈ ([] : List (List WriteAnswer)), Benign list :=
    fun list member => (List.not_mem_nil member).elim
  rcases upload_received_complete fresh valid delimited writable hint (by decide) (by decide +kernel) sample_file cut
    (by decide +kernel) within free benign with ⟨ready, after, received, _, _, durable⟩
  exact ⟨ready, after, received, durable⟩

end Receive

/-! ## No file -/

section Empty

variable {σ : Type} {sink : List UInt8 → σ → Result σ} {state : σ} {delimiter text rest : List UInt8} {limit : Nat}
  {decoder : FileDecoder}

/-- A byte that releases nothing calls no sink. -/
theorem readByte_same {byte : UInt8} {decoder' : FileDecoder}
    (filled : Filled limit ⟨decoder, [], []⟩ []) (bits : limit < 2 ^ 64)
    (h : readByte collect ⟨decoder, [], []⟩ byte = .ok ⟨decoder', [], []⟩) :
    readByte sink ⟨decoder, [], state⟩ byte = .ok ⟨decoder', [], state⟩ := by
  unfold readByte at h ⊢
  cases phase : decoder.phase with
  | data =>
      simp only [phase] at h ⊢
      have kept := putAll_kept bits (decoder.matcher.byte byte).1 filled
      rcases bind_eq_ok.mp h with ⟨⟨decoder'', buffer, got⟩, put, same⟩
      rw [put] at kept
      cases same
      cases kept with
      | ok filled' _ _ =>
          have nothing : [] = [] ++ (decoder.matcher.byte byte).1 := filled'.held
          rw [List.nil_append] at nothing
          rw [← nothing] at put ⊢
          cases put
          rfl
  | closing cursor =>
      simp only [phase] at h ⊢
      rcases bind_eq_ok.mp h with ⟨_, found, same⟩
      rw [found]
      cases same
      rfl
  | done =>
      simp only [phase] at h
      cases h
  | poisoned =>
      simp only [phase] at h
      cases h

/-- On the way to an empty file nothing is released. -/
theorem readByte_silent (sink : List UInt8 → σ → Result σ) (state : σ) (byte : UInt8) (nonempty : delimiter ≠ [])
    (bits : limit < 2 ^ 64) (traced : Traced delimiter limit ⟨decoder, [], []⟩ [] text)
    (file : FileBody delimiter limit (text ++ [byte] ++ rest) []) :
    ∃ decoder', readByte sink ⟨decoder, [], state⟩ byte = .ok ⟨decoder', [], state⟩
      ∧ Traced delimiter limit ⟨decoder', [], []⟩ [] (text ++ [byte]) := by
  have follows := readByte_follows byte nonempty bits traced
  generalize result : readByte collect ⟨decoder, [], []⟩ byte = given at follows
  cases follows with
  | error refused => exact absurd file (refused.none _ _)
  | @ok p out traced' =>
      have none : out = [] := List.length_eq_zero_iff.mp (Nat.le_zero.mp (traced'.reads.out_le nonempty file))
      subst none
      rcases p with ⟨decoder', buffer, got⟩
      rcases List.append_eq_nil_iff.mp traced'.filled.held with ⟨empty, empty'⟩
      simp only at empty empty'
      subst empty
      subst empty'
      exact ⟨decoder', readByte_same traced.filled bits result, traced'⟩

theorem readAll_silent (input : List UInt8) (nonempty : delimiter ≠ []) (bits : limit < 2 ^ 64)
    (traced : Traced delimiter limit ⟨decoder, [], []⟩ [] text)
    (file : FileBody delimiter limit (text ++ input ++ rest) []) :
    ∃ decoder', readAll sink ⟨decoder, [], state⟩ input = .ok ⟨decoder', [], state⟩
      ∧ Traced delimiter limit ⟨decoder', [], []⟩ [] (text ++ input) := by
  induction input generalizing decoder text with
  | nil =>
      rw [List.append_nil]
      exact ⟨decoder, rfl, traced⟩
  | cons byte input ih =>
      have extended : text ++ byte :: input = text ++ [byte] ++ input := by
        rw [List.append_assoc, List.singleton_append]
      rw [extended] at file ⊢
      rw [List.append_assoc (text ++ [byte])] at file
      rcases readByte_silent sink state byte nonempty bits traced file with ⟨decoder', read, traced'⟩
      rw [← List.append_assoc] at file
      rcases ih traced' file with ⟨decoder'', read', traced''⟩
      refine ⟨decoder'', ?_, traced''⟩
      simp only [readAll]
      rw [read, bind_ok]
      exact read'

/-- A push on the way to an empty file calls no sink. -/
theorem pushBytes_silent (sink : List UInt8 → σ → Result σ) (state : σ) (input : List UInt8) (nonempty : delimiter ≠ [])
    (bits : limit < 2 ^ 64) (sized : input.length ≤ transferBufferBytes)
    (traced : Traced delimiter limit ⟨decoder, [], []⟩ [] text)
    (file : FileBody delimiter limit (text ++ input ++ rest) []) :
    ∃ decoder', pushBytes sink decoder state input = .ok (decoder', state)
      ∧ Traced delimiter limit ⟨decoder', [], []⟩ [] (text ++ input) := by
  have alive : decoder.phase ≠ .poisoned := by
    intro poisoned
    have reads := traced.reads
    simp only [poisoned] at reads
    cases reads
  rcases readAll_silent input nonempty bits traced file with ⟨decoder', read, traced'⟩
  refine ⟨decoder', ?_, traced'⟩
  rw [pushBytes_eq]
  unfold pushInner
  rw [check, ensure_pos sized, bind_ok, check, ensure_pos alive, bind_ok, read]
  rfl

theorem sendFrames_silent (sink : List UInt8 → σ → Result σ) (state : σ) (skips : Bool) (chunks : List (List UInt8))
    (nonempty : delimiter ≠ []) (bits : limit < 2 ^ 64) (sizes : ∀ chunk ∈ chunks, chunk.length ≤ transferBufferBytes)
    (traced : Traced delimiter limit ⟨decoder, [], []⟩ [] text)
    (file : FileBody delimiter limit (text ++ chunks.flatten) []) :
    ∃ decoder', sendFrames sink skips decoder state (chunks.map Frame.data) = .ok (decoder', state)
      ∧ Traced delimiter limit ⟨decoder', [], []⟩ [] (text ++ chunks.flatten) := by
  induction chunks generalizing decoder text with
  | nil =>
      rw [List.flatten_nil, List.append_nil]
      exact ⟨decoder, rfl, traced⟩
  | cons chunk chunks ih =>
      have small := sizes chunk List.mem_cons_self
      have others : ∀ chunk ∈ chunks, chunk.length ≤ transferBufferBytes :=
        fun c member => sizes c (List.mem_cons_of_mem _ member)
      rw [List.flatten_cons, ← List.append_assoc] at file ⊢
      rw [List.map_cons, sendFrames, bytes_data small]
      simp only [bind_ok]
      split
      · rename_i skipped
        rw [skipped.2, List.append_nil] at file ⊢
        exact ih others traced file
      · rcases pushBytes_silent sink state chunk nonempty bits small traced file
          with ⟨decoder', pushed, traced'⟩
        rcases ih others traced' file with ⟨decoder'', later, traced''⟩
        refine ⟨decoder'', ?_, traced''⟩
        rw [pushed, bind_ok]
        exact later

/-- What a sink that refuses everything holds. -/
def Nothing (_ : Unit) (got : List UInt8) : Prop := got = []

theorem refusing_keeps (refuse : List UInt8 → Unit → Result Unit) (limit : Nat)
    (refuses : ∀ bytes state, ∃ e, refuse bytes state = .error e) :
    Keeps refuse False limit Nothing := by
  refine ⟨?_, fun absurd => absurd.elim⟩
  intro bytes got state after _ taken
  rcases refuses bytes state with ⟨e, refused⟩
  rw [refused] at taken
  cases taken

/-- Where no upload is taken, a body passes exactly when its file is whole and empty, however it is cut. -/
theorem empty_file_expected (ready : ReadyPrefix) (buffered : List UInt8) (chunks : List (List UInt8)) (length : Nat)
    (bits : ready.limit < 2 ^ 64) (sized : buffered.length ≤ transferBufferBytes)
    (sizes : ∀ chunk ∈ chunks, chunk.length ≤ transferBufferBytes) :
    expectEmptyFile ready buffered (chunks.map Frame.data) = .ok length
      ↔ FileBody ready.boundary.fileEnd ready.limit (buffered ++ chunks.flatten) [] ∧ length = 0 := by
  have nonempty := fileEnd_ne_nil ready.boundary
  have traced : Traced ready.boundary.fileEnd ready.limit ⟨intoBody ready, [], []⟩ [] [] := traced_new _ _
  unfold expectEmptyFile
  simp only
  generalize same : (fun _ _ => .error (.message "unexpected upload bytes") : List UInt8 → Unit → Result Unit) = refuse
  have keeps : Keeps refuse False ready.limit Nothing :=
    refusing_keeps refuse ready.limit fun bytes state => ⟨_, by rw [← same]⟩
  constructor
  · intro h
    rcases bind_eq_ok.mp h with ⟨⟨decoder, state⟩, first, h⟩
    have nothing : Nothing () [] := rfl
    have tracks := pushBytes_tracks keeps le_rfl bits nonempty buffered nothing traced
    have sent := pushBytes_sent buffered nonempty bits sized traced
    rw [first] at tracks
    generalize pushBytes collect (intoBody ready) [] buffered = result at tracks sent
    cases tracks with
    | ok held =>
        cases held
        cases sent with
        | ok traced' =>
            rcases bind_eq_ok.mp h with ⟨⟨decoder', state'⟩, later, h⟩
            have tracks' := sendFrames_tracks keeps le_rfl bits nonempty false (chunks.map Frame.data) nothing traced'
            have sent' := sendFrames_sent false chunks nonempty bits sizes traced'
            rw [later] at tracks'
            generalize sendFrames collect false decoder [] (chunks.map Frame.data) = result' at tracks' sent'
            cases tracks' with
            | ok held' =>
                cases held'
                cases sent' with
                | ok traced'' =>
                    refine ⟨finish_sent traced'' h, ?_⟩
                    have counted : decoder'.accepted = 0 := traced''.filled.accepted
                    unfold FileDecoder.finish at h
                    rcases bind_eq_ok.mp h with ⟨_, _, h⟩
                    cases h
                    exact counted
  · rintro ⟨file, rfl⟩
    have opening : FileBody ready.boundary.fileEnd ready.limit ([] ++ buffered ++ chunks.flatten) [] := file
    rcases pushBytes_silent refuse () buffered nonempty bits sized traced opening
      with ⟨decoder, pushed, traced'⟩
    rcases sendFrames_silent refuse () false chunks nonempty bits sizes traced' file
      with ⟨decoder', sent, traced''⟩
    rw [pushed, bind_ok]
    simp only
    rw [sent, bind_ok]
    simp only
    rw [(finish_completes traced'' file).2]
    exact congrArg Except.ok traced''.filled.accepted

/-- An empty file cut inside its delimiter. -/
theorem empty_file_expected_sample :
    expectEmptyFile ⟨[], none, ⟨[98]⟩, 0⟩ [13, 10, 45, 45] [.data [98, 45], .data [], .data [45, 13, 10]] = .ok 0 := by
  have file : FileBody (Boundary.fileEnd ⟨[98]⟩) 0 ([13, 10, 45, 45] ++ [[98, 45], [], [45, 13, 10]].flatten) [] := by
    refine ⟨rfl, ⟨?_, fun index absurd => (Nat.not_lt_zero index absurd).elim⟩, le_rfl⟩
    unfold Matching.Occurs
    decide
  exact (empty_file_expected ⟨[], none, ⟨[98]⟩, 0⟩ [13, 10, 45, 45] [[98, 45], [], [45, 13, 10]] 0 (by decide)
    (by decide) (by decide)).mpr ⟨file, rfl⟩

end Empty

end Uploads
end Noxide
