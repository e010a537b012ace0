import Noxide.Guest.Wire

/-!
# Frames on the worker socket

A message travels as one frame, its length before its body.  Both sides send their messages one
after the other on a stream of bytes.

Main results:

- Theorem {lit}`FromWorker.encode_decode`: what decodes has one encoding, the bytes that were
  received.
- Theorem {lit}`receiveAll_frames`: the frames of any messages are received in order.
- Theorem {lit}`wire_exact`: both for either direction.
-/

namespace Noxide.Guest.Wire

open Checked

/-! ## Sending and receiving -/

/-- The source's {lit}`send`, on what was written before. -/
def send (body written : Bytes) : Result Bytes := do
  check "message limit" (body.length ≤ maxFrame)
  return written ++ (LittleEndian.bytes 4 body.length ++ body)

/-- The source's {lit}`receive`: one body and the rest of the stream. -/
def receive (stream : Bytes) : Result (Bytes × Bytes) := do
  check "early eof" (4 ≤ stream.length)
  let length := LittleEndian.value (stream.take 4)
  -- the length is checked before anything is read for it
  check "message limit" (length ≤ maxFrame)
  let stream := stream.drop 4
  check "early eof" (length ≤ stream.length)
  return (stream.take length, stream.drop length)

section Streams

variable {Message : Type} (encode : Message → Result Bytes) (decode : Bytes → Result Message)

/-- Encode and send messages one after the other. -/
def sendAll : List Message → Bytes → Result Bytes
  | [], written => .ok written
  | message :: rest, written => do
      let body ← encode message
      let written ← send body written
      sendAll rest written

/-- Receive and decode a number of messages. -/
def receiveAll : Nat → Bytes → Result (List Message × Bytes)
  | 0, stream => .ok ([], stream)
  | count + 1, stream => do
      let (body, stream) ← receive stream
      let message ← decode body
      let (messages, stream) ← receiveAll count stream
      return (message :: messages, stream)

end Streams

/-! ## Frames -/

/-- Every body that fits the limit is received as it was sent. -/
theorem receive_frame {body : Bytes} (short : body.length ≤ maxFrame) (rest : Bytes) :
    receive (LittleEndian.bytes 4 body.length ++ body ++ rest) = .ok (body, rest) := by
  have fits : body.length < 256 ^ 4 := lt_of_le_of_lt short (by decide)
  have front : (LittleEndian.bytes 4 body.length ++ body ++ rest).take 4
      = LittleEndian.bytes 4 body.length := by
    rw [List.append_assoc, List.take_append_of_le_length (by rw [LittleEndian.length_bytes])]
    exact List.take_of_length_le (by rw [LittleEndian.length_bytes])
  have back : (LittleEndian.bytes 4 body.length ++ body ++ rest).drop 4 = body ++ rest := by
    rw [List.append_assoc, List.drop_append_of_le_length (by rw [LittleEndian.length_bytes]),
      List.drop_of_length_le (by rw [LittleEndian.length_bytes]), List.nil_append]
  have long : 4 ≤ (LittleEndian.bytes 4 body.length ++ body ++ rest).length := by
    rw [List.length_append, List.length_append, LittleEndian.length_bytes]
    omega
  have whole : body.length ≤ (body ++ rest).length := by
    rw [List.length_append]
    omega
  simp only [receive, front, back, LittleEndian.value_bytes fits, check, ensure_pos long,
    ensure_pos short, ensure_pos whole, bind_ok, List.take_left, List.drop_left]
  rfl

section Streams

variable {Message : Type} {encode : Message → Result Bytes} {decode : Bytes → Result Message}

/-- Messages whose bodies fit and decode are sent in frames that are received in order. -/
theorem receiveAll_frames {messages : List Message}
    (sound : ∀ message ∈ messages, ∃ body, encode message = .ok body ∧ body.length ≤ maxFrame
      ∧ decode body = .ok message) :
    ∃ frames, (∀ written, sendAll encode messages written = .ok (written ++ frames))
      ∧ ∀ rest, receiveAll decode messages.length (frames ++ rest) = .ok (messages, rest) := by
  induction messages with
  | nil => exact ⟨[], fun written => by rw [List.append_nil]; rfl, fun rest => rfl⟩
  | cons message rest ih =>
      rcases sound message List.mem_cons_self with ⟨body, encoded, short, decoded⟩
      rcases ih fun other member => sound other (List.mem_cons_of_mem _ member) with ⟨frames, sent, received⟩
      refine ⟨LittleEndian.bytes 4 body.length ++ body ++ frames, fun written => ?_, fun tail => ?_⟩
      · rw [sendAll, encoded, bind_ok, send, check, ensure_pos short, bind_ok, pure_bind, sent]
        simp only [List.append_assoc]
      · rw [List.length_cons, receiveAll, List.append_assoc, receive_frame short, bind_ok]
        simp only
        rw [decoded, bind_ok, received, bind_ok]
        rfl

end Streams

/-! ## Bodies -/

theorem FromWorker.encode_short {message : FromWorker} {body : Bytes} (h : message.encode = .ok body) :
    body.length ≤ maxFrame := by
  have limit : maxFrame = 65568 := rfl
  rw [limit]
  cases message with
  | invoke operation target =>
      cases h
      rw [List.length_cons, List.length_append, LittleEndian.length_bytes, LittleEndian.length_bytes]
      omega
  | followSource resource id =>
      cases h
      rw [List.length_cons, List.length_append, LittleEndian.length_bytes, LittleEndian.length_bytes]
      omega
  | follow operation =>
      cases h
      rw [List.length_cons, LittleEndian.length_bytes]
      omega
  | done fuelLeft callsLeft outcome =>
      have fixed : (outcome.tag :: (LittleEndian.bytes 8 fuelLeft
          ++ LittleEndian.bytes 4 callsLeft)).length = 13 := by
        rw [List.length_cons, List.length_append, LittleEndian.length_bytes, LittleEndian.length_bytes]
      cases outcome with
      | output bytes =>
          simp only [FromWorker.encode, check, bind_eq_ok, ensure_eq_ok] at h
          rcases h with ⟨_, short, result⟩
          cases result
          have bounded : bytes.length ≤ 65536 := short
          rw [List.length_append, fixed]
          omega
      | deadline =>
          cases h
          rw [fixed]
          omega
      | failed =>
          cases h
          rw [fixed]
          omega

theorem ToWorker.encode_short {message : ToWorker} {body : Bytes} (h : message.encode = .ok body) :
    body.length ≤ maxFrame := by
  have limit : maxFrame = 65568 := rfl
  rw [limit]
  cases message with
  | run fuel calls wallMillis request =>
      simp only [ToWorker.encode, check, bind_eq_ok, ensure_eq_ok] at h
      rcases h with ⟨_, short, result⟩
      cases result
      have bounded : request.length ≤ 65536 := short
      simp only [List.length_cons, List.length_append, LittleEndian.length_bytes]
      omega
  | reply answer =>
      cases answer with
      | none =>
          cases h
          decide
      | some answer =>
          simp only [ToWorker.encode, check, bind_eq_ok, ensure_eq_ok] at h
          rcases h with ⟨_, short, result⟩
          cases result
          have bounded : answer.length ≤ 65536 := short
          rw [List.length_cons]
          omega

/-! ## What was received -/

/-- A number that was taken stood at the front. -/
theorem takeNumber_ok {width : Nat} {fields : Bytes} {taken : Nat × Bytes}
    (h : takeNumber width fields = .ok taken) : fields = LittleEndian.bytes width taken.1 ++ taken.2 := by
  simp only [takeNumber, check, bind_eq_ok, ensure_eq_ok] at h
  rcases h with ⟨_, long, result⟩
  cases result
  have front := LittleEndian.bytes_value (fields.take width)
  rw [List.length_take, Nat.min_eq_left long] at front
  rw [front, List.take_append_drop]

theorem takeCounters_ok {fields : Bytes} {taken : Nat × Nat × Bytes} (h : takeCounters fields = .ok taken) :
    fields = LittleEndian.bytes 8 taken.1 ++ LittleEndian.bytes 4 taken.2.1 ++ taken.2.2 := by
  simp only [takeCounters, bind_eq_ok] at h
  rcases h with ⟨first, fuel, second, calls, result⟩
  cases result
  rw [takeNumber_ok fuel, takeNumber_ok calls, List.append_assoc]

theorem endFields_ok {fields : Bytes} {u : Unit} (h : endFields fields = .ok u) : fields = [] :=
  ensure_eq_ok.mp h

/-- An accepted body is the encoding of what it decodes to. -/
theorem FromWorker.encode_decode {bytes : Bytes} {message : FromWorker}
    (h : FromWorker.decode bytes = .ok message) : message.encode = .ok bytes := by
  unfold FromWorker.decode at h
  split at h
  · cases h
  · simp only [bind_eq_ok] at h
    rcases h with ⟨operation, first, target, second, _, done, result⟩
    cases result
    rw [takeNumber_ok first, takeNumber_ok second, endFields_ok done, List.append_nil]
    rfl
  · simp only [bind_eq_ok] at h
    rcases h with ⟨resource, first, id, second, _, done, result⟩
    cases result
    rw [takeNumber_ok first, takeNumber_ok second, endFields_ok done, List.append_nil]
    rfl
  · simp only [bind_eq_ok] at h
    rcases h with ⟨operation, first, _, done, result⟩
    cases result
    rw [takeNumber_ok first, endFields_ok done, List.append_nil]
    rfl
  · simp only [check, bind_eq_ok, ensure_eq_ok] at h
    rcases h with ⟨taken, counters, _, short, result⟩
    cases result
    rw [takeCounters_ok counters, FromWorker.encode, check, ensure_pos short]
    rfl
  · simp only [bind_eq_ok] at h
    rcases h with ⟨taken, counters, _, done, result⟩
    cases result
    rw [takeCounters_ok counters, endFields_ok done, List.append_nil]
    rfl
  · simp only [bind_eq_ok] at h
    rcases h with ⟨taken, counters, _, done, result⟩
    cases result
    rw [takeCounters_ok counters, endFields_ok done, List.append_nil]
    rfl
  · cases h

/-! ## The protocol -/

/-- A message whose numbers have their widths, with the body that its encoding accepts. -/
def Sendable {Message : Type} (fits : Message → Prop) (encode : Message → Result Bytes)
    (message : Message) : Prop :=
  fits message ∧ ∃ body, encode message = .ok body

/-- Every list of sendable messages is sent, and its frames are received in order. -/
def Delivers {Message : Type} (fits : Message → Prop) (encode : Message → Result Bytes)
    (decode : Bytes → Result Message) : Prop :=
  ∀ messages : List Message, (∀ message ∈ messages, Sendable fits encode message) →
    ∃ frames, (∀ written, sendAll encode messages written = .ok (written ++ frames))
      ∧ ∀ rest, receiveAll decode messages.length (frames ++ rest) = .ok (messages, rest)

/-- Both directions deliver every list of messages that encode, an accepted body of a worker is
the one encoding of what it means, and an accepted output is bounded. -/
theorem wire_exact : Delivers ToWorker.Fits ToWorker.encode ToWorker.decode
    ∧ Delivers FromWorker.Fits FromWorker.encode FromWorker.decode
    ∧ (∀ bytes message, FromWorker.decode bytes = .ok message →
      message.encode = .ok bytes ∧ message.OutputFits)
    ∧ ∀ bytes others message, FromWorker.decode bytes = .ok message →
      FromWorker.decode others = .ok message → bytes = others := by
  refine ⟨fun messages sendable => ?_, fun messages sendable => ?_, fun bytes message h => ?_,
    fun bytes others message h again => ?_⟩
  · refine receiveAll_frames fun message member => ?_
    rcases sendable message member with ⟨fits, body, encoded⟩
    exact ⟨body, encoded, ToWorker.encode_short encoded, ToWorker.decode_encode fits encoded⟩
  · refine receiveAll_frames fun message member => ?_
    rcases sendable message member with ⟨fits, body, encoded⟩
    exact ⟨body, encoded, FromWorker.encode_short encoded, FromWorker.decode_encode fits encoded⟩
  · exact ⟨FromWorker.encode_decode h, (FromWorker.decode_fits h).2⟩
  · have encoded := FromWorker.encode_decode h
    rw [FromWorker.encode_decode again] at encoded
    cases encoded
    rfl

/-- Two frames of a worker, followed by the first byte of a third. -/
theorem wire_exact_sample :
    receiveAll FromWorker.decode 2 ([5, 0, 0, 0, 3, 7, 0, 0, 0, 14, 0, 0, 0, 4]
        ++ [1, 0, 0, 0, 0, 0, 0, 0] ++ [2, 0, 0, 0] ++ [9] ++ [5])
      = .ok ([.follow 7, .done 1 2 (.output [9])], [5]) := by
  have sendable : ∀ message ∈ [FromWorker.follow 7, FromWorker.done 1 2 (.output [9])],
      Sendable FromWorker.Fits FromWorker.encode message := by
    intro message member
    rcases List.mem_pair.mp member with rfl | rfl
    · exact ⟨show 7 < 256 ^ 4 by decide, _, rfl⟩
    · exact ⟨⟨by decide, by decide⟩, _, rfl⟩
  rcases wire_exact.2.1 _ sendable with ⟨frames, sent, received⟩
  have written := sent []
  rw [List.nil_append] at written
  have known : sendAll FromWorker.encode [.follow 7, .done 1 2 (.output [9])] []
      = .ok ([5, 0, 0, 0, 3, 7, 0, 0, 0, 14, 0, 0, 0, 4]
        ++ [1, 0, 0, 0, 0, 0, 0, 0] ++ [2, 0, 0, 0] ++ [9]) := by decide
  rw [known] at written
  cases written
  exact received [5]

end Noxide.Guest.Wire
