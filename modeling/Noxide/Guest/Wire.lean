import Noxide.Library.LittleEndian
import Noxide.Protocol.Scalar

/-!
# Worker messages

The messages between the server and a guest worker.  Everything a worker sends is untrusted, so
decoding bounds every length and rejects whatever is malformed.

Main results:

- Theorem {lit}`FromWorker.decode_encode`: an encoded worker message decodes to itself.
- Theorem {lit}`ToWorker.decode_encode`: and so does a server message.
- Theorem {lit}`FromWorker.decode_fits`: what decodes has numbers of their widths and a bounded
  output.
-/

namespace Noxide.Guest

open Checked

abbrev Bytes := List UInt8

def maxIrBytes : Nat := 65536

def maxRequestBytes : Nat := 65536

def maxResultBytes : Nat := 65536

def maxBody : Nat := max (max maxIrBytes maxRequestBytes) maxResultBytes

/-- Tag plus the largest fixed fields of any message. -/
def maxFrame : Nat := maxBody + 32

/-! ## Messages -/

inductive ToWorker where
  | run (fuel calls wallMillis : Nat) (request : Bytes)
  /-- The answer to a storage call.  A refusal carries no reason. -/
  | reply (answer : Option Bytes)
  deriving DecidableEq

inductive Outcome where
  | output (bytes : Bytes)
  | deadline
  | failed
  deriving DecidableEq

inductive FromWorker where
  | invoke (operation target : Nat)
  | followSource (resource id : Nat)
  | follow (operation : Nat)
  | done (fuelLeft callsLeft : Nat) (outcome : Outcome)
  deriving DecidableEq

/-! ## Fields -/

/-- Take one number of the given width. -/
def takeNumber (width : Nat) (fields : Bytes) : Result (Nat × Bytes) := do
  check "truncated worker message" (width ≤ fields.length)
  return (LittleEndian.value (fields.take width), fields.drop width)

abbrev takeU32 (fields : Bytes) : Result (Nat × Bytes) := takeNumber 4 fields

abbrev takeU64 (fields : Bytes) : Result (Nat × Bytes) := takeNumber 8 fields

def endFields (fields : Bytes) : Result Unit :=
  check "trailing worker message bytes" (fields = [])

/-! ## Encoding -/

def ToWorker.encode : ToWorker → Result Bytes
  | .run fuel calls wallMillis request => do
      check "request limit" (request.length ≤ maxRequestBytes)
      return 1 :: (LittleEndian.bytes 8 fuel ++ LittleEndian.bytes 4 calls
        ++ LittleEndian.bytes 8 wallMillis ++ request)
  | .reply (some bytes) => do
      check "result limit" (bytes.length ≤ maxResultBytes)
      return 2 :: bytes
  | .reply none => .ok [3]

def ToWorker.decode : Bytes → Result ToWorker
  | [] => .error (.message "empty message")
  | 1 :: rest => do
      let (fuel, rest) ← takeU64 rest
      let (calls, rest) ← takeU32 rest
      let (wallMillis, rest) ← takeU64 rest
      return .run fuel calls wallMillis rest
  | 2 :: rest => .ok (.reply (some rest))
  | 3 :: rest => do
      endFields rest
      return .reply none
  | _ :: _ => .error (.message "unknown server message")

def Outcome.tag : Outcome → UInt8
  | .output _ => 4
  | .deadline => 5
  | .failed => 6

def FromWorker.encode : FromWorker → Result Bytes
  | .invoke operation target => .ok (1 :: (LittleEndian.bytes 4 operation ++ LittleEndian.bytes 8 target))
  | .followSource resource id => .ok (2 :: (LittleEndian.bytes 4 resource ++ LittleEndian.bytes 8 id))
  | .follow operation => .ok (3 :: LittleEndian.bytes 4 operation)
  | .done fuelLeft callsLeft outcome => do
      let fixed := outcome.tag :: (LittleEndian.bytes 8 fuelLeft ++ LittleEndian.bytes 4 callsLeft)
      match outcome with
      | .output bytes => do
          check "output limit" (bytes.length ≤ maxIrBytes)
          return fixed ++ bytes
      | _ => return fixed

/-- The two counters of a final frame and what follows them. -/
def takeCounters (fields : Bytes) : Result (Nat × Nat × Bytes) := do
  let (fuelLeft, fields) ← takeU64 fields
  let (callsLeft, fields) ← takeU32 fields
  return (fuelLeft, callsLeft, fields)

def FromWorker.decode : Bytes → Result FromWorker
  | [] => .error (.message "empty message")
  | 1 :: fields => do
      let (operation, fields) ← takeU32 fields
      let (target, fields) ← takeU64 fields
      endFields fields
      return .invoke operation target
  | 2 :: fields => do
      let (resource, fields) ← takeU32 fields
      let (id, fields) ← takeU64 fields
      endFields fields
      return .followSource resource id
  | 3 :: fields => do
      let (operation, fields) ← takeU32 fields
      endFields fields
      return .follow operation
  | 4 :: fields => do
      let (fuelLeft, callsLeft, fields) ← takeCounters fields
      check "output limit" (fields.length ≤ maxIrBytes)
      return .done fuelLeft callsLeft (.output fields)
  | 5 :: fields => do
      let (fuelLeft, callsLeft, fields) ← takeCounters fields
      endFields fields
      return .done fuelLeft callsLeft .deadline
  | 6 :: fields => do
      let (fuelLeft, callsLeft, fields) ← takeCounters fields
      endFields fields
      return .done fuelLeft callsLeft .failed
  | _ :: _ => .error (.message "unknown worker message")

/-! ## Round trips -/

/-- The numbers of a worker message have their widths. -/
def FromWorker.Fits : FromWorker → Prop
  | .invoke operation target => operation < 256 ^ 4 ∧ target < 256 ^ 8
  | .followSource resource id => resource < 256 ^ 4 ∧ id < 256 ^ 8
  | .follow operation => operation < 256 ^ 4
  | .done fuelLeft callsLeft _ => fuelLeft < 256 ^ 8 ∧ callsLeft < 256 ^ 4

def ToWorker.Fits : ToWorker → Prop
  | .run fuel calls wallMillis _ => fuel < 256 ^ 8 ∧ calls < 256 ^ 4 ∧ wallMillis < 256 ^ 8
  | .reply _ => True

/-- A number that fits is taken off the front of its encoding. -/
theorem takeNumber_bytes {width n : Nat} (fits : n < 256 ^ width) (rest : Bytes) :
    takeNumber width (LittleEndian.bytes width n ++ rest) = .ok (n, rest) := by
  have long : width ≤ (LittleEndian.bytes width n ++ rest).length := by
    rw [List.length_append, LittleEndian.length_bytes]
    omega
  have front : (LittleEndian.bytes width n ++ rest).take width = LittleEndian.bytes width n := by
    rw [List.take_append_of_le_length (by rw [LittleEndian.length_bytes])]
    exact List.take_of_length_le (by rw [LittleEndian.length_bytes])
  have back : (LittleEndian.bytes width n ++ rest).drop width = rest := by
    rw [List.drop_append_of_le_length (by rw [LittleEndian.length_bytes]),
      List.drop_of_length_le (by rw [LittleEndian.length_bytes]), List.nil_append]
  rw [takeNumber, check, ensure_pos long, bind_ok, front, back, LittleEndian.value_bytes fits]
  rfl

theorem takeCounters_bytes {fuelLeft callsLeft : Nat} (fuel : fuelLeft < 256 ^ 8)
    (calls : callsLeft < 256 ^ 4) (rest : Bytes) :
    takeCounters (LittleEndian.bytes 8 fuelLeft ++ LittleEndian.bytes 4 callsLeft ++ rest)
      = .ok (fuelLeft, callsLeft, rest) := by
  rw [takeCounters, List.append_assoc, takeU64, takeNumber_bytes fuel, bind_ok]
  simp only
  rw [takeU32, takeNumber_bytes calls, bind_ok]
  rfl

theorem FromWorker.decode_encode {message : FromWorker} {bytes : Bytes} (fits : message.Fits)
    (h : message.encode = .ok bytes) : FromWorker.decode bytes = .ok message := by
  cases message with
  | invoke operation target =>
      cases h
      have number := takeNumber_bytes fits.2 []
      rw [List.append_nil] at number
      simp only [FromWorker.decode, takeU32, takeU64, takeNumber_bytes fits.1, number, bind_ok, endFields,
        check, ensure_pos]
      rfl
  | followSource resource id =>
      cases h
      have number := takeNumber_bytes fits.2 []
      rw [List.append_nil] at number
      simp only [FromWorker.decode, takeU32, takeU64, takeNumber_bytes fits.1, number, bind_ok, endFields,
        check, ensure_pos]
      rfl
  | follow operation =>
      cases h
      have number := takeNumber_bytes fits []
      rw [List.append_nil] at number
      simp only [FromWorker.decode, takeU32, number, bind_ok, endFields, check, ensure_pos]
      rfl
  | done fuelLeft callsLeft outcome =>
      have counters := takeCounters_bytes fits.1 fits.2 []
      rw [List.append_nil] at counters
      cases outcome with
      | output output =>
          simp only [FromWorker.encode, check, bind_eq_ok, ensure_eq_ok] at h
          rcases h with ⟨_, short, result⟩
          cases result
          simp only [Outcome.tag, List.cons_append, FromWorker.decode, takeCounters_bytes fits.1 fits.2,
            bind_ok, check, ensure_pos short]
          rfl
      | deadline =>
          cases h
          simp only [Outcome.tag, FromWorker.decode, counters, bind_ok, endFields, check, ensure_pos]
          rfl
      | failed =>
          cases h
          simp only [Outcome.tag, FromWorker.decode, counters, bind_ok, endFields, check, ensure_pos]
          rfl

theorem ToWorker.decode_encode {message : ToWorker} {bytes : Bytes} (fits : message.Fits)
    (h : message.encode = .ok bytes) : ToWorker.decode bytes = .ok message := by
  cases message with
  | run fuel calls wallMillis request =>
      simp only [ToWorker.encode, check, bind_eq_ok, ensure_eq_ok] at h
      rcases h with ⟨_, _, result⟩
      cases result
      simp only [ToWorker.decode, takeU32, takeU64, List.append_assoc, takeNumber_bytes fits.1,
        takeNumber_bytes fits.2.1, takeNumber_bytes fits.2.2, bind_ok]
      rfl
  | reply answer =>
      cases answer with
      | none =>
          cases h
          rfl
      | some answer =>
          simp only [ToWorker.encode, check, bind_eq_ok, ensure_eq_ok] at h
          rcases h with ⟨_, _, result⟩
          cases result
          rfl

/-! ## What decodes -/

theorem takeNumber_fits {width n : Nat} {fields rest : Bytes}
    (h : takeNumber width fields = .ok (n, rest)) : n < 256 ^ width := by
  simp only [takeNumber, check, bind_eq_ok, ensure_eq_ok] at h
  rcases h with ⟨_, long, result⟩
  cases result
  have small := LittleEndian.value_lt (fields.take width)
  rwa [List.length_take, Nat.min_eq_left long] at small

theorem takeCounters_fits {fuelLeft callsLeft : Nat} {fields rest : Bytes}
    (h : takeCounters fields = .ok (fuelLeft, callsLeft, rest)) :
    fuelLeft < 256 ^ 8 ∧ callsLeft < 256 ^ 4 := by
  simp only [takeCounters, bind_eq_ok] at h
  rcases h with ⟨⟨_, _⟩, fuel, ⟨_, _⟩, calls, result⟩
  cases result
  exact ⟨takeNumber_fits fuel, takeNumber_fits calls⟩

/-- An output frame is bounded before it is taken. -/
def FromWorker.OutputFits : FromWorker → Prop
  | .done _ _ (.output bytes) => bytes.length ≤ maxIrBytes
  | _ => True

/-- Whatever decodes has numbers of their widths and a bounded output. -/
theorem FromWorker.decode_fits {bytes : Bytes} {message : FromWorker}
    (h : FromWorker.decode bytes = .ok message) : message.Fits ∧ message.OutputFits := by
  unfold FromWorker.decode at h
  split at h
  · cases h
  · simp only [bind_eq_ok] at h
    rcases h with ⟨⟨_, _⟩, first, ⟨_, _⟩, second, _, _, result⟩
    cases result
    exact ⟨⟨takeNumber_fits first, takeNumber_fits second⟩, trivial⟩
  · simp only [bind_eq_ok] at h
    rcases h with ⟨⟨_, _⟩, first, ⟨_, _⟩, second, _, _, result⟩
    cases result
    exact ⟨⟨takeNumber_fits first, takeNumber_fits second⟩, trivial⟩
  · simp only [bind_eq_ok] at h
    rcases h with ⟨⟨_, _⟩, first, _, _, result⟩
    cases result
    exact ⟨takeNumber_fits first, trivial⟩
  · simp only [check, bind_eq_ok, ensure_eq_ok] at h
    rcases h with ⟨⟨_, _, _⟩, counters, _, short, result⟩
    cases result
    exact ⟨takeCounters_fits counters, short⟩
  · simp only [bind_eq_ok] at h
    rcases h with ⟨⟨_, _, _⟩, counters, _, _, result⟩
    cases result
    exact ⟨takeCounters_fits counters, trivial⟩
  · simp only [bind_eq_ok] at h
    rcases h with ⟨⟨_, _, _⟩, counters, _, _, result⟩
    cases result
    exact ⟨takeCounters_fits counters, trivial⟩
  · cases h

end Noxide.Guest
