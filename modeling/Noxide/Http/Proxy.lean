import Noxide.Authority.Credit
import Noxide.Http.Form
import Noxide.Library.Matching

/-!
# The PROXY header

A connection from the onion service starts with one line that names the circuit it came through.
The line arrives in any pieces, possibly with the first bytes of the request behind it.

Main results:

- Theorem {lit}`readProxyFrom_header`: however the bytes arrive, the loop finds what the whole
  stream holds.
- Theorem {lit}`Prefixed.reads_exact`: the bytes behind the line are handed on once and in order.
- Theorem {lit}`proxy_header_reads`: peer, later bytes and refusal depend on the stream alone.
-/

namespace Noxide.Proxy

open Checked Matching
open Form (utf8Bytes)
open Limiter (Peer)

/-! ## Addresses -/

/-- The value of a digit in a radix of at most sixteen. -/
def toDigit (radix : Nat) (byte : UInt8) : Option Nat :=
  (PercentEncoding.hexDigit byte).filter (· < radix)

def readGivenChar (char : UInt8) : List UInt8 → Option (List UInt8)
  | byte :: rest => if byte = char then some rest else none
  | [] => none

/-- The digits that an input starts with, and what follows them. -/
def digitRun (radix : Nat) : List UInt8 → List Nat × List UInt8
  | [] => ([], [])
  | byte :: rest =>
      match toDigit radix byte with
      | some digit => (digit :: (digitRun radix rest).1, (digitRun radix rest).2)
      | none => ([], byte :: rest)

/-- A number below {lit}`bound` of at most {lit}`maxDigits` digits. -/
def readNumber (radix maxDigits : Nat) (allowZeroPrefix : Bool) (bound : Nat) (input : List UInt8) :
    Option (Nat × List UInt8) :=
  let (digits, rest) := digitRun radix input
  if digits = [] ∨ maxDigits < digits.length then none
  else if allowZeroPrefix = false ∧ digits.head? = some 0 ∧ 1 < digits.length then none
  else
    let value := digits.foldl (fun value digit => value * radix + digit) 0
    if value < bound then some (value, rest) else none

/-- Every part but the first stands behind a separator. -/
def readSeparator {α : Type} (separator : UInt8) (index : Nat)
    (inner : List UInt8 → Option (α × List UInt8)) (input : List UInt8) : Option (α × List UInt8) := do
  let input ← if 0 < index then readGivenChar separator input else some input
  inner input

def readOctet (index : Nat) : List UInt8 → Option (Nat × List UInt8) :=
  readSeparator 46 index (readNumber 10 3 false 256)

/-- An embedded IPv4 address, as two groups. -/
def readIpv4Addr (input : List UInt8) : Option ((Nat × Nat) × List UInt8) := do
  let (one, input) ← readOctet 0 input
  let (two, input) ← readOctet 1 input
  let (three, input) ← readOctet 2 input
  let (four, input) ← readOctet 3 input
  return ((one * 256 + two, three * 256 + four), input)

/-- Groups between colons, at most {lit}`left` of them; whether an IPv4 address ended them; and
what follows. -/
def readGroups (index : Nat) : Nat → List UInt8 → List Nat × Bool × List UInt8
  | 0, input => ([], false, input)
  | left + 1, input =>
      -- an IPv4 address takes the place of two groups
      match (if 0 < left then readSeparator 58 index readIpv4Addr input else none) with
      | some ((high, low), rest) => ([high, low], true, rest)
      | none =>
          match readSeparator 58 index (readNumber 16 4 true 65536) input with
          | some (group, rest) =>
              let (groups, ipv4, rest) := readGroups (index + 1) left rest
              (group :: groups, ipv4, rest)
          | none => ([], false, input)

def readIpv6Addr (input : List UInt8) : Option (List Nat × List UInt8) :=
  let (head, ipv4, rest) := readGroups 0 8 input
  if head.length = 8 then some (head, rest)
  -- no IPv4 address stands before the two colons
  else if ipv4 = true then none
  else do
    let rest ← readGivenChar 58 rest
    let rest ← readGivenChar 58 rest
    let (tail, _, rest) := readGroups 0 (8 - (head.length + 1)) rest
    return (head ++ List.replicate (8 - head.length - tail.length) 0 ++ tail, rest)

/-- The 128 bits that an IPv6 address spells. -/
def parseIpv6Addr (text : List UInt8) : Option Nat :=
  match readIpv6Addr text with
  | some (groups, []) => some (groups.foldl (fun value group => value * 65536 + group) 0)
  | _ => none

example : parseIpv6Addr (utf8Bytes "fc00:dead:beef:4dad::ffff:ffff")
    = some (0xfc00deadbeef4dad * 2 ^ 64 + 0xffffffff) := by decide

example : parseIpv6Addr (utf8Bytes "::1.2.3.4") = some 0x01020304
    ∧ parseIpv6Addr (utf8Bytes "1::2::3") = none ∧ parseIpv6Addr (utf8Bytes "1:2:3:4:5:6:7:8:") = none
    ∧ parseIpv6Addr (utf8Bytes "::1.2.3.04") = none ∧ parseIpv6Addr (utf8Bytes "1.2.3.4::") = none := by
  decide

/-! ## The line -/

def proxyLineMax : Nat := 107

def crlf : List UInt8 := [13, 10]

/-- The source's {lit}`strip_suffix` of the line end. -/
def stripCrlf (line : List UInt8) : Option (List UInt8) :=
  if crlf <:+ line then some (line.take (line.length - crlf.length)) else none

/-- The prefix of the addresses that the onion service makes of its circuits. -/
def torSourcePrefix : Nat := 0xfc00deadbeef4dad

def decimalValue (port : List UInt8) : Nat :=
  port.foldl (fun value byte => value * 10 + (byte.toNat - 48)) 0

def isDigit (byte : UInt8) : Bool := decide (48 ≤ byte) && decide (byte ≤ 57)

def isAscii (byte : UInt8) : Bool := decide (byte < 128)

def checkPort (port : List UInt8) : Except String Unit := do
  ensure "invalid PROXY port" ((1 ≤ port.length ∧ port.length ≤ 5) ∧ port.all isDigit = true)
  ensure "number too large to fit in target type" (decimalValue port < 65536)

def parseProxyLine (line : List UInt8) : Except String Peer := do
  ensure "invalid PROXY line" (line.length ≤ proxyLineMax ∧ line.all isAscii = true)
  let line ← context "PROXY line missing CRLF" (stripCrlf line)
  match line.splitOn 32 with
  | [proxy, family, source, destination, sourcePort, destinationPort] => do
      ensure "invalid PROXY line" (proxy = utf8Bytes "PROXY" ∧ family = utf8Bytes "TCP6")
      let source ← context "invalid IPv6 address syntax" (parseIpv6Addr source)
      let _ ← context "invalid IPv6 address syntax" (parseIpv6Addr destination)
      ensure "invalid Tor source prefix" (source / 2 ^ 64 = torSourcePrefix)
      [sourcePort, destinationPort].forM checkPort
      return .circuit (UInt32.ofNat source)
  | _ => .error "invalid PROXY line"

/-- The peer that a line names. -/
structure Names (line : List UInt8) (peer : Peer) (source destination sourcePort destinationPort : List UInt8)
    (address : Nat) : Prop where
  spelled : line = utf8Bytes "PROXY TCP6 " ++ source ++ 32 :: destination ++ 32 :: sourcePort
    ++ 32 :: destinationPort ++ crlf
  ascii : line.all isAscii = true
  parsed : parseIpv6Addr source = some address
  circuit : address / 2 ^ 64 = torSourcePrefix ∧ peer = .circuit (UInt32.ofNat address)
  target : (parseIpv6Addr destination).isSome = true
  ports : checkPort sourcePort = .ok () ∧ checkPort destinationPort = .ok ()

theorem stripCrlf_eq_some {line body : List UInt8} (h : stripCrlf line = some body) : line = body ++ crlf := by
  unfold stripCrlf at h
  split at h
  · rename_i ends
    rcases ends with ⟨before, rfl⟩
    rw [List.length_append, Nat.add_sub_cancel, List.take_left] at h
    rw [Option.some.inj h]
  · cases h

theorem parseProxyLine_names {line : List UInt8} {peer : Peer} (h : parseProxyLine line = .ok peer) :
    line.length ≤ proxyLineMax
      ∧ ∃ source destination sourcePort destinationPort address,
        Names line peer source destination sourcePort destinationPort address := by
  unfold parseProxyLine at h
  rcases bind_eq_ok.mp h with ⟨_, shape, h⟩
  rcases ensure_eq_ok.mp shape with ⟨short, ascii⟩
  rcases bind_eq_ok.mp h with ⟨body, stripped, h⟩
  have spelled := stripCrlf_eq_some (context_eq_ok.mp stripped)
  refine ⟨short, ?_⟩
  split at h
  · rename_i proxy family source destination sourcePort destinationPort tokens
    rcases bind_eq_ok.mp h with ⟨_, labels, parsing⟩
    rcases ensure_eq_ok.mp labels with ⟨rfl, rfl⟩
    rcases bind_eq_ok.mp parsing with ⟨address, parsed, targeting⟩
    rcases bind_eq_ok.mp targeting with ⟨_, target, checking⟩
    rcases bind_eq_ok.mp checking with ⟨_, tor, porting⟩
    rcases bind_eq_ok.mp porting with ⟨_, ports, result⟩
    have valid := forM_eq_ok.mp ports
    cases result
    refine ⟨source, destination, sourcePort, destinationPort, address, ?_, ascii, context_eq_ok.mp parsed,
      ⟨ensure_eq_ok.mp tor, rfl⟩, by rw [context_eq_ok.mp target]; rfl,
      valid sourcePort (by simp), valid destinationPort (by simp)⟩
    have joined : [32].intercalate (body.splitOn 32) = body := List.intercalate_splitOn 32
    rw [tokens] at joined
    have label : utf8Bytes "PROXY TCP6 " = utf8Bytes "PROXY" ++ 32 :: (utf8Bytes "TCP6" ++ [32]) := by
      decide
    rw [spelled, ← joined, label]
    simp [List.intercalate]
  · cases h


/-! ## The socket -/

/-- A read of at most {lit}`capacity` bytes from the pieces in which a stream arrives. -/
def takePiece (capacity : Nat) : List (List UInt8) → List UInt8 × List (List UInt8)
  | [] => ([], [])
  | piece :: more =>
      (piece.take capacity, if capacity < piece.length then piece.drop capacity :: more else more)

theorem takePiece_nonempty {capacity : Nat} {pieces : List (List UInt8)} (h : ∀ piece ∈ pieces, piece ≠ []) :
    ∀ piece ∈ (takePiece capacity pieces).2, piece ≠ [] := by
  cases pieces with
  | nil => exact h
  | cons first more =>
      have later := fun piece member => h piece (List.mem_cons_of_mem first member)
      intro piece member
      rw [takePiece] at member
      split at member
      · rcases List.mem_cons.mp member with rfl | member
        · rw [ne_eq, List.drop_eq_nil_iff]
          omega
        · exact later piece member
      · exact later piece member

theorem takePiece_flatten (capacity : Nat) (pieces : List (List UInt8)) :
    (takePiece capacity pieces).1 ++ (takePiece capacity pieces).2.flatten = pieces.flatten := by
  cases pieces with
  | nil => rfl
  | cons piece more =>
      rw [takePiece]
      split
      · rw [List.flatten_cons, List.flatten_cons, ← List.append_assoc, List.take_append_drop]
      · rw [List.flatten_cons, List.take_of_length_le (by omega)]

theorem takePiece_eq_nil {capacity : Nat} {pieces : List (List UInt8)} (pos : 0 < capacity)
    (h : ∀ piece ∈ pieces, piece ≠ []) : (takePiece capacity pieces).1 = [] ↔ pieces.flatten = [] := by
  cases pieces with
  | nil => exact Iff.rfl
  | cons piece more =>
      have some := h piece List.mem_cons_self
      simp only [takePiece, List.take_eq_nil_iff, List.flatten_cons, List.append_eq_nil_iff, some, or_false,
        false_and, iff_false]
      omega

/-- What a socket will still hand over. -/
structure Socket where
  pieces : List (List UInt8)
  nonempty : ∀ piece ∈ pieces, piece ≠ []
  deriving DecidableEq

namespace Socket

def bytes (s : Socket) : List UInt8 := s.pieces.flatten

/-- One read: no bytes mean the end of the stream, or no capacity. -/
def read (s : Socket) (capacity : Nat) : List UInt8 × Socket :=
  ((takePiece capacity s.pieces).1,
    { pieces := (takePiece capacity s.pieces).2, nonempty := takePiece_nonempty s.nonempty })

/-- A read takes bytes off the front of the stream. -/
theorem read_bytes (s : Socket) (capacity : Nat) :
    (s.read capacity).1 ++ (s.read capacity).2.bytes = s.bytes :=
  takePiece_flatten capacity s.pieces

/-- A read with capacity returns nothing at the end of the stream alone. -/
theorem read_eq_nil {s : Socket} {capacity : Nat} (pos : 0 < capacity) :
    (s.read capacity).1 = [] ↔ s.bytes = [] :=
  takePiece_eq_nil pos s.nonempty

end Socket

/-! ## Reading the line -/

/-- A connection whose first bytes were read ahead. -/
structure Prefixed where
  prefixBytes : List UInt8
  offset : Nat
  inner : Socket
  deriving DecidableEq

/-- The position of the first line end. -/
def crlfPosition : List UInt8 → Option Nat
  | first :: second :: rest =>
      if first = 13 ∧ second = 10 then some 0 else (· + 1) <$> crlfPosition (second :: rest)
  | _ => none

def readBufferBytes : Nat := 4096

def readProxyFrom (bytes : List UInt8) (stream : Socket) : Except String (Prefixed × Peer) :=
  if _ended : (stream.read readBufferBytes).1 = [] then .error "incomplete PROXY line"
  else
    let read := bytes ++ (stream.read readBufferBytes).1
    match crlfPosition read with
    | some start => do
        let peer ← parseProxyLine (read.take (start + 2))
        return ({ prefixBytes := read.drop (start + 2), offset := 0, inner := (stream.read readBufferBytes).2 }, peer)
    | none =>
        if read.length < proxyLineMax then readProxyFrom read (stream.read readBufferBytes).2
        else .error "PROXY line too long"
termination_by stream.bytes.length
decreasing_by
  rw [← stream.read_bytes readBufferBytes, List.length_append]
  have := List.length_pos_iff.mpr _ended
  omega

def readProxy (stream : Socket) : Except String (Prefixed × Peer) := readProxyFrom [] stream

namespace Prefixed

/-- One read of the connection: of the bytes read ahead as long as there are any. -/
def pollRead (p : Prefixed) (remaining : Nat) : List UInt8 × Prefixed :=
  if p.offset < p.prefixBytes.length then
    let n := min remaining (p.prefixBytes.length - p.offset)
    ((p.prefixBytes.drop p.offset).take n, { p with offset := p.offset + n })
  else
    ((p.inner.read remaining).1, { p with inner := (p.inner.read remaining).2 })

/-- The bytes that the connection has not yet handed on. -/
def remaining (p : Prefixed) : List UInt8 := p.prefixBytes.drop p.offset ++ p.inner.bytes

/-- What reads of some capacities hand on, one after the other. -/
def reads (p : Prefixed) : List Nat → List UInt8 × Prefixed
  | [] => ([], p)
  | capacity :: capacities =>
      let more := (p.pollRead capacity).2.reads capacities
      ((p.pollRead capacity).1 ++ more.1, more.2)

theorem pollRead_remaining (p : Prefixed) (capacity : Nat) :
    (p.pollRead capacity).1 ++ (p.pollRead capacity).2.remaining = p.remaining := by
  unfold pollRead remaining
  split
  · simp only [← List.drop_drop, ← List.append_assoc, List.take_append_drop]
  · rename_i read
    simp only
    rw [List.drop_eq_nil_of_le (by omega), List.nil_append, List.nil_append, p.inner.read_bytes]

/-- A read with capacity hands on a byte as long as there is one. -/
theorem pollRead_progress {p : Prefixed} {capacity : Nat} (pos : 0 < capacity) (more : p.remaining ≠ []) :
    (p.pollRead capacity).1 ≠ [] := by
  unfold pollRead
  split
  · rename_i ahead
    rw [ne_eq, List.take_eq_nil_iff, List.drop_eq_nil_iff]
    omega
  · rename_i read
    intro nothing
    have ended := (Socket.read_eq_nil pos).mp nothing
    refine more ?_
    rw [remaining, List.drop_eq_nil_of_le (by omega), ended, List.append_nil]

/-- Nothing is lost, repeated or reordered. -/
theorem reads_exact (p : Prefixed) (capacities : List Nat) :
    (p.reads capacities).1 ++ (p.reads capacities).2.remaining = p.remaining := by
  induction capacities generalizing p with
  | nil => rfl
  | cons capacity capacities ih =>
      rw [reads, List.append_assoc, ih, p.pollRead_remaining]

/-- As many reads as there are bytes hand on all of them. -/
theorem reads_all {p : Prefixed} {capacities : List Nat} (pos : ∀ capacity ∈ capacities, 0 < capacity)
    (enough : p.remaining.length ≤ capacities.length) : (p.reads capacities).1 = p.remaining := by
  induction capacities generalizing p with
  | nil =>
      rw [reads]
      exact (List.length_eq_zero_iff.mp (Nat.le_zero.mp enough)).symm
  | cons capacity capacities ih =>
      have parts := congrArg List.length (p.pollRead_remaining capacity)
      rw [List.length_append] at parts
      have rest : (p.pollRead capacity).2.remaining.length ≤ capacities.length := by
        rw [List.length_cons] at enough
        by_cases ended : p.remaining = []
        · rw [ended, List.length_nil] at parts
          omega
        · have some := List.length_pos_iff.mpr (pollRead_progress (pos capacity List.mem_cons_self) ended)
          omega
      rw [reads, ih (fun c member => pos c (List.mem_cons_of_mem _ member)) rest, p.pollRead_remaining]

end Prefixed

/-! ## What the stream holds -/

theorem crlfPosition_eq_some {text : List UInt8} {start : Nat} :
    crlfPosition text = some start ↔ FirstOccurrence crlf text start := by
  induction text using crlfPosition.induct generalizing start with
  | case1 first second rest ends =>
      rcases ends with ⟨rfl, rfl⟩
      have here : FirstOccurrence crlf (13 :: 10 :: rest) 0 :=
        ⟨⟨rest, rfl⟩, fun index before => absurd before (Nat.not_lt_zero index)⟩
      rw [crlfPosition, if_pos ⟨rfl, rfl⟩, Option.some_inj]
      constructor
      · rintro rfl
        exact here
      · exact here.unique
  | case2 first second rest open_ ih =>
      have notHere : ¬ Occurs crlf (first :: second :: rest) 0 := by
        rintro ⟨more, spelled⟩
        rw [List.drop_zero] at spelled
        simp only [crlf, List.cons_append, List.nil_append, List.cons.injEq] at spelled
        exact open_ ⟨spelled.1.symm, spelled.2.1.symm⟩
      rw [crlfPosition, if_neg open_, Option.map_eq_map, Option.map_eq_some_iff]
      constructor
      · rintro ⟨later, found, rfl⟩
        have first := ih.mp found
        refine ⟨first.occurs, fun index before => ?_⟩
        cases index with
        | zero => exact notHere
        | succ index => exact first.first index (by omega)
      · intro found
        cases start with
        | zero => exact absurd found.occurs notHere
        | succ start =>
            exact ⟨start, ih.mpr ⟨found.occurs, fun index before => found.first (index + 1) (by omega)⟩, rfl⟩
  | case3 text short =>
      have none : crlfPosition text = none := by
        unfold crlfPosition
        split
        · exact absurd rfl (short _ _ _)
        · rfl
      rw [none]
      constructor
      · intro absurd
        cases absurd
      · intro found
        have bound := found.occurs.bound (by decide)
        have length : crlf.length = 2 := rfl
        match text with
        | [] => cases bound
        | [_] => rw [length, List.length_singleton] at bound; omega
        | first :: second :: rest => exact absurd rfl (short first second rest)

theorem crlfPosition_append {text more : List UInt8} {start : Nat} (h : crlfPosition text = some start) :
    crlfPosition (text ++ more) = some start ∧ start + 2 ≤ text.length := by
  have first := crlfPosition_eq_some.mp h
  exact ⟨crlfPosition_eq_some.mpr (first.append (by decide) more), first.occurs.bound (by decide)⟩

/-- A line end that the first part of a text does not hold ends behind it. -/
theorem crlfPosition_behind {text more : List UInt8} {start : Nat} (none : crlfPosition text = none)
    (h : crlfPosition (text ++ more) = some start) : text.length < start + 2 := by
  by_contra inside
  have first := crlfPosition_eq_some.mp h
  have length : crlf.length = 2 := rfl
  have here : FirstOccurrence crlf text start := by
    refine ⟨(occurs_append (by omega)).mp first.occurs, fun index before occurs => ?_⟩
    exact first.first index before ((occurs_append (by omega)).mpr occurs)
  rw [crlfPosition_eq_some.mpr here] at none
  cases none

/-- What a stream says of its peer, and the bytes behind that. -/
def proxyHeader (whole : List UInt8) : Except String (List UInt8 × Peer) :=
  match crlfPosition whole with
  | some start =>
      if start + 2 ≤ proxyLineMax then
        (fun peer => (whole.drop (start + 2), peer)) <$> parseProxyLine (whole.take (start + 2))
      else .error "PROXY line too long"
  | none =>
      .error (if whole.length < proxyLineMax then "incomplete PROXY line" else "PROXY line too long")

/-- The bytes that a connection will hand on, and its peer. -/
def observed (result : Except String (Prefixed × Peer)) : Except String (List UInt8 × Peer) :=
  (fun connection => (connection.1.remaining, connection.2)) <$> result

/-- The first line does not fit. -/
def Overlong (whole : List UInt8) : Prop :=
  ∃ start, FirstOccurrence crlf whole start ∧ proxyLineMax < start + 2

theorem readProxyFrom_eq (bytes : List UInt8) (stream : Socket) :
    readProxyFrom bytes stream =
      if (stream.read readBufferBytes).1 = [] then .error "incomplete PROXY line"
      else
        match crlfPosition (bytes ++ (stream.read readBufferBytes).1) with
        | some start => do
            let peer ← parseProxyLine ((bytes ++ (stream.read readBufferBytes).1).take (start + 2))
            return ({ prefixBytes := (bytes ++ (stream.read readBufferBytes).1).drop (start + 2), offset := 0,
                      inner := (stream.read readBufferBytes).2 }, peer)
        | none =>
            if (bytes ++ (stream.read readBufferBytes).1).length < proxyLineMax then
              readProxyFrom (bytes ++ (stream.read readBufferBytes).1) (stream.read readBufferBytes).2
            else .error "PROXY line too long" := by
  rw [readProxyFrom]
  split <;> rfl

/-- A line end is found in what was read exactly where it is in the stream. -/
theorem found_header {read : List UInt8} {rest : Socket} {start : Nat} (found : crlfPosition read = some start) :
    let result : Except String (Prefixed × Peer) := do
      let peer ← parseProxyLine (read.take (start + 2))
      return ({ prefixBytes := read.drop (start + 2), offset := 0, inner := rest }, peer)
    observed result = proxyHeader (read ++ rest.bytes)
      ∨ Overlong (read ++ rest.bytes) ∧ result = .error "invalid PROXY line" := by
  intro result
  rcases crlfPosition_append found with ⟨whole, inside⟩
  have sameLine : (read ++ rest.bytes).take (start + 2) = read.take (start + 2) :=
    List.take_append_of_le_length inside
  by_cases fits : start + 2 ≤ proxyLineMax
  · left
    unfold proxyHeader
    rw [whole]
    simp only [if_pos fits, sameLine, result]
    cases parseProxyLine (read.take (start + 2)) with
    | error e => rfl
    | ok peer =>
        have later : (read ++ rest.bytes).drop (start + 2) = read.drop (start + 2) ++ rest.bytes :=
          List.drop_append_of_le_length inside
        rw [later]
        rfl
  · right
    refine ⟨⟨start, crlfPosition_eq_some.mp whole, by omega⟩, ?_⟩
    have long : parseProxyLine (read.take (start + 2)) = .error "invalid PROXY line" := by
      unfold parseProxyLine
      rw [ensure_neg]
      · rfl
      · rw [List.length_take_of_le inside]
        omega
    simp only [result, long]
    rfl

/-- A line that does not end in what fits is too long, as far as the stream can tell. -/
theorem unread_header {read more : List UInt8} (unread : crlfPosition read = none)
    (full : ¬ read.length < proxyLineMax) : proxyHeader (read ++ more) = .error "PROXY line too long" := by
  unfold proxyHeader
  cases whole : crlfPosition (read ++ more) with
  | none =>
      simp only
      rw [if_neg (by rw [List.length_append]; omega)]
  | some start =>
      have behind := crlfPosition_behind unread whole
      simp only
      rw [if_neg (by omega)]

/-- However the bytes arrive, the loop finds what the whole stream holds. -/
theorem readProxyFrom_header (bytes : List UInt8) (stream : Socket) (unread : crlfPosition bytes = none)
    (short : bytes.length < proxyLineMax) :
    observed (readProxyFrom bytes stream) = proxyHeader (bytes ++ stream.bytes)
      ∨ Overlong (bytes ++ stream.bytes) ∧ readProxyFrom bytes stream = .error "invalid PROXY line" := by
  induction bytes, stream using readProxyFrom.induct with
  | case1 bytes stream ended =>
      have nothing := (Socket.read_eq_nil (by decide)).mp ended
      left
      rw [readProxyFrom_eq, if_pos ended, nothing, List.append_nil]
      unfold proxyHeader
      rw [unread]
      simp only [if_pos short]
      rfl
  | case2 bytes stream more read start found =>
      have split : bytes ++ stream.bytes = read ++ (stream.read readBufferBytes).2.bytes := by
        rw [List.append_assoc, stream.read_bytes]
      rw [readProxyFrom_eq, if_neg more, found, split]
      exact found_header found
  | case3 bytes stream more read none fits ih =>
      have split : bytes ++ stream.bytes = read ++ (stream.read readBufferBytes).2.bytes := by
        rw [List.append_assoc, stream.read_bytes]
      have goesOn : readProxyFrom bytes stream = readProxyFrom read (stream.read readBufferBytes).2 := by
        rw [readProxyFrom_eq, if_neg more, none]
        exact if_pos fits
      rw [goesOn, split]
      exact ih none fits
  | case4 bytes stream more read none full =>
      have split : bytes ++ stream.bytes = read ++ (stream.read readBufferBytes).2.bytes := by
        rw [List.append_assoc, stream.read_bytes]
      have stops : readProxyFrom bytes stream = .error "PROXY line too long" := by
        rw [readProxyFrom_eq, if_neg more, none]
        exact if_neg full
      left
      rw [stops, split, unread_header none full]
      rfl

/-- The bytes of a stream up to and with its first line end, and the bytes behind it. -/
structure FirstLine (whole line rest : List UInt8) : Prop where
  split : whole = line ++ rest
  ends : ∃ body, line = body ++ crlf ∧ FirstOccurrence crlf whole body.length

/-- A connection hands on some bytes: every read sequence takes them off the front, and enough
reads hand on all of them. -/
structure HandsOn (connection : Prefixed) (rest : List UInt8) : Prop where
  inOrder : ∀ capacities, (connection.reads capacities).1 ++ (connection.reads capacities).2.remaining = rest
  all : ∀ capacities, (∀ capacity ∈ capacities, 0 < capacity) → rest.length ≤ capacities.length →
    (connection.reads capacities).1 = rest

theorem handsOn_remaining (connection : Prefixed) : HandsOn connection connection.remaining :=
  ⟨connection.reads_exact, fun _ => Prefixed.reads_all⟩

theorem firstLine_of_occurrence {whole : List UInt8} {start : Nat} (h : FirstOccurrence crlf whole start) :
    FirstLine whole (whole.take (start + 2)) (whole.drop (start + 2)) := by
  have bound : start + 2 ≤ whole.length := h.occurs.bound (by decide)
  have length : (whole.take start).length = start := List.length_take_of_le (by omega)
  refine ⟨(List.take_append_drop _ _).symm, whole.take start, ?_, by rw [length]; exact h⟩
  rcases h.occurs with ⟨more, spelled⟩
  rw [List.take_add, ← spelled]
  rfl

theorem FirstLine.length {whole line rest : List UInt8} (h : FirstLine whole line rest) :
    ∃ start, FirstOccurrence crlf whole start ∧ line.length = start + 2 := by
  rcases h.ends with ⟨body, rfl, first⟩
  exact ⟨body.length, first, List.length_append⟩

theorem readProxy_header (stream : Socket) :
    observed (readProxy stream) = proxyHeader stream.bytes
      ∨ Overlong stream.bytes ∧ readProxy stream = .error "invalid PROXY line" :=
  readProxyFrom_header [] stream rfl (by decide)

/-- A header is read off the first line alone. -/
theorem proxyHeader_ok {whole rest : List UInt8} {peer : Peer} : proxyHeader whole = .ok (rest, peer) ↔
    ∃ line, FirstLine whole line rest ∧ line.length ≤ proxyLineMax ∧ parseProxyLine line = .ok peer := by
  unfold proxyHeader
  constructor
  · intro h
    split at h
    · rename_i start found
      split at h
      · rcases map_eq_ok.mp h with ⟨_, parsed, same⟩
        cases same
        have line := firstLine_of_occurrence (crlfPosition_eq_some.mp found)
        refine ⟨_, line, ?_, parsed⟩
        rw [List.length_take]
        omega
      · cases h
    · cases h
  · rintro ⟨line, first, short, parsed⟩
    rcases first.length with ⟨start, occurrence, length⟩
    rw [crlfPosition_eq_some.mpr occurrence]
    simp only
    rw [if_pos (by omega), ← length, first.split, List.take_left, List.drop_left, parsed]
    rfl

theorem overlong_header {whole : List UInt8} (h : Overlong whole) :
    proxyHeader whole = .error "PROXY line too long" := by
  rcases h with ⟨start, first, long⟩
  unfold proxyHeader
  rw [crlfPosition_eq_some.mpr first]
  simp only
  rw [if_neg (by omega)]

/-- A first line that does not fit is refused, with one of two texts. -/
theorem readProxy_overlong {stream : Socket} (long : Overlong stream.bytes) :
    readProxy stream = .error "PROXY line too long" ∨ readProxy stream = .error "invalid PROXY line" := by
  rcases readProxy_header stream with same | ⟨_, refused⟩
  · rw [overlong_header long] at same
    left
    cases result : readProxy stream with
    | error e =>
        rw [result] at same
        cases same
        rfl
    | ok connection =>
        rw [result] at same
        cases same
  · exact .inr refused

theorem readProxy_ok {stream : Socket} {rest : List UInt8} {peer : Peer} :
    observed (readProxy stream) = .ok (rest, peer) ↔ proxyHeader stream.bytes = .ok (rest, peer) := by
  rcases readProxy_header stream with same | ⟨long, refused⟩
  · rw [same]
  · rw [refused, overlong_header long]
    constructor
    · intro absurd
      cases absurd
    · intro absurd
      cases absurd

/-! ## The reader -/

/-- Whatever the pieces in which a stream arrives, reading it comes to the same, but for the text
that refuses a first line that does not fit.  On success the peer is the one that the first line
names and the bytes behind that line are handed on. -/
theorem proxy_header_reads (stream : Socket) :
    (∀ other : Socket, other.bytes = stream.bytes →
      observed (readProxy other) = observed (readProxy stream)
      ∨ Overlong stream.bytes ∧ ∀ result ∈ [readProxy other, readProxy stream],
        result = .error "PROXY line too long" ∨ result = .error "invalid PROXY line")
    ∧ (∀ connection peer, readProxy stream = .ok (connection, peer) →
      ∃ line rest, FirstLine stream.bytes line rest ∧ line.length ≤ proxyLineMax
        ∧ (∃ source destination sourcePort destinationPort address,
          Names line peer source destination sourcePort destinationPort address)
        ∧ HandsOn connection rest)
    ∧ ∀ line rest peer, FirstLine stream.bytes line rest → line.length ≤ proxyLineMax →
      parseProxyLine line = .ok peer → ∃ connection, readProxy stream = .ok (connection, peer) := by
  refine ⟨?_, ?_, ?_⟩
  · intro other same
    rcases readProxy_header other with there | ⟨long, _⟩
    · rcases readProxy_header stream with here | ⟨long, _⟩
      · rw [there, here, same]
        exact .inl rfl
      · refine .inr ⟨long, ?_⟩
        have longThere : Overlong other.bytes := by rw [same]; exact long
        simp only [List.forall_mem_cons]
        exact ⟨readProxy_overlong longThere, readProxy_overlong long, List.forall_mem_nil _⟩
    · have longHere : Overlong stream.bytes := by rw [← same]; exact long
      refine .inr ⟨longHere, ?_⟩
      simp only [List.forall_mem_cons]
      exact ⟨readProxy_overlong long, readProxy_overlong longHere, List.forall_mem_nil _⟩
  · intro connection peer accepted
    have seen : observed (readProxy stream) = .ok (connection.remaining, peer) := by
      rw [accepted]
      rfl
    rcases proxyHeader_ok.mp (readProxy_ok.mp seen) with ⟨line, first, short, parsed⟩
    exact ⟨line, _, first, short, (parseProxyLine_names parsed).2, handsOn_remaining connection⟩
  · intro line rest peer first short parsed
    have seen := readProxy_ok.mpr (proxyHeader_ok.mpr ⟨line, first, short, parsed⟩)
    rcases map_eq_ok.mp seen with ⟨⟨connection, _⟩, accepted, same⟩
    cases same
    exact ⟨connection, accepted⟩

/-- A stream that arrives in single bytes. -/
def Socket.trickle (bytes : List UInt8) : Socket where
  pieces := bytes.map ([·])
  nonempty := by
    intro piece member
    rcases List.mem_map.mp member with ⟨byte, _, rfl⟩
    exact List.cons_ne_nil _ _

/-- A stream that arrives at once. -/
def Socket.atOnce (first : UInt8) (bytes : List UInt8) : Socket where
  pieces := [first :: bytes]
  nonempty := by
    intro piece member
    rw [List.mem_singleton.mp member]
    exact List.cons_ne_nil _ _

def sampleLine : List UInt8 := utf8Bytes "PROXY TCP6 fc00:dead:beef:4dad::ffff:ffff ::1 65535 42\r\n"

/-- A line and the request behind it, in one piece or byte for byte. -/
theorem proxy_header_reads_sample :
    ∃ connection, readProxy (Socket.trickle (sampleLine ++ [71, 69, 84])) = .ok (connection, .circuit 0xffffffff) := by
  refine (proxy_header_reads _).2.2 sampleLine [71, 69, 84] _ ⟨?_, sampleLine.take (sampleLine.length - 2), ?_, ?_⟩ ?_ ?_
  · decide
  · decide
  · rw [← crlfPosition_eq_some]
    decide
  · decide
  · decide

/-- The text of a refusal does depend on the pieces: a line that is too long is an invalid line
when it arrives at once. -/
theorem proxy_refusal_pieces : ∃ stream other : Socket, other.bytes = stream.bytes
    ∧ readProxy stream = .error "invalid PROXY line" ∧ readProxy other = .error "PROXY line too long" := by
  let long : List UInt8 := List.replicate 107 120 ++ crlf
  refine ⟨Socket.atOnce 120 long, Socket.trickle (120 :: long), by decide, ?_, ?_⟩
  · decide +kernel
  · decide +kernel

end Noxide.Proxy
