import Noxide.Blobs.Rows
import Noxide.Http.Form
import Noxide.Library.Matching

/-!
# Part headers

The headers of one part of a native form: a content disposition with quoted attributes, and for
a file a media hint.

Main results:

- Theorem {lit}`parseHeaders_scalar`: a scalar part's header is read back as the name of its field.
- Theorem {lit}`parseHeaders_file`: a file part's header is read back as the name of its field and
  of the file.
- Theorem {lit}`fileHeader_ends`: a written header holds no blank line.
-/

namespace Noxide.Multipart

open Checked
open Form (utf8Bytes fromUTF8_bytes)

/-! ## Bytes -/

def asciiLower (byte : UInt8) : UInt8 := if 65 ≤ byte ∧ byte ≤ 90 then byte + 32 else byte

/-- Equal up to the case of ASCII letters. -/
def eqIgnoreCase (bytes : List UInt8) (text : String) : Bool :=
  bytes.map asciiLower == (utf8Bytes text).map asciiLower

def isAlpha (byte : UInt8) : Bool :=
  (decide (65 ≤ byte) && decide (byte ≤ 90)) || (decide (97 ≤ byte) && decide (byte ≤ 122))

def isDigit (byte : UInt8) : Bool := decide (48 ≤ byte) && decide (byte ≤ 57)

/-- A byte that no header line and no attribute may hold. -/
def isControl (byte : UInt8) : Bool := decide (byte < 32) || byte == 127

/-- A byte of a part's name. -/
def isNameByte (byte : UInt8) : Bool := isAlpha byte || isDigit byte || byte == 95 || byte == 45

/-- The name of a form field. -/
def partName (value : String) : Bool :=
  decide (value ≠ "") && decide (value.utf8ByteSize ≤ 64) && (utf8Bytes value).all isNameByte

/-- A text without the spaces around it. -/
def trimSpaces (bytes : List UInt8) : List UInt8 :=
  ((bytes.dropWhile (· == 32)).reverse.dropWhile (· == 32)).reverse

/-- The lines of a text, with the bytes of the first line so far. -/
def splitLines (line : List UInt8) : List UInt8 → List (List UInt8)
  | 13 :: 10 :: rest => line :: splitLines [] rest
  | byte :: rest => splitLines (line ++ [byte]) rest
  | [] => [line]

/-! ## Attributes -/

/-- One byte of a quoted value. -/
def pushQuoted (out : List UInt8) (byte : UInt8) : Result (List UInt8) := do
  check "multipart attribute limit" (32 ≤ byte ∧ byte ≠ 127 ∧ out.length < 255)
  return out ++ [byte]

/-- A quoted value, with its bytes so far, and what follows the closing quote. -/
def quoted (out : List UInt8) : List UInt8 → Result (List UInt8 × List UInt8)
  | [] => .error (.message "unclosed multipart attribute")
  | byte :: rest =>
      if byte = 34 then .ok (out, rest)
      else if byte = 92 then
        match rest with
        | [] => .error (.message "truncated multipart quoted escape")
        | escaped :: rest => do
            check "unknown multipart quoted escape" (escaped = 92 ∨ escaped = 34)
            let out ← pushQuoted out escaped
            quoted out rest
      else do
        let out ← pushQuoted out byte
        quoted out rest

/-- An attribute's name and its quoted value, and what follows. -/
def partAttribute (input : List UInt8) : Result (List UInt8 × String × List UInt8) := do
  let input := input.dropWhile (· == 32)
  check "invalid multipart attribute" (61 ∈ input)
  let name := input.takeWhile (· != 61)
  let _ ← need "invalid utf-8 sequence" (String.fromUTF8? name.toByteArray)
  check "invalid multipart attribute name" (name.all isAlpha = true)
  let input := (input.dropWhile (· != 61)).drop 1
  check "multipart attribute must be quoted" (input.head? = some 34)
  let (out, input) ← quoted [] (input.drop 1)
  let value ← need "invalid multipart attribute encoding" (String.fromUTF8? out.toByteArray)
  return (name, value, input)

/-- What may follow the field's name: the name of a file. -/
def filenameAttribute : List UInt8 → Result (Option String)
  | [] => .ok none
  | byte :: rest => do
      check "invalid multipart disposition suffix" (byte = 59)
      let (name, value, rest) ← partAttribute rest
      check "unknown multipart disposition attribute"
        (name = utf8Bytes "filename" ∧ value.utf8ByteSize ≤ 255 ∧ rest = [])
      return some value

def dispositionValue (value : List UInt8) : Result (String × Option String) := do
  check "missing multipart name" (59 ∈ value)
  check "invalid multipart disposition" (eqIgnoreCase (value.takeWhile (· != 59)) "form-data" = true)
  let (name, field, rest) ← partAttribute ((value.dropWhile (· != 59)).drop 1)
  check "invalid multipart field name" (name = utf8Bytes "name" ∧ partName field = true)
  let filename ← filenameAttribute rest
  return (field, filename)

/-! ## Header lines -/

structure PartHeaders where
  name : String
  filename : Option String
  contentType : Bool
  deriving DecidableEq, Repr

/-- A byte of a media hint. -/
def isHintByte (byte : UInt8) : Bool := decide (32 ≤ byte) && decide (byte ≤ 126)

/-- One header line, after the disposition and the media hint so far. -/
def headerLine (state : Option (String × Option String) × Bool) (line : List UInt8) :
    Result (Option (String × Option String) × Bool) := do
  check "invalid multipart header line" (line ≠ [] ∧ line.any isControl = false)
  check "invalid multipart header" (58 ∈ line)
  let name := line.takeWhile (· != 58)
  let value := trimSpaces ((line.dropWhile (· != 58)).drop 1)
  if eqIgnoreCase name "content-disposition" = true then do
    check "duplicate multipart disposition" (state.1 = none)
    let disposition ← dispositionValue value
    return (some disposition, state.2)
  else if eqIgnoreCase name "content-type" = true then do
    check "invalid multipart media hint"
      (state.2 = false ∧ value ≠ [] ∧ value.length ≤ 128 ∧ value.all isHintByte = true)
    return (state.1, true)
  else .error (.message "unknown multipart header")

def parseHeaders (bytes : List UInt8) : Result PartHeaders := do
  let _ ← need "invalid multipart header encoding" (String.fromUTF8? bytes.toByteArray)
  let (disposition, contentType) ← (splitLines [] bytes).foldlM headerLine (none, false)
  let (name, filename) ← need "missing multipart disposition" disposition
  check "scalar multipart media hint denied" (filename.isSome = true ∨ contentType = false)
  return ⟨name, filename, contentType⟩

/-! ## Written headers -/

def quoteChar (c : Char) : List Char := if c = '"' ∨ c = '\\' then ['\\', c] else [c]

/-- The text between the quotes of an attribute. -/
def quoteText (text : String) : String := String.ofList (text.toList.flatMap quoteChar)

/-- The header of a scalar part. -/
def scalarHeader (name : String) : String :=
  "Content-Disposition: form-data; name=\"" ++ name ++ "\""

/-- The second line of a file part's header. -/
def mediaLine : Option String → String
  | none => ""
  | some media => "\r\nContent-Type: " ++ media

/-- The header of a file part. -/
def fileHeader (name filename : String) (media : Option String) : String :=
  scalarHeader name ++ "; filename=\"" ++ quoteText filename ++ "\"" ++ mediaLine media

/-- A character that a header can hold. -/
def Printable (c : Char) : Prop := 32 ≤ c.toNat ∧ c.toNat ≠ 127

/-- A file name that an attribute can hold. -/
structure WritableName (filename : String) : Prop where
  chars : ∀ c ∈ filename.toList, Printable c
  bound : filename.utf8ByteSize ≤ 255

/-- A media hint of visible characters and spaces, with none around it. -/
structure WritableHint (media : String) : Prop where
  bytes : (utf8Bytes media).all isHintByte = true
  bound : media.utf8ByteSize ≤ 128
  head : ∃ byte, (utf8Bytes media).head? = some byte ∧ byte ≠ 32
  last : ∃ byte, (utf8Bytes media).getLast? = some byte ∧ byte ≠ 32

/-- The blank line after a part's header. -/
def headerEnd : List UInt8 := [13, 10, 13, 10]

/-- A header's text up to its blank line. -/
def Ends (header : List UInt8) : Prop :=
  Matching.FirstOccurrence headerEnd (header ++ headerEnd) header.length

/-! ## The bytes of a text -/

theorem utf8Bytes_append (left right : String) :
    utf8Bytes (left ++ right) = utf8Bytes left ++ utf8Bytes right := by
  simp only [utf8Bytes, String.toByteArray_append, ByteArray.data_append, Array.toList_append]

theorem utf8Bytes_chars (text : String) :
    utf8Bytes text = text.toList.flatMap String.utf8EncodeChar := by
  have encoded : text.toByteArray = text.toList.utf8Encode := by
    rw [← String.toByteArray_ofList, String.ofList_toList]
  rw [utf8Bytes, encoded, List.utf8Encode]
  exact List.toList_data_toByteArray

/-- A character is one ASCII byte, or none of its bytes is ASCII. -/
theorem utf8EncodeChar_bytes (c : Char) :
    (c.toNat < 128 ∧ String.utf8EncodeChar c = [UInt8.ofNat c.toNat])
      ∨ ∀ byte ∈ String.utf8EncodeChar c, 128 ≤ byte.toNat := by
  by_cases small : c.val.toNat ≤ 0x7f
  · left
    refine ⟨Nat.lt_succ_of_le small, ?_⟩
    simp only [String.utf8EncodeChar, if_pos small, Char.toNat]
  · right
    have bound : c.val.toNat < 0x110000 := by
      have valid : c.val.toNat.isValidChar := c.valid
      unfold Nat.isValidChar at valid
      omega
    intro byte member
    unfold String.utf8EncodeChar at member
    simp only [if_neg small] at member
    -- two, three or four bytes, each with its high bit set
    split at member
    · simp only [List.mem_cons, List.not_mem_nil, or_false] at member
      rcases member with rfl | rfl <;> (simp; omega)
    · split at member
      · simp only [List.mem_cons, List.not_mem_nil, or_false] at member
        rcases member with rfl | rfl | rfl <;> (simp; omega)
      · simp only [List.mem_cons, List.not_mem_nil, or_false] at member
        rcases member with rfl | rfl | rfl | rfl <;> (simp; omega)

theorem not_isControl {byte : UInt8} (low : 32 ≤ byte.toNat) (delete : byte.toNat ≠ 127) :
    isControl byte = false := by
  have small : ¬ byte < 32 := fun lt => absurd (UInt8.lt_iff_toNat_lt.mp lt) (by simpa using low)
  have other : byte ≠ 127 := by
    rintro rfl
    exact delete rfl
  simp only [isControl, small, decide_false, Bool.false_or, beq_eq_false_iff_ne]
  exact other

/-- The bytes of a printable character are no control bytes. -/
theorem encode_printable {c : Char} (h : Printable c) :
    ∀ byte ∈ String.utf8EncodeChar c, isControl byte = false := by
  intro byte member
  rcases utf8EncodeChar_bytes c with ⟨ascii, single⟩ | wide
  · rw [single, List.mem_singleton] at member
    have same : byte.toNat = c.toNat := by
      rw [member, UInt8.toNat_ofNat']
      exact Nat.mod_eq_of_lt (by omega)
    exact not_isControl (same ▸ h.1) (same ▸ h.2)
  · have high := wide byte member
    exact not_isControl (by omega) (by omega)

theorem utf8Bytes_printable {text : String} (h : ∀ c ∈ text.toList, Printable c) :
    (utf8Bytes text).any isControl = false := by
  rw [List.any_eq_false]
  intro byte member
  rw [utf8Bytes_chars] at member
  rcases List.mem_flatMap.mp member with ⟨c, inside, encoded⟩
  rw [encode_printable (h c inside) byte encoded]
  exact Bool.false_ne_true

/-! ## Quoted values -/

theorem quoted_byte {byte : UInt8} (quote : byte ≠ 34) (slash : byte ≠ 92) (out rest : List UInt8) :
    quoted out (byte :: rest) = (do
      let out ← pushQuoted out byte
      quoted out rest) := by
  cases rest with
  | nil => exact (if_neg quote).trans (if_neg slash)
  | cons next rest => exact (if_neg quote).trans (if_neg slash)

theorem quoted_close (out rest : List UInt8) : quoted out (34 :: rest) = .ok (out, rest) := by
  cases rest with
  | nil => exact if_pos rfl
  | cons next rest => exact if_pos rfl

/-- Bytes that need no escape are read as they are. -/
theorem quoted_plain {bytes : List UInt8} (out rest : List UInt8)
    (plain : ∀ byte ∈ bytes, isControl byte = false ∧ byte ≠ 34 ∧ byte ≠ 92)
    (room : out.length + bytes.length ≤ 255) : quoted out (bytes ++ rest) = quoted (out ++ bytes) rest := by
  induction bytes generalizing out with
  | nil => rw [List.nil_append, List.append_nil]
  | cons byte bytes ih =>
      rcases plain byte List.mem_cons_self with ⟨visible, quote, slash⟩
      rw [List.length_cons] at room
      simp only [isControl, Bool.or_eq_false_iff, decide_eq_false_iff_not, beq_eq_false_iff_ne] at visible
      have held : pushQuoted out byte = .ok (out ++ [byte]) := by
        rw [pushQuoted, check, ensure_pos ⟨UInt8.not_lt.mp visible.1, visible.2, by omega⟩]
        rfl
      rw [List.cons_append, quoted_byte quote slash, held, bind_ok,
        ih _ (fun b member => plain b (List.mem_cons_of_mem _ member)) (by
          rw [List.length_append, List.length_singleton]
          omega), List.append_assoc]
      rfl

/-- An escaped byte is read as itself. -/
theorem quoted_escape {byte : UInt8} (special : byte = 92 ∨ byte = 34) (out rest : List UInt8)
    (room : out.length < 255) : quoted out (92 :: byte :: rest) = quoted (out ++ [byte]) rest := by
  have held : pushQuoted out byte = .ok (out ++ [byte]) := by
    rw [pushQuoted, check, ensure_pos]
    · rfl
    · rcases special with rfl | rfl
      · exact ⟨by decide, by decide, room⟩
      · exact ⟨by decide, by decide, room⟩
  have escape : quoted out (92 :: byte :: rest) = (do
      check "unknown multipart quoted escape" (byte = 92 ∨ byte = 34)
      let out ← pushQuoted out byte
      quoted out rest) := by
    simp only [quoted]
    rw [if_neg (by decide), if_pos trivial]
  rw [escape, check, ensure_pos special, bind_ok, held, bind_ok]

/-- One character of a file name, as it stands between the quotes, is read as its bytes. -/
theorem quoted_char {c : Char} (printable : Printable c) (out rest : List UInt8)
    (room : out.length + (String.utf8EncodeChar c).length ≤ 255) :
    quoted out ((quoteChar c).flatMap String.utf8EncodeChar ++ rest)
      = quoted (out ++ String.utf8EncodeChar c) rest := by
  have pos : 0 < (String.utf8EncodeChar c).length := by
    rw [String.length_utf8EncodeChar]
    exact Char.utf8Size_pos c
  by_cases special : c = '"' ∨ c = '\\'
  · rw [quoteChar, if_pos special]
    rcases special with rfl | rfl
    · exact quoted_escape (Or.inr rfl) out rest (by omega)
    · exact quoted_escape (Or.inl rfl) out rest (by omega)
  · rw [quoteChar, if_neg special, List.flatMap_singleton]
    refine quoted_plain out rest (fun byte member => ⟨encode_printable printable byte member, ?_⟩) room
    rcases utf8EncodeChar_bytes c with ⟨ascii, single⟩ | wide
    · rw [single, List.mem_singleton] at member
      have same : byte.toNat = c.toNat := by
        rw [member, UInt8.toNat_ofNat']
        exact Nat.mod_eq_of_lt (by omega)
      refine ⟨fun quote => special (Or.inl ?_), fun slash => special (Or.inr ?_)⟩
      · rw [quote] at same
        exact Char.toNat_inj.mp same.symm
      · rw [slash] at same
        exact Char.toNat_inj.mp same.symm
    · have high := wide byte member
      refine ⟨fun quote => ?_, fun slash => ?_⟩
      · rw [quote] at high
        exact absurd high (by decide)
      · rw [slash] at high
        exact absurd high (by decide)

theorem quoted_chars {chars : List Char} (printable : ∀ c ∈ chars, Printable c) (out rest : List UInt8)
    (room : out.length + (chars.flatMap String.utf8EncodeChar).length ≤ 255) :
    quoted out ((chars.flatMap quoteChar).flatMap String.utf8EncodeChar ++ rest)
      = quoted (out ++ chars.flatMap String.utf8EncodeChar) rest := by
  induction chars generalizing out with
  | nil => simp only [List.flatMap_nil, List.nil_append, List.append_nil]
  | cons c chars ih =>
      rw [List.flatMap_cons, List.length_append] at room
      rw [List.flatMap_cons, List.flatMap_append, List.append_assoc,
        quoted_char (printable c List.mem_cons_self) out _ (by omega),
        ih (fun d member => printable d (List.mem_cons_of_mem _ member)) _ (by
          rw [List.length_append]
          omega), List.flatMap_cons, List.append_assoc]

/-- A quoted text is read back up to its closing quote. -/
theorem quoted_text {text : String} (printable : ∀ c ∈ text.toList, Printable c)
    (bound : text.utf8ByteSize ≤ 255) (rest : List UInt8) :
    quoted [] (utf8Bytes (quoteText text) ++ 34 :: rest) = .ok (utf8Bytes text, rest) := by
  have room : ([] : List UInt8).length + (text.toList.flatMap String.utf8EncodeChar).length ≤ 255 := by
    rw [List.length_nil, Nat.zero_add, ← utf8Bytes_chars]
    exact bound
  rw [utf8Bytes_chars (quoteText text), quoteText, String.toList_ofList, quoted_chars printable _ _ room,
    List.nil_append, ← utf8Bytes_chars, quoted_close]

/-! ## Attributes of a written header -/

theorem takeWhile_until {byte : UInt8} {before : List UInt8} (rest : List UInt8) (h : byte ∉ before) :
    (before ++ byte :: rest).takeWhile (· != byte) = before := by
  rw [List.takeWhile_append_of_pos, List.takeWhile_cons, if_neg, List.append_nil]
  · rw [bne_self_eq_false]
    exact Bool.false_ne_true
  · intro other member
    rw [bne_iff_ne]
    rintro rfl
    exact h member

theorem dropWhile_until {byte : UInt8} {before : List UInt8} (rest : List UInt8) (h : byte ∉ before) :
    ((before ++ byte :: rest).dropWhile (· != byte)).drop 1 = rest := by
  rw [List.dropWhile_append_of_pos, List.dropWhile_cons, if_neg, List.drop_succ_cons, List.drop_zero]
  · rw [bne_self_eq_false]
    exact Bool.false_ne_true
  · intro other member
    rw [bne_iff_ne]
    rintro rfl
    exact h member

/-- A letter is neither a space nor an equals sign. -/
theorem isAlpha_plain {byte : UInt8} (h : isAlpha byte = true) : byte ≠ 32 ∧ byte ≠ 61 := by
  constructor
  · rintro rfl
    exact absurd h (by decide)
  · rintro rfl
    exact absurd h (by decide)

theorem isNameByte_plain {byte : UInt8} (h : isNameByte byte = true) :
    32 ≤ byte.toNat ∧ byte.toNat < 127 ∧ byte ≠ 34 ∧ byte ≠ 92 := by
  have number : byte.toNat = 95 ∨ byte.toNat = 45 ∨ (65 ≤ byte.toNat ∧ byte.toNat ≤ 90)
      ∨ (97 ≤ byte.toNat ∧ byte.toNat ≤ 122) ∨ (48 ≤ byte.toNat ∧ byte.toNat ≤ 57) := by
    simp only [isNameByte, isAlpha, isDigit, Bool.or_eq_true, Bool.and_eq_true, decide_eq_true_eq, beq_iff_eq,
      UInt8.le_iff_toNat_le] at h
    rcases h with ((h | h) | rfl) | rfl
    · rcases h with h | h
      · exact .inr (.inr (.inl h))
      · exact .inr (.inr (.inr (.inl h)))
    · exact .inr (.inr (.inr (.inr h)))
    · exact .inl rfl
    · exact .inr (.inl rfl)
  refine ⟨by omega, by omega, ?_, ?_⟩
  · rintro rfl
    exact absurd number (by decide)
  · rintro rfl
    exact absurd number (by decide)

/-- The characters of a part's name need no escape. -/
theorem partName_chars {name : String} (h : partName name = true) :
    ∀ c ∈ name.toList, Printable c ∧ ¬ (c = '"' ∨ c = '\\') := by
  intro c member
  have bytes : ∀ byte ∈ String.utf8EncodeChar c, isNameByte byte = true := by
    simp only [partName, Bool.and_eq_true] at h
    intro byte inside
    refine List.all_eq_true.mp h.2 byte ?_
    rw [utf8Bytes_chars]
    exact List.mem_flatMap.mpr ⟨c, member, inside⟩
  rcases utf8EncodeChar_bytes c with ⟨ascii, single⟩ | wide
  · rw [single] at bytes
    have plain := isNameByte_plain (bytes _ (List.mem_singleton.mpr rfl))
    have same : (UInt8.ofNat c.toNat).toNat = c.toNat := by
      rw [UInt8.toNat_ofNat']
      exact Nat.mod_eq_of_lt (by omega)
    rw [same] at plain
    refine ⟨⟨plain.1, by omega⟩, ?_⟩
    rintro (rfl | rfl)
    · exact plain.2.2.1 (by decide)
    · exact plain.2.2.2 (by decide)
  · -- a wide character has no name byte
    have pos : String.utf8EncodeChar c ≠ [] := by
      rw [← List.length_pos_iff, String.length_utf8EncodeChar]
      exact Char.utf8Size_pos c
    rcases List.exists_mem_of_ne_nil _ pos with ⟨byte, inside⟩
    have low := (isNameByte_plain (bytes byte inside)).2.1
    have high := wide byte inside
    omega

theorem quoteText_name {name : String} (h : partName name = true) : quoteText name = name := by
  have same : name.toList.flatMap quoteChar = name.toList := by
    have single : ∀ c ∈ name.toList, quoteChar c = [c] := by
      intro c member
      rw [quoteChar, if_neg (partName_chars h c member).2]
    rw [List.flatMap_congr single, List.flatMap_singleton']
  rw [quoteText, same, String.ofList_toList]

theorem partName_bound {name : String} (h : partName name = true) :
    name ≠ "" ∧ name.utf8ByteSize ≤ 64 := by
  simp only [partName, Bool.and_eq_true, decide_eq_true_eq] at h
  exact h.1

/-- An attribute's text: its name, and its value between quotes. -/
def attributeText (name value : String) : List UInt8 :=
  utf8Bytes name ++ 61 :: 34 :: utf8Bytes (quoteText value) ++ [34]

theorem partAttribute_text (name : String) {value : String} (letters : (utf8Bytes name).all isAlpha = true)
    (printable : ∀ c ∈ value.toList, Printable c) (bound : value.utf8ByteSize ≤ 255)
    (rest : List UInt8) :
    partAttribute (32 :: attributeText name value ++ rest) = .ok (utf8Bytes name, value, rest) := by
  have alpha := List.all_eq_true.mp letters
  have equals : (61 : UInt8) ∉ utf8Bytes name := fun member => (isAlpha_plain (alpha 61 member)).2 rfl
  have trimmed : (32 :: attributeText name value ++ rest).dropWhile (· == 32)
      = utf8Bytes name ++ 61 :: (34 :: (utf8Bytes (quoteText value) ++ 34 :: rest)) := by
    have shape : attributeText name value ++ rest
        = utf8Bytes name ++ 61 :: (34 :: (utf8Bytes (quoteText value) ++ 34 :: rest)) := by
      simp only [attributeText, List.append_assoc, List.cons_append, List.nil_append]
    rw [List.cons_append, List.dropWhile_cons, if_pos (by decide), shape]
    cases first : utf8Bytes name with
    | nil => rfl
    | cons byte more =>
        have plain := (isAlpha_plain (alpha byte (by rw [first]; exact List.mem_cons_self))).1
        rw [List.cons_append, List.dropWhile_cons, if_neg (by simpa using plain)]
  unfold partAttribute
  simp only [trimmed, check]
  rw [ensure_pos (List.mem_append_right _ List.mem_cons_self), bind_ok, takeWhile_until _ equals,
    dropWhile_until _ equals, fromUTF8_bytes.mpr rfl]
  simp only [need, context, bind_ok]
  rw [ensure_pos letters, bind_ok, ensure_pos List.head?_cons, bind_ok, List.drop_succ_cons, List.drop_zero,
    quoted_text printable bound, bind_ok, fromUTF8_bytes.mpr rfl]
  rfl

theorem filenameAttribute_text {filename : String} (writable : WritableName filename) :
    filenameAttribute (59 :: 32 :: attributeText "filename" filename) = .ok (some filename) := by
  have read := partAttribute_text "filename" (by decide) writable.chars writable.bound []
  rw [List.append_nil] at read
  unfold filenameAttribute
  simp only [check]
  rw [ensure_pos trivial, bind_ok, read, bind_ok, ensure_pos ⟨rfl, writable.bound, rfl⟩]
  rfl

/-- What follows the field's name: nothing, or the name of a file. -/
def filenameText : Option String → List UInt8
  | none => []
  | some filename => 59 :: 32 :: attributeText "filename" filename

theorem filenameAttribute_written {filename : Option String}
    (writable : ∀ file, filename = some file → WritableName file) :
    filenameAttribute (filenameText filename) = .ok filename := by
  cases filename with
  | none => rfl
  | some file => exact filenameAttribute_text (writable file rfl)

/-- A disposition's text. -/
def dispositionText (name : String) (filename : Option String) : List UInt8 :=
  utf8Bytes "form-data" ++ 59 :: (32 :: attributeText "name" name ++ filenameText filename)

theorem dispositionValue_text {name : String} {filename : Option String} (named : partName name = true)
    (writable : ∀ file, filename = some file → WritableName file) :
    dispositionValue (dispositionText name filename) = .ok (name, filename) := by
  have kind : (59 : UInt8) ∉ utf8Bytes "form-data" := by decide
  have short : name.utf8ByteSize ≤ 255 := (partName_bound named).2.trans (by decide)
  have read := partAttribute_text "name" (by decide)
    (fun c member => (partName_chars named c member).1) short (filenameText filename)
  unfold dispositionValue dispositionText
  simp only [check]
  rw [ensure_pos (List.mem_append_right _ List.mem_cons_self), bind_ok, takeWhile_until _ kind,
    dropWhile_until _ kind, ensure_pos (by decide), bind_ok, read, bind_ok,
    ensure_pos ⟨rfl, named⟩, bind_ok, filenameAttribute_written writable]
  rfl

/-! ## Written header lines -/

theorem splitLines_last {bytes : List UInt8} (line : List UInt8) (h : (13 : UInt8) ∉ bytes) :
    splitLines line bytes = [line ++ bytes] := by
  induction bytes generalizing line with
  | nil => rw [splitLines, List.append_nil]
  | cons byte bytes ih =>
      have other : byte ≠ 13 := by
        rintro rfl
        exact h List.mem_cons_self
      rw [splitLines, ih _ (fun member => h (List.mem_cons_of_mem _ member)), List.append_assoc]
      · rfl
      · rintro rest rfl
        exact absurd rfl other

theorem splitLines_line {bytes : List UInt8} (line rest : List UInt8) (h : (13 : UInt8) ∉ bytes) :
    splitLines line (bytes ++ 13 :: 10 :: rest) = (line ++ bytes) :: splitLines [] rest := by
  induction bytes generalizing line with
  | nil => rw [List.nil_append, splitLines, List.append_nil]
  | cons byte bytes ih =>
      have other : byte ≠ 13 := by
        rintro rfl
        exact h List.mem_cons_self
      rw [List.cons_append, splitLines, ih _ (fun member => h (List.mem_cons_of_mem _ member)), List.append_assoc]
      · rfl
      · rintro rest rfl
        exact absurd rfl other

/-- A space in front of a text without spaces around it is trimmed. -/
theorem trimSpaces_text {bytes : List UInt8} (head : ∃ byte, bytes.head? = some byte ∧ byte ≠ 32)
    (last : ∃ byte, bytes.getLast? = some byte ∧ byte ≠ 32) : trimSpaces (32 :: bytes) = bytes := by
  have stops : ∀ text : List UInt8, (∃ byte, text.head? = some byte ∧ byte ≠ 32) →
      text.dropWhile (· == 32) = text := by
    rintro (_ | ⟨byte, text⟩) ⟨first, here, other⟩
    · cases here
    · cases here
      rw [List.dropWhile_cons, if_neg (by simpa using other)]
  unfold trimSpaces
  rw [List.dropWhile_cons, if_pos (by decide), stops bytes head, stops bytes.reverse, List.reverse_reverse]
  rw [List.head?_reverse]
  exact last

/-- A header line's text. -/
def lineText (name : String) (value : List UInt8) : List UInt8 := utf8Bytes name ++ 58 :: 32 :: value

/-- A value that a header line can hold. -/
structure LineValue (value : List UInt8) : Prop where
  visible : value.any isControl = false
  head : ∃ byte, value.head? = some byte ∧ byte ≠ 32
  last : ∃ byte, value.getLast? = some byte ∧ byte ≠ 32

theorem lineText_value (name : String) {value : List UInt8} (named : (58 : UInt8) ∉ utf8Bytes name)
    (h : LineValue value) :
    (lineText name value).takeWhile (· != 58) = utf8Bytes name
      ∧ trimSpaces (((lineText name value).dropWhile (· != 58)).drop 1) = value := by
  constructor
  · exact takeWhile_until _ named
  · rw [lineText, dropWhile_until _ named, trimSpaces_text h.head h.last]

theorem lineText_shape (name : String) {value : List UInt8} (plain : (utf8Bytes name).any isControl = false)
    (h : LineValue value) :
    lineText name value ≠ [] ∧ (lineText name value).any isControl = false ∧ 58 ∈ lineText name value := by
  have inside : (58 : UInt8) ∈ lineText name value := List.mem_append_right _ List.mem_cons_self
  refine ⟨List.ne_nil_of_mem inside, ?_, inside⟩
  rw [lineText, List.any_append, List.any_cons, List.any_cons, plain, h.visible]
  decide

theorem headerLine_disposition {name : String} {filename : Option String} (media : Bool)
    (named : partName name = true) (writable : ∀ file, filename = some file → WritableName file)
    (value : LineValue (dispositionText name filename)) :
    headerLine (none, media) (lineText "Content-Disposition" (dispositionText name filename))
      = .ok (some (name, filename), media) := by
  have shape := lineText_shape "Content-Disposition" (by decide) value
  have parts := lineText_value "Content-Disposition" (by decide) value
  unfold headerLine
  simp only [check, parts.1, parts.2]
  rw [ensure_pos ⟨shape.1, shape.2.1⟩, bind_ok, ensure_pos shape.2.2, bind_ok, if_pos (by decide),
    ensure_pos trivial, bind_ok, dispositionValue_text named writable]
  rfl

theorem headerLine_media (disposition : Option (String × Option String)) {media : String}
    (hint : WritableHint media) (value : LineValue (utf8Bytes media)) :
    headerLine (disposition, false) (lineText "Content-Type" (utf8Bytes media)) = .ok (disposition, true) := by
  have shape := lineText_shape "Content-Type" (by decide) value
  have parts := lineText_value "Content-Type" (by decide) value
  have some : utf8Bytes media ≠ [] := by
    intro empty
    rcases hint.head with ⟨byte, first, _⟩
    rw [empty] at first
    cases first
  have short : (utf8Bytes media).length ≤ 128 := hint.bound
  unfold headerLine
  simp only [check, parts.1, parts.2]
  rw [ensure_pos ⟨shape.1, shape.2.1⟩, bind_ok, ensure_pos shape.2.2, bind_ok, if_neg (by decide),
    if_pos (by decide), ensure_pos ⟨trivial, some, short, hint.bytes⟩]
  rfl

/-! ## Reading written headers -/

theorem quoteText_printable {text : String} (h : ∀ c ∈ text.toList, Printable c) :
    ∀ c ∈ (quoteText text).toList, Printable c := by
  intro c member
  rw [quoteText, String.toList_ofList] at member
  rcases List.mem_flatMap.mp member with ⟨original, inside, quoted⟩
  unfold quoteChar at quoted
  split at quoted
  · rcases List.mem_cons.mp quoted with rfl | quoted
    · exact ⟨by decide, by decide⟩
    · rw [List.mem_singleton.mp quoted]
      exact h original inside
  · rw [List.mem_singleton.mp quoted]
    exact h original inside

theorem attributeText_visible (name : String) {value : String} (named : (utf8Bytes name).any isControl = false)
    (h : ∀ c ∈ value.toList, Printable c) : (attributeText name value).any isControl = false := by
  rw [attributeText, List.any_append, List.any_append, List.any_cons, List.any_cons, named,
    utf8Bytes_printable (quoteText_printable h)]
  decide

/-- A disposition is visible and ends with a quote. -/
theorem dispositionText_value {name : String} {filename : Option String} (named : partName name = true)
    (writable : ∀ file, filename = some file → WritableName file) : LineValue (dispositionText name filename) := by
  have first := attributeText_visible "name" (by decide)
    (fun c member => (partName_chars named c member).1)
  have visible : (filenameText filename).any isControl = false := by
    cases filename with
    | none => rfl
    | some file =>
        have second := attributeText_visible "filename" (by decide) (writable file rfl).chars
        rw [filenameText, List.any_cons, List.any_cons, second]
        decide
  refine ⟨?_, ⟨102, rfl, by decide⟩, 34, ?_, by decide⟩
  · rw [dispositionText, List.any_append, List.any_cons, List.any_append, List.any_cons, first, visible]
    decide
  · cases filename with
    | none =>
        rw [dispositionText, filenameText, attributeText, List.append_nil, List.getLast?_append_cons,
          ← List.cons_append, ← List.cons_append, List.getLast?_concat]
    | some file =>
        rw [dispositionText, filenameText, attributeText, attributeText, List.getLast?_append_cons,
          ← List.cons_append, List.getLast?_append_cons, ← List.cons_append, ← List.cons_append,
          List.getLast?_concat]

theorem hint_value {media : String} (h : WritableHint media) : LineValue (utf8Bytes media) := by
  refine ⟨?_, h.head, h.last⟩
  rw [List.any_eq_false]
  intro byte member
  have hint := List.all_eq_true.mp h.bytes byte member
  simp only [isHintByte, Bool.and_eq_true, decide_eq_true_eq, UInt8.le_iff_toNat_le] at hint
  have low : 32 ≤ byte.toNat := hint.1
  have high : byte.toNat ≤ 126 := hint.2
  rw [not_isControl low (by omega)]
  exact Bool.false_ne_true

/-- The second line of a file part's header, with the line end before it. -/
def mediaText : Option String → List UInt8
  | none => []
  | some media => 13 :: 10 :: lineText "Content-Type" (utf8Bytes media)

/-- A text between two known ones, behind another. -/
theorem utf8Bytes_between {first last : String} {head tail : List UInt8} (start : utf8Bytes first = head)
    (ends : utf8Bytes last = tail) (before text : String) :
    utf8Bytes (before ++ first ++ text ++ last) = utf8Bytes before ++ head ++ utf8Bytes text ++ tail := by
  rw [utf8Bytes_append, utf8Bytes_append, utf8Bytes_append, start, ends]

theorem quote_bytes : utf8Bytes "\"" = [34] := by decide

theorem scalarStart_bytes : utf8Bytes "Content-Disposition: form-data; name=\""
    = utf8Bytes "Content-Disposition" ++ 58 :: 32 :: (utf8Bytes "form-data" ++ 59 :: 32 :: (utf8Bytes "name"
      ++ [61, 34])) := by decide

theorem fileStart_bytes : utf8Bytes "; filename=\"" = 59 :: 32 :: (utf8Bytes "filename" ++ [61, 34]) := by
  decide

theorem mediaStart_bytes :
    utf8Bytes "\r\nContent-Type: " = 13 :: 10 :: (utf8Bytes "Content-Type" ++ [58, 32]) := by
  decide

theorem scalarHeader_text {name : String} (named : partName name = true) :
    utf8Bytes (scalarHeader name) = lineText "Content-Disposition" (dispositionText name none) := by
  unfold scalarHeader lineText dispositionText filenameText attributeText
  rw [utf8Bytes_append, utf8Bytes_append, scalarStart_bytes, quote_bytes, quoteText_name named]
  simp only [List.append_assoc, List.cons_append, List.nil_append, List.append_nil]

theorem mediaLine_text (media : Option String) : utf8Bytes (mediaLine media) = mediaText media := by
  cases media with
  | none => decide
  | some media =>
      unfold mediaLine mediaText lineText
      rw [utf8Bytes_append, mediaStart_bytes]
      simp only [List.append_assoc, List.cons_append, List.nil_append]

theorem fileHeader_text {name : String} (named : partName name = true) (filename : String)
    (media : Option String) :
    utf8Bytes (fileHeader name filename media)
      = lineText "Content-Disposition" (dispositionText name (some filename)) ++ mediaText media := by
  have file := utf8Bytes_between fileStart_bytes quote_bytes (scalarHeader name) (quoteText filename)
  unfold fileHeader
  rw [utf8Bytes_append _ (mediaLine media), mediaLine_text, file, scalarHeader_text named]
  unfold lineText dispositionText filenameText attributeText
  simp only [List.append_assoc, List.cons_append, List.nil_append, List.append_nil]

/-- A visible text holds no carriage return. -/
theorem no_return {bytes : List UInt8} (h : bytes.any isControl = false) : (13 : UInt8) ∉ bytes := by
  intro member
  exact absurd (List.any_eq_false.mp h 13 member) (by decide)

theorem dispositionLine_plain {name : String} (filename : Option String) (named : partName name = true)
    (writable : ∀ file, filename = some file → WritableName file) :
    (13 : UInt8) ∉ lineText "Content-Disposition" (dispositionText name filename) :=
  no_return (lineText_shape _ (by decide) (dispositionText_value named writable)).2.1

theorem mediaLine_plain {media : String} (h : WritableHint media) :
    (13 : UInt8) ∉ lineText "Content-Type" (utf8Bytes media) :=
  no_return (lineText_shape _ (by decide) (hint_value h)).2.1

/-- A scalar part's header is read back as the name of its field. -/
theorem parseHeaders_scalar {name : String} (named : partName name = true) :
    parseHeaders (utf8Bytes (scalarHeader name)) = .ok ⟨name, none, false⟩ := by
  have writable : ∀ file, none = some file → WritableName file := fun file absurd => by cases absurd
  have line := headerLine_disposition false named writable (dispositionText_value named writable)
  have whole := splitLines_last [] (dispositionLine_plain _ named writable)
  rw [List.nil_append] at whole
  unfold parseHeaders
  rw [fromUTF8_bytes.mpr rfl]
  simp only [need, context, bind_ok, check]
  rw [scalarHeader_text named, whole, List.foldlM_cons, line]
  rfl

/-- A file part's header is read back as the names of its field and of the file. -/
theorem parseHeaders_file {name filename : String} {media : Option String} (named : partName name = true)
    (writable : WritableName filename) (hint : ∀ text, media = some text → WritableHint text) :
    parseHeaders (utf8Bytes (fileHeader name filename media)) = .ok ⟨name, some filename, media.isSome⟩ := by
  have file : ∀ file, some filename = some file → WritableName file := by
    intro file same
    cases same
    exact writable
  have line := headerLine_disposition false named file (dispositionText_value named file)
  have plain := dispositionLine_plain _ named file
  unfold parseHeaders
  rw [fromUTF8_bytes.mpr rfl]
  simp only [need, context, bind_ok, check]
  rw [fileHeader_text named]
  cases media with
  | none =>
      have whole := splitLines_last [] plain
      rw [List.nil_append] at whole
      rw [mediaText, List.append_nil, whole, List.foldlM_cons, line]
      rfl
  | some media =>
      have second := headerLine_media (some (name, some filename)) (hint media rfl)
        (hint_value (hint media rfl))
      have whole := splitLines_line [] (lineText "Content-Type" (utf8Bytes media)) plain
      rw [List.nil_append, splitLines_last [] (mediaLine_plain (hint media rfl)), List.nil_append] at whole
      rw [mediaText, whole, List.foldlM_cons, line, bind_ok, List.foldlM_cons, second]
      rfl

/-! ## The blank line -/

/-- A blank line does not begin inside a line. -/
theorem not_occurs_line {line : List UInt8} (rest : List UInt8) (plain : (13 : UInt8) ∉ line) {index : Nat}
    (inside : index < line.length) : ¬ Matching.Occurs headerEnd (line ++ rest) index := by
  rintro ⟨more, spelled⟩
  have first : (line ++ rest)[index]? = some 13 := by
    rw [← List.head?_drop, ← spelled]
    rfl
  rw [List.getElem?_append_left inside] at first
  exact plain (List.mem_of_getElem? first)

/-- One line, or two of which the second is not empty, hold no blank line. -/
theorem ends_line {line : List UInt8} (plain : (13 : UInt8) ∉ line) : Ends line := by
  refine ⟨?_, fun index inside => not_occurs_line headerEnd plain inside⟩
  rw [Matching.Occurs, List.drop_left]

theorem ends_lines {line second : List UInt8} (plain : (13 : UInt8) ∉ line) (plain' : (13 : UInt8) ∉ second)
    (some : second ≠ []) : Ends (line ++ 13 :: 10 :: second) := by
  constructor
  · rw [Matching.Occurs, List.drop_left]
  · intro index before occurs
    rw [List.append_assoc] at occurs
    by_cases inside : index < line.length
    · exact not_occurs_line _ plain inside occurs
    -- from the line end on: it is no blank line, for the second line begins behind it
    rw [Matching.Occurs, List.drop_append, List.drop_eq_nil_of_le (by omega), List.nil_append] at occurs
    rw [List.length_append, List.length_cons, List.length_cons] at before
    rcases position : index - line.length with _ | _ | later
    · rw [position] at occurs
      rcases occurs with ⟨more, spelled⟩
      cases second with
      | nil => exact some rfl
      | cons byte second =>
          simp only [headerEnd, List.cons_append, List.nil_append, List.drop_zero, List.cons.injEq] at spelled
          exact plain' (by rw [← spelled.2.2.1]; exact List.mem_cons_self)
    · rw [position] at occurs
      rcases occurs with ⟨more, spelled⟩
      simp only [headerEnd, List.cons_append, List.drop_succ_cons, List.drop_zero, List.cons.injEq] at spelled
      exact absurd spelled.1 (by decide)
    · rw [position] at occurs
      exact not_occurs_line headerEnd plain' (by omega) occurs

theorem scalarHeader_ends {name : String} (named : partName name = true) :
    Ends (utf8Bytes (scalarHeader name)) := by
  rw [scalarHeader_text named]
  exact ends_line (dispositionLine_plain _ named fun file absurd => by cases absurd)

/-- A written header holds no blank line. -/
theorem fileHeader_ends {name filename : String} {media : Option String} (named : partName name = true)
    (writable : WritableName filename) (hint : ∀ text, media = some text → WritableHint text) :
    Ends (utf8Bytes (fileHeader name filename media)) := by
  have plain := dispositionLine_plain (some filename) named (by
    intro file same
    cases same
    exact writable)
  rw [fileHeader_text named]
  cases media with
  | none =>
      rw [mediaText, List.append_nil]
      exact ends_line plain
  | some media =>
      have shape := lineText_shape "Content-Type" (by decide) (hint_value (hint media rfl))
      exact ends_lines plain (mediaLine_plain (hint media rfl)) shape.1

/-! ## Lengths -/

theorem length_between (first : String) (head : Nat) {last : String} {tail : Nat} (start : (utf8Bytes first).length = head)
    (ends : (utf8Bytes last).length = tail) (before text : String) :
    (utf8Bytes (before ++ first ++ text ++ last)).length
      = (utf8Bytes before).length + head + (utf8Bytes text).length + tail := by
  rw [utf8Bytes_append, utf8Bytes_append, utf8Bytes_append, List.length_append, List.length_append,
    List.length_append, start, ends]

/-- An escape takes one byte more. -/
theorem quoteText_length (text : String) :
    (utf8Bytes (quoteText text)).length ≤ 2 * (utf8Bytes text).length := by
  rw [utf8Bytes_chars (quoteText text), utf8Bytes_chars text, quoteText, String.toList_ofList]
  induction text.toList with
  | nil => exact Nat.zero_le _
  | cons c chars ih =>
      have pos : 0 < (String.utf8EncodeChar c).length := by
        rw [String.length_utf8EncodeChar]
        exact Char.utf8Size_pos c
      have single : ((quoteChar c).flatMap String.utf8EncodeChar).length ≤ 2 * (String.utf8EncodeChar c).length := by
        unfold quoteChar
        split
        · have slash : (String.utf8EncodeChar '\\').length = 1 := by decide
          simp only [List.flatMap_cons, List.flatMap_nil, List.append_nil, List.length_append, slash]
          omega
        · rw [List.flatMap_singleton]
          omega
      rw [List.flatMap_cons, List.flatMap_append, List.flatMap_cons, List.length_append, List.length_append]
      omega

theorem scalarHeader_length (name : String) :
    (utf8Bytes (scalarHeader name)).length = (utf8Bytes name).length + 39 := by
  have whole := length_between "Content-Disposition: form-data; name=\"" 38 (by decide) (congrArg List.length quote_bytes) "" name
  have empty : (utf8Bytes "").length = 0 := by decide
  rw [String.empty_append, empty] at whole
  unfold scalarHeader
  rw [whole, List.length_singleton]
  omega

theorem mediaLine_length {media : Option String} (hint : ∀ text, media = some text → WritableHint text) :
    (utf8Bytes (mediaLine media)).length ≤ 144 := by
  cases media with
  | none => decide
  | some media =>
      have start : (utf8Bytes "\r\nContent-Type: ").length = 16 := by decide
      have short : (utf8Bytes media).length ≤ 128 := (hint media rfl).bound
      unfold mediaLine
      rw [utf8Bytes_append, List.length_append, start]
      omega

theorem fileHeader_length {name filename : String} {media : Option String} (named : partName name = true)
    (writable : WritableName filename) (hint : ∀ text, media = some text → WritableHint text) :
    (utf8Bytes (fileHeader name filename media)).length ≤ 770 := by
  have file := length_between "; filename=\"" 12 (by decide)
    (congrArg List.length quote_bytes) (scalarHeader name) (quoteText filename)
  have field : (utf8Bytes name).length ≤ 64 := (partName_bound named).2
  have label : (utf8Bytes filename).length ≤ 255 := writable.bound
  have quoted := quoteText_length filename
  have tail := mediaLine_length hint
  rw [scalarHeader_length, List.length_singleton] at file
  unfold fileHeader
  rw [utf8Bytes_append _ (mediaLine media), List.length_append, file]
  omega

end Noxide.Multipart
