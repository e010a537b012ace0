import Mathlib.Data.List.Basic
import Noxide.Library.Decimal

/-!
# Form-urlencoded text

The interface of a form-urlencoded serializer and parser, by the laws that a
program relies on: what one pair reads back as, which separators an encoded
component keeps free, and how long it is.  The standard encoding satisfies them.

Main results:

- Theorem {lit}`serialize_components`: splitting serialized pairs at the
  separator gives one component for each pair.
- Definition {lit}`FormUrlencoded.standard`: the encoding over UTF-8 bytes, with
  proofs of the laws.
-/

/-! ## Characters -/

namespace FormUrlencoded

/-- Characters that stand for themselves. -/
def keeps (c : Char) : Bool :=
  c.isAlphanum || c == '*' || c == '-' || c == '.' || c == '_'

/-- Encoded size of one character: one byte for a kept character or a space,
three for each byte of any other. -/
def cost (c : Char) : Nat :=
  if keeps c || c == ' ' then 1 else 3 * c.utf8Size

def size (s : String) : Nat :=
  (s.toList.map cost).sum

theorem size_replicate (n : Nat) (c : Char) :
    size (String.ofList (List.replicate n c)) = n * cost c := by
  simp [size]

def isHex (c : Char) : Bool :=
  c.isDigit || (decide ('a' ≤ c) && decide (c ≤ 'f')) || (decide ('A' ≤ c) && decide (c ≤ 'F'))

/-- Every percent sign is followed by two hexadecimal digits. -/
def percentValid : List Char → Bool
  | [] => true
  | '%' :: a :: b :: rest => isHex a && isHex b && percentValid rest
  | c :: rest => c != '%' && percentValid rest

theorem percentValid_append {xs ys : List Char} (hxs : percentValid xs = true)
    (hys : percentValid ys = true) : percentValid (xs ++ ys) = true := by
  induction xs using percentValid.induct with
  | case1 => exact hys
  | case2 a b rest ih =>
      simp only [percentValid, Bool.and_eq_true] at hxs
      simp only [List.cons_append, percentValid, Bool.and_eq_true]
      exact ⟨hxs.1, ih hxs.2⟩
  | case3 c rest notEscape ih =>
      rw [percentValid] at hxs
      · simp only [Bool.and_eq_true, bne_iff_ne, ne_eq] at hxs
        rw [List.cons_append, percentValid]
        · simp only [Bool.and_eq_true, bne_iff_ne, ne_eq]
          exact ⟨hxs.1, ih hxs.2⟩
        · rintro a b rest' rfl _
          exact hxs.1 rfl
      · exact notEscape

end FormUrlencoded

/-! ## The interface -/

open FormUrlencoded in
/-- A component encoder and a parser, with the laws that connect them. -/
structure FormUrlencoded where
  encode : String → String
  parse : String → List (String × String)
  parse_pair : ∀ name value, parse (encode name ++ "=" ++ encode value) = [(name, value)]
  parse_empty : parse "" = []
  no_separator : ∀ s, '&' ∉ (encode s).toList
  escapes : ∀ s, percentValid (encode s).toList = true
  encode_size : ∀ s, (encode s).utf8ByteSize = size s
  encode_kept : ∀ s, s.toList.all keeps = true → encode s = s

namespace FormUrlencoded

variable (url : FormUrlencoded)

/-- One encoded pair. -/
def component (pair : String × String) : String :=
  url.encode pair.1 ++ "=" ++ url.encode pair.2

/-- Encoded pairs with separators between them. -/
def serialize (pairs : List (String × String)) : String :=
  "&".intercalate (pairs.map url.component)

/-- The components of a query text. -/
def components (raw : String) : List String :=
  (raw.toList.splitOn '&').map String.ofList

/-- Encoded size of all pairs. -/
def querySize (pairs : List (String × String)) : Nat :=
  (pairs.map fun pair => size pair.1 + 1 + size pair.2).sum + (pairs.length - 1)

variable {url}

theorem component_no_separator (pair : String × String) : '&' ∉ (url.component pair).toList := by
  simp only [component, String.toList_append, List.mem_append, not_or]
  exact ⟨⟨url.no_separator pair.1, by decide⟩, url.no_separator pair.2⟩

theorem component_percentValid (pair : String × String) :
    percentValid (url.component pair).toList = true := by
  simp only [component, String.toList_append]
  have equals : percentValid "=".toList = true := by decide
  exact percentValid_append (percentValid_append (url.escapes pair.1) equals) (url.escapes pair.2)

theorem component_size (pair : String × String) :
    (url.component pair).utf8ByteSize = size pair.1 + 1 + size pair.2 := by
  simp only [component, String.utf8ByteSize_append, url.encode_size]
  rfl

/-! ## Joined components -/

/-- Separated components split back, unless there are none. -/
theorem components_intercalate {texts : List String} (nonempty : texts ≠ [])
    (free : ∀ text ∈ texts, '&' ∉ text.toList) :
    components ("&".intercalate texts) = texts := by
  have split : ("&".intercalate texts).toList.splitOn '&' = texts.map String.toList := by
    rw [String.toList_intercalate]
    refine List.splitOn_intercalate '&' ?_ (by simpa using nonempty)
    intro chars mem
    rcases List.mem_map.mp mem with ⟨text, htext, rfl⟩
    exact free text htext
  rw [components, split, List.map_map]
  simp

/-- A property of texts that joining keeps. -/
theorem intercalate_induction {motive : String → Prop} {separator : String}
    (empty : motive "") (join : ∀ a b, motive a → motive b → motive (a ++ separator ++ b))
    {texts : List String} (h : ∀ text ∈ texts, motive text) :
    motive (separator.intercalate texts) := by
  induction texts with
  | nil => exact empty
  | cons first rest ih =>
      cases rest with
      | nil => simpa using h first
      | cons second rest =>
          rw [String.intercalate_cons_cons]
          exact join _ _ (h first List.mem_cons_self)
            (ih fun text mem => h text (List.mem_cons_of_mem _ mem))

theorem intercalate_percentValid {texts : List String}
    (h : ∀ text ∈ texts, percentValid text.toList = true) :
    percentValid ("&".intercalate texts).toList = true := by
  refine intercalate_induction (by decide) (fun a b ha hb => ?_) h
  rw [String.toList_append, String.toList_append]
  exact percentValid_append (percentValid_append ha (by decide)) hb

theorem intercalate_size (texts : List String) :
    ("&".intercalate texts).utf8ByteSize =
      (texts.map String.utf8ByteSize).sum + (texts.length - 1) := by
  induction texts with
  | nil => rfl
  | cons first rest ih =>
      cases rest with
      | nil => simp
      | cons second rest =>
          rw [String.intercalate_cons_cons, String.utf8ByteSize_append,
            String.utf8ByteSize_append, ih]
          have one : "&".utf8ByteSize = 1 := by decide
          simp only [List.map_cons, List.sum_cons, List.length_cons, one]
          omega

theorem serialize_size (pairs : List (String × String)) :
    (url.serialize pairs).utf8ByteSize = querySize pairs := by
  rw [serialize, intercalate_size, List.map_map, List.length_map, querySize]
  congr 2
  exact List.map_congr_left fun pair _ => component_size pair

/-! ## The standard encoding -/

def hexDigit (n : Nat) : Char :=
  Char.ofNat (if n < 10 then 48 + n else 55 + n)

def hexValue (c : Char) : Option Nat :=
  if c.isDigit then some (c.toNat - 48)
  else if decide ('a' ≤ c) && decide (c ≤ 'f') then some (c.toNat - 87)
  else if decide ('A' ≤ c) && decide (c ≤ 'F') then some (c.toNat - 55)
  else none

def escape (byte : UInt8) : List Char :=
  ['%', hexDigit (byte.toNat / 16), hexDigit (byte.toNat % 16)]

def encodeChar (c : Char) : List Char :=
  if keeps c then [c] else if c = ' ' then ['+'] else (String.utf8EncodeChar c).flatMap escape

def encodeText (s : String) : String :=
  String.ofList (s.toList.flatMap encodeChar)

/-- Bytes of encoded text.  A percent sign without two digits stands for itself. -/
def decodeBytes : List Char → List UInt8
  | [] => []
  | '%' :: a :: b :: rest =>
      match hexValue a, hexValue b with
      | some high, some low => UInt8.ofNat (16 * high + low) :: decodeBytes rest
      | _, _ => String.utf8EncodeChar '%' ++ decodeBytes (a :: b :: rest)
  | c :: rest => String.utf8EncodeChar (if c = '+' then ' ' else c) ++ decodeBytes rest

/-- Decoded text; bytes that are no text read as the replacement character. -/
def decodeText (chars : List Char) : String :=
  match (decodeBytes chars).toByteArray.utf8Decode? with
  | some decoded => String.ofList decoded.toList
  | none => "\uFFFD"

/-- One component as a pair, split at its first equals sign. -/
def parsePair (text : String) : String × String :=
  (decodeText (text.toList.takeWhile (· ≠ '=')),
    decodeText (text.toList.dropWhile (· ≠ '=')).tail)

def parsePairs (text : String) : List (String × String) :=
  ((components text).filter (· ≠ "")).map parsePair

/-! ## Its laws -/

theorem hexDigit_spec : ∀ n < 16, isHex (hexDigit n) = true ∧ hexValue (hexDigit n) = some n ∧
    (hexDigit n).utf8Size = 1 ∧ hexDigit n ≠ '&' ∧ hexDigit n ≠ '=' := by
  decide

theorem byte_digits (byte : UInt8) : byte.toNat / 16 < 16 ∧ byte.toNat % 16 < 16 := by
  have bound := byte.toNat_lt
  omega

theorem mem_encodeChar {c d : Char} (h : d ∈ encodeChar c) :
    keeps d = true ∨ d = '+' ∨ d = '%' ∨ ∃ n < 16, d = hexDigit n := by
  unfold encodeChar at h
  split at h
  · next kept =>
    rw [List.mem_singleton] at h
    exact Or.inl (h ▸ kept)
  · split at h
    · exact Or.inr (Or.inl (List.mem_singleton.mp h))
    · rcases List.mem_flatMap.mp h with ⟨byte, _, mem⟩
      have digits := byte_digits byte
      simp only [escape, List.mem_cons, List.not_mem_nil, or_false] at mem
      rcases mem with rfl | rfl | rfl
      · exact Or.inr (Or.inr (Or.inl rfl))
      · exact Or.inr (Or.inr (Or.inr ⟨_, digits.1, rfl⟩))
      · exact Or.inr (Or.inr (Or.inr ⟨_, digits.2, rfl⟩))

/-- Encoded text is free of the separators. -/
theorem encodeText_free (s : String) : ∀ d ∈ (encodeText s).toList, d ≠ '&' ∧ d ≠ '=' := by
  intro d mem
  rw [encodeText, String.toList_ofList] at mem
  rcases List.mem_flatMap.mp mem with ⟨c, _, mem⟩
  rcases mem_encodeChar mem with kept | rfl | rfl | ⟨n, small, rfl⟩
  · constructor <;> rintro rfl <;> revert kept <;> decide
  · decide
  · decide
  · exact (hexDigit_spec n small).2.2.2

theorem percentValid_flatMap_escape (bytes : List UInt8) :
    percentValid (bytes.flatMap escape) = true := by
  induction bytes with
  | nil => rfl
  | cons byte rest ih =>
      have digits := byte_digits byte
      rw [List.flatMap_cons]
      refine percentValid_append ?_ ih
      simp [escape, percentValid, (hexDigit_spec _ digits.1).1, (hexDigit_spec _ digits.2).1]

theorem percentValid_encodeChar (c : Char) : percentValid (encodeChar c) = true := by
  unfold encodeChar
  split
  · next kept =>
    have plain : c ≠ '%' := by
      rintro rfl
      revert kept
      decide
    rw [percentValid]
    · simp [plain, percentValid]
    · rintro a b rest rfl
      exact absurd rfl plain
  · split
    · decide
    · exact percentValid_flatMap_escape _

theorem percentValid_encodeText (s : String) : percentValid (encodeText s).toList = true := by
  rw [encodeText, String.toList_ofList]
  induction s.toList with
  | nil => rfl
  | cons c rest ih =>
      rw [List.flatMap_cons]
      exact percentValid_append (percentValid_encodeChar c) ih

theorem keeps_utf8Size {c : Char} (h : keeps c = true) : c.utf8Size = 1 := by
  simp only [keeps, Bool.or_eq_true, beq_iff_eq] at h
  rcases h with (((h | rfl) | rfl) | rfl) | rfl
  · exact Decimal.utf8Size_of_isAlphanum h
  all_goals decide

theorem escape_size (bytes : List UInt8) :
    ((bytes.flatMap escape).map Char.utf8Size).sum = 3 * bytes.length := by
  induction bytes with
  | nil => rfl
  | cons byte rest ih =>
      have digits := byte_digits byte
      have percent : '%'.utf8Size = 1 := by decide
      rw [List.flatMap_cons, List.map_append, List.sum_append, ih]
      simp only [escape, List.map_cons, List.map_nil, List.sum_cons, List.sum_nil, percent,
        (hexDigit_spec _ digits.1).2.2.1, (hexDigit_spec _ digits.2).2.2.1, List.length_cons]
      omega

theorem encodeChar_size (c : Char) : ((encodeChar c).map Char.utf8Size).sum = cost c := by
  unfold encodeChar cost
  by_cases kept : keeps c = true
  · simp [kept, keeps_utf8Size kept]
  · by_cases space : c = ' '
    · subst space
      decide
    · have plain : (keeps c || c == ' ') = false := by simp [kept, space]
      rw [if_neg kept, if_neg space, plain, escape_size, String.length_utf8EncodeChar]
      rfl

theorem encodeText_size (s : String) : (encodeText s).utf8ByteSize = size s := by
  rw [Decimal.utf8ByteSize_eq_sum, encodeText, String.toList_ofList, size]
  induction s.toList with
  | nil => rfl
  | cons c rest ih =>
      rw [List.flatMap_cons, List.map_append, List.sum_append, ih, encodeChar_size, List.map_cons,
        List.sum_cons]

theorem encodeText_kept {s : String} (h : s.toList.all keeps = true) : encodeText s = s := by
  have general : ∀ chars : List Char, chars.all keeps = true → chars.flatMap encodeChar = chars := by
    intro chars
    induction chars with
    | nil => intro _; rfl
    | cons c rest ih =>
        intro all
        simp only [List.all_cons, Bool.and_eq_true] at all
        rw [List.flatMap_cons, ih all.2, encodeChar, if_pos all.1, List.singleton_append]
  rw [encodeText, general _ h, String.ofList_toList]

/-! ## Decoding -/

theorem decodeBytes_escape (bytes : List UInt8) (rest : List Char) :
    decodeBytes (bytes.flatMap escape ++ rest) = bytes ++ decodeBytes rest := by
  induction bytes with
  | nil => rfl
  | cons byte others ih =>
      have digits := byte_digits byte
      have whole : UInt8.ofNat (16 * (byte.toNat / 16) + byte.toNat % 16) = byte := by
        rw [Nat.div_add_mod]
        exact UInt8.ofNat_toNat
      rw [List.flatMap_cons]
      simp only [escape, List.cons_append, List.nil_append, decodeBytes,
        (hexDigit_spec _ digits.1).2.1, (hexDigit_spec _ digits.2).2.1, ih, whole]

/-- A character other than the percent sign decodes by itself. -/
theorem decodeBytes_cons {c : Char} (h : c ≠ '%') (rest : List Char) :
    decodeBytes (c :: rest) =
      String.utf8EncodeChar (if c = '+' then ' ' else c) ++ decodeBytes rest := by
  rw [decodeBytes]
  rintro a b others rfl _
  exact h rfl

theorem decodeBytes_encodeChar (c : Char) (rest : List Char) :
    decodeBytes (encodeChar c ++ rest) = String.utf8EncodeChar c ++ decodeBytes rest := by
  unfold encodeChar
  by_cases kept : keeps c = true
  · have plain : c ≠ '%' ∧ c ≠ '+' := by
      constructor <;> rintro rfl <;> revert kept <;> decide
    rw [if_pos kept, List.singleton_append, decodeBytes_cons plain.1, if_neg plain.2]
  · rw [if_neg kept]
    by_cases space : c = ' '
    · subst space
      rw [if_pos rfl, List.singleton_append, decodeBytes_cons (by decide), if_pos rfl]
    · rw [if_neg space, decodeBytes_escape]

theorem decodeBytes_encode (chars : List Char) :
    decodeBytes (chars.flatMap encodeChar) = chars.flatMap String.utf8EncodeChar := by
  induction chars with
  | nil => rfl
  | cons c rest ih => rw [List.flatMap_cons, decodeBytes_encodeChar, ih, List.flatMap_cons]

/-- Encoded text decodes to itself. -/
theorem decodeText_encodeText (s : String) : decodeText (encodeText s).toList = s := by
  have decoded : (s.toList.flatMap String.utf8EncodeChar).toByteArray.utf8Decode? =
      some s.toList.toArray := List.utf8Decode?_utf8Encode
  rw [decodeText, encodeText, String.toList_ofList, decodeBytes_encode, decoded]
  simp

theorem parsePairs_pair (name value : String) :
    parsePairs (encodeText name ++ "=" ++ encodeText value) = [(name, value)] := by
  have chars : (encodeText name ++ "=" ++ encodeText value).toList =
      (encodeText name).toList ++ '=' :: (encodeText value).toList := by
    simp [String.toList_append]
  have unsplit : components (encodeText name ++ "=" ++ encodeText value) =
      [encodeText name ++ "=" ++ encodeText value] := by
    have free : '&' ∉ (encodeText name ++ "=" ++ encodeText value).toList := by
      rw [chars]
      intro separator
      rcases List.mem_append.mp separator with mem | mem
      · exact (encodeText_free name _ mem).1 rfl
      · rcases List.mem_cons.mp mem with eq | mem
        · cases eq
        · exact (encodeText_free value _ mem).1 rfl
    have single := components_intercalate (List.cons_ne_nil _ [])
      fun text mem => List.mem_singleton.mp mem ▸ free
    rwa [String.intercalate_singleton] at single
  have nonempty : encodeText name ++ "=" ++ encodeText value ≠ "" := by
    intro empty
    rw [empty] at chars
    simp at chars
  have free : ∀ d ∈ (encodeText name).toList, decide (d ≠ '=') = true := by
    intro d mem
    simpa using (encodeText_free name d mem).2
  rw [parsePairs, unsplit, List.filter_cons_of_pos (by simp [nonempty]), List.filter_nil,
    List.map_singleton, parsePair, chars, List.takeWhile_append_of_pos free,
    List.dropWhile_append_of_pos free]
  simp [decodeText_encodeText]

/-- The standard encoding and parser. -/
def standard : FormUrlencoded where
  encode := encodeText
  parse := parsePairs
  parse_pair := parsePairs_pair
  parse_empty := rfl
  no_separator := fun s mem => (encodeText_free s _ mem).1 rfl
  escapes := percentValid_encodeText
  encode_size := encodeText_size
  encode_kept := fun _ => encodeText_kept

end FormUrlencoded
