import Noxide.Host.Invocation
import Noxide.Http.Query
import Noxide.Library.PercentEncoding

/-!
# Submitted forms

The body of a submitted form, decoded by hand: pairs at the ampersands, each split at its first
equals sign, escapes and plus signs undone, and line ends made uniform.

Main results:

- Theorem {lit}`decodeFrom_append`: the index loop of the source is the structural decoder.
- Theorem {lit}`decodeForm_ok`: which bodies are accepted, and as what.
- Theorem {lit}`form_decoding_exact`: accepted bodies are the spellings of admissible forms, and
  no index is out of range.
-/

namespace Noxide.Form

open Checked

/-! ## Decoding -/

def maxEncodedFormBytes : Nat := 64 * 1024

/-- How decoding stops: a refusal, or an index that is out of range. -/
inductive FormStop where
  | refused (text : String)
  | outOfRange
  deriving DecidableEq, Repr

/-- The source's index into a slice. -/
def byteAt (bytes : List UInt8) (i : Nat) : Except FormStop UInt8 :=
  context .outOfRange bytes[i]?

/-- The source's loop, from an index on. -/
def decodeFrom (bytes : List UInt8) (i : Nat) (output : List UInt8) : Except FormStop (List UInt8) :=
  if i < bytes.length then do
    let byte ← byteAt bytes i
    if byte = 43 then decodeFrom bytes (i + 1) (output ++ [32])
    else if byte = 37 then do
      ensure (.refused "truncated escape") (i + 2 < bytes.length)
      let high ← byteAt bytes (i + 1)
      let a ← context (.refused "invalid escape") (PercentEncoding.hexDigit high)
      let low ← byteAt bytes (i + 2)
      let b ← context (.refused "invalid escape") (PercentEncoding.hexDigit low)
      decodeFrom bytes (i + 3) (output ++ [UInt8.ofNat (a * 16 + b)])
    else decodeFrom bytes (i + 1) (output ++ [byte])
  else .ok output
termination_by bytes.length - i

/-- The text of some bytes, with uniform line ends. -/
def formText (bytes : List UInt8) : Except FormStop String := do
  let text ← context (.refused "invalid utf-8 sequence") (String.fromUTF8? bytes.toByteArray)
  return String.ofList (normalizeNewlines text.toList)

/-- The source's inner {lit}`decode`. -/
def decodeComponent (bytes : List UInt8) : Except FormStop String := do
  let output ← decodeFrom bytes 0 []
  formText output

/-- The names of sealed targets. -/
def isTargetName (name : String) : Bool :=
  "_target_".toList.isPrefixOf name.toList

def nameLimit (selection : Bool) : Nat := if selection then 40 else 32

def classLimit (selection : Bool) : Nat := if selection then 4 else 35

/-- The fields of one class. -/
def classCount (form : Fields) (selection : Bool) : Nat :=
  (form.keys.filter fun name => isTargetName name = selection).card

/-- One pair of the body, with the decoded bytes so far. -/
def decodePair (state : Fields × Nat) (pair : List UInt8) : Except FormStop (Fields × Nat) := do
  let (result, decodedBytes) := state
  ensure (.refused "field count") (result.keys.card < 39)
  let position ← context (.refused "field missing value") (pair.findIdx? (· == 61))
  -- both slices start within the pair
  ensure .outOfRange (position + 1 ≤ pair.length)
  let key ← decodeComponent (pair.take position)
  let value ← decodeComponent (pair.drop (position + 1))
  let decodedBytes := decodedBytes + (key.utf8ByteSize + value.utf8ByteSize)
  ensure (.refused "decoded form limit") (decodedBytes ≤ maxInputBytes)
  let selection := isTargetName key
  ensure (.refused "field name limit") (key.utf8ByteSize ≤ nameLimit selection)
  ensure (.refused "field count") (classCount result selection < classLimit selection)
  ensure (.refused "duplicate field") (key ∉ result)
  return (result.insert key value, decodedBytes)

def decodeForm (bytes : List UInt8) : Except FormStop Fields := do
  ensure (.refused "form limit") (bytes.length ≤ maxEncodedFormBytes)
  let (result, _) ← (bytes.splitOn 38).foldlM decodePair (∅, 0)
  return result

/-! ## Spellings -/

/-- The bytes of a text. -/
def utf8Bytes (text : String) : List UInt8 := text.toByteArray.data.toList

/-- One pair as a body spells it: the name has no separators left, the value no ampersand. -/
def SpellsPair (component : List UInt8) (pair : String × String) : Prop :=
  ∃ name value, component = name ++ 61 :: value ∧ 61 ∉ name ∧ 38 ∉ name ∧ 38 ∉ value
    ∧ PercentEncoding.Spells name (utf8Bytes pair.1) ∧ PercentEncoding.Spells value (utf8Bytes pair.2)

/-- A body spells its pairs one after the other. -/
def SpellsForm (bytes : List UInt8) (pairs : List (String × String)) : Prop :=
  ∃ components, bytes = [38].intercalate components ∧ List.Forall₂ SpellsPair components pairs

/-- A text with uniform line ends. -/
def normalText (text : String) : String := String.ofList (normalizeNewlines text.toList)

def normalPair (pair : String × String) : String × String := (normalText pair.1, normalText pair.2)

def pairBytes (pair : String × String) : Nat := pair.1.utf8ByteSize + pair.2.utf8ByteSize

/-- The pairs of a form that is admitted, once their line ends are uniform. -/
structure AdmittedForm (pairs : List (String × String)) : Prop where
  present : pairs ≠ []
  names : (pairs.map Prod.fst).Nodup
  short : ∀ pair ∈ pairs, pair.1.utf8ByteSize ≤ nameLimit (isTargetName pair.1)
  few : ∀ selection, pairs.countP (fun pair => isTargetName pair.1 = selection) ≤ classLimit selection
  bytes : (pairs.map pairBytes).sum ≤ maxInputBytes

/-- The fields are those of the pairs. -/
def FieldsOf (fields : Fields) (pairs : List (String × String)) : Prop :=
  ∀ name value, fields.lookup name = some value ↔ (name, value) ∈ pairs

/-! ## Components -/

theorem byteAt_append (front text : List UInt8) (n : Nat) :
    byteAt (front ++ text) (front.length + n) = context .outOfRange text[n]? := by
  rw [byteAt, List.getElem?_append_right (Nat.le_add_right _ _), Nat.add_sub_cancel_left]

/-- One round of the loop on a byte that is no escape. -/
theorem decodeFrom_plain {byte : UInt8} (percent : byte ≠ 37) (front text output : List UInt8) :
    decodeFrom (front ++ byte :: text) front.length output
      = decodeFrom ((front ++ [byte]) ++ text) (front ++ [byte]).length
        (output ++ [if byte = 43 then 32 else byte]) := by
  have inside : front.length < (front ++ byte :: text).length := by
    rw [List.length_append, List.length_cons]
    omega
  have here : byteAt (front ++ byte :: text) front.length = .ok byte := byteAt_append front (byte :: text) 0
  have next : (front ++ [byte]).length = front.length + 1 := List.length_append
  rw [decodeFrom, if_pos inside, here, bind_ok, List.append_assoc, next]
  by_cases plus : byte = 43
  · rw [if_pos plus, if_pos plus]
    rfl
  · rw [if_neg plus, if_neg percent, if_neg plus]
    rfl

/-- One round of the loop on an escape. -/
theorem decodeFrom_escape (front : List UInt8) (high low : UInt8) (text output : List UInt8) :
    decodeFrom (front ++ 37 :: high :: low :: text) front.length output = (do
      let a ← context (.refused "invalid escape") (PercentEncoding.hexDigit high)
      let b ← context (.refused "invalid escape") (PercentEncoding.hexDigit low)
      decodeFrom ((front ++ [37, high, low]) ++ text) (front ++ [37, high, low]).length
        (output ++ [UInt8.ofNat (a * 16 + b)])) := by
  have inside : front.length < (front ++ 37 :: high :: low :: text).length := by
    rw [List.length_append, List.length_cons]
    omega
  have whole : front.length + 2 < (front ++ 37 :: high :: low :: text).length := by
    simp only [List.length_append, List.length_cons]
    omega
  have here : byteAt (front ++ 37 :: high :: low :: text) front.length = .ok 37 := byteAt_append front _ 0
  have first := byteAt_append front (37 :: high :: low :: text) 1
  have second := byteAt_append front (37 :: high :: low :: text) 2
  have next : (front ++ [37, high, low]).length = front.length + 3 := List.length_append
  rw [decodeFrom, if_pos inside, here, bind_ok, if_neg (by decide), if_pos rfl, ensure_pos whole, bind_ok,
    first, second, List.append_assoc, next]
  rfl

/-- An escape that the text ends in is refused. -/
theorem decodeFrom_truncated (front text output : List UInt8) (short : text.length < 2) :
    decodeFrom (front ++ 37 :: text) front.length output = .error (.refused "truncated escape") := by
  have inside : front.length < (front ++ 37 :: text).length := by
    rw [List.length_append, List.length_cons]
    omega
  have here : byteAt (front ++ 37 :: text) front.length = .ok 37 := byteAt_append front _ 0
  have cut : ¬ front.length + 2 < (front ++ 37 :: text).length := by
    rw [List.length_append, List.length_cons]
    omega
  rw [decodeFrom, if_pos inside, here, bind_ok, if_neg (by decide), if_pos rfl, ensure_neg cut]
  rfl

/-- The index loop is the structural decoder, and it refuses where that one fails. -/
theorem decodeFrom_append (front text output : List UInt8) :
    (∀ rest, PercentEncoding.decode text = some rest →
      decodeFrom (front ++ text) front.length output = .ok (output ++ rest))
    ∧ (PercentEncoding.decode text = none →
      ∃ reason, decodeFrom (front ++ text) front.length output = .error (.refused reason)) := by
  fun_induction PercentEncoding.decode text generalizing front output with
  | case1 =>
      refine ⟨fun rest h => ?_, fun h => (by cases h)⟩
      cases h
      rw [decodeFrom, if_neg (by rw [List.append_nil]; omega), List.append_nil]
  | case2 text ih =>
      rw [decodeFrom_plain (by decide)]
      refine ⟨fun rest h => ?_, fun h => ?_⟩
      · rcases Option.map_eq_some_iff.mp h with ⟨later, decoded, rfl⟩
        rw [(ih _ _).1 later decoded, List.append_assoc]
        rfl
      · exact (ih _ _).2 (Option.map_eq_none_iff.mp h)
  | case3 high low text _ ih =>
      rw [decodeFrom_escape]
      cases PercentEncoding.hexDigit high with
      | none => exact ⟨fun rest h => (by cases h), fun _ => ⟨_, rfl⟩⟩
      | some a =>
          cases PercentEncoding.hexDigit low with
          | none => exact ⟨fun rest h => (by cases h), fun _ => ⟨_, rfl⟩⟩
          | some b =>
              simp only [context, bind_ok, Option.bind_eq_bind, Option.bind_some, Option.pure_def]
              refine ⟨fun rest h => ?_, fun h => ?_⟩
              · rcases Option.bind_eq_some_iff.mp h with ⟨later, decoded, same⟩
                cases same
                rw [(ih _ _).1 later decoded, List.append_assoc]
                rfl
              · cases decoded : PercentEncoding.decode text with
                | none => exact (ih _ _).2 decoded
                | some later =>
                    rw [decoded] at h
                    cases h
  | case4 text notEscape _ =>
      rw [decodeFrom_truncated]
      · exact ⟨fun rest h => (by cases h), fun _ => ⟨_, rfl⟩⟩
      · rcases text with _ | ⟨high, _ | ⟨low, text⟩⟩
        · decide
        · exact Nat.lt_succ_self 1
        · exact absurd rfl (notEscape high low text)
  | case5 byte text plus percent ih =>
      rw [decodeFrom_plain percent, if_neg plus]
      refine ⟨fun rest h => ?_, fun h => ?_⟩
      · rcases Option.map_eq_some_iff.mp h with ⟨later, decoded, rfl⟩
        rw [(ih _ _).1 later decoded, List.append_assoc]
        rfl
      · exact (ih _ _).2 (Option.map_eq_none_iff.mp h)

theorem fromUTF8_bytes {bytes : List UInt8} {text : String} :
    String.fromUTF8? bytes.toByteArray = some text ↔ utf8Bytes text = bytes := by
  unfold String.fromUTF8?
  constructor
  · intro h
    split at h
    · cases h
      exact List.toList_data_toByteArray
    · cases h
  · rintro rfl
    have same : (utf8Bytes text).toByteArray = text.toByteArray := by
      apply ByteArray.ext
      rw [List.data_toByteArray]
      rfl
    rw [dif_pos (same ▸ text.isValidUTF8)]
    congr 1
    rw [← String.toByteArray_inj]
    exact same

/-- A component is accepted as the text that it spells. -/
theorem decodeComponent_ok {bytes : List UInt8} {text : String} :
    decodeComponent bytes = .ok text
      ↔ ∃ raw, PercentEncoding.Spells bytes (utf8Bytes raw) ∧ normalText raw = text := by
  have loop := decodeFrom_append [] bytes []
  simp only [List.nil_append, List.length_nil] at loop
  rw [decodeComponent, bind_eq_ok]
  constructor
  · rintro ⟨output, decoded, formed⟩
    simp only [formText, bind_eq_ok, context_eq_ok, fromUTF8_bytes] at formed
    rcases formed with ⟨raw, valid, result⟩
    cases result
    refine ⟨raw, ?_, rfl⟩
    cases h : PercentEncoding.decode bytes with
    | none =>
        rcases loop.2 h with ⟨reason, refused⟩
        rw [refused] at decoded
        cases decoded
    | some found =>
        rw [loop.1 found h] at decoded
        cases decoded
        rw [valid]
        exact PercentEncoding.decode_eq_some.mp h
  · rintro ⟨raw, spells, rfl⟩
    refine ⟨_, loop.1 _ (PercentEncoding.decode_eq_some.mpr spells), ?_⟩
    rw [formText, fromUTF8_bytes.mpr rfl]
    rfl

theorem decodeComponent_inside {bytes : List UInt8} : decodeComponent bytes ≠ .error .outOfRange := by
  have loop := decodeFrom_append [] bytes []
  simp only [List.nil_append, List.length_nil] at loop
  intro h
  rw [decodeComponent, bind_eq_error] at h
  rcases h with h | ⟨output, _, h⟩
  · cases decoded : PercentEncoding.decode bytes with
    | none =>
        rcases loop.2 decoded with ⟨reason, refused⟩
        rw [refused] at h
        cases h
    | some found =>
        rw [loop.1 found decoded] at h
        cases h
  · rw [formText, bind_eq_error] at h
    rcases h with h | ⟨text, _, h⟩
    · cases found : String.fromUTF8? output.toByteArray with
      | none =>
          rw [found] at h
          cases h
      | some text =>
          rw [found] at h
          cases h
    · cases h

/-! ## Pairs -/

/-- A component with an equals sign splits at the first one. -/
theorem split_component {component : List UInt8} {position : Nat}
    (h : component.findIdx? (· == 61) = some position) :
    component = component.take position ++ 61 :: component.drop (position + 1)
      ∧ 61 ∉ component.take position ∧ position + 1 ≤ component.length := by
  rw [List.findIdx?_eq_some_iff_getElem] at h
  rcases h with ⟨inside, equals, earlier⟩
  refine ⟨?_, fun member => ?_, inside⟩
  · have same : component[position] = 61 := by simpa using equals
    rw [← same, List.getElem_cons_drop, List.take_append_drop]
  · rcases List.mem_take_iff_getElem.mp member with ⟨i, before, here⟩
    have bound : i < position := by omega
    have other := earlier i bound
    rw [here] at other
    exact other rfl

/-- The first equals sign of a component stands after its name. -/
theorem findIdx_component {name : List UInt8} (free : 61 ∉ name) (value : List UInt8) :
    (name ++ 61 :: value).findIdx? (· == 61) = some name.length := by
  rw [List.findIdx?_append]
  have none_before : name.findIdx? (· == 61) = none := by
    rw [List.findIdx?_eq_none_iff]
    intro byte member
    rw [beq_eq_false_iff_ne]
    rintro rfl
    exact free member
  rw [none_before]
  simp [List.findIdx?_cons]

/-- Which pairs extend a form. -/
structure Extends (form : Fields) (decoded : Nat) (pair : String × String) : Prop where
  fresh : pair.1 ∉ form
  short : pair.1.utf8ByteSize ≤ nameLimit (isTargetName pair.1)
  room : classCount form (isTargetName pair.1) < classLimit (isTargetName pair.1)
  bytes : decoded + pairBytes pair ≤ maxInputBytes

/-- No class of fields is over its limit. -/
def WithinClasses (form : Fields) : Prop := ∀ selection, classCount form selection ≤ classLimit selection

theorem classes_card (form : Fields) : form.keys.card = classCount form true + classCount form false := by
  have split := Finset.card_filter_add_card_filter_not (s := form.keys) fun name => isTargetName name = true
  simp only [Bool.not_eq_true] at split
  exact split.symm

/-- One pair is accepted where its component spells it and it extends the form. -/
theorem decodePair_ok {form : Fields} {decoded : Nat} {component : List UInt8} {state : Fields × Nat}
    (within : WithinClasses form) (free : 38 ∉ component) :
    decodePair (form, decoded) component = .ok state
      ↔ ∃ raw, SpellsPair component raw ∧ Extends form decoded (normalPair raw)
        ∧ state = (form.insertPair (normalPair raw), decoded + pairBytes (normalPair raw)) := by
  constructor
  · intro h
    simp only [decodePair, bind_eq_ok, ensure_eq_ok, context_eq_ok, decodeComponent_ok] at h
    rcases h with ⟨_, _, position, found, _, _, key, ⟨name, nameSpelled, rfl⟩, value,
      ⟨text, valueSpelled, rfl⟩, _, bytes, _, short, _, room, _, fresh, result⟩
    cases result
    rcases split_component found with ⟨split, noEquals, _⟩
    refine ⟨(name, text), ⟨_, _, split, noEquals, fun member => free ?_, fun member => free ?_,
      nameSpelled, valueSpelled⟩, ⟨fresh, short, room, bytes⟩, rfl⟩
    · exact List.mem_of_mem_take member
    · exact List.mem_of_mem_drop member
  · rintro ⟨raw, ⟨name, value, rfl, noEquals, _, _, nameSpelled, valueSpelled⟩, extends', rfl⟩
    have card : form.keys.card < 39 := by
      have all := classes_card form
      have targets := within true
      have others := within false
      have room := extends'.room
      cases selection : isTargetName (normalPair raw).1 with
      | true =>
          rw [selection] at room
          simp only [classLimit, Bool.false_eq_true, if_true, if_false] at *
          omega
      | false =>
          rw [selection] at room
          simp only [classLimit, Bool.false_eq_true, if_true, if_false] at *
          omega
    have position := findIdx_component noEquals value
    have long : name.length + 1 ≤ (name ++ 61 :: value).length := by
      rw [List.length_append, List.length_cons]
      omega
    have front : (name ++ 61 :: value).take name.length = name := List.take_left
    have back : (name ++ 61 :: value).drop (name.length + 1) = value := by
      rw [List.drop_append]
      simp
    have key : decodeComponent name = .ok (normalPair raw).1 := decodeComponent_ok.mpr ⟨_, nameSpelled, rfl⟩
    have bytes : decoded + ((normalPair raw).1.utf8ByteSize + (normalPair raw).2.utf8ByteSize) ≤ maxInputBytes :=
      extends'.bytes
    have text : decodeComponent value = .ok (normalPair raw).2 := decodeComponent_ok.mpr ⟨_, valueSpelled, rfl⟩
    rw [decodePair]
    simp only [ensure_pos card, bind_ok, position, context, ensure_pos long, front, back, key, text,
      ensure_pos bytes, ensure_pos extends'.short, ensure_pos extends'.room,
      ensure_pos extends'.fresh]
    rfl

/-! ## Bodies -/

theorem insertPair_keys (form : Fields) (pair : String × String) :
    (form.insertPair pair).keys = insert pair.1 form.keys := by
  ext name
  rw [Finmap.mem_keys, Finset.mem_insert, Finmap.mem_keys, Fields.insertPair, Finmap.mem_insert]

theorem classCount_insert {form : Fields} {pair : String × String} (fresh : pair.1 ∉ form)
    (selection : Bool) : classCount (form.insertPair pair) selection
      = classCount form selection + if isTargetName pair.1 = selection then 1 else 0 := by
  have outside : pair.1 ∉ form.keys := fun member => fresh (Finmap.mem_keys.mp member)
  rw [classCount, insertPair_keys, Finset.filter_insert]
  split
  · rw [Finset.card_insert_of_notMem fun member => outside (Finset.mem_of_mem_filter _ member)]
    rfl
  · rfl

theorem Extends.within {form : Fields} {decoded : Nat} {pair : String × String}
    (extends' : Extends form decoded pair) (within : WithinClasses form) :
    WithinClasses (form.insertPair pair) := by
  intro selection
  have before := within selection
  have room := extends'.room
  rw [classCount_insert extends'.fresh]
  split
  · rename_i same
    rw [same] at room
    omega
  · exact before

/-- Pairs that extend a form one after the other. -/
def ExtendsAll (form : Fields) (decoded : Nat) : List (String × String) → Prop
  | [] => True
  | pair :: rest => Extends form decoded pair ∧ ExtendsAll (form.insertPair pair) (decoded + pairBytes pair) rest

/-- What pairs must satisfy to extend a form. -/
structure Admits (form : Fields) (decoded : Nat) (pairs : List (String × String)) : Prop where
  fresh : ∀ pair ∈ pairs, pair.1 ∉ form
  names : (pairs.map Prod.fst).Nodup
  short : ∀ pair ∈ pairs, pair.1.utf8ByteSize ≤ nameLimit (isTargetName pair.1)
  few : ∀ selection, classCount form selection
    + pairs.countP (fun pair => isTargetName pair.1 = selection) ≤ classLimit selection
  bytes : decoded + (pairs.map pairBytes).sum ≤ maxInputBytes

theorem extendsAll_iff {form : Fields} {decoded : Nat} {pairs : List (String × String)}
    (within : WithinClasses form) (bounded : decoded ≤ maxInputBytes) :
    ExtendsAll form decoded pairs ↔ Admits form decoded pairs := by
  induction pairs generalizing form decoded with
  | nil =>
      refine ⟨fun _ => ⟨fun _ h => (by cases h), List.nodup_nil, fun _ h => (by cases h),
        fun selection => within selection, bounded⟩, fun _ => trivial⟩
  | cons pair rest ih =>
      constructor
      · rintro ⟨first, others⟩
        have later := (ih (first.within within) first.bytes).mp others
        have absent : ∀ other ∈ rest, other.1 ≠ pair.1 ∧ other.1 ∉ form := by
          intro other member
          have fresh := later.fresh other member
          rw [Fields.insertPair, Finmap.mem_insert, not_or] at fresh
          exact fresh
        refine ⟨?_, ?_, ?_, fun selection => ?_, ?_⟩
        · intro other member
          rcases List.mem_cons.mp member with rfl | member
          · exact first.fresh
          · exact (absent other member).2
        · rw [List.map_cons, List.nodup_cons]
          refine ⟨fun member => ?_, later.names⟩
          rcases List.mem_map.mp member with ⟨other, here, same⟩
          exact (absent other here).1 same
        · intro other member
          rcases List.mem_cons.mp member with rfl | member
          · exact first.short
          · exact later.short other member
        · have few := later.few selection
          rw [classCount_insert first.fresh] at few
          rw [List.countP_cons]
          simp only [decide_eq_true_eq]
          omega
        · have bytes := later.bytes
          rw [List.map_cons, List.sum_cons]
          omega
      · intro admits
        have names := admits.names
        rw [List.map_cons, List.nodup_cons] at names
        have bytes := admits.bytes
        rw [List.map_cons, List.sum_cons] at bytes
        have room := admits.few (isTargetName pair.1)
        rw [List.countP_cons_of_pos (by simp)] at room
        have first : Extends form decoded pair := by
          refine ⟨admits.fresh pair List.mem_cons_self, admits.short pair List.mem_cons_self, by omega, ?_⟩
          omega
        refine ⟨first, (ih (first.within within) first.bytes).mpr ⟨?_, names.2, ?_, fun selection => ?_, ?_⟩⟩
        · intro other member
          rw [Fields.insertPair, Finmap.mem_insert, not_or]
          refine ⟨fun same => names.1 ?_, admits.fresh other (List.mem_cons_of_mem _ member)⟩
          exact List.mem_map.mpr ⟨other, member, same⟩
        · exact fun other member => admits.short other (List.mem_cons_of_mem _ member)
        · have few := admits.few selection
          rw [List.countP_cons] at few
          simp only [decide_eq_true_eq] at few
          rw [classCount_insert first.fresh]
          omega
        · omega

/-- Components are accepted one after the other. -/
theorem decodePairs_ok {form : Fields} {decoded : Nat} {components : List (List UInt8)}
    {state : Fields × Nat} (within : WithinClasses form) (free : ∀ component ∈ components, 38 ∉ component) :
    components.foldlM decodePair (form, decoded) = .ok state
      ↔ ∃ raws, List.Forall₂ SpellsPair components raws ∧ ExtendsAll form decoded (raws.map normalPair)
        ∧ state = ((raws.map normalPair).foldl Fields.insertPair form,
          decoded + ((raws.map normalPair).map pairBytes).sum) := by
  induction components generalizing form decoded with
  | nil =>
      constructor
      · intro h
        cases h
        exact ⟨[], List.Forall₂.nil, trivial, rfl⟩
      · rintro ⟨raws, spelled, _, rfl⟩
        cases spelled
        rfl
  | cons component rest ih =>
      have here := free component List.mem_cons_self
      have others : ∀ component ∈ rest, 38 ∉ component :=
        fun component member => free component (List.mem_cons_of_mem _ member)
      rw [List.foldlM_cons, bind_eq_ok]
      constructor
      · rintro ⟨middle, first, h⟩
        rcases (decodePair_ok within here).mp first with ⟨raw, spelled, extends', rfl⟩
        rcases (ih (extends'.within within) others).mp h with ⟨raws, all, later, rfl⟩
        refine ⟨raw :: raws, List.Forall₂.cons spelled all, ⟨extends', later⟩, ?_⟩
        rw [List.map_cons, List.foldl_cons, List.map_cons, List.sum_cons, ← Nat.add_assoc]
      · rintro ⟨raws, spelled, extends', rfl⟩
        cases spelled with
        | cons first all =>
            refine ⟨_, (decodePair_ok within here).mpr ⟨_, first, extends'.1, rfl⟩, ?_⟩
            refine (ih (extends'.1.within within) others).mpr ⟨_, all, extends'.2, ?_⟩
            rw [List.map_cons, List.foldl_cons, List.map_cons, List.sum_cons, ← Nat.add_assoc]

/-- The parts between separators have none. -/
theorem splitOn_free {separator : UInt8} {bytes part : List UInt8} (member : part ∈ bytes.splitOn separator) :
    separator ∉ part := by
  induction bytes generalizing part with
  | nil =>
      rw [List.splitOn_nil, List.mem_singleton] at member
      rw [member]
      exact List.not_mem_nil
  | cons byte rest ih =>
      rw [List.splitOn_cons_eq_if_modifyHead] at member
      split at member
      · rcases List.mem_cons.mp member with rfl | member
        · exact List.not_mem_nil
        · exact ih member
      · rename_i other
        cases parts : rest.splitOn separator with
        | nil => exact absurd parts (List.splitOn_ne_nil _ _)
        | cons first later =>
            rw [parts, List.modifyHead_cons] at member
            rcases List.mem_cons.mp member with rfl | member
            · intro here
              rcases List.mem_cons.mp here with rfl | here
              · exact other (beq_self_eq_true _)
              · exact ih (parts ▸ List.mem_cons_self) here
            · exact ih (parts ▸ List.mem_cons_of_mem _ member)

theorem SpellsPair.free {component : List UInt8} {pair : String × String} (h : SpellsPair component pair) :
    38 ∉ component := by
  rcases h with ⟨name, value, rfl, _, nameFree, valueFree, _⟩
  intro member
  rcases List.mem_append.mp member with member | member
  · exact nameFree member
  · rcases List.mem_cons.mp member with impossible | member
    · exact absurd impossible (by decide)
    · exact valueFree member

theorem utf8Bytes_inj {text other : String} (h : utf8Bytes text = utf8Bytes other) : text = other := by
  rw [← String.toByteArray_inj]
  exact ByteArray.ext (Array.toList_inj.mp h)

/-- A component spells one pair. -/
theorem SpellsPair.unique {component : List UInt8} {pair other : String × String}
    (h : SpellsPair component pair) (again : SpellsPair component other) : pair = other := by
  rcases h with ⟨name, value, rfl, free, _, _, nameSpelled, valueSpelled⟩
  rcases again with ⟨name', value', same, free', _, _, nameSpelled', valueSpelled'⟩
  have position := findIdx_component free value
  rw [same, findIdx_component free' value'] at position
  have parts := List.append_inj same.symm (Option.some.inj position)
  rcases parts with ⟨rfl, rest⟩
  cases rest
  rw [← PercentEncoding.decode_eq_some] at nameSpelled valueSpelled nameSpelled' valueSpelled'
  rw [nameSpelled] at nameSpelled'
  rw [valueSpelled] at valueSpelled'
  exact Prod.ext (utf8Bytes_inj (Option.some.inj nameSpelled')) (utf8Bytes_inj (Option.some.inj valueSpelled'))

/-- A body spells one nonempty form. -/
theorem SpellsForm.unique {bytes : List UInt8} {pairs others : List (String × String)}
    (h : SpellsForm bytes pairs) (present : pairs ≠ []) (again : SpellsForm bytes others)
    (present' : others ≠ []) : pairs = others := by
  rcases h with ⟨components, rfl, spelled⟩
  rcases again with ⟨components', same, spelled'⟩
  have split : ∀ {components : List (List UInt8)} {pairs : List (String × String)},
      List.Forall₂ SpellsPair components pairs → pairs ≠ [] →
        ([38].intercalate components).splitOn 38 = components := by
    intro components pairs spelled present
    refine List.splitOn_intercalate 38 (fun component member => ?_) ?_
    · rcases Checked.forall₂_mem_left spelled member with ⟨pair, _, spells⟩
      exact spells.free
    · rintro rfl
      cases spelled
      exact present rfl
  have parts := split spelled present
  rw [same, split spelled' present'] at parts
  rw [parts] at spelled'
  have functional : Relator.RightUnique SpellsPair := fun _ _ _ => SpellsPair.unique
  exact functional.forall₂ spelled spelled'

theorem admits_start {pairs : List (String × String)} (present : pairs ≠ []) :
    Admits ∅ 0 pairs ↔ AdmittedForm pairs := by
  have none_before : ∀ selection, classCount ∅ selection = 0 := fun selection => rfl
  constructor
  · intro admits
    refine ⟨present, admits.names, admits.short, fun selection => ?_, ?_⟩
    · have few := admits.few selection
      rw [none_before] at few
      omega
    · have bytes := admits.bytes
      omega
  · intro admitted
    refine ⟨fun pair _ => Finmap.notMem_empty, admitted.names, admitted.short, fun selection => ?_, ?_⟩
    · have few := admitted.few selection
      rw [none_before]
      omega
    · have bytes := admitted.bytes
      omega

/-- Folding pairs with distinct names gives their fields, and nothing else does. -/
theorem fieldsOf_iff {pairs : List (String × String)} (names : (pairs.map Prod.fst).Nodup) {fields : Fields} :
    FieldsOf fields pairs ↔ fields = pairs.foldl Fields.insertPair ∅ := by
  have own : FieldsOf (pairs.foldl Fields.insertPair ∅) pairs := by
    intro name value
    refine ⟨fun h => ?_, fun member => Fields.lookup_foldl_insertPair names member⟩
    by_cases here : name ∈ pairs.map Prod.fst
    · rcases List.mem_map.mp here with ⟨pair, member, rfl⟩
      rw [Fields.lookup_foldl_insertPair names member] at h
      cases h
      exact member
    · rw [Fields.lookup_foldl_insertPair_of_notMem here, Finmap.lookup_empty] at h
      cases h
  constructor
  · intro h
    refine Finmap.ext_lookup fun name => Option.ext fun value => ?_
    rw [h name value, own name value]
  · rintro rfl
    exact own

/-- A body is accepted where it spells an admissible form, as the fields of that form. -/
theorem decodeForm_ok {bytes : List UInt8} {result : Fields} :
    decodeForm bytes = .ok result ↔ ∃ raws, SpellsForm bytes raws ∧ bytes.length ≤ maxEncodedFormBytes
      ∧ AdmittedForm (raws.map normalPair) ∧ FieldsOf result (raws.map normalPair) := by
  have start : WithinClasses ∅ := fun selection => Nat.zero_le _
  constructor
  · intro h
    simp only [decodeForm, bind_eq_ok, ensure_eq_ok] at h
    rcases h with ⟨_, short, ⟨state, decoded⟩, folded, same⟩
    cases same
    rcases (decodePairs_ok start fun component member => splitOn_free member).mp folded with
      ⟨raws, spelled, extends', same⟩
    cases same
    have present : raws.map normalPair ≠ [] := by
      intro empty
      rw [List.map_eq_nil_iff] at empty
      rw [empty] at spelled
      exact List.splitOn_ne_nil _ _ (List.forall₂_nil_right_iff.mp spelled)
    have admits := (extendsAll_iff start (Nat.zero_le _)).mp extends'
    refine ⟨raws, ⟨_, (List.intercalate_splitOn 38).symm, spelled⟩, short,
      (admits_start present).mp admits, (fieldsOf_iff admits.names).mpr rfl⟩
  · rintro ⟨raws, ⟨components, rfl, spelled⟩, short, admitted, fields⟩
    have present : components ≠ [] := by
      rintro rfl
      cases spelled
      exact admitted.present rfl
    have free : ∀ component ∈ components, 38 ∉ component := by
      intro component member
      rcases Checked.forall₂_mem_left spelled member with ⟨raw, _, spells⟩
      exact spells.free
    have extends' := (extendsAll_iff start (Nat.zero_le _)).mpr ((admits_start admitted.present).mpr admitted)
    rw [decodeForm, ensure_pos short, bind_ok, List.splitOn_intercalate 38 free present,
      (decodePairs_ok start free).mpr ⟨raws, spelled, extends', rfl⟩, bind_ok,
      (fieldsOf_iff admitted.names).mp fields]
    rfl

/-! ## Indices -/

theorem decodePair_inside (state : Fields × Nat) (component : List UInt8) :
    decodePair state component ≠ .error .outOfRange := by
  intro h
  rcases state with ⟨form, decoded⟩
  simp only [decodePair, bind_eq_error, ensure_eq_error, context_eq_ok] at h
  rcases h with ⟨_, impossible⟩ | ⟨_, _, h | ⟨position, found, ⟨outside, _⟩ | ⟨_, _, h | ⟨key, _, h | ⟨value, _,
    ⟨_, impossible⟩ | ⟨_, _, ⟨_, impossible⟩ | ⟨_, _, ⟨_, impossible⟩ | ⟨_, _, ⟨_, impossible⟩ | ⟨_, _, h⟩⟩⟩⟩⟩⟩⟩⟩⟩
  · cases impossible
  · cases equals : component.findIdx? (· == 61) with
    | none =>
        rw [equals] at h
        cases h
    | some position =>
        rw [equals] at h
        cases h
  · exact outside (split_component found).2.2
  · exact decodeComponent_inside h
  · exact decodeComponent_inside h
  · cases impossible
  · cases impossible
  · cases impossible
  · cases impossible
  · cases h

theorem decodePairs_inside (state : Fields × Nat) (components : List (List UInt8)) :
    components.foldlM decodePair state ≠ .error .outOfRange := by
  induction components generalizing state with
  | nil =>
      intro h
      cases h
  | cons component rest ih =>
      intro h
      rw [List.foldlM_cons, bind_eq_error] at h
      rcases h with h | ⟨next, _, h⟩
      · exact decodePair_inside state component h
      · exact ih next h

theorem decodeForm_inside (bytes : List UInt8) : decodeForm bytes ≠ .error .outOfRange := by
  intro h
  simp only [decodeForm, bind_eq_error, ensure_eq_error] at h
  rcases h with ⟨_, impossible⟩ | ⟨_, _, h | ⟨_, _, h⟩⟩
  · cases impossible
  · exact decodePairs_inside _ _ h
  · cases h

/-! ## Forms -/

/-- For every nonempty form whose names stay distinct under uniform line ends, within its limits,
every spelling decodes to the form with uniform line ends; every accepted body is such a
spelling; and no index is out of range. -/
theorem form_decoding_exact (bytes : List UInt8) :
    (∀ raws, SpellsForm bytes raws → bytes.length ≤ maxEncodedFormBytes → AdmittedForm (raws.map normalPair) →
      ∃ fields, decodeForm bytes = .ok fields ∧ FieldsOf fields (raws.map normalPair))
    ∧ (∀ fields, decodeForm bytes = .ok fields → ∃ raws, SpellsForm bytes raws
      ∧ bytes.length ≤ maxEncodedFormBytes ∧ AdmittedForm (raws.map normalPair)
      ∧ FieldsOf fields (raws.map normalPair))
    ∧ decodeForm bytes ≠ .error .outOfRange := by
  refine ⟨fun raws spells short admitted => ?_, fun fields h => decodeForm_ok.mp h, decodeForm_inside bytes⟩
  have fields := (fieldsOf_iff admitted.names).mpr rfl
  exact ⟨_, decodeForm_ok.mpr ⟨raws, spells, short, admitted, fields⟩, fields⟩

/-- A plus sign and an escaped line end. -/
theorem form_decoding_exact_sample :
    ∃ fields, decodeForm [97, 61, 43, 37, 48, 100] = .ok fields ∧ FieldsOf fields [("a", " \n")] := by
  have spelled : SpellsForm [97, 61, 43, 37, 48, 100] [("a", " \r")] := by
    refine ⟨[[97, 61, 43, 37, 48, 100]], rfl, List.Forall₂.cons ?_ List.Forall₂.nil⟩
    have name : PercentEncoding.Spells [97] (utf8Bytes "a") := PercentEncoding.decode_eq_some.mp (by decide)
    have value : PercentEncoding.Spells [43, 37, 48, 100] (utf8Bytes " \r") :=
      PercentEncoding.decode_eq_some.mp (by decide)
    exact ⟨_, _, rfl, by decide, by decide, by decide, name, value⟩
  have normal : [(("a" : String), " \r")].map normalPair = [("a", " \n")] := by decide
  have admitted : AdmittedForm ([("a", " \r")].map normalPair) := by
    rw [normal]
    constructor <;> decide
  rcases (form_decoding_exact _).1 _ spelled (by decide) admitted with ⟨fields, decoded, same⟩
  exact ⟨fields, decoded, normal ▸ same⟩

/-- Two names that differ in their line ends, on which a form ends up with one field. -/
def twoLineEnds : List UInt8 := [97, 37, 48, 68, 61, 49, 38, 97, 37, 48, 65, 61, 50]

theorem twoLineEnds_spelled : PercentEncoding.Spells [97, 37, 48, 68] (utf8Bytes "a\r")
    ∧ PercentEncoding.Spells [97, 37, 48, 65] (utf8Bytes "a\n")
    ∧ PercentEncoding.Spells [49] (utf8Bytes "1") ∧ PercentEncoding.Spells [50] (utf8Bytes "2") := by
  simp only [← PercentEncoding.decode_eq_some]
  decide

/-- The empty body spells no fields and is refused; and two names are refused that only their
line ends tell apart. -/
theorem line_ends_collide : (SpellsForm [] [] ∧ ∀ fields, decodeForm [] ≠ .ok fields)
    ∧ SpellsForm twoLineEnds [("a\r", "1"), ("a\n", "2")] ∧ "a\r" ≠ "a\n"
    ∧ ∀ fields, decodeForm twoLineEnds ≠ .ok fields := by
  rcases twoLineEnds_spelled with ⟨return', feed, one, two⟩
  have spelled : SpellsForm twoLineEnds [("a\r", "1"), ("a\n", "2")] := by
    refine ⟨[[97, 37, 48, 68, 61, 49], [97, 37, 48, 65, 61, 50]], rfl, ?_⟩
    refine List.Forall₂.cons ?_ (List.Forall₂.cons ?_ List.Forall₂.nil)
    · exact ⟨_, _, rfl, by decide, by decide, by decide, return', one⟩
    · exact ⟨_, _, rfl, by decide, by decide, by decide, feed, two⟩
  refine ⟨⟨⟨[], rfl, List.Forall₂.nil⟩, fun fields h => ?_⟩, spelled, by decide, fun fields h => ?_⟩
  · have refused : decodeForm [] = .error (.refused "field missing value") := rfl
    rw [refused] at h
    cases h
  · rcases decodeForm_ok.mp h with ⟨raws, also, _, admitted, _⟩
    have same : raws = [("a\r", "1"), ("a\n", "2")] := by
      refine also.unique (fun empty => ?_) spelled (by decide)
      rw [empty] at admitted
      exact admitted.present rfl
    rw [same] at admitted
    exact absurd admitted.names (by decide)

end Noxide.Form
