import Noxide.Admission.Operations
import Noxide.Library.JsonText
import Noxide.Library.Paging
import Noxide.Store.Records

/-!
# Field conversions

The migration that turns a text field into an integer field or back.  Every stored record is
checked against the source schema, then rewritten page by page, then checked against the target
schema; the first record that does not fit undoes the migration.

Main results:

- Theorem {lit}`convertMigration_eq_ok`: what a conversion that succeeds did with every record.
- Theorem {lit}`conversion_lossless`: an integer field is turned into text without any change and
  back again, and canonical integers in a text field survive the way there and back.
-/

namespace Noxide

open Checked

/-! ## Records of a resource -/

/-- The key of a record within its resource. -/
def StoredRow.cursor (row : StoredRow) : Int := row.id

/-- The records of one resource in the order of their ids, which start at one. -/
structure RecordSet where
  rows : List StoredRow
  positive : ∀ row ∈ rows, 0 < row.cursor
  ascending : Paging.Ascending StoredRow.cursor rows

/-- The bytes of a text in JSON. -/
def jsonBytes (s : String) : Nat := ((JsonText.quote s.toList).map Char.utf8Size).sum

/-- The bytes of the JSON object of some fields. -/
def Fields.jsonBytes (fields : Fields) : Nat :=
  if fields.keys.card = 0 then 2
  else 1 + (fields.entries.map fun entry => Noxide.jsonBytes entry.1 + Noxide.jsonBytes entry.2 + 2).sum

/-- The bytes that a stored record may have. -/
def maxStoredBytes : Nat := 32768

/-- The fields of a record; an oversized text reads as NULL. -/
def rowFields (row : StoredRow) : Result Fields := do
  check "error occurred while decoding column 0: unexpected null; try decoding as an Option"
    (row.fields.jsonBytes ≤ maxStoredBytes)
  return row.fields

/-! ## Validation -/

def canonicalTuple (r : Resource) (tuple : MembershipUnique) (fields : Fields) :
    Result (String × String) := do
  let (reference, account) ← uniqueFields r tuple
  let a ← need "missing membership reference" (fields.lookup tuple.reference)
  let b ← need "missing membership account" (fields.lookup tuple.account)
  validateValue reference a
  validateValue account b
  return (a, b)

def validateRow (r : Resource) (row : StoredRow) : Result Unit := do
  let fields ← rowFields row
  validateFields r fields
  r.unique.forM fun tuple => do
    let _ ← canonicalTuple r tuple fields
    return ()

/-- The rows of a page whose bytes still fit. -/
def affordable : Nat → List StoredRow → List StoredRow
  | _, [] => []
  | total, row :: rest =>
      if total + row.fields.jsonBytes + 20 ≤ 60000 then
        row :: affordable (total + row.fields.jsonBytes + 20) rest
      else []

/-- A page of the validation: the first row, and what fits of the next ones. -/
def validationPage (rows : List StoredRow) : List StoredRow :=
  match rows.take 64 with
  | [] => []
  | row :: rest => row :: affordable (row.fields.jsonBytes + 20) rest

theorem affordable_first (total : Nat) (rows : List StoredRow) : affordable total rows <+: rows := by
  induction rows generalizing total with
  | nil => exact List.prefix_refl []
  | cons row rows ih =>
      rw [affordable]
      split
      · exact List.prefix_cons_inj row |>.mpr (ih _)
      · exact List.nil_prefix

def validationCut : Paging.Cut StoredRow where
  page := validationPage
  first := by
    intro rows
    unfold validationPage
    split
    · exact List.nil_prefix
    · next row rest page =>
      have inside : row :: affordable (row.fields.jsonBytes + 20) rest <+: rows.take 64 := by
        rw [page]
        exact (List.prefix_cons_inj row).mpr (affordable_first _ rest)
      exact inside.trans (List.take_prefix 64 rows)
  some_row := by
    intro rows some_row none
    unfold validationPage at none
    split at none
    · next empty =>
      rcases List.take_eq_nil_iff.mp empty with zero | nil
      · cases zero
      · exact some_row nil
    · cases none

def validateResourceRows (r : Resource) (rows : List StoredRow) : Result Unit :=
  Paging.scan StoredRow.cursor validationCut (validateRow r) 0 rows

theorem validateResourceRows_eq (r : Resource) (records : RecordSet) :
    validateResourceRows r records.rows = records.rows.forM (validateRow r) :=
  Paging.scan_eq records.positive records.ascending

/-! ## Transformation -/

def transformRow (transform : Fields → Result Fields) (row : StoredRow) : Result StoredRow := do
  let fields ← rowFields row
  let fields ← transform fields
  check "migrated record limit" (fields.jsonBytes ≤ maxStoredBytes)
  return { row with fields := fields }

def transformRecords (transform : Fields → Result Fields) (rows : List StoredRow) :
    Result (List StoredRow) :=
  Paging.update StoredRow.cursor (Paging.Cut.limit StoredRow 63)
    (Failure.message "record disappeared during migration") (transformRow transform) 0 rows

theorem transformRow_eq_ok {transform : Fields → Result Fields} {row next : StoredRow} :
    transformRow transform row = .ok next ↔ row.fields.jsonBytes ≤ maxStoredBytes ∧
      ∃ fields, transform row.fields = .ok fields ∧ fields.jsonBytes ≤ maxStoredBytes ∧
        next = { row with fields := fields } := by
  simp only [transformRow, rowFields, bind_eq_ok, check, ensure_eq_ok, exists_const]
  constructor
  · rintro ⟨fields, ⟨bounded, same⟩, fields', transformed, bounded', result⟩
    cases same
    cases result
    exact ⟨bounded, fields', transformed, bounded', rfl⟩
  · rintro ⟨bounded, fields, transformed, bounded', rfl⟩
    exact ⟨row.fields, ⟨bounded, rfl⟩, fields, transformed, bounded', rfl⟩

theorem transformRecords_eq (transform : Fields → Result Fields) (records : RecordSet) :
    transformRecords transform records.rows = records.rows.mapM (transformRow transform) := by
  refine Paging.update_eq (fun row next moved => ?_) records.positive records.ascending
  rcases transformRow_eq_ok.mp moved with ⟨_, fields, _, _, rfl⟩
  rfl

/-! ## Conversion -/

inductive Conversion where
  | textToInteger
  | integerToText
  deriving DecidableEq, Repr

/-- The kinds a conversion leads from and to. -/
def Conversion.Fits : Conversion → FieldKind → FieldKind → Bool
  | textToInteger, .text, .integer _ _ => true
  | integerToText, .integer _ _, .text => true
  | _, _, _ => false

/-- The failure for a value that is no integer. -/
def Conversion.refusal : Conversion → String
  | textToInteger => "text cannot be converted losslessly to integer"
  | integerToText => "invalid stored integer"

def Conversion.value (conversion : Conversion) (value : String) : Result String := do
  let n ← need conversion.refusal (Decimal.parseI64 value)
  return toString n

/-- A permitted absence stays. -/
def convertValue (destination : TextField) (conversion : Conversion) (value : String) :
    Result String :=
  if value = "" ∧ destination.optional = true then .ok value else conversion.value value

/-- Rewrite one field of a record. -/
def convertFields (destination : TextField) (name : String) (conversion : Conversion)
    (fields : Fields) : Result Fields := do
  let value ← need "stored field is missing" (fields.lookup name)
  let value ← convertValue destination conversion value
  let _ ← (destination.canonical value).mapError Failure.message
  return fields.insert name value

/-- The first field of the name gives way to another. -/
def replaceField (name : String) (destination : TextField) : List TextField → List TextField
  | [] => []
  | f :: rest => if f.name = name then destination :: rest else f :: replaceField name destination rest

/-- The check of a migration whose one operation converts a field, for resources in normal form. -/
def convertTransition (source target : Resource) (name : String) (conversion : Conversion) :
    Result TextField := do
  let before ← need "unknown migration field" (source.field? name)
  let destination ← need "unknown migration field" (target.field? name)
  check "incompatible conversion" (conversion.Fits before.kind destination.kind = true)
  check "migration operations do not produce the target schema"
    ({ source with fields := replaceField name destination source.fields } = target)
  return destination

/-- The migration of a resource whose one operation converts a field. -/
def convertMigration (source target : Resource) (name : String) (conversion : Conversion)
    (rows : List StoredRow) : Result (List StoredRow) := do
  let destination ← convertTransition source target name conversion
  validateResourceRows source rows
  let rows ← transformRecords (convertFields destination name conversion) rows
  validateResourceRows target rows
  return rows

/-! ## What a conversion does -/

section Facts

variable {source target : Resource} {name : String} {conversion : Conversion}

theorem validateResourceRows_iff {r : Resource} {records : RecordSet} :
    validateResourceRows r records.rows = .ok () ↔
      ∀ row ∈ records.rows, validateRow r row = .ok () := by
  rw [validateResourceRows_eq, forM_eq_ok]

theorem validateRow_fields {r : Resource} {row : StoredRow} (valid : validateRow r row = .ok ()) :
    validateFields r row.fields = .ok () := by
  rcases bind_eq_ok.mp valid with ⟨fields, read, rest⟩
  rcases bind_eq_ok.mp read with ⟨_, _, same⟩
  cases same
  rcases bind_eq_ok.mp rest with ⟨_, checked, _⟩
  exact checked

theorem convertTransition_eq_ok {destination : TextField} :
    convertTransition source target name conversion = .ok destination ↔
      ∃ before, source.field? name = some before ∧ target.field? name = some destination ∧
        conversion.Fits before.kind destination.kind = true ∧
        { source with fields := replaceField name destination source.fields } = target := by
  simp only [convertTransition, bind_eq_ok, need, context_eq_ok, check, ensure_eq_ok, exists_const]
  constructor
  · rintro ⟨before, here, after, there, fits, same, result⟩
    cases result
    exact ⟨before, here, there, fits, same⟩
  · rintro ⟨before, here, there, fits, same⟩
    exact ⟨before, here, destination, there, fits, same, rfl⟩

theorem convertFields_eq_ok {destination : TextField} {fields next : Fields} :
    convertFields destination name conversion fields = .ok next ↔
      ∃ value, fields.lookup name = some value ∧ ∃ converted,
        convertValue destination conversion value = .ok converted ∧
        (∃ canonical, destination.canonical converted = .ok canonical) ∧
        next = fields.insert name converted := by
  simp only [convertFields, bind_eq_ok, need, context_eq_ok, mapError_eq_ok]
  constructor
  · rintro ⟨value, found, converted, same, canonical, accepted, result⟩
    cases result
    exact ⟨value, found, converted, same, ⟨canonical, accepted⟩, rfl⟩
  · rintro ⟨value, found, converted, same, ⟨canonical, accepted⟩, rfl⟩
    exact ⟨value, found, converted, same, canonical, accepted, rfl⟩

theorem Conversion.value_eq_ok {value converted : String} :
    conversion.value value = .ok converted ↔
      ∃ n, Decimal.parseI64 value = some n ∧ converted = toString n := by
  simp only [Conversion.value, bind_eq_ok, need, context_eq_ok]
  constructor
  · rintro ⟨n, parsed, same⟩
    cases same
    exact ⟨n, parsed, rfl⟩
  · rintro ⟨n, parsed, rfl⟩
    exact ⟨n, parsed, rfl⟩

/-- Rewritten records keep their keys. -/
theorem RecordSet.transformed {transform : Fields → Result Fields} {records : RecordSet}
    {rows : List StoredRow} (moved : transformRecords transform records.rows = .ok rows) :
    ∃ after : RecordSet, after.rows = rows := by
  rw [transformRecords_eq] at moved
  have keeps : ∀ row next, transformRow transform row = .ok next → next.cursor = row.cursor := by
    intro row next one
    rcases transformRow_eq_ok.mp one with ⟨_, fields, _, _, rfl⟩
    rfl
  have keys := Paging.mapM_keys keeps moved
  refine ⟨⟨rows, fun row member => ?_, ?_⟩, rfl⟩
  · have same : row.cursor ∈ records.rows.map StoredRow.cursor := by
      rw [← keys]
      exact List.mem_map_of_mem member
    rcases List.mem_map.mp same with ⟨old, there, equal⟩
    rw [← equal]
    exact records.positive old there
  · rw [Paging.ascending_iff, keys, ← Paging.ascending_iff]
    exact records.ascending

/-- A conversion that succeeds checked every record, rewrote each and checked each again. -/
theorem convertMigration_eq_ok {records : RecordSet} {rows : List StoredRow} :
    convertMigration source target name conversion records.rows = .ok rows ↔
      ∃ destination, convertTransition source target name conversion = .ok destination ∧
        (∀ row ∈ records.rows, validateRow source row = .ok ()) ∧
        List.Forall₂ (fun row next =>
          transformRow (convertFields destination name conversion) row = .ok next) records.rows rows ∧
        (∃ after : RecordSet, after.rows = rows) ∧ ∀ row ∈ rows, validateRow target row = .ok () := by
  unfold convertMigration
  simp only [bind_eq_ok]
  constructor
  · rintro ⟨destination, transition, _, valid, next, moved, _, checked, same⟩
    cases same
    rcases RecordSet.transformed moved with ⟨after, rfl⟩
    rw [transformRecords_eq, mapM_eq_ok] at moved
    exact ⟨destination, transition, validateResourceRows_iff.mp valid, moved, ⟨after, rfl⟩,
      validateResourceRows_iff.mp checked⟩
  · rintro ⟨destination, transition, valid, moved, ⟨after, rfl⟩, checked⟩
    refine ⟨destination, transition, (), validateResourceRows_iff.mpr valid, after.rows, ?_, (),
      validateResourceRows_iff.mpr checked, rfl⟩
    rw [transformRecords_eq, mapM_eq_ok]
    exact moved

theorem Fields.insert_self {fields : Fields} {value : String}
    (found : fields.lookup name = some value) : fields.insert name value = fields := by
  refine Finmap.ext_lookup fun other => ?_
  by_cases same : other = name
  · subst same
    rw [Finmap.lookup_insert, found]
  · rw [Finmap.lookup_insert_of_ne fields same]

/-! ## The schemas of a conversion -/

theorem replaceField_cons (destination f : TextField) (fields : List TextField) :
    replaceField name destination (f :: fields) =
      if f.name = name then destination :: fields else f :: replaceField name destination fields := rfl

theorem find_replaceField {fields : List TextField} {destination : TextField} {other : String}
    (named : destination.name = name) (different : other ≠ name) :
    (replaceField name destination fields).find? (fun f => f.name == other) =
      fields.find? fun f => f.name == other := by
  induction fields with
  | nil => rfl
  | cons f fields ih =>
      rw [replaceField_cons]
      split
      · next here =>
        rw [List.find?_cons_of_neg, List.find?_cons_of_neg]
        · simpa [here] using Ne.symm different
        · simpa [named] using Ne.symm different
      · rw [List.find?_cons, List.find?_cons, ih]

theorem found_replaceField {fields : List TextField} {destination before : TextField}
    (named : destination.name = name) (found : fields.find? (fun f => f.name == name) = some before) :
    (replaceField name destination fields).find? (fun f => f.name == name) = some destination := by
  induction fields with
  | nil => cases found
  | cons f fields ih =>
      rw [replaceField_cons]
      split
      · exact List.find?_cons_of_pos (by simpa using named)
      · next different =>
        rw [List.find?_cons_of_neg (by simpa using different)] at found ⊢
        exact ih found

theorem length_replaceField {fields : List TextField} {destination : TextField} :
    (replaceField name destination fields).length = fields.length := by
  induction fields with
  | nil => rfl
  | cons f fields ih =>
      rw [replaceField_cons]
      split
      · rfl
      · rw [List.length_cons, List.length_cons, ih]

theorem mem_replaceField {fields : List TextField} {destination f : TextField}
    (member : f ∈ replaceField name destination fields) : f = destination ∨ f ∈ fields := by
  induction fields with
  | nil => cases member
  | cons g fields ih =>
      rw [replaceField_cons] at member
      split at member
      · rcases List.mem_cons.mp member with same | rest
        · exact .inl same
        · exact .inr (List.mem_cons_of_mem g rest)
      · rcases List.mem_cons.mp member with same | rest
        · exact .inr (same ▸ List.mem_cons_self)
        · exact (ih rest).imp_right (List.mem_cons_of_mem g)

/-- Putting the old field back undoes the replacement. -/
theorem replaceField_back {fields : List TextField} {destination before : TextField}
    (named : destination.name = name) (found : fields.find? (fun f => f.name == name) = some before) :
    replaceField name before (replaceField name destination fields) = fields := by
  induction fields with
  | nil => cases found
  | cons f fields ih =>
      rw [replaceField_cons]
      by_cases here : f.name = name
      · rw [List.find?_cons_of_pos (by simpa using here)] at found
        cases found
        rw [if_pos here, replaceField_cons, if_pos named]
      · rw [List.find?_cons_of_neg (by simpa using here)] at found
        rw [if_neg here, replaceField_cons, if_neg here, ih found]

/-- The two schemas of a conversion differ in one field, which can be put back. -/
structure Converts (source target : Resource) (name : String) (before destination : TextField) :
    Prop where
  found : source.field? name = some before
  named : destination.name = name
  replaced : { source with fields := replaceField name destination source.fields } = target

theorem convertTransition_converts {destination : TextField}
    (transition : convertTransition source target name conversion = .ok destination) :
    ∃ before, Converts source target name before destination ∧
      conversion.Fits before.kind destination.kind = true := by
  rcases convertTransition_eq_ok.mp transition with ⟨before, here, there, fits, same⟩
  exact ⟨before, ⟨here, (Resource.field?_mem there).2, same⟩, fits⟩

section Schemas

variable {before destination : TextField}

theorem Converts.target_found (converts : Converts source target name before destination) :
    target.field? name = some destination := by
  rcases converts with ⟨found, named, rfl⟩
  exact found_replaceField named found

theorem Converts.back (converts : Converts source target name before destination) :
    Converts target source name destination before := by
  refine ⟨converts.target_found, (Resource.field?_mem converts.found).2, ?_⟩
  rcases converts with ⟨found, named, rfl⟩
  simp only
  rw [replaceField_back named found]

theorem Converts.transition (converts : Converts source target name before destination)
    (fits : conversion.Fits before.kind destination.kind = true) :
    convertTransition source target name conversion = .ok destination :=
  convertTransition_eq_ok.mpr ⟨before, converts.found, converts.target_found, fits, converts.replaced⟩

/-- Unique tuples do not name the converted field. -/
theorem Converts.uniqueFields (converts : Converts source target name before destination)
    (plain : before.kind.isReference = false ∧ before.kind.isAccount = false)
    {tuple : MembershipUnique} {pair : TextField × TextField}
    (checked : uniqueFields source tuple = .ok pair) : uniqueFields target tuple = .ok pair := by
  have other : ∀ field, field ≠ name → membershipField target field = membershipField source field := by
    intro field different
    rcases converts with ⟨_, named, rfl⟩
    unfold membershipField Resource.field?
    rw [find_replaceField named different]
  rcases bind_eq_ok.mp checked with ⟨reference, first, rest⟩
  rcases bind_eq_ok.mp rest with ⟨account, second, rest⟩
  rcases bind_eq_ok.mp rest with ⟨_, shape, _⟩
  rcases ensure_eq_ok.mp shape with ⟨_, _, isReference, _, _, isAccount⟩
  have kept : ∀ field chosen, membershipField source field = .ok chosen →
      (chosen.kind.isReference = true ∨ chosen.kind.isAccount = true) → field ≠ name := by
    rintro field chosen found special rfl
    rcases bind_eq_ok.mp found with ⟨_, _, here⟩
    have same : chosen = before :=
      Option.some.inj ((context_eq_ok.mp here).symm.trans converts.found)
    rw [same, plain.1, plain.2] at special
    simp at special
  have one := other tuple.reference (kept _ reference first (.inl isReference))
  have two := other tuple.account (kept _ account second (.inr isAccount))
  rw [Noxide.uniqueFields, one, two]
  exact checked

/-- A record of the source schema whose field fits the target is one of the target schema. -/
theorem Converts.validateRow (converts : Converts source target name before destination)
    (plain : before.kind.isReference = false ∧ before.kind.isAccount = false) {row : StoredRow}
    {value : String} (found : row.fields.lookup name = some value)
    (canonical : destination.canonical value = .ok value)
    (valid : validateRow source row = .ok ()) : validateRow target row = .ok () := by
  have fields := validateFields_iff.mp (validateRow_fields valid)
  have fields' : validateFields target row.fields = .ok () := by
    rw [validateFields_iff]
    have same := converts.replaced
    refine ⟨?_, fun f member => ?_⟩
    · rw [fields.1, ← same]
      exact length_replaceField.symm
    · rw [← same] at member
      rcases mem_replaceField member with rfl | old
      · rw [converts.named]
        exact ⟨value, found, canonical⟩
      · exact fields.2 f old
  have unique : target.unique = source.unique := by rw [← converts.replaced]
  rcases bind_eq_ok.mp valid with ⟨read, readable, rest⟩
  rcases bind_eq_ok.mp readable with ⟨_, bounded, same⟩
  cases same
  rcases bind_eq_ok.mp rest with ⟨_, _, tuples⟩
  rw [forM_eq_ok] at tuples
  refine bind_eq_ok.mpr ⟨row.fields, readable, bind_eq_ok.mpr ⟨(), fields', ?_⟩⟩
  rw [unique, forM_eq_ok]
  intro tuple member
  rcases bind_eq_ok.mp (tuples tuple member) with ⟨pair, checked, _⟩
  rcases bind_eq_ok.mp checked with ⟨both, shape, rest⟩
  exact bind_eq_ok.mpr ⟨pair, bind_eq_ok.mpr ⟨both, converts.uniqueFields plain shape, rest⟩, rfl⟩

end Schemas

end Facts

/-! ## Printed integers -/

/-- A printed integer is canonical text. -/
theorem canonicalText_print (n : Int) : CanonicalText (toString n) := by
  have digits : ∀ m, ∀ c ∈ Nat.toDigits 10 m, isControl c = false := by
    intro m c member
    have digit := Nat.isDigit_of_mem_toDigits (by decide) (by decide) member
    simp only [Char.isDigit, Bool.and_eq_true, decide_eq_true_eq, UInt32.le_iff_toNat_le] at digit
    have code : c.toNat = c.val.toNat := rfl
    have low : '0'.val.toNat = 48 := rfl
    have high : '9'.val.toNat = 57 := rfl
    simp only [isControl, Bool.or_eq_false_iff, Bool.and_eq_false_iff, decide_eq_false_iff_not]
    omega
  cases n with
  | ofNat m =>
      refine ⟨?_, fun c member control => ?_⟩
      · rw [Int.ofNat_eq_natCast, Decimal.toList_print_ofNat]
        exact Nat.toDigits_ne_nil
      · rw [Int.ofNat_eq_natCast, Decimal.toList_print_ofNat] at member
        rw [digits m c member] at control
        cases control
  | negSucc m =>
      refine ⟨?_, fun c member control => ?_⟩
      · rw [Decimal.toList_print_negSucc]
        exact List.cons_ne_nil _ _
      · rw [Decimal.toList_print_negSucc] at member
        rcases List.mem_cons.mp member with rfl | digit
        · exact absurd control (by decide)
        · rw [digits _ c digit] at control
          cases control

theorem print_ne_empty (n : Int) : toString n ≠ "" := by
  intro empty
  have text := (canonicalText_print n).1
  rw [empty] at text
  exact text rfl

theorem TextField.canonical_text {f : TextField} (text : f.kind = .text) {value : String}
    (canonical : CanonicalText value) :
    (∃ result, f.canonical value = .ok result) ↔ f.canonical value = .ok value := by
  refine ⟨?_, fun accepted => ⟨value, accepted⟩⟩
  rintro ⟨result, accepted⟩
  have upload : ¬ f.kind.isUploadHandle = true := by simp [text, FieldKind.isUploadHandle]
  have some_text : ¬ (f.optional = true ∧ value = "") := by
    rintro ⟨_, rfl⟩
    exact canonical.1 rfl
  have kind : canonicalKind f.kind value = .ok value := by
    rw [text]
    exact canonicalKind_of_form canonical
  unfold TextField.canonical canonicalScalar at accepted ⊢
  rw [if_neg upload, if_neg some_text, kind, bind_ok] at accepted ⊢
  rcases bind_eq_ok.mp accepted with ⟨_, small, _⟩
  exact bind_eq_ok.mpr ⟨(), small, rfl⟩

/-! ## Conversions of integers -/

section Values

variable {before destination : TextField} {min max : Option Int}

/-- What a valid integer field holds. -/
theorem TextField.canonical_integer (integer : before.kind = .integer min max) {value : String}
    (canonical : before.canonical value = .ok value) :
    (before.optional = true ∧ value = "") ∨
      ∃ n : Int, value = toString n ∧ Decimal.parseI64 value = some n := by
  rcases (TextField.canonical_self_iff.mp canonical).2 with absent | ⟨form, _⟩
  · exact .inl absent
  · rw [integer] at form
    rcases form with ⟨n, low, high, _, _, printed⟩
    refine .inr ⟨n, printed, ?_⟩
    rw [printed]
    exact Decimal.parseI64_print low high

/-- Whether the text field can hold the value of an integer field. -/
def TextField.Holds (f : TextField) (value : String) : Prop :=
  (value = "" → f.optional = true) ∧ value.utf8ByteSize ≤ f.maxBytes

/-- Integers are never changed on their way to text. -/
theorem convertValue_integer (integer : before.kind = .integer min max) {value converted : String}
    (canonical : before.canonical value = .ok value)
    (moved : convertValue destination .integerToText value = .ok converted) :
    converted = value ∧ (value = "" → destination.optional = true) := by
  unfold convertValue at moved
  by_cases kept : value = "" ∧ destination.optional = true
  · rw [if_pos kept] at moved
    cases moved
    exact ⟨rfl, fun _ => kept.2⟩
  · rw [if_neg kept] at moved
    rcases Conversion.value_eq_ok.mp moved with ⟨m, parsed, rfl⟩
    rcases TextField.canonical_integer integer canonical with ⟨_, rfl⟩ | ⟨n, printed, parsed'⟩
    · cases parsed
    · rw [parsed'] at parsed
      cases parsed
      refine ⟨printed.symm, fun empty => ?_⟩
      rw [printed] at empty
      exact absurd empty (print_ne_empty _)

theorem TextField.canonical_holds (integer : before.kind = .integer min max)
    (text : destination.kind = .text) {value : String}
    (canonical : before.canonical value = .ok value)
    (empty : value = "" → destination.optional = true) :
    (∃ result, destination.canonical value = .ok result) ↔ destination.Holds value := by
  rcases TextField.canonical_integer integer canonical with ⟨_, rfl⟩ | ⟨n, rfl, _⟩
  · have accepted : destination.canonical "" = .ok "" := by
      refine TextField.canonical_self_iff.mpr ⟨by rw [text]; rfl, .inl ⟨empty rfl, rfl⟩⟩
    exact ⟨fun _ => ⟨empty, Nat.zero_le _⟩, fun _ => ⟨"", accepted⟩⟩
  · rw [TextField.canonical_text text (canonicalText_print n), TextField.canonical_self_iff]
    constructor
    · rintro ⟨_, ⟨_, absent⟩ | ⟨_, small⟩⟩
      · exact absurd absent (print_ne_empty _)
      · exact ⟨empty, small⟩
    · rintro ⟨_, small⟩
      refine ⟨by rw [text]; rfl, .inr ⟨?_, small⟩⟩
      rw [text]
      exact canonicalText_print n

/-- An integer record becomes a text record exactly when the text field can hold its value, and
then it is the same record. -/
theorem transformRow_integer {name : String} (integer : before.kind = .integer min max)
    (text : destination.kind = .text) {row next : StoredRow} {value : String}
    (bounded : row.fields.jsonBytes ≤ maxStoredBytes)
    (found : row.fields.lookup name = some value) (canonical : before.canonical value = .ok value) :
    transformRow (convertFields destination name .integerToText) row = .ok next ↔
      destination.Holds value ∧ next = row := by
  rw [transformRow_eq_ok]
  constructor
  · rintro ⟨_, fields, converted, _, rfl⟩
    rcases convertFields_eq_ok.mp converted with ⟨value', found', moved, same, accepted, rfl⟩
    have equal : value' = value := Option.some.inj (found'.symm.trans found)
    subst equal
    rcases convertValue_integer integer canonical same with ⟨rfl, empty⟩
    refine ⟨(TextField.canonical_holds integer text canonical empty).mp accepted, ?_⟩
    rw [Fields.insert_self found]
  · rintro ⟨holds, rfl⟩
    refine ⟨bounded, next.fields, convertFields_eq_ok.mpr ⟨value, found, value, ?_, ?_, ?_⟩, bounded, rfl⟩
    · unfold convertValue
      by_cases kept : value = "" ∧ destination.optional = true
      · rw [if_pos kept]
      · rw [if_neg kept]
        rcases TextField.canonical_integer integer canonical with ⟨_, rfl⟩ | ⟨n, printed, parsed⟩
        · exact absurd ⟨rfl, holds.1 rfl⟩ kept
        · exact Conversion.value_eq_ok.mpr ⟨n, parsed, printed⟩
    · exact (TextField.canonical_holds integer text canonical holds.1).mpr holds
    · exact (Fields.insert_self found).symm

end Values

/-! ## There and back -/

/-- What conversions keep, of any records of a resource. -/
structure Lossless (source target : Resource) (name : String) (records : RecordSet) : Prop where
  /-- An integer field that becomes text keeps every record, and can always become the same
  integer field again, with every record kept. -/
  integer : ∀ rows, convertMigration source target name .integerToText records.rows = .ok rows →
    rows = records.rows ∧ convertMigration target source name .textToInteger rows = .ok records.rows
  /-- An integer field becomes text exactly when the text field can hold every value: no value is
  too long for it, and none is absent unless it is optional. -/
  accepted : ∀ destination, convertTransition source target name .integerToText = .ok destination →
    (∀ row ∈ records.rows, validateRow source row = .ok ()) →
    ((∃ rows, convertMigration source target name .integerToText records.rows = .ok rows) ↔
      ∀ row ∈ records.rows, ∀ value ∈ row.fields.lookup name, destination.Holds value)
  /-- A text field that becomes an integer field and the same text field again keeps every
  absence, every integer in its canonical form, and everything else of every record. -/
  text : ∀ middle rows, convertMigration source target name .textToInteger records.rows = .ok middle →
    convertMigration target source name .integerToText middle = .ok rows →
    List.Forall₂ (fun row next =>
      next = { row with fields := next.fields } ∧
      (∀ other ≠ name, next.fields.lookup other = row.fields.lookup other) ∧
      ∀ value ∈ row.fields.lookup name, (value = "" ∨ ∃ n : Int, value = toString n) → next = row)
      records.rows rows

section Lossless

variable {source target : Resource} {name : String} {records : RecordSet}

/-- The value of the converted field in a valid record. -/
theorem validateRow_value {r : Resource} {row : StoredRow} {f : TextField}
    (valid : validateRow r row = .ok ()) (found : r.field? name = some f) :
    row.fields.jsonBytes ≤ maxStoredBytes ∧
      ∃ value, row.fields.lookup name = some value ∧ f.canonical value = .ok value := by
  have fields := validateFields_iff.mp (validateRow_fields valid)
  rcases bind_eq_ok.mp valid with ⟨_, readable, _⟩
  rcases bind_eq_ok.mp readable with ⟨_, bounded, _⟩
  rcases Resource.field?_mem found with ⟨member, named⟩
  rcases fields.2 f member with ⟨value, here, canonical⟩
  rw [named] at here
  exact ⟨ensure_eq_ok.mp bounded, value, here, canonical⟩

theorem Conversion.fits_integerToText {before destination : FieldKind}
    (fits : Conversion.Fits .integerToText before destination = true) :
    (∃ min max, before = .integer min max) ∧ destination = .text := by
  cases before <;> cases destination <;> simp [Conversion.Fits] at fits ⊢

theorem Conversion.fits_textToInteger {before destination : FieldKind}
    (fits : Conversion.Fits .textToInteger before destination = true) :
    before = .text ∧ ∃ min max, destination = .integer min max := by
  cases before <;> cases destination <;> simp [Conversion.Fits] at fits ⊢

/-- Values that hold in a text field are canonical there. -/
theorem TextField.holds_canonical {before destination : TextField} {min max : Option Int}
    (integer : before.kind = .integer min max) (text : destination.kind = .text) {value : String}
    (canonical : before.canonical value = .ok value) (holds : destination.Holds value) :
    destination.canonical value = .ok value := by
  have accepted := (TextField.canonical_holds integer text canonical holds.1).mpr holds
  rcases TextField.canonical_integer integer canonical with ⟨_, rfl⟩ | ⟨n, rfl, _⟩
  · exact TextField.canonical_self_iff.mpr ⟨by rw [text]; rfl, .inl ⟨holds.1 rfl, rfl⟩⟩
  · exact (TextField.canonical_text text (canonicalText_print n)).mp accepted

/-- A text field turned integer keeps what is already canonical there. -/
theorem transformRow_canonical {destination : TextField} {min max : Option Int}
    (integer : destination.kind = .integer min max) {row : StoredRow} {value : String}
    (bounded : row.fields.jsonBytes ≤ maxStoredBytes)
    (found : row.fields.lookup name = some value)
    (canonical : destination.canonical value = .ok value) :
    transformRow (convertFields destination name .textToInteger) row = .ok row := by
  refine transformRow_eq_ok.mpr ⟨bounded, row.fields, convertFields_eq_ok.mpr
    ⟨value, found, value, ?_, ⟨value, canonical⟩, (Fields.insert_self found).symm⟩, bounded, rfl⟩
  unfold convertValue
  by_cases kept : value = "" ∧ destination.optional = true
  · rw [if_pos kept]
  · rw [if_neg kept]
    rcases TextField.canonical_integer integer canonical with absent | ⟨n, printed, parsed⟩
    · exact absurd absent.symm kept
    · exact Conversion.value_eq_ok.mpr ⟨n, parsed, printed⟩

theorem forall₂_self {α : Type} {R : α → α → Prop} {rows : List α} (all : ∀ row ∈ rows, R row row) :
    List.Forall₂ R rows rows := by
  induction rows with
  | nil => exact .nil
  | cons row rows ih =>
      exact .cons (all row List.mem_cons_self) (ih fun other member => all other (List.mem_cons_of_mem row member))

theorem forall₂_eq {α : Type} {R : α → α → Prop} {rows next : List α} (related : List.Forall₂ R rows next)
    (same : ∀ row ∈ rows, ∀ other, R row other → other = row) : next = rows := by
  induction related with
  | nil => rfl
  | cons here _ ih =>
      rw [same _ List.mem_cons_self _ here, ih fun row member => same row (List.mem_cons_of_mem _ member)]

/-- An integer field that became text. -/
theorem lossless_integer {rows : List StoredRow}
    (moved : convertMigration source target name .integerToText records.rows = .ok rows) :
    rows = records.rows ∧ convertMigration target source name .textToInteger rows = .ok records.rows := by
  rcases convertMigration_eq_ok.mp moved with ⟨destination, transition, valid, related, _, checked⟩
  rcases convertTransition_converts transition with ⟨before, converts, fits⟩
  rcases Conversion.fits_integerToText fits with ⟨⟨min, max, integer⟩, text⟩
  have same : rows = records.rows := by
    refine forall₂_eq related fun row member other here => ?_
    rcases validateRow_value (valid row member) converts.found with ⟨bounded, value, found, canonical⟩
    exact ((transformRow_integer integer text bounded found canonical).mp here).2
  subst same
  refine ⟨rfl, convertMigration_eq_ok.mpr ⟨before, ?_, checked, ?_, ⟨records, rfl⟩, valid⟩⟩
  · refine converts.back.transition ?_
    rw [text, integer]
    rfl
  · refine forall₂_self fun row member => ?_
    rcases validateRow_value (valid row member) converts.found with ⟨bounded, value, found, canonical⟩
    exact transformRow_canonical integer bounded found canonical

theorem lossless_accepted {destination : TextField}
    (transition : convertTransition source target name .integerToText = .ok destination)
    (valid : ∀ row ∈ records.rows, validateRow source row = .ok ()) :
    (∃ rows, convertMigration source target name .integerToText records.rows = .ok rows) ↔
      ∀ row ∈ records.rows, ∀ value ∈ row.fields.lookup name, destination.Holds value := by
  rcases convertTransition_converts transition with ⟨before, converts, fits⟩
  rcases Conversion.fits_integerToText fits with ⟨⟨min, max, integer⟩, text⟩
  have plain : before.kind.isReference = false ∧ before.kind.isAccount = false := by
    rw [integer]
    exact ⟨rfl, rfl⟩
  constructor
  · rintro ⟨rows, moved⟩ row member value found
    rcases convertMigration_eq_ok.mp moved with ⟨destination', transition', _, related, _⟩
    rw [transition] at transition'
    cases transition'
    rcases forall₂_mem_left related member with ⟨next, _, here⟩
    rcases validateRow_value (valid row member) converts.found with ⟨bounded, value', found', canonical⟩
    have same : value' = value := Option.some.inj (found'.symm.trans found)
    subst same
    exact ((transformRow_integer integer text bounded found' canonical).mp here).1
  · intro holds
    refine ⟨records.rows, convertMigration_eq_ok.mpr
      ⟨destination, transition, valid, ?_, ⟨records, rfl⟩, fun row member => ?_⟩⟩
    · refine forall₂_self fun row member => ?_
      rcases validateRow_value (valid row member) converts.found with ⟨bounded, value, found, canonical⟩
      exact (transformRow_integer integer text bounded found canonical).mpr
        ⟨holds row member value found, rfl⟩
    · rcases validateRow_value (valid row member) converts.found with ⟨_, value, found, canonical⟩
      exact converts.validateRow plain found
        (TextField.holds_canonical integer text canonical (holds row member value found)) (valid row member)

theorem forall₂_comp {α : Type} {R S T : α → α → Prop} {first middle last : List α}
    (one : List.Forall₂ R first middle) (two : List.Forall₂ S middle last)
    (both : ∀ a b c, R a b → S b c → T a c) : List.Forall₂ T first last := by
  induction one generalizing last with
  | nil =>
      cases two
      exact .nil
  | cons here _ ih =>
      cases two with
      | cons there rest => exact .cons (both _ _ _ here there) (ih rest)

/-- An absence, or an integer in its canonical form, converts to itself. -/
theorem convertValue_canonical {destination : TextField} {conversion : Conversion}
    {value converted : String} (moved : convertValue destination conversion value = .ok converted)
    (canonical : value = "" ∨ ∃ n : Int, value = toString n) : converted = value := by
  unfold convertValue at moved
  split at moved
  · cases moved
    rfl
  · rcases Conversion.value_eq_ok.mp moved with ⟨m, parsed, rfl⟩
    rcases canonical with rfl | ⟨n, rfl⟩
    · cases parsed
    · rcases Option.filter_eq_some_iff.mp parsed with ⟨whole, _⟩
      rw [Decimal.parseInt_print] at whole
      rw [Option.some.inj whole]

/-- One record on its way there and back. -/
theorem transformRow_back {before destination : TextField} {row middle next : StoredRow}
    (there : transformRow (convertFields destination name .textToInteger) row = .ok middle)
    (back : transformRow (convertFields before name .integerToText) middle = .ok next) :
    next = { row with fields := next.fields } ∧
      (∀ other ≠ name, next.fields.lookup other = row.fields.lookup other) ∧
      ∀ value ∈ row.fields.lookup name, (value = "" ∨ ∃ n : Int, value = toString n) → next = row := by
  rcases transformRow_eq_ok.mp there with ⟨_, fields, converted, _, rfl⟩
  rcases transformRow_eq_ok.mp back with ⟨_, fields', converted', _, rfl⟩
  rcases convertFields_eq_ok.mp converted with ⟨value, found, integer, moved, _, rfl⟩
  rcases convertFields_eq_ok.mp converted' with ⟨value', found', text, moved', _, rfl⟩
  simp only [Finmap.lookup_insert, Option.some.injEq] at found'
  subst found'
  refine ⟨rfl, fun other different => ?_, fun old here canonical => ?_⟩
  · simp only [Finmap.lookup_insert_of_ne _ different]
  · have same : old = value := Option.some.inj (here.symm.trans found)
    subst same
    have first := convertValue_canonical moved canonical
    subst first
    have second := convertValue_canonical moved' canonical
    subst second
    simp only [Fields.insert_self found]

theorem lossless_text {middle rows : List StoredRow}
    (there : convertMigration source target name .textToInteger records.rows = .ok middle)
    (back : convertMigration target source name .integerToText middle = .ok rows) :
    List.Forall₂ (fun row next =>
      next = { row with fields := next.fields } ∧
      (∀ other ≠ name, next.fields.lookup other = row.fields.lookup other) ∧
      ∀ value ∈ row.fields.lookup name, (value = "" ∨ ∃ n : Int, value = toString n) → next = row)
      records.rows rows := by
  rcases convertMigration_eq_ok.mp there with ⟨destination, _, _, related, ⟨after, rfl⟩, _⟩
  rcases convertMigration_eq_ok.mp back with ⟨before, _, _, related', _, _⟩
  exact forall₂_comp related related' fun _ _ _ one two => transformRow_back one two

end Lossless

/-- Conversions of integers to text and back keep every record, and text that is a canonical
integer survives the way to an integer field and back. -/
theorem conversion_lossless (source target : Resource) (name : String) (records : RecordSet) :
    Lossless source target name records where
  integer := fun _ => lossless_integer
  accepted := fun _ => lossless_accepted
  text := fun _ _ => lossless_text

/-! ## Values that do not survive -/

section Samples

/-- A field of a sample resource. -/
def sampleField (kind : FieldKind) (maxBytes : Nat) : TextField where
  immutable := false
  kind := kind
  optional := false
  initial := none
  name := "body"
  label := "body"
  maxBytes := maxBytes

def sampleResource (field : TextField) : Resource where
  search := none
  expiry := none
  unique := []
  gate := none
  id := 0
  name := "notes"
  fields := [field]

def sampleRow (body : String) : StoredRow where
  resource := 1
  id := 1
  owner := none
  tenant := ""
  fields := Finmap.singleton "body" body
  incarnation := "record"
  revision := 1
  capVersion := none
  createdSeq := 1

end Samples

/-- A text with leading zeros comes back without them; an integer is refused by a text field that
is too short for it. -/
theorem conversion_not_lossless :
    convertMigration (sampleResource (sampleField .text 64))
        (sampleResource (sampleField (.integer none none) 20)) "body" .textToInteger [sampleRow "007"] =
      .ok [sampleRow "7"] ∧
    convertMigration (sampleResource (sampleField (.integer none none) 20))
        (sampleResource (sampleField .text 64)) "body" .integerToText [sampleRow "7"] =
      .ok [sampleRow "7"] ∧
    sampleRow "7" ≠ sampleRow "007" ∧
    convertMigration (sampleResource (sampleField (.integer none none) 20))
        (sampleResource (sampleField .text 1)) "body" .integerToText [sampleRow "42"] =
      .error (.message "Use at most 1 UTF-8 bytes.") := by
  decide

end Noxide
